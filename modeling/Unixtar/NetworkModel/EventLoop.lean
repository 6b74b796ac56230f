import Unixtar.Lib.Simulation
import Unixtar.Lib.Variant
import Unixtar.NetworkModel.Deletions

/-!
# The loop of a network thread: `ServerBase::NetThreadBase::Run` and `socket/socketepoll.cc`

`Run` waits in `epoll_wait`, goes through the events it returns, then through
the notifications among them, and clears timed out connections every ten
seconds.  What the derived classes override is a parameter, `NetThreadImpl`,
so the loop stands here once for the web server and the reverse proxy.  Other
threads act between any two steps of the loop.

A reported event carries the pointer that `AddConnection` has registered, and
an event that is looked at late is looked at through this pointer.

The notifier is a descriptor that is always writable: `NotifyEpoll` arms it
again with other data, and the next `epoll_wait` reports these data once.
Before the first `NotifyEpoll` it is reported with its own descriptor as data
and with no flag that the loop asks for.

## Main results

* `called_step` — what one step of the loop calls.
* `batchLive_trace` — no event of a batch points to a deleted connection.
* `ended_iff_retries` — which failing waits end the thread.
* `wakes_trace` — a thread that is told to stop does not sleep over it.
* `simulates_of_called` — a run of the loop is a run of the server below it.
-/

namespace Unixtar

open Unixtar.Lib NetState

/-! ## Events -/

/-- `notification_send_` and `notification_stop_`. -/
inductive Notification
  | send
  | stop
deriving DecidableEq

/-- The data of an event. -/
inductive EpollData
  /-- the address of a connection -/
  | connection (id : ConnId)
  /-- the id of a notification -/
  | notification (n : Notification)
  /-- the notifier's descriptor -/
  | descriptor
deriving DecidableEq

/-- The connection an event is about. -/
def EpollData.conn? : EpollData → Option ConnId
  | connection id => some id
  | _ => none

/-- `epoll_event`, with the three flags that the loop asks for. -/
structure EpollEvent where
  data : EpollData
  err : Bool
  input : Bool
  output : Bool
deriving DecidableEq

/-- The result of one `::epoll_wait`. -/
inductive WaitOutcome
  | eintr
  | error (errno : Nat)
  | events (evs : List EpollEvent)

def WaitOutcome.isEvents : WaitOutcome → Bool
  | events _ => true
  | _ => false

namespace SocketEpoll

/-- `kMaxFds`. -/
def kMaxFds : Nat := 1024

/-- `EINTR`. -/
def EINTR : Nat := 4

/-- The loop of `EpollWait` before `--retry`: the events, or `none` for a
negative result, and `errno_`. -/
def epollWaitLoop (errno : Nat) :
    Nat → List WaitOutcome → Option (Option (List EpollEvent) × Nat)
  | retry + 2, .eintr :: outs => epollWaitLoop errno (retry + 1) outs
  | _ + 2, [.error e] => if e = EINTR then none else some (none, e)
  | _ + 2, [.events evs] => some (some evs, errno)
  | 1, [] => some (none, errno)
  | _, _ => none

/-- `EpollWait`. -/
def epollWait (errno : Nat) (outs : List WaitOutcome) :
    Option (Option (List EpollEvent) × Nat) :=
  epollWaitLoop errno 10 outs

theorem epollWaitLoop_none {errno errno' retry : Nat} {outs : List WaitOutcome}
    (h : epollWaitLoop errno retry outs = some (none, errno')) :
    outs.getLast?.any WaitOutcome.isEvents = false ∧
      (errno' = errno ∨ errno' ≠ EINTR) := by
  fun_induction epollWaitLoop errno retry outs with
  | case1 retry outs ih =>
      obtain ⟨hlast, herrno⟩ := ih h
      refine ⟨?_, herrno⟩
      cases outs with
      | nil => rfl
      | cons o outs => simpa using hlast
  | case2 retry => cases h
  | case3 retry e he =>
      cases h
      exact ⟨rfl, Or.inr he⟩
  | case4 => cases h
  | case5 =>
      cases h
      exact ⟨rfl, Or.inl rfl⟩
  | case6 => cases h

theorem epollWaitLoop_some {errno errno' retry : Nat} {outs : List WaitOutcome}
    {evs : List EpollEvent}
    (h : epollWaitLoop errno retry outs = some (some evs, errno')) :
    outs.getLast? = some (.events evs) ∧ errno' = errno := by
  fun_induction epollWaitLoop errno retry outs with
  | case1 retry outs ih =>
      obtain ⟨hlast, herrno⟩ := ih h
      refine ⟨?_, herrno⟩
      cases outs with
      | nil => cases hlast
      | cons o outs => simpa using hlast
  | case2 => cases h
  | case3 => cases h
  | case4 =>
      cases h
      exact ⟨rfl, rfl⟩
  | case5 => cases h
  | case6 => cases h

/-- What `::epoll_wait` may return: events of connections that are open, the
notifier's if it is armed, each descriptor once; and if there was room, the
armed notifier is among them. -/
structure Reports (net : NetState) (armed : Option EpollData) (evs : List EpollEvent) :
    Prop where
  size : evs.length ≤ kMaxFds
  live : ∀ ev ∈ evs, ∀ id ∈ ev.data.conn?, net.isLive id = true
  notifier : ∀ ev ∈ evs, ev.data.conn? = none → armed = some ev.data
  nodup : (evs.map (·.data)).Nodup
  complete : evs.length < kMaxFds → ∀ d ∈ armed, d ∈ evs.map (·.data)

instance (net : NetState) (armed : Option EpollData) (evs : List EpollEvent) :
    Decidable (Reports net armed evs) :=
  decidable_of_iff
    (evs.length ≤ kMaxFds ∧ (∀ ev ∈ evs, ∀ id ∈ ev.data.conn?, net.isLive id = true) ∧
      (∀ ev ∈ evs, ev.data.conn? = none → armed = some ev.data) ∧
      (evs.map (·.data)).Nodup ∧
      (evs.length < kMaxFds → ∀ d ∈ armed, d ∈ evs.map (·.data)))
    ⟨fun ⟨h, h', h'', h₁, h₂⟩ => ⟨h, h', h'', h₁, h₂⟩,
      fun h => ⟨h.size, h.live, h.notifier, h.nodup, h.complete⟩⟩

/-- The notifier behind a wait that has reported these events: a report
disarms it. -/
def behindReport (evs : List EpollEvent) (armed : Option EpollData) : Option EpollData :=
  if ∃ d ∈ armed, d ∈ evs.map (·.data) then none else armed

end SocketEpoll

/-! ## The loop -/

/-- How `__OnReadEvent` ends. -/
inductive ReadReturn
  | kept
  | deleted
  /-- a `std::exception` leaves it, and `Run` with it -/
  | threw
deriving DecidableEq

/-- A call that returns. -/
def ReadReturn.ofResult (deleted : Bool) : ReadReturn := if deleted then .deleted else .kept

@[simp] theorem ReadReturn.ofResult_ne_threw (deleted : Bool) : ofResult deleted ≠ .threw := by
  cases deleted <;> simp [ofResult]

@[simp] theorem ReadReturn.ofResult_eq_deleted (deleted : Bool) :
    ofResult deleted = .deleted ↔ deleted = true := by
  cases deleted <;> simp [ofResult]

/-- What `Run` calls, over the state `τ` of a thread and of what it shares
with other threads.  `κ` is what the environment decides when a connection is
read, and `ε` are the actions of other threads, some of which notify. -/
structure NetThreadImpl (τ κ ε : Type) where
  net : τ → NetState
  onErrEvent : ConnId → τ → Option τ
  onReadEvent : ConnId → κ → τ → Option (τ × ReadReturn)
  onWriteEvent : ConnId → List WriteOutcome → τ → Option τ
  checkNotification : Notification → Bool
  /-- one round of `HandleNotification`, and whether another one follows -/
  handleNotification : Notification → WriteOutcome → τ → Option (τ × Bool)
  clearTimeout : τ → Option τ
  /-- another thread, and the notification it sends -/
  other : ε → τ → Option (τ × Option Notification)

/-- Where `Run` stands. -/
inductive Phase
  /-- before `while (running_)` -/
  | testing
  /-- in `EpollWait` -/
  | waiting
  /-- in the loop over the events, with those still to do -/
  | events (todo : List EpollEvent) (notifications : List Notification)
  /-- in the loop over the notifications -/
  | notified (notifications : List Notification)
  /-- `Run` has returned, or an exception has left it -/
  | ended
deriving DecidableEq

/-- A network thread in its loop.  `stopping` says that `NotifyStop` has
cleared `running_` and is going to notify.  Behind `Run`, `Entry` clears
`running_` once more; nobody looks at it then, and `running` keeps its last
value in the loop. -/
structure NetLoop (τ : Type) where
  thread : τ
  phase : Phase
  running : Bool
  epollRetry : Nat
  lastClearTs : Nat
  errno : Nat
  armed : Option EpollData
  stopping : Bool

inductive LoopEvent (κ ε : Type)
  /-- `while (running_)` -/
  | test
  /-- `EpollWait` returns -/
  | epollWait (outs : List WaitOutcome)
  /-- the next thing to do about the first event -/
  | process (read : κ) (ws : List WriteOutcome)
  /-- the next round for the first notification -/
  | handle (w : WriteOutcome)
  /-- the end of the body of the loop -/
  | endRound
  /-- another thread -/
  | other (e : ε)
  /-- `running_ = false` in `NotifyStop` -/
  | stop
  /-- `NotifyEpoll(notification_stop_)` -/
  | notifyStop

namespace NetLoop

variable {τ κ ε : Type}

/-- `clear_timeout_period`. -/
def clearTimeoutPeriod : Nat := 10 * 1000

/-- A thread that is launched, behind `running_ = true` in `Entry`: a
`NotifyStop` that comes before is overwritten by it, and is no run of the
loop. -/
def launch (thread : τ) : NetLoop τ :=
  { thread, phase := .testing, running := true, epollRetry := 3, lastClearTs := 0, errno := 0,
    armed := some .descriptor, stopping := false }

/-- `EpollWait` has returned. -/
def onWait (net : NetState) (outs : List WaitOutcome) (l : NetLoop τ) : Option (NetLoop τ) :=
  match SocketEpoll.epollWait l.errno outs with
  | none => none
  | some (none, errno) =>
      if errno = SocketEpoll.EINTR then some { l with errno, phase := .testing }
      else if l.epollRetry - 1 > 0 then
        some { l with errno, epollRetry := l.epollRetry - 1, phase := .testing }
      else some { l with errno, epollRetry := l.epollRetry - 1, phase := .ended }
  | some (some evs, errno) =>
      if SocketEpoll.Reports net l.armed evs then
        some { l with errno, phase := .events evs [],
                      armed := SocketEpoll.behindReport evs l.armed }
      else none

variable (impl : NetThreadImpl τ κ ε)

/-- Behind `__OnReadEvent`.  A connection that has been read and is still there
is written next; an exception goes through `Run` to `Entry`, which clears
`running_`. -/
def behindRead (ev : EpollEvent) (todo : List EpollEvent) (notifications : List Notification)
    (thread : τ) (ret : ReadReturn) (l : NetLoop τ) : NetLoop τ :=
  match ret with
  | .kept =>
      { l with thread, phase := .events ({ ev with input := false } :: todo) notifications }
  | .deleted => { l with thread, phase := .events todo notifications }
  | .threw => { l with thread, running := false, phase := .ended }

theorem behindRead_ofResult (ev : EpollEvent) (todo : List EpollEvent)
    (notifications : List Notification) (thread : τ) (deleted : Bool) (l : NetLoop τ) :
    l.behindRead ev todo notifications thread (.ofResult deleted) =
      { l with
        thread
        phase := .events (if deleted then todo else { ev with input := false } :: todo)
          notifications } := by
  cases deleted <;> rfl

/-- The loop over the events: what is done about the first one, `ev`, in front
of `todo`.  A notification that nobody checks would be taken for a
connection. -/
def onEvent (read : κ) (ws : List WriteOutcome) (ev : EpollEvent) (todo : List EpollEvent)
    (notifications : List Notification) (l : NetLoop τ) : Option (NetLoop τ) :=
  match ev.data with
  | .notification n =>
      if n = .stop then some { l with running := false, phase := .ended }
      else if impl.checkNotification n then
        some { l with phase := .events todo (notifications ++ [n]) }
      else none
  | .descriptor => some { l with phase := .events todo notifications }
  | .connection id =>
      if ev.err then
        (impl.onErrEvent id l.thread).map fun thread =>
          { l with thread, phase := .events todo notifications }
      else if ev.input then
        (impl.onReadEvent id read l.thread).map fun (thread, ret) =>
          l.behindRead ev todo notifications thread ret
      else if ev.output then
        (impl.onWriteEvent id ws l.thread).map fun thread =>
          { l with thread, phase := .events todo notifications }
      else some { l with phase := .events todo notifications }

/-- The loop over the notifications. -/
def onNotification (n : Notification) (rest : List Notification) (w : WriteOutcome)
    (l : NetLoop τ) : Option (NetLoop τ) :=
  (impl.handleNotification n w l.thread).map fun (thread, more) =>
    { l with thread, phase := .notified (if more then n :: rest else rest) }

/-- The end of the body. -/
def endRound (l : NetLoop τ) : Option (NetLoop τ) :=
  let now := (impl.net l.thread).now
  if now - l.lastClearTs > clearTimeoutPeriod then
    (impl.clearTimeout l.thread).map fun thread =>
      { l with thread, lastClearTs := now, phase := .testing }
  else some { l with phase := .testing }

/-- `NotifyEpoll`, if a thread notifies. -/
def notifyEpoll (notification : Option Notification) (l : NetLoop τ) : NetLoop τ :=
  match notification with
  | some n => { l with armed := some (.notification n) }
  | none => l

@[simp] theorem notifyEpoll_thread (notification : Option Notification) (l : NetLoop τ) :
    (notifyEpoll notification l).thread = l.thread := by
  cases notification <;> rfl

@[simp] theorem notifyEpoll_phase (notification : Option Notification) (l : NetLoop τ) :
    (notifyEpoll notification l).phase = l.phase := by
  cases notification <;> rfl

/-- One event. -/
def step (l : NetLoop τ) : LoopEvent κ ε → Option (NetLoop τ)
  | .test =>
      match l.phase with
      | .testing => some { l with phase := if l.running then .waiting else .ended }
      | _ => none
  | .epollWait outs =>
      match l.phase with
      | .waiting => l.onWait (impl.net l.thread) outs
      | _ => none
  | .process read ws =>
      match l.phase with
      | .events [] notifications => some { l with phase := .notified notifications }
      | .events (ev :: todo) notifications => l.onEvent impl read ws ev todo notifications
      | _ => none
  | .handle w =>
      match l.phase with
      | .notified (n :: rest) => l.onNotification impl n rest w
      | _ => none
  | .endRound =>
      match l.phase with
      | .notified [] => l.endRound impl
      | _ => none
  | .other e =>
      (impl.other e l.thread).map fun (thread, notification) =>
        notifyEpoll notification { l with thread }
  | .stop => some { l with running := false, stopping := true }
  | .notifyStop =>
      if l.stopping then some (notifyEpoll (some .stop) { l with stopping := false }) else none

/-! ## No event points to a deleted connection -/

/-- What `Run` relies on: an event deletes no connection but its own, and the
result of `__OnReadEvent` says whether it did.  `Inv` is kept by every call,
as long as the calls meet `ReadOk` and `OtherOk`. -/
structure Lawful (Inv : τ → Prop) (ReadOk : τ → κ → Prop) (OtherOk : τ → ε → Prop) : Prop where
  onErrEvent : ∀ {id t t'}, Inv t → impl.onErrEvent id t = some t' →
    Inv t' ∧ KeepsOthers id (impl.net t) (impl.net t')
  onReadEvent : ∀ {id read t t' ret}, Inv t → ReadOk t read →
    impl.onReadEvent id read t = some (t', ret) →
    Inv t' ∧ KeepsOthers id (impl.net t) (impl.net t') ∧
      (ret ≠ .threw → (ret = .deleted ↔ (impl.net t').isLive id = false))
  onWriteEvent : ∀ {id ws t t'}, Inv t → impl.onWriteEvent id ws t = some t' →
    Inv t' ∧ KeepsLive (impl.net t) (impl.net t')
  handleNotification : ∀ {n w t t' more}, Inv t →
    impl.handleNotification n w t = some (t', more) → Inv t'
  clearTimeout : ∀ {t t'}, Inv t → impl.clearTimeout t = some t' → Inv t'
  other : ∀ {e t t' n}, Inv t → OtherOk t e → impl.other e t = some (t', n) →
    Inv t' ∧ KeepsLive (impl.net t) (impl.net t')

/-- The calls that an event makes meet the two conditions. -/
def CallsOk (ReadOk : τ → κ → Prop) (OtherOk : τ → ε → Prop) (l : NetLoop τ) :
    LoopEvent κ ε → Prop
  | .process read _ => ReadOk l.thread read
  | .other e => OtherOk l.thread e
  | _ => True

/-- The connections that the rest of a batch is about are live, and there is
one event for each. -/
structure BatchLive (net : NetState) (todo : List EpollEvent) : Prop where
  live : ∀ ev ∈ todo, ∀ id ∈ ev.data.conn?, net.isLive id = true
  nodup : (todo.map (·.data)).Nodup

/-- The batch that a loop has before it. -/
def todo (l : NetLoop τ) : List EpollEvent :=
  match l.phase with
  | .events todo _ => todo
  | _ => []

namespace BatchLive

variable {s t : NetState} {ev : EpollEvent} {todo : List EpollEvent}

theorem nil (net : NetState) : BatchLive net [] :=
  ⟨fun _ hev => absurd hev List.not_mem_nil, List.nodup_nil⟩

theorem tail (h : BatchLive s (ev :: todo)) : BatchLive s todo :=
  ⟨fun e he => h.live e (List.mem_cons_of_mem ev he), (List.nodup_cons.1 h.nodup).2⟩

theorem keepsLive (h : BatchLive s todo) (hlive : KeepsLive s t) : BatchLive t todo :=
  ⟨fun e he id hid => hlive id (h.live e he id hid), h.nodup⟩

/-- The events behind `ev` are about other connections. -/
theorem keepsOthers {id : ConnId} (h : BatchLive s (ev :: todo)) (hev : ev.data = .connection id)
    (hothers : KeepsOthers id s t) : BatchLive t todo := by
  refine ⟨?_, h.tail.nodup⟩
  intro e he id' hid'
  apply hothers id' _ (h.tail.live e he id' hid')
  rintro rfl
  apply (List.nodup_cons.1 h.nodup).1
  refine List.mem_map.2 ⟨e, he, ?_⟩
  show e.data = ev.data
  rw [hev]
  cases hdata : e.data with
  | connection id => simpa [hdata, EpollData.conn?] using hid'
  | notification n => simp [hdata, EpollData.conn?] at hid'
  | descriptor => simp [hdata, EpollData.conn?] at hid'

/-- The first event changes, but not its connection. -/
theorem head {ev' : EpollEvent} {id : ConnId} (h : BatchLive s (ev :: todo))
    (hev : ev.data = .connection id) (hdata : ev'.data = ev.data)
    (hothers : KeepsOthers id s t) (hid : t.isLive id = true) : BatchLive t (ev' :: todo) := by
  refine ⟨?_, ?_⟩
  · intro e he id' hid'
    rcases List.mem_cons.1 he with rfl | he
    · rw [hdata, hev] at hid'
      cases hid'
      exact hid
    · exact (h.keepsOthers hev hothers).live e he id' hid'
  · rw [List.map_cons, hdata]
    exact h.nodup

end BatchLive

variable {impl} {Inv : τ → Prop} {ReadOk : τ → κ → Prop} {OtherOk : τ → ε → Prop}

/-- The end of a round clears timed out connections, or it does not. -/
theorem endRound_cases {l l' : NetLoop τ} (h : l.endRound impl = some l') :
    (∃ t, impl.clearTimeout l.thread = some t ∧
        l' = { l with
          thread := t, lastClearTs := (impl.net l.thread).now, phase := .testing }) ∨
      l' = { l with phase := .testing } := by
  unfold endRound at h
  dsimp only at h
  split_ifs at h
  · obtain ⟨t, ht, rfl⟩ := Option.map_eq_some_iff.1 h
    exact Or.inl ⟨t, ht, rfl⟩
  · cases h
    exact Or.inr rfl

/-- The steps that the network thread takes itself. -/
def own : LoopEvent κ ε → Bool
  | .test => true
  | .epollWait _ => true
  | .process _ _ => true
  | .handle _ => true
  | .endRound => true
  | _ => false

/-- What an event calls, and what this makes of the thread and of the time of
the last `ClearTimeout`. -/
inductive Called (impl : NetThreadImpl τ κ ε) (t : τ) (last : Nat) :
    LoopEvent κ ε → τ → Nat → Prop
  | nothing (e : LoopEvent κ ε) : Called impl t last e t last
  | errEvent (e : LoopEvent κ ε) (id : ConnId) (t' : τ) : own e = true →
      impl.onErrEvent id t = some t' → Called impl t last e t' last
  | readEvent (e : LoopEvent κ ε) (id : ConnId) (read : κ) (t' : τ) (ret : ReadReturn) :
      own e = true → impl.onReadEvent id read t = some (t', ret) →
      Called impl t last e t' last
  | writeEvent (e : LoopEvent κ ε) (id : ConnId) (ws : List WriteOutcome) (t' : τ) :
      own e = true → impl.onWriteEvent id ws t = some t' → Called impl t last e t' last
  | notification (e : LoopEvent κ ε) (n : Notification) (w : WriteOutcome) (t' : τ)
      (more : Bool) : own e = true → impl.handleNotification n w t = some (t', more) →
      Called impl t last e t' last
  | clearTimeout (e : LoopEvent κ ε) (t' : τ) : own e = true → impl.clearTimeout t = some t' →
      Called impl t last e t' (impl.net t).now
  | other (e : ε) (t' : τ) (n : Option Notification) : impl.other e t = some (t', n) →
      Called impl t last (.other e) t' last

theorem called_onEvent {l l' : NetLoop τ} {read : κ} {ws : List WriteOutcome} {ev : EpollEvent}
    {todo : List EpollEvent} {notifications : List Notification}
    (h : l.onEvent impl read ws ev todo notifications = some l') :
    Called impl l.thread l.lastClearTs (.process read ws) l'.thread l'.lastClearTs := by
  unfold onEvent at h
  split at h
  · split_ifs at h <;> cases h <;> exact .nothing _
  · cases h
    exact .nothing _
  · rename_i id hev
    split_ifs at h
    · obtain ⟨t, ht, rfl⟩ := Option.map_eq_some_iff.1 h
      exact .errEvent _ id t rfl ht
    · obtain ⟨⟨t, ret⟩, ht, rfl⟩ := Option.map_eq_some_iff.1 h
      cases ret <;> exact .readEvent _ id read t _ rfl ht
    · obtain ⟨t, ht, rfl⟩ := Option.map_eq_some_iff.1 h
      exact .writeEvent _ id ws t rfl ht
    · cases h
      exact .nothing _

/-- **One step**, taken apart. -/
theorem called_step {l l' : NetLoop τ} {e : LoopEvent κ ε} (h : step impl l e = some l') :
    Called impl l.thread l.lastClearTs e l'.thread l'.lastClearTs := by
  cases e with
  | test =>
      simp only [step] at h
      split at h <;> cases h
      exact .nothing _
  | epollWait outs =>
      simp only [step] at h
      split at h
      · unfold onWait at h
        split at h
        · cases h
        · split_ifs at h <;> cases h <;> exact .nothing _
        · split_ifs at h
          cases h
          exact .nothing _
      · cases h
  | process read ws =>
      simp only [step] at h
      split at h
      · cases h
        exact .nothing _
      · exact called_onEvent h
      · cases h
  | handle w =>
      simp only [step] at h
      split at h
      · rename_i n rest hphase
        obtain ⟨⟨t, more⟩, ht, rfl⟩ := Option.map_eq_some_iff.1 h
        exact .notification _ n w t more rfl ht
      · cases h
  | endRound =>
      simp only [step] at h
      split at h
      · rcases endRound_cases h with ⟨t, ht, rfl⟩ | rfl
        · exact .clearTimeout _ t rfl ht
        · exact .nothing _
      · cases h
  | other e =>
      obtain ⟨⟨t, n⟩, ht, rfl⟩ := Option.map_eq_some_iff.1 h
      cases n <;> exact .other e t _ ht
  | stop =>
      cases h
      exact .nothing _
  | notifyStop =>
      simp only [step] at h
      split_ifs at h
      cases h
      exact .nothing _

/-- An event of the batch. -/
theorem batchLive_onEvent (hlaw : Lawful impl Inv ReadOk OtherOk) {l l' : NetLoop τ} {read : κ}
    {ws : List WriteOutcome} {ev : EpollEvent} {todo : List EpollEvent}
    {notifications : List Notification} (hinv : Inv l.thread)
    (hbatch : BatchLive (impl.net l.thread) (ev :: todo)) (hread : ReadOk l.thread read)
    (h : l.onEvent impl read ws ev todo notifications = some l') :
    Inv l'.thread ∧ BatchLive (impl.net l'.thread) l'.todo := by
  unfold onEvent at h
  split at h
  · -- a notification
    split_ifs at h
    · cases h
      exact ⟨hinv, BatchLive.nil _⟩
    · cases h
      exact ⟨hinv, hbatch.tail⟩
  · cases h
    exact ⟨hinv, hbatch.tail⟩
  · rename_i id hev
    split_ifs at h
    · obtain ⟨t, ht, rfl⟩ := Option.map_eq_some_iff.1 h
      obtain ⟨hinv', hothers⟩ := hlaw.onErrEvent hinv ht
      exact ⟨hinv', hbatch.keepsOthers hev hothers⟩
    · obtain ⟨⟨t, ret⟩, ht, rfl⟩ := Option.map_eq_some_iff.1 h
      obtain ⟨hinv', hothers, hdeleted⟩ := hlaw.onReadEvent hinv hread ht
      cases ret with
      | deleted => exact ⟨hinv', hbatch.keepsOthers hev hothers⟩
      | threw => exact ⟨hinv', BatchLive.nil _⟩
      | kept =>
          have hid : (impl.net t).isLive id = true := by
            rw [← Bool.not_eq_false, ← hdeleted (by simp)]
            simp
          exact ⟨hinv', hbatch.head hev rfl hothers hid⟩
    · obtain ⟨t, ht, rfl⟩ := Option.map_eq_some_iff.1 h
      obtain ⟨hinv', hlive⟩ := hlaw.onWriteEvent hinv ht
      exact ⟨hinv', hbatch.tail.keepsLive hlive⟩
    · cases h
      exact ⟨hinv, hbatch.tail⟩

/-- `EpollWait` returns with connections that are open. -/
theorem batchLive_onWait {l l' : NetLoop τ} {net : NetState} {outs : List WaitOutcome}
    (h : l.onWait net outs = some l') : l'.thread = l.thread ∧ BatchLive net l'.todo := by
  unfold onWait at h
  split at h
  · cases h
  · split_ifs at h <;> cases h <;> exact ⟨rfl, BatchLive.nil _⟩
  · split_ifs at h with hreports
    cases h
    exact ⟨rfl, hreports.live, hreports.nodup⟩

/-- `EpollWait` returns with these events, and if there was room, the armed
notifier's is among them. -/
theorem onWait_events {l l' : NetLoop τ} {net : NetState} {outs : List WaitOutcome}
    {evs : List EpollEvent} (h : l.onWait net outs = some l')
    (hlast : outs.getLast? = some (.events evs)) :
    l'.phase = .events evs [] ∧
      (evs.length < SocketEpoll.kMaxFds → ∀ d ∈ l.armed, d ∈ evs.map (·.data)) := by
  unfold onWait at h
  split at h
  · cases h
  · rename_i errno hresult
    have hnone := (SocketEpoll.epollWaitLoop_none hresult).1
    rw [hlast] at hnone
    cases hnone
  · rename_i evs' errno hresult
    obtain ⟨hlast', -⟩ := SocketEpoll.epollWaitLoop_some hresult
    rw [hlast] at hlast'
    cases hlast'
    split_ifs at h with hreports
    cases h
    exact ⟨rfl, hreports.complete⟩

theorem batchLive_step (hlaw : Lawful impl Inv ReadOk OtherOk) {l l' : NetLoop τ}
    {e : LoopEvent κ ε} (h : Inv l.thread ∧ BatchLive (impl.net l.thread) l.todo)
    (hok : CallsOk ReadOk OtherOk l e) (hstep : step impl l e = some l') :
    Inv l'.thread ∧ BatchLive (impl.net l'.thread) l'.todo := by
  obtain ⟨hinv, hbatch⟩ := h
  cases e with
  | test =>
      simp only [step] at hstep
      split at hstep
      · cases hstep
        refine ⟨hinv, ?_⟩
        show BatchLive (impl.net l.thread) (match if l.running then Phase.waiting else .ended with
          | .events todo _ => todo
          | _ => [])
        cases l.running <;> exact BatchLive.nil _
      · cases hstep
  | epollWait outs =>
      simp only [step] at hstep
      split at hstep
      · obtain ⟨hthread, hbatch'⟩ := batchLive_onWait hstep
        rw [hthread]
        exact ⟨hinv, hbatch'⟩
      · cases hstep
  | process read ws =>
      simp only [step] at hstep
      split at hstep
      · cases hstep
        exact ⟨hinv, BatchLive.nil _⟩
      · rename_i ev todo notifications hphase
        rw [NetLoop.todo, hphase] at hbatch
        exact batchLive_onEvent hlaw hinv hbatch hok hstep
      · cases hstep
  | handle w =>
      simp only [step] at hstep
      split at hstep
      · obtain ⟨⟨t, more⟩, ht, rfl⟩ := Option.map_eq_some_iff.1 hstep
        exact ⟨hlaw.handleNotification hinv ht, BatchLive.nil _⟩
      · cases hstep
  | endRound =>
      simp only [step] at hstep
      split at hstep
      · rcases endRound_cases hstep with ⟨t, ht, rfl⟩ | rfl
        · exact ⟨hlaw.clearTimeout hinv ht, BatchLive.nil _⟩
        · exact ⟨hinv, BatchLive.nil _⟩
      · cases hstep
  | other e =>
      obtain ⟨⟨t, n⟩, ht, rfl⟩ := Option.map_eq_some_iff.1 hstep
      obtain ⟨hinv', hlive⟩ := hlaw.other hinv hok ht
      have hbatch' : BatchLive (impl.net t) l.todo := hbatch.keepsLive hlive
      cases n <;> exact ⟨hinv', hbatch'⟩
  | stop =>
      cases hstep
      exact ⟨hinv, hbatch⟩
  | notifyStop =>
      simp only [step] at hstep
      split_ifs at hstep
      cases hstep
      exact ⟨hinv, hbatch⟩

/-- **No event of a batch points to a deleted connection**, whatever other
threads do while the loop goes through the batch. -/
theorem batchLive_trace (hlaw : Lawful impl Inv ReadOk OtherOk) {thread : τ} (hinv : Inv thread)
    {events : List (LoopEvent κ ε)}
    (hok : Along (step impl) (CallsOk ReadOk OtherOk) (launch thread) events) :
    ∀ l ∈ trace (step impl) (launch thread) events,
      Inv l.thread ∧ BatchLive (impl.net l.thread) l.todo :=
  trace_invariant (fun _ _ _ h hC hstep => batchLive_step hlaw h hC hstep)
    ⟨hinv, BatchLive.nil _⟩ hok

/-! ## Waits that fail -/

/-- A wait that returns no events. -/
def Fails : LoopEvent κ ε → Bool
  | .epollWait outs => !outs.getLast?.any WaitOutcome.isEvents
  | _ => false

/-- What `n` failing waits leave behind: `errno_` is never `EINTR`, because
`EpollWait` itself goes on then. -/
structure Retrying (n : Nat) (l : NetLoop τ) : Prop where
  errno : l.errno ≠ SocketEpoll.EINTR
  retry : l.epollRetry + n = 3
  ended : l.epollRetry = 0 → l.phase = .ended
  running : l.running = true → l.phase = .ended → l.epollRetry = 0

theorem Retrying.of_eq {n : Nat} {l l' : NetLoop τ} (h : Retrying n l)
    (herrno : l'.errno = l.errno) (hretry : l'.epollRetry = l.epollRetry)
    (hphase : l.phase ≠ .ended) (hphase' : l'.phase = .ended → l'.running = false) :
    Retrying n l' where
  errno := by
    rw [herrno]
    exact h.errno
  retry := by
    rw [hretry]
    exact h.retry
  ended hzero := absurd (h.ended (hretry ▸ hzero)) hphase
  running hrunning hended := by
    rw [hphase' hended] at hrunning
    cases hrunning

theorem retrying_onWait {n : Nat} {l l' : NetLoop τ} {net : NetState} {outs : List WaitOutcome}
    (h : Retrying n l) (hphase : l.phase = .waiting) (hwait : l.onWait net outs = some l') :
    Retrying (n + if Fails (.epollWait outs : LoopEvent κ ε) then 1 else 0) l' := by
  have hretry : l.epollRetry ≠ 0 := by
    intro hzero
    rw [h.ended hzero] at hphase
    cases hphase
  have hcount := h.retry
  unfold onWait at hwait
  split at hwait
  · cases hwait
  · rename_i errno hresult
    obtain ⟨hlast, herrno⟩ := SocketEpoll.epollWaitLoop_none hresult
    have hfails : Fails (.epollWait outs : LoopEvent κ ε) = true := congrArg not hlast
    have hne : errno ≠ SocketEpoll.EINTR := by
      rcases herrno with rfl | hne
      · exact h.errno
      · exact hne
    rw [if_neg hne] at hwait
    rw [if_pos hfails]
    split_ifs at hwait with hmore
    · cases hwait
      refine ⟨hne, by show l.epollRetry - 1 + (n + 1) = 3; omega, ?_, ?_⟩
      · intro hzero
        replace hzero : l.epollRetry - 1 = 0 := hzero
        omega
      · intro _ hended
        cases hended
    · cases hwait
      refine ⟨hne, by show l.epollRetry - 1 + (n + 1) = 3; omega, fun _ => rfl, fun _ _ => ?_⟩
      show l.epollRetry - 1 = 0
      omega
  · rename_i evs errno hresult
    obtain ⟨hlast, rfl⟩ := SocketEpoll.epollWaitLoop_some hresult
    have hfails : Fails (.epollWait outs : LoopEvent κ ε) = false := by
      show (!outs.getLast?.any WaitOutcome.isEvents) = false
      rw [hlast]
      rfl
    rw [if_neg (by rw [hfails]; exact Bool.false_ne_true)]
    split_ifs at hwait
    cases hwait
    refine ⟨h.errno, h.retry, fun hzero => absurd hzero hretry, ?_⟩
    intro _ hended
    cases hended

/-- What is done about an event neither waits nor, while `running_` is set,
ends the loop. -/
theorem onEvent_frame {l l' : NetLoop τ} {read : κ} {ws : List WriteOutcome} {ev : EpollEvent}
    {todo : List EpollEvent} {notifications : List Notification}
    (h : l.onEvent impl read ws ev todo notifications = some l') :
    l'.errno = l.errno ∧ l'.epollRetry = l.epollRetry ∧
      (l'.phase = .ended → l'.running = false) := by
  unfold onEvent at h
  split at h
  · split_ifs at h
    · cases h
      exact ⟨rfl, rfl, fun _ => rfl⟩
    · cases h
      exact ⟨rfl, rfl, fun hended => by cases hended⟩
  · cases h
    exact ⟨rfl, rfl, fun hended => by cases hended⟩
  · split_ifs at h
    · obtain ⟨t, -, rfl⟩ := Option.map_eq_some_iff.1 h
      exact ⟨rfl, rfl, fun hended => by cases hended⟩
    · obtain ⟨⟨t, ret⟩, -, rfl⟩ := Option.map_eq_some_iff.1 h
      cases ret with
      | kept => exact ⟨rfl, rfl, fun hended => by cases hended⟩
      | deleted => exact ⟨rfl, rfl, fun hended => by cases hended⟩
      | threw => exact ⟨rfl, rfl, fun _ => rfl⟩
    · obtain ⟨t, -, rfl⟩ := Option.map_eq_some_iff.1 h
      exact ⟨rfl, rfl, fun hended => by cases hended⟩
    · cases h
      exact ⟨rfl, rfl, fun hended => by cases hended⟩

theorem retrying_step {n : Nat} {l l' : NetLoop τ} {e : LoopEvent κ ε} (h : Retrying n l)
    (hstep : step impl l e = some l') : Retrying (n + if Fails e then 1 else 0) l' := by
  cases e with
  | test =>
      simp only [step] at hstep
      split at hstep
      · rename_i hphase
        cases hstep
        refine h.of_eq rfl rfl (by rw [hphase]; simp) ?_
        show (if l.running then Phase.waiting else .ended) = .ended → l.running = false
        cases l.running <;> simp
      · cases hstep
  | epollWait outs =>
      simp only [step] at hstep
      split at hstep
      · rename_i hphase
        exact retrying_onWait h hphase hstep
      · cases hstep
  | process read ws =>
      simp only [step] at hstep
      split at hstep
      · rename_i notifications hphase
        cases hstep
        exact h.of_eq rfl rfl (by rw [hphase]; simp) fun hended => by cases hended
      · rename_i ev todo notifications hphase
        obtain ⟨herrno, hretry, hended⟩ := onEvent_frame hstep
        exact h.of_eq herrno hretry (by rw [hphase]; simp) hended
      · cases hstep
  | handle w =>
      simp only [step] at hstep
      split at hstep
      · rename_i n rest hphase
        obtain ⟨⟨t, more⟩, -, rfl⟩ := Option.map_eq_some_iff.1 hstep
        exact h.of_eq rfl rfl (by rw [hphase]; simp) fun hended => by cases hended
      · cases hstep
  | endRound =>
      simp only [step] at hstep
      split at hstep
      · rename_i hphase
        rcases endRound_cases hstep with ⟨t, -, rfl⟩ | rfl
        · exact h.of_eq rfl rfl (by rw [hphase]; simp) fun hended => by cases hended
        · exact h.of_eq rfl rfl (by rw [hphase]; simp) fun hended => by cases hended
      · cases hstep
  | other e =>
      obtain ⟨⟨t, n⟩, -, rfl⟩ := Option.map_eq_some_iff.1 hstep
      cases n <;> exact ⟨h.errno, h.retry, h.ended, h.running⟩
  | stop =>
      cases hstep
      exact ⟨h.errno, h.retry, h.ended, fun hrunning => by cases hrunning⟩
  | notifyStop =>
      simp only [step] at hstep
      split_ifs at hstep
      cases hstep
      exact ⟨h.errno, h.retry, h.ended, h.running⟩

theorem retrying_run {n : Nat} {l l' : NetLoop τ} {events : List (LoopEvent κ ε)}
    (h : Retrying n l) (hrun : run (step impl) l events = some l') :
    Retrying (n + events.countP Fails) l' := by
  induction events generalizing n l with
  | nil =>
      cases hrun
      exact h
  | cons e events ih =>
      cases hstep : step impl l e with
      | none => simp [run, hstep] at hrun
      | some l₁ =>
          rw [run_cons_some hstep] at hrun
          have hrest := ih (retrying_step h hstep) hrun
          rw [List.countP_cons, Nat.add_comm (events.countP Fails), ← Nat.add_assoc]
          exact hrest

/-- **Three waits that fail end the thread**, whatever has succeeded between
them; as long as `running_` is set (nobody stops it, and no exception leaves
`Run`), nothing else does. -/
theorem ended_iff_retries {thread : τ} {events : List (LoopEvent κ ε)} {l : NetLoop τ}
    (hrun : run (step impl) (launch thread) events = some l) (hrunning : l.running = true) :
    l.phase = .ended ↔ events.countP Fails = 3 := by
  have hlaunch : Retrying 0 (launch thread) :=
    { errno := Nat.zero_ne_add_one 3
      retry := rfl
      ended := fun hzero => by cases hzero
      running := fun _ hended => by cases hended }
  have h := retrying_run hlaunch hrun
  have hretry := h.retry
  constructor
  · intro hended
    have hzero := h.running hrunning hended
    omega
  · intro hcount
    apply h.ended
    omega

/-! ## Stopping -/

/-- A wait. -/
def isWait : LoopEvent κ ε → Bool
  | .epollWait _ => true
  | _ => false

/-- A thread that is told to stop waits only until the notification comes: it
is armed, or `NotifyStop` is about to arm it. -/
def Wakes (l : NetLoop τ) : Prop :=
  l.running = false → l.phase = .waiting →
    l.stopping = true ∨ ∃ n, l.armed = some (.notification n)

theorem onEvent_phase {l l' : NetLoop τ} {read : κ} {ws : List WriteOutcome} {ev : EpollEvent}
    {todo : List EpollEvent} {notifications : List Notification}
    (h : l.onEvent impl read ws ev todo notifications = some l') :
    l'.phase ≠ .waiting ∧ (l.running = false → l'.running = false) := by
  unfold onEvent at h
  split at h
  · split_ifs at h <;> cases h
    · exact ⟨by simp, fun _ => rfl⟩
    · exact ⟨by simp, fun hrunning => hrunning⟩
  · cases h
    exact ⟨by simp, fun hrunning => hrunning⟩
  · split_ifs at h
    · obtain ⟨t, -, rfl⟩ := Option.map_eq_some_iff.1 h
      exact ⟨by simp, fun hrunning => hrunning⟩
    · obtain ⟨⟨t, ret⟩, -, rfl⟩ := Option.map_eq_some_iff.1 h
      cases ret with
      | kept => exact ⟨by simp [behindRead], fun hrunning => hrunning⟩
      | deleted => exact ⟨by simp [behindRead], fun hrunning => hrunning⟩
      | threw => exact ⟨by simp [behindRead], fun _ => rfl⟩
    · obtain ⟨t, -, rfl⟩ := Option.map_eq_some_iff.1 h
      exact ⟨by simp, fun hrunning => hrunning⟩
    · cases h
      exact ⟨by simp, fun hrunning => hrunning⟩

theorem onWait_phase {l l' : NetLoop τ} {net : NetState} {outs : List WaitOutcome}
    (h : l.onWait net outs = some l') : l'.phase ≠ .waiting ∧ l'.running = l.running := by
  unfold onWait at h
  split at h
  · cases h
  · split_ifs at h <;> cases h <;> exact ⟨by simp, rfl⟩
  · split_ifs at h
    cases h
    exact ⟨by simp, rfl⟩

/-- A thread that is told to stop stays so, and none of its own steps leads it
into another wait. -/
theorem own_step {l l' : NetLoop τ} {e : LoopEvent κ ε} (hrunning : l.running = false)
    (he : own e = true) (h : step impl l e = some l') :
    l'.phase ≠ .waiting ∧ l'.running = false := by
  cases e with
  | test =>
      simp only [step] at h
      split at h <;> cases h
      rw [hrunning]
      exact ⟨by simp, rfl⟩
  | epollWait outs =>
      simp only [step] at h
      split at h
      · obtain ⟨hphase, hsame⟩ := onWait_phase h
        exact ⟨hphase, hsame.trans hrunning⟩
      · cases h
  | process read ws =>
      simp only [step] at h
      split at h
      · cases h
        exact ⟨by simp, hrunning⟩
      · obtain ⟨hphase, hstays⟩ := onEvent_phase h
        exact ⟨hphase, hstays hrunning⟩
      · cases h
  | handle w =>
      simp only [step] at h
      split at h
      · obtain ⟨r, -, rfl⟩ := Option.map_eq_some_iff.1 h
        exact ⟨by simp, hrunning⟩
      · cases h
  | endRound =>
      simp only [step] at h
      split at h
      · rcases endRound_cases h with ⟨t, -, rfl⟩ | rfl
        · exact ⟨by simp, hrunning⟩
        · exact ⟨by simp, hrunning⟩
      · cases h
  | other e => cases he
  | stop => cases he
  | notifyStop => cases he

/-- What other threads do leaves the loop where it stands, and a thread that is
told to stop stays so. -/
theorem not_own_step {l l' : NetLoop τ} {e : LoopEvent κ ε} (he : own e = false)
    (h : step impl l e = some l') :
    l'.phase = l.phase ∧ (l.running = false → l'.running = false) ∧ (Wakes l → Wakes l') := by
  cases e with
  | other e =>
      obtain ⟨⟨t, n⟩, -, rfl⟩ := Option.map_eq_some_iff.1 h
      cases n with
      | none => exact ⟨rfl, fun hrunning => hrunning, fun hwakes => hwakes⟩
      | some n => exact ⟨rfl, fun hrunning => hrunning, fun _ _ _ => Or.inr ⟨n, rfl⟩⟩
  | stop =>
      cases h
      exact ⟨rfl, fun _ => rfl, fun _ _ _ => Or.inl rfl⟩
  | notifyStop =>
      simp only [step] at h
      split_ifs at h
      cases h
      exact ⟨rfl, fun hrunning => hrunning, fun _ _ _ => Or.inr ⟨.stop, rfl⟩⟩
  | test => cases he
  | epollWait outs => cases he
  | process read ws => cases he
  | handle w => cases he
  | endRound => cases he

theorem wakes_step {l l' : NetLoop τ} {e : LoopEvent κ ε} (h : Wakes l)
    (hstep : step impl l e = some l') : Wakes l' := by
  cases he : own e with
  | false => exact (not_own_step he hstep).2.2 h
  | true =>
      intro hrunning' hwaiting
      cases hrunning : l.running with
      | false => exact absurd hwaiting (own_step hrunning he hstep).1
      | true =>
          -- only `test` leads into a wait, and it leaves `running_` set
          exfalso
          cases e with
          | test =>
              simp only [step] at hstep
              split at hstep <;> cases hstep
              rw [hrunning] at hrunning'
              cases hrunning'
          | epollWait outs =>
              simp only [step] at hstep
              split at hstep
              · exact (onWait_phase hstep).1 hwaiting
              · cases hstep
          | process read ws =>
              simp only [step] at hstep
              split at hstep
              · cases hstep
                cases hwaiting
              · exact (onEvent_phase hstep).1 hwaiting
              · cases hstep
          | handle w =>
              simp only [step] at hstep
              split at hstep
              · obtain ⟨r, -, rfl⟩ := Option.map_eq_some_iff.1 hstep
                cases hwaiting
              · cases hstep
          | endRound =>
              simp only [step] at hstep
              split at hstep
              · rcases endRound_cases hstep with ⟨t, -, rfl⟩ | rfl <;> cases hwaiting
              · cases hstep
          | other e => cases he
          | stop => cases he
          | notifyStop => cases he

/-- **A stop is not slept over**, in no state of no run. -/
theorem wakes_trace (impl : NetThreadImpl τ κ ε) (thread : τ) (events : List (LoopEvent κ ε)) :
    ∀ l ∈ trace (step impl) (launch thread) events, Wakes l :=
  trace_invariant_of_forall (fun _ _ _ h hstep => wakes_step h hstep)
    fun hrunning => by cases hrunning

/-- The wait that a thread is in. -/
def waits (l : NetLoop τ) : Nat := if l.phase = .waiting then 1 else 0

/-- A thread that is told to stop does not wait again. -/
theorem variant_waits (impl : NetThreadImpl τ κ ε) :
    Variant (step impl) (fun l => l.running = false) isWait waits := by
  intro l e l' hrunning hstep
  unfold waits
  cases he : own e with
  | false =>
      obtain ⟨hphase, hstays, -⟩ := not_own_step he hstep
      refine ⟨hstays hrunning, ?_⟩
      rw [hphase]
      cases e with
      | other e => exact Nat.le_refl _
      | stop => exact Nat.le_refl _
      | notifyStop => exact Nat.le_refl _
      | _ => cases he
  | true =>
      obtain ⟨hphase, hrunning'⟩ := own_step hrunning he hstep
      refine ⟨hrunning', ?_⟩
      rw [if_neg hphase]
      cases e with
      | epollWait outs =>
          simp only [step] at hstep
          split at hstep
          · rename_i hwaiting
            rw [if_pos hwaiting]
            exact Nat.le_refl _
          · cases hstep
      | _ => exact Nat.zero_le _

/-! ## The loop and the server below it -/

/-- **Refinement.**  If every call of the loop is a run of the system `stepA`,
a run of the loop is one. -/
theorem simulates_of_called {α η : Type} {stepA : α → η → Option α} {abs : τ → α}
    (h : ∀ {t t' last last' e}, Called impl t last e t' last' →
      ∃ fs, run stepA (abs t) fs = some (abs t')) :
    Simulates (step impl) stepA fun l a => abs l.thread = a := by
  rintro l e l' _ rfl hstep
  obtain ⟨fs, hfs⟩ := h (called_step hstep)
  exact ⟨fs, _, hfs, rfl⟩

end NetLoop

end Unixtar
