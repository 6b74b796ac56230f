import Unixtar.WebServer.EventLoop
import Unixtar.WebServer.Returns

/-!
# A network thread and its workers, from `Start` to `delete`

`Thread::Entry` calls `OnStart`, which launches the workers, then `Run`, then
`OnStop`, which terminates `recv_queue_`, joins the workers one after another
and deletes them.  The main thread joins the network thread and deletes it.

A worker that finds `recv_queue_` empty sleeps on its condition variable.
`push_back` notifies one worker, `Terminate` all of them, and a worker may wake
up by itself.  A worker that has been woken looks at the queue again, and a
worker that has just come may be faster.

## Main results

* `manned_trace` — what holds of the workers in every state of every run.
* `untouched_of_finished` — behind `OnStop` no worker does anything.
* `covered_trace` — no worker sleeps over a request.
* `joins_within` — how many steps `OnStop` takes.
-/

namespace Unixtar.WebServer

open Unixtar.Lib NetState NetLoop

/-! ## The threads -/

/-- Where a worker stands in `WorkerThread::Run`. -/
inductive WorkerPhase
  /-- in front of `pop_front_to` -/
  | popping
  /-- asleep in it -/
  | waiting
  /-- woken up, and going to look at the queue again -/
  | woken
  /-- with a packet -/
  | busy
  /-- between `push_back` and `NotifySend` -/
  | notifying
  /-- `Run` has returned -/
  | returned
  /-- joined and deleted -/
  | deleted
deriving DecidableEq

/-- Where the network thread stands in `Entry`. -/
inductive Life
  /-- before `running_ = true` -/
  | starting
  /-- in `Run` -/
  | running
  /-- in `__NotifyWorkersStop`, with so many workers deleted -/
  | joining (joined : Nat)
  /-- `Entry` has returned -/
  | finished
  /-- joined by the main thread and deleted -/
  | deleted
deriving DecidableEq

/-- `WebServer::NetThread`, with its `workers_`. -/
structure NetThread where
  loop : NetLoop ServerThread
  life : Life
  /-- of `recv_queue_` -/
  terminated : Bool
  workers : List WorkerPhase

inductive NetThreadEvent
  /-- `running_ = true` in `Entry` -/
  | enter
  /-- the loop, or the main thread; `woken` is the worker that a request
  wakes up -/
  | loop (e : LoopEvent (List ReadOutcome) OtherEvent) (woken : Option Nat)
  /-- `pop_front_to` of a worker, up to its wait, and `IsTerminated` -/
  | pop (i : Nat)
  /-- a worker wakes up by itself -/
  | wakeUp (i : Nat)
  /-- the worker with the packet `j` asks whether the workers are overloaded -/
  | check (j : Nat)
  /-- it handles its packet -/
  | handle (j : Nat) (resp : Bytes)
  /-- the worker `i`, with the packet `j`, gives its return packet back -/
  | giveBack (i j : Nat)
  /-- `NotifySend` -/
  | notifySend (i : Nat)
  /-- `Terminate` in `__NotifyWorkersStop` -/
  | terminate
  /-- the next round of its loop: a worker is joined and deleted -/
  | join
  /-- the main thread has joined the network thread and deletes it -/
  | delete

namespace NetThread

/-- A thread that has been started, with `n` workers. -/
def start (cfg : Config) (n : Nat) : NetThread :=
  { loop := launch (ServerThread.init cfg), life := .starting, terminated := false,
    workers := List.replicate n .popping }

/-- `recv_queue_`. -/
def recvQueue (t : NetThread) : List RecvContext := t.loop.thread.server.recvQueue

/-- Whether an event of the loop is possible: its own steps belong to `Run`,
the workers' steps are events of their own, and the main thread uses no deleted
thread. -/
def mayTake (life : Life) : LoopEvent (List ReadOutcome) OtherEvent → Bool
  | .other (.accept _ _ _) => life ≠ .deleted
  | .other (.heartbeat _ _ _ _ _) => life ≠ .deleted
  | .other (.tick _) => true
  | .other _ => false
  | .stop => life ≠ .deleted
  | .notifyStop => life ≠ .deleted
  | _ => life = .running

/-- `cond_.notify_one()`: a worker that sleeps, if there is one. -/
def notifyOne (woken : Option Nat) (workers : List WorkerPhase) : Option (List WorkerPhase) :=
  match woken with
  | some i => if workers[i]? = some .waiting then some (workers.set i .woken) else none
  | none => if .waiting ∈ workers then none else some workers

/-- `cond_.notify_all()`. -/
def notifyAll (workers : List WorkerPhase) : List WorkerPhase :=
  workers.map fun w => if w = .waiting then .woken else w

/-- An event of the loop; a request that is put on `recv_queue_` wakes a
worker. -/
def stepLoop (cfg : Config) (t : NetThread) (e : LoopEvent (List ReadOutcome) OtherEvent)
    (woken : Option Nat) : Option NetThread :=
  (NetLoop.step (netThread cfg) t.loop e).bind fun loop =>
    if t.recvQueue.length < loop.thread.server.recvQueue.length then
      (notifyOne woken t.workers).map fun workers => { t with loop, workers }
    else if woken = none then some { t with loop }
    else none

/-- A worker looks at the queue. -/
def pop (cfg : Config) (i : Nat) (t : NetThread) : Option NetThread :=
  if t.terminated then some { t with workers := t.workers.set i .returned }
  else if t.recvQueue = [] then some { t with workers := t.workers.set i .waiting }
  else
    (NetLoop.step (netThread cfg) t.loop (.other .take)).map fun loop =>
      { t with loop, workers := t.workers.set i .busy }

/-- One event. -/
def step (cfg : Config) (t : NetThread) : NetThreadEvent → Option NetThread
  | .enter =>
      if t.life = .starting then
        some { t with loop := { t.loop with running := true }, life := .running }
      else none
  | .loop e woken => if mayTake t.life e then t.stepLoop cfg e woken else none
  | .pop i =>
      match t.workers[i]? with
      | some .popping => t.pop cfg i
      | some .woken => t.pop cfg i
      | _ => none
  | .wakeUp i =>
      if t.workers[i]? = some .waiting then some { t with workers := t.workers.set i .woken }
      else none
  | .check j =>
      (NetLoop.step (netThread cfg) t.loop (.other (.check j))).map fun loop => { t with loop }
  | .handle j resp =>
      (NetLoop.step (netThread cfg) t.loop (.other (.handle j resp))).map fun loop =>
        { t with loop }
  | .giveBack i j =>
      if t.workers[i]? = some .busy then
        (NetLoop.step (netThread cfg) t.loop (.other (.giveBack j))).map fun loop =>
          { t with loop, workers := t.workers.set i .notifying }
      else none
  | .notifySend i =>
      if t.workers[i]? = some .notifying then
        (NetLoop.step (netThread cfg) t.loop (.other .notifySend)).map fun loop =>
          { t with loop, workers := t.workers.set i .popping }
      else none
  | .terminate =>
      if t.life = .running ∧ t.loop.phase = .ended then
        some { t with life := .joining 0, terminated := true, workers := notifyAll t.workers }
      else none
  | .join =>
      match t.life with
      | .joining joined =>
          match t.workers[joined]? with
          | some .returned =>
              some
                { t with
                  life := .joining (joined + 1)
                  workers := t.workers.set joined .deleted }
          | some _ => none
          | none => some { t with life := .finished }
      | _ => none
  | .delete => if t.life = .finished then some { t with life := .deleted } else none

end NetThread

/-- The events of the workers. -/
def NetThreadEvent.byWorker : NetThreadEvent → Bool
  | pop _ => true
  | wakeUp _ => true
  | check _ => true
  | handle _ _ => true
  | giveBack _ _ => true
  | notifySend _ => true
  | _ => false

/-! ## What the loop does to the workers' packets -/

/-- The workers' part of the server: `taken` packets more are with workers,
`given` packets fewer, and `NotifySend` is `notified` times less to come. -/
structure Works (taken given notified : Nat) (t t' : ServerThread) : Prop where
  carried : t'.server.Carried
  workers : t'.server.workers.length + given = t.server.workers.length + taken
  notifying : t'.notifying + notified = t.notifying + given

theorem Works.refl {t : ServerThread} (h : t.server.Carried) : Works 0 0 0 t t := ⟨h, rfl, rfl⟩

/-- The workers keep their packets, and one more request waits at most. -/
structure Calm (t t' : ServerThread) : Prop where
  works : Works 0 0 0 t t'
  recvQueue : t'.server.recvQueue.length ≤ t.server.recvQueue.length + 1

theorem Calm.refl {t : ServerThread} (h : t.server.Carried) : Calm t t :=
  ⟨Works.refl h, Nat.le_succ _⟩

theorem calm_act {cfg : Config} {e : Event} {t t' : ServerThread} (h : t.server.Carried)
    (htake : e ≠ .take) (hgive : ∀ i, e ≠ .giveBack i) (hact : t.act cfg e = some t') :
    Calm t t' := by
  obtain ⟨s, hs, rfl⟩ := act_eq hact
  refine ⟨⟨carried_step h hs, ?_, rfl⟩, ?_⟩
  · show s.workers.length = t.server.workers.length
    cases Watched.step_moves h.recorded hs with
    | keeps _ _ hworkers _ _ _ _ _ => simpa using congrArg List.length hworkers
    | accepts id outs ctx _ _ _ hworkers _ _ => rw [hworkers]
    | takes ctx _ _ _ _ => exact absurd rfl htake
    | gives i ctx x before after _ _ _ _ _ _ => exact absurd rfl (hgive i)
    | sends w x _ _ hworkers _ => rw [hworkers]
  · show s.recvQueue.length ≤ t.server.recvQueue.length + 1
    cases Watched.step_moves h.recorded hs with
    | keeps _ hrecv _ _ _ _ _ _ =>
        rw [hrecv]
        exact Nat.le_succ _
    | accepts id outs ctx _ _ hrecv _ _ _ =>
        rw [hrecv]
        unfold pushBack
        split_ifs
        · exact Nat.le_succ _
        · rw [List.length_append]
          exact Nat.le_refl _
    | takes ctx _ _ _ _ => exact absurd rfl htake
    | gives i ctx x before after _ _ _ _ _ _ => exact absurd rfl (hgive i)
    | sends w x _ hrecv _ _ =>
        rw [hrecv]
        exact Nat.le_succ _

/-- **The loop and the main thread** leave the workers' packets alone. -/
theorem calm_called {cfg : Config} {life : Life} {t t' : ServerThread} {last last' : Nat}
    {e : LoopEvent (List ReadOutcome) OtherEvent} (h : t.server.Carried)
    (hmay : NetThread.mayTake life e = true)
    (hcalled : Called (netThread cfg) t last e t' last') : Calm t t' := by
  cases hcalled with
  | nothing e => exact Calm.refl h
  | errEvent e id t' _ ht => exact calm_act (e := .errEvent id) h (by simp) (by simp) ht
  | readEvent e id outs t' ret _ ht =>
      obtain ⟨t₁, ht₁, heq⟩ := Option.map_eq_some_iff.1 ht
      cases heq
      exact calm_act (e := .readEvent id outs) h (by simp) (by simp) ht₁
  | writeEvent e id ws t' _ ht => exact calm_act (e := .writeEvent id ws) h (by simp) (by simp) ht
  | notification e n w t' more _ ht =>
      simp only [netThread] at ht
      split_ifs at ht
      · unfold ServerThread.handleSend at ht
        split at ht
        · cases ht
          exact Calm.refl h
        · obtain ⟨t₁, ht₁, heq⟩ := Option.map_eq_some_iff.1 ht
          have hcalm := calm_act h (by simp) (by simp) ht₁
          cases heq
          exact ⟨⟨hcalm.works.carried, hcalm.works.workers, hcalm.works.notifying⟩,
            hcalm.recvQueue⟩
      · cases ht
        exact Calm.refl h
  | clearTimeout e t' _ ht =>
      have hact : t.act cfg .clearTimeout = some t' := ht
      exact calm_act h (by simp) (by simp) hact
  | other e t' n ht =>
      cases e with
      | accept fd ip port =>
          simp only [netThread, ServerThread.other] at ht
          obtain ⟨t₁, ht₁, heq⟩ := Option.map_eq_some_iff.1 ht
          cases heq
          exact calm_act h (by simp) (by simp) ht₁
      | tick ms =>
          simp only [netThread, ServerThread.other] at ht
          obtain ⟨t₁, ht₁, heq⟩ := Option.map_eq_some_iff.1 ht
          cases heq
          exact calm_act h (by simp) (by simp) ht₁
      | heartbeat fd ip port request w =>
          obtain ⟨net, hbeat, -, rfl⟩ := heartbeat_eq ht
          exact ⟨⟨carried_heartbeat h hbeat, rfl, rfl⟩, Nat.le_succ _⟩
      | take => cases hmay
      | check j => cases hmay
      | handle j resp => cases hmay
      | giveBack j => cases hmay
      | notifySend => cases hmay

variable {cfg : Config} {l l' : NetLoop ServerThread}

/-- The server behind a worker's event. -/
theorem other_eq {e : OtherEvent} {f : Event}
    (hother : ∀ t : ServerThread, t.other cfg e = (t.act cfg f).map fun t => (t, none))
    (hstep : NetLoop.step (netThread cfg) l (.other e) = some l') :
    ∃ s, State.step cfg l.thread.server f = some s ∧
      l' = { l with thread := { l.thread with server := s } } := by
  obtain ⟨⟨t, n⟩, ht, rfl⟩ := Option.map_eq_some_iff.1 hstep
  replace ht : l.thread.other cfg e = some (t, n) := ht
  rw [hother] at ht
  obtain ⟨t₁, ht₁, heq⟩ := Option.map_eq_some_iff.1 ht
  obtain ⟨s, hs, rfl⟩ := act_eq ht₁
  cases heq
  exact ⟨s, hs, rfl⟩

theorem works_take (h : l.thread.server.Carried)
    (hstep : NetLoop.step (netThread cfg) l (.other .take) = some l') :
    Works 1 0 0 l.thread l'.thread ∧
      l'.thread.server.recvQueue.length + 1 = l.thread.server.recvQueue.length := by
  obtain ⟨s, hs, rfl⟩ := other_eq (f := .take) (fun _ => rfl) hstep
  have hcarried := carried_step h hs
  simp only [State.step, State.takeTask] at hs
  split at hs
  · cases hs
  · rename_i ctx rest hqueue
    cases hs
    refine ⟨⟨hcarried, List.length_append, rfl⟩, ?_⟩
    · show rest.length + 1 = l.thread.server.recvQueue.length
      rw [hqueue, List.length_cons]

theorem works_check {j : Nat} (h : l.thread.server.Carried)
    (hstep : NetLoop.step (netThread cfg) l (.other (.check j)) = some l') :
    Works 0 0 0 l.thread l'.thread ∧
      l'.thread.server.recvQueue = l.thread.server.recvQueue := by
  obtain ⟨s, hs, rfl⟩ := other_eq (f := .check j) (fun _ => rfl) hstep
  have hcarried := carried_step h hs
  simp only [State.step, State.checkTask] at hs
  split at hs <;> cases hs
  exact ⟨⟨hcarried, List.length_set, rfl⟩, rfl⟩

theorem works_handle {j : Nat} {resp : Bytes} (h : l.thread.server.Carried)
    (hstep : NetLoop.step (netThread cfg) l (.other (.handle j resp)) = some l') :
    Works 0 0 0 l.thread l'.thread ∧
      l'.thread.server.recvQueue = l.thread.server.recvQueue := by
  obtain ⟨s, hs, rfl⟩ := other_eq (f := .handle j resp) (fun _ => rfl) hstep
  have hcarried := carried_step h hs
  obtain ⟨ctx, overload, -, hrecv, -, hworkers, -⟩ := State.handleTask_eq hs
  refine ⟨⟨hcarried, ?_, rfl⟩, hrecv⟩
  show s.workers.length + 0 = l.thread.server.workers.length + 0
  rw [hworkers, List.length_set]

theorem works_giveBack {j : Nat} (h : l.thread.server.Carried)
    (hstep : NetLoop.step (netThread cfg) l (.other (.giveBack j)) = some l') :
    Works 0 1 0 l.thread l'.thread ∧
      l'.thread.server.recvQueue = l.thread.server.recvQueue := by
  obtain ⟨⟨t, n⟩, ht, rfl⟩ := Option.map_eq_some_iff.1 hstep
  obtain ⟨t₁, ht₁, heq⟩ := Option.map_eq_some_iff.1 ht
  obtain ⟨s, hs, rfl⟩ := act_eq ht₁
  cases heq
  have hcarried := carried_step h hs
  simp only [State.step, State.giveBackTask] at hs
  split at hs
  · rename_i ctx hworker
    have hlt : j < l.thread.server.workers.length := (List.getElem?_eq_some_iff.1 hworker).1
    split at hs <;> cases hs
    refine ⟨⟨hcarried, ?_, rfl⟩, rfl⟩
    show (l.thread.server.workers.eraseIdx j).length + 1 = _
    rw [List.length_eraseIdx_of_lt hlt]
    exact Nat.sub_add_cancel (Nat.lt_of_le_of_lt (Nat.zero_le j) hlt)
  · cases hs

theorem works_notifySend (h : l.thread.server.Carried)
    (hstep : NetLoop.step (netThread cfg) l (.other .notifySend) = some l') :
    Works 0 0 1 l.thread l'.thread ∧
      l'.thread.server.recvQueue = l.thread.server.recvQueue := by
  obtain ⟨⟨t, n⟩, ht, rfl⟩ := Option.map_eq_some_iff.1 hstep
  simp only [netThread, ServerThread.other] at ht
  split_ifs at ht with hnone
  cases ht
  exact ⟨⟨h, rfl, Nat.sub_add_cancel (Nat.pos_of_ne_zero hnone)⟩, rfl⟩

/-! ## The invariant -/

/-- How many of `n` workers are joined. -/
def Life.joined (n : Nat) : Life → Nat
  | starting => 0
  | running => 0
  | joining joined => joined
  | finished => n
  | deleted => n

/-- `recv_queue_` is terminated. -/
def Life.terminated : Life → Bool
  | starting => false
  | running => false
  | _ => true

/-- What holds of a network thread and its workers: the packets that are taken
are with the busy workers, nobody sleeps behind `Terminate`, a worker sleeps
only if each request has woken another one, and the workers that have been
joined are those that are deleted. -/
structure Manned (t : NetThread) : Prop where
  carried : t.loop.thread.server.Carried
  busy : t.workers.count .busy = t.loop.thread.server.workers.length
  notifying : t.workers.count .notifying = t.loop.thread.notifying
  terminated : t.terminated = t.life.terminated
  awake : t.terminated = true → .waiting ∉ t.workers
  covered : .waiting ∈ t.workers → t.recvQueue.length ≤ t.workers.count .woken
  joined : ∀ i, t.workers[i]? = some .deleted ↔ i < t.life.joined t.workers.length

theorem count_set {ws : List WorkerPhase} {i : Nat} {a b : WorkerPhase} (h : ws[i]? = some a)
    (c : WorkerPhase) :
    (ws.set i b).count c + (if a = c then 1 else 0) = ws.count c + if b = c then 1 else 0 := by
  obtain ⟨hlt, rfl⟩ := List.getElem?_eq_some_iff.1 h
  have hle : (if ws[i] = c then 1 else 0) ≤ ws.count c := by
    split_ifs with hc
    · exact List.count_pos_iff.2 (hc ▸ List.getElem_mem hlt)
    · exact Nat.zero_le _
  rw [List.count_set hlt]
  simp only [beq_iff_eq]
  omega

theorem mem_of_mem_set {ws : List WorkerPhase} {i : Nat} {b c : WorkerPhase} (hne : c ≠ b)
    (h : c ∈ ws.set i b) : c ∈ ws :=
  (List.mem_or_eq_of_mem_set h).resolve_right hne

theorem manned_start (cfg : Config) (n : Nat) : Manned (NetThread.start cfg n) where
  carried := carried_init cfg
  busy := List.count_eq_zero.2 fun h => by cases List.eq_of_mem_replicate h
  notifying := List.count_eq_zero.2 fun h => by cases List.eq_of_mem_replicate h
  terminated := rfl
  awake h := by cases h
  covered h := by cases List.eq_of_mem_replicate h
  joined i := by
    refine ⟨fun h => ?_, fun hi => absurd hi (Nat.not_lt_zero i)⟩
    cases List.eq_of_mem_replicate (List.mem_of_getElem? h)

namespace Manned

variable {t t' : NetThread}

/-- One worker goes on, and does its part of the work. -/
theorem move {i : Nat} {a b : WorkerPhase} {taken given notified : Nat}
    {loop : NetLoop ServerThread} (h : Manned t) (hi : t.workers[i]? = some a)
    (ha : a ≠ .deleted) (hb : b ≠ .deleted)
    (hworks : Works taken given notified t.loop.thread loop.thread)
    (hbusy : (if b = .busy then 1 else 0) + given = (if a = .busy then 1 else 0) + taken)
    (hnotifying : (if b = .notifying then 1 else 0) + notified =
      (if a = .notifying then 1 else 0) + given)
    (hawake : t.terminated = true → b ≠ .waiting)
    (hcovered : .waiting ∈ t.workers.set i b →
      loop.thread.server.recvQueue.length ≤ (t.workers.set i b).count .woken) :
    Manned { t with loop, workers := t.workers.set i b } where
  carried := hworks.carried
  busy := by
    have hcount := count_set (b := b) hi .busy
    have hsame := h.busy
    have hwork := hworks.workers
    show (t.workers.set i b).count .busy = loop.thread.server.workers.length
    omega
  notifying := by
    have hcount := count_set (b := b) hi .notifying
    have hsame := h.notifying
    have hwork := hworks.notifying
    show (t.workers.set i b).count .notifying = loop.thread.notifying
    omega
  terminated := h.terminated
  awake := by
    intro hterminated hmem
    exact h.awake hterminated (mem_of_mem_set (Ne.symm (hawake hterminated)) hmem)
  covered := hcovered
  joined := by
    intro i'
    rw [List.length_set, ← h.joined i']
    rcases eq_or_ne i i' with rfl | hne
    · rw [hi, List.getElem?_set_self (List.getElem?_eq_some_iff.1 hi).1]
      exact iff_of_false (fun h => hb (Option.some.inj h)) fun h => ha (Option.some.inj h)
    · rw [List.getElem?_set_ne hne]

/-- The workers stand where they stood. -/
theorem ofLoop {loop : NetLoop ServerThread} (h : Manned t)
    (hworks : Works 0 0 0 t.loop.thread loop.thread)
    (hcovered : .waiting ∈ t.workers →
      loop.thread.server.recvQueue.length ≤ t.workers.count .woken) :
    Manned { t with loop } where
  carried := hworks.carried
  busy := h.busy.trans hworks.workers.symm
  notifying := h.notifying.trans hworks.notifying.symm
  terminated := h.terminated
  awake := h.awake
  covered := hcovered
  joined := h.joined

/-- A worker looks at the queue. -/
theorem pop {i : Nat} {a : WorkerPhase} (h : Manned t) (hi : t.workers[i]? = some a)
    (ha : a = .popping ∨ a = .woken) (hstep : t.pop cfg i = some t') : Manned t' := by
  have hne : a ≠ .deleted ∧ a ≠ .busy ∧ a ≠ .notifying := by
    rcases ha with rfl | rfl <;> simp
  unfold NetThread.pop at hstep
  split_ifs at hstep with hterminated hempty
  · cases hstep
    refine h.move hi hne.1 (by simp) (Works.refl h.carried) (by simp [hne]) (by simp [hne])
      (by simp) ?_
    intro hmem
    exact absurd (mem_of_mem_set (by simp) hmem) (h.awake hterminated)
  · cases hstep
    refine h.move hi hne.1 (by simp) (Works.refl h.carried) (by simp [hne]) (by simp [hne])
      (fun hterm => absurd hterm hterminated) ?_
    intro _
    show t.recvQueue.length ≤ _
    rw [hempty]
    exact Nat.zero_le _
  · obtain ⟨loop, hloop, rfl⟩ := Option.map_eq_some_iff.1 hstep
    obtain ⟨hworks, hqueue⟩ := works_take h.carried hloop
    refine h.move hi hne.1 (by simp) hworks (by simp [hne]) (by simp [hne]) (by simp) ?_
    intro hmem
    have hcovered := h.covered (mem_of_mem_set (by simp) hmem)
    have hcount := count_set (b := .busy) hi .woken
    simp only [reduceCtorEq, if_false] at hcount
    have hle : (if a = .woken then 1 else 0) ≤ 1 := by split_ifs <;> omega
    replace hcovered : t.loop.thread.server.recvQueue.length ≤ t.workers.count .woken := hcovered
    omega

theorem notifyAll_count {ws : List WorkerPhase} {c : WorkerPhase} (hwaiting : c ≠ .waiting)
    (hwoken : c ≠ .woken) : (NetThread.notifyAll ws).count c = ws.count c := by
  induction ws with
  | nil => rfl
  | cons w ws ih =>
      show ((if w = .waiting then .woken else w) :: NetThread.notifyAll ws).count c = _
      rw [List.count_cons, List.count_cons, ih]
      congr 1
      by_cases hw : w = .waiting
      · rw [if_pos hw, hw]
        simp [Ne.symm hwaiting, Ne.symm hwoken]
      · rw [if_neg hw]

theorem not_mem_notifyAll (ws : List WorkerPhase) : .waiting ∉ NetThread.notifyAll ws := by
  intro hmem
  obtain ⟨w, -, hw⟩ := List.mem_map.1 hmem
  split_ifs at hw
  exact absurd hw ‹_›

/-- An event of the loop, and the worker that it wakes up. -/
theorem stepLoop {e : LoopEvent (List ReadOutcome) OtherEvent} {woken : Option Nat}
    (h : Manned t) (hmay : NetThread.mayTake t.life e = true)
    (hstep : t.stepLoop cfg e woken = some t') : Manned t' := by
  obtain ⟨loop, hloop, hnotify⟩ := Option.bind_eq_some_iff.1 hstep
  have hcalm := calm_called h.carried hmay (called_step hloop)
  split_ifs at hnotify with hgrows hnone
  · obtain ⟨workers, hworkers, rfl⟩ := Option.map_eq_some_iff.1 hnotify
    cases woken with
    | none =>
        simp only [NetThread.notifyOne] at hworkers
        split_ifs at hworkers with hmem
        cases hworkers
        exact h.ofLoop hcalm.works fun hwaiting => absurd hwaiting hmem
    | some i =>
        simp only [NetThread.notifyOne] at hworkers
        split_ifs at hworkers with hi
        cases hworkers
        refine h.move hi (by simp) (by simp) hcalm.works (by simp) (by simp) (by simp) ?_
        intro hmem
        have hcovered := h.covered (mem_of_mem_set (by simp) hmem)
        have hcount := count_set (b := .woken) hi .woken
        have hqueue := hcalm.recvQueue
        simp only [reduceCtorEq, if_false, if_true] at hcount
        replace hcovered : t.loop.thread.server.recvQueue.length ≤ t.workers.count .woken :=
          hcovered
        omega
  · cases hnotify
    exact h.ofLoop hcalm.works fun hwaiting =>
      Nat.le_trans (Nat.not_lt.1 hgrows) (h.covered hwaiting)

/-- `Terminate` wakes everybody up. -/
theorem terminate (h : Manned t) (hlife : t.life = .running) :
    Manned { t with life := .joining 0, terminated := true,
                    workers := NetThread.notifyAll t.workers } where
  carried := h.carried
  busy := (notifyAll_count (by simp) (by simp)).trans h.busy
  notifying := (notifyAll_count (by simp) (by simp)).trans h.notifying
  terminated := rfl
  awake _ := not_mem_notifyAll t.workers
  covered hmem := absurd hmem (not_mem_notifyAll t.workers)
  joined i := by
    have hjoined := h.joined i
    rw [hlife] at hjoined
    refine Iff.trans ?_ hjoined
    show (t.workers.map fun w => if w = .waiting then .woken else w)[i]? = some .deleted ↔ _
    rw [List.getElem?_map]
    cases t.workers[i]? with
    | none => simp
    | some w => cases w <;> simp

/-- A worker that has returned is joined and deleted. -/
theorem join {joined : Nat} (h : Manned t) (hlife : t.life = .joining joined)
    (hreturned : t.workers[joined]? = some .returned) :
    Manned { t with life := .joining (joined + 1), workers := t.workers.set joined .deleted } := by
  have hterminated : t.terminated = true := by
    rw [h.terminated, hlife]
    rfl
  have hasleep : .waiting ∉ t.workers.set joined .deleted := fun hmem =>
    h.awake hterminated (mem_of_mem_set (by simp) hmem)
  refine ⟨h.carried, ?_, ?_, hterminated, fun _ => hasleep, fun hmem => absurd hmem hasleep, ?_⟩
  · have hcount := count_set (b := .deleted) hreturned .busy
    simp only [reduceCtorEq, if_false, Nat.add_zero] at hcount
    exact hcount.trans h.busy
  · have hcount := count_set (b := .deleted) hreturned .notifying
    simp only [reduceCtorEq, if_false, Nat.add_zero] at hcount
    exact hcount.trans h.notifying
  · intro i
    have hjoined := h.joined i
    rw [hlife] at hjoined
    show (t.workers.set joined .deleted)[i]? = some .deleted ↔ i < joined + 1
    rcases eq_or_ne joined i with rfl | hne
    · rw [List.getElem?_set_self (List.getElem?_eq_some_iff.1 hreturned).1]
      exact iff_of_true rfl (Nat.lt_succ_self _)
    · rw [List.getElem?_set_ne hne, hjoined]
      show i < joined ↔ i < joined + 1
      omega

/-- `Entry` or the main thread goes on; the queue stays terminated, or not, and
nobody is joined. -/
theorem lifeChange {loop : NetLoop ServerThread} {life : Life} (h : Manned t)
    (hthread : loop.thread = t.loop.thread) (hterminated : life.terminated = t.life.terminated)
    (hjoined : life.joined t.workers.length = t.life.joined t.workers.length) :
    Manned { t with loop, life } where
  carried := by
    show loop.thread.server.Carried
    rw [hthread]
    exact h.carried
  busy := by
    show t.workers.count .busy = loop.thread.server.workers.length
    rw [hthread]
    exact h.busy
  notifying := by
    show t.workers.count .notifying = loop.thread.notifying
    rw [hthread]
    exact h.notifying
  terminated := h.terminated.trans hterminated.symm
  awake := h.awake
  covered hmem := by
    show loop.thread.server.recvQueue.length ≤ _
    rw [hthread]
    exact h.covered hmem
  joined i := by
    show t.workers[i]? = some .deleted ↔ i < life.joined t.workers.length
    rw [hjoined]
    exact h.joined i

/-- A worker that wakes up by itself has not yet looked at the queue. -/
theorem wakeUp {i : Nat} (h : Manned t) (hi : t.workers[i]? = some .waiting) :
    Manned { t with workers := t.workers.set i .woken } := by
  refine h.move hi (by simp) (by simp) (Works.refl h.carried) (by simp) (by simp) (by simp) ?_
  intro hmem
  have hcovered : t.loop.thread.server.recvQueue.length ≤ t.workers.count .woken :=
    h.covered (mem_of_mem_set (by simp) hmem)
  have hcount := count_set (b := .woken) hi .woken
  simp only [reduceCtorEq, if_false, if_true] at hcount
  omega

/-- A worker gives its return packet back. -/
theorem giveBack {i j : Nat} {loop : NetLoop ServerThread} (h : Manned t)
    (hi : t.workers[i]? = some .busy)
    (hloop : NetLoop.step (netThread cfg) t.loop (.other (.giveBack j)) = some loop) :
    Manned { t with loop, workers := t.workers.set i .notifying } := by
  obtain ⟨hworks, hqueue⟩ := works_giveBack h.carried hloop
  refine h.move hi (by simp) (by simp) hworks (by simp) (by simp) (by simp) ?_
  intro hmem
  have hcount := count_set (b := .notifying) hi .woken
  simp only [reduceCtorEq, if_false, Nat.add_zero] at hcount
  rw [hqueue, hcount]
  exact h.covered (mem_of_mem_set (by simp) hmem)

/-- A worker has notified the network thread. -/
theorem notifySend {i : Nat} {loop : NetLoop ServerThread} (h : Manned t)
    (hi : t.workers[i]? = some .notifying)
    (hloop : NetLoop.step (netThread cfg) t.loop (.other .notifySend) = some loop) :
    Manned { t with loop, workers := t.workers.set i .popping } := by
  obtain ⟨hworks, hqueue⟩ := works_notifySend h.carried hloop
  refine h.move hi (by simp) (by simp) hworks (by simp) (by simp) (by simp) ?_
  intro hmem
  have hcount := count_set (b := .popping) hi .woken
  simp only [reduceCtorEq, if_false, Nat.add_zero] at hcount
  rw [hqueue, hcount]
  exact h.covered (mem_of_mem_set (by simp) hmem)

/-- The last worker has been joined. -/
theorem finish {joined : Nat} (h : Manned t) (hlife : t.life = .joining joined)
    (hlast : t.workers[joined]? = none) : Manned { t with life := .finished } := by
  have hend := h.joined t.workers.length
  rw [hlife, List.getElem?_eq_none_iff.2 (Nat.le_refl _)] at hend
  have hle : joined ≤ t.workers.length := Nat.not_lt.1 fun hlt => by cases hend.2 hlt
  have hall : joined = t.workers.length :=
    Nat.le_antisymm hle (List.getElem?_eq_none_iff.1 hlast)
  exact h.lifeChange rfl (by rw [hlife]; rfl) (by rw [hlife, hall]; rfl)

end Manned

/-- **Every event** keeps the workers in order. -/
theorem manned_step {t t' : NetThread} {e : NetThreadEvent} (h : Manned t)
    (hstep : NetThread.step cfg t e = some t') : Manned t' := by
  cases e with
  | enter =>
      simp only [NetThread.step] at hstep
      split_ifs at hstep with hlife
      cases hstep
      exact h.lifeChange rfl (by rw [hlife]; rfl) (by rw [hlife]; rfl)
  | loop e woken =>
      simp only [NetThread.step] at hstep
      split_ifs at hstep with hmay
      exact h.stepLoop hmay hstep
  | pop i =>
      simp only [NetThread.step] at hstep
      split at hstep
      · exact h.pop ‹_› (Or.inl rfl) hstep
      · exact h.pop ‹_› (Or.inr rfl) hstep
      · cases hstep
  | wakeUp i =>
      simp only [NetThread.step] at hstep
      split_ifs at hstep with hi
      cases hstep
      exact h.wakeUp hi
  | check j =>
      obtain ⟨loop, hloop, rfl⟩ := Option.map_eq_some_iff.1 hstep
      obtain ⟨hworks, hqueue⟩ := works_check h.carried hloop
      exact h.ofLoop hworks fun hmem => hqueue ▸ h.covered hmem
  | handle j resp =>
      obtain ⟨loop, hloop, rfl⟩ := Option.map_eq_some_iff.1 hstep
      obtain ⟨hworks, hqueue⟩ := works_handle h.carried hloop
      exact h.ofLoop hworks fun hmem => hqueue ▸ h.covered hmem
  | giveBack i j =>
      simp only [NetThread.step] at hstep
      split_ifs at hstep with hi
      obtain ⟨loop, hloop, rfl⟩ := Option.map_eq_some_iff.1 hstep
      exact h.giveBack hi hloop
  | notifySend i =>
      simp only [NetThread.step] at hstep
      split_ifs at hstep with hi
      obtain ⟨loop, hloop, rfl⟩ := Option.map_eq_some_iff.1 hstep
      exact h.notifySend hi hloop
  | terminate =>
      simp only [NetThread.step] at hstep
      split_ifs at hstep with hlife
      cases hstep
      exact h.terminate hlife.1
  | join =>
      simp only [NetThread.step] at hstep
      split at hstep
      · rename_i joined hlife
        split at hstep
        · rename_i hreturned
          cases hstep
          exact h.join hlife hreturned
        · cases hstep
        · rename_i hlast
          cases hstep
          exact h.finish hlife hlast
      · cases hstep
  | delete =>
      simp only [NetThread.step] at hstep
      split_ifs at hstep with hlife
      cases hstep
      exact h.lifeChange rfl (by rw [hlife]; rfl) (by rw [hlife]; rfl)

/-- **What every run keeps.** -/
theorem manned_trace (cfg : Config) (n : Nat) (events : List NetThreadEvent) :
    ∀ t ∈ trace (NetThread.step cfg) (NetThread.start cfg n) events, Manned t :=
  trace_invariant_of_forall (fun _ _ _ h hstep => manned_step h hstep) (manned_start cfg n)

/-! ## Behind `OnStop` -/

/-- **Nobody is left.**  When `Entry` has returned, all workers are deleted, no
packet is with one of them, none is going to notify, and no worker can do
anything that would touch the network thread. -/
theorem untouched_of_finished {n : Nat} {events : List NetThreadEvent} {t : NetThread}
    (hrun : run (NetThread.step cfg) (NetThread.start cfg n) events = some t)
    (hlife : t.life = .finished ∨ t.life = .deleted) :
    (∀ w ∈ t.workers, w = .deleted) ∧ t.loop.thread.server.workers = [] ∧
      t.loop.thread.notifying = 0 ∧
      ∀ e : NetThreadEvent, e.byWorker = true → NetThread.step cfg t e = none := by
  have h := manned_trace cfg n events t (run_mem_trace hrun)
  have hjoined : t.life.joined t.workers.length = t.workers.length := by
    rcases hlife with hlife | hlife <;> rw [hlife] <;> rfl
  have hslot : ∀ (i : Nat) (w : WorkerPhase), t.workers[i]? = some w → w = .deleted := by
    intro i w hi
    have hlt := (List.getElem?_eq_some_iff.1 hi).1
    have hdeleted := (h.joined i).2 (hjoined.symm ▸ hlt)
    rw [hi] at hdeleted
    exact Option.some.inj hdeleted
  have hall : ∀ w ∈ t.workers, w = .deleted := by
    intro w hw
    obtain ⟨i, hi⟩ := List.mem_iff_getElem?.1 hw
    exact hslot i w hi
  have hnone : ∀ c : WorkerPhase, c ≠ .deleted → t.workers.count c = 0 := by
    intro c hc
    exact List.count_eq_zero.2 fun hmem => hc (hall c hmem)
  have hpackets : t.loop.thread.server.workers = [] := by
    apply List.length_eq_zero_iff.1
    rw [← h.busy]
    exact hnone _ (by simp)
  refine ⟨hall, hpackets, ?_, ?_⟩
  · rw [← h.notifying]
    exact hnone _ (by simp)
  · intro e he
    cases e with
    | pop i =>
        simp only [NetThread.step]
        split
        · cases hslot i _ ‹_›
        · cases hslot i _ ‹_›
        · rfl
    | wakeUp i => exact if_neg fun hi => by cases hslot i _ hi
    | check j =>
        simp [NetThread.step, NetLoop.step, netThread, ServerThread.other, ServerThread.act,
          State.step, State.checkTask, hpackets]
    | handle j resp =>
        simp [NetThread.step, NetLoop.step, netThread, ServerThread.other, ServerThread.act,
          State.step, State.handleTask, hpackets]
    | giveBack i j => exact if_neg fun hi => by cases hslot i _ hi
    | notifySend i => exact if_neg fun hi => by cases hslot i _ hi
    | enter => cases he
    | loop e woken => cases he
    | terminate => cases he
    | join => cases he
    | delete => cases he

/-- Two workers wait for the one request; the worker that it wakes has it when
the thread stops. -/
def oneRequest : List NetThreadEvent :=
  [.enter, .pop 0, .pop 1, .loop (.other (.accept 7 (lit "10.0.0.1") 4000)) none,
    .loop .test none, .loop (.epollWait [.events [⟨.descriptor, false, false, false⟩,
      ⟨.connection 0, false, true, false⟩]]) none, .loop (.process [] []) none,
    .loop (.process [ConnectionProfile.getRequest] []) (some 1), .loop (.process [] []) none,
    .loop (.process [] []) none, .loop .endRound none, .pop 1, .loop .stop none,
    .loop .test none, .terminate]

/-- The workers' last steps, and the end of the threads. -/
def lastSteps : List NetThreadEvent :=
  [.pop 0, .check 0, .handle 0 (lit "ok"), .giveBack 1 0, .notifySend 1, .pop 1, .join, .join,
    .join, .delete]

theorem untouched_of_finished_lastSteps :
    ∃ t, run (NetThread.step State.sampleConfig) (NetThread.start State.sampleConfig 2)
        (oneRequest ++ lastSteps) = some t ∧
      t.loop.thread.server.sendQueue ≠ [] ∧ t.workers ≠ [] ∧ ∀ w ∈ t.workers, w = .deleted := by
  obtain ⟨t, ht, hlife, hqueue, hworkers⟩ :
      ∃ t ∈ run (NetThread.step State.sampleConfig) (NetThread.start State.sampleConfig 2)
          (oneRequest ++ lastSteps),
        t.life = .deleted ∧ t.loop.thread.server.sendQueue ≠ [] ∧ t.workers ≠ [] := by
    decide +kernel
  exact ⟨t, ht, hqueue, hworkers, (untouched_of_finished ht (Or.inr hlife)).1⟩

/-! ## Nobody sleeps over a request -/

/-- **A worker sleeps** only if each request that waits has woken another
worker, which has not looked at the queue since; and behind `Terminate` none
does. -/
theorem covered_trace (cfg : Config) (n : Nat) (events : List NetThreadEvent) :
    ∀ t ∈ trace (NetThread.step cfg) (NetThread.start cfg n) events, .waiting ∈ t.workers →
      t.recvQueue.length ≤ t.workers.count .woken ∧ t.life.terminated = false := by
  intro t ht hwaiting
  have h := manned_trace cfg n events t ht
  refine ⟨h.covered hwaiting, ?_⟩
  rw [← h.terminated]
  exact Bool.eq_false_iff.2 fun hterminated => h.awake hterminated hwaiting

/-- The request wakes one of the two workers, and the other one sleeps on. -/
theorem covered_trace_oneSleeps :
    ∃ t ∈ trace (NetThread.step State.sampleConfig) (NetThread.start State.sampleConfig 2)
        oneRequest,
      .waiting ∈ t.workers ∧ t.recvQueue ≠ [] ∧
        t.recvQueue.length ≤ t.workers.count .woken := by
  obtain ⟨t, ht, hwaiting, hqueue⟩ :
      ∃ t ∈ trace (NetThread.step State.sampleConfig) (NetThread.start State.sampleConfig 2)
          oneRequest, .waiting ∈ t.workers ∧ t.recvQueue ≠ [] := by
    decide +kernel
  exact ⟨t, ht, hwaiting, hqueue, (covered_trace State.sampleConfig 2 oneRequest t ht hwaiting).1⟩

/-! ## How long `OnStop` takes -/

/-- The steps that a worker still takes behind `Terminate`, and its join. -/
def workerWeight : WorkerPhase → Nat
  | .popping => 2
  | .waiting => 2
  | .woken => 2
  | .busy => 4
  | .notifying => 3
  | .returned => 1
  | .deleted => 0

/-- The steps until a packet can be given back. -/
def taskWeight (task : Task) : Nat :=
  match task.stage with
  | .taken => 2
  | .decided _ => 1
  | .handled => 0

/-- The end of the loop of `__NotifyWorkersStop`. -/
def lifeWeight : Life → Nat
  | .joining _ => 1
  | _ => 0

/-- The variant. -/
def NetThread.left (t : NetThread) : Nat :=
  total workerWeight t.workers + total taskWeight t.loop.thread.server.workers + lifeWeight t.life

/-- The events that `OnStop` waits for, and its own. -/
def NetThreadEvent.ofStop : NetThreadEvent → Bool
  | join => true
  | e => e.byWorker

/-- Behind `Run`, an event of the loop is one of the main thread, and it leaves
the requests alone. -/
theorem idle_stepLoop {life : Life} {loop loop' : NetLoop ServerThread}
    {e : LoopEvent (List ReadOutcome) OtherEvent} (hlife : life ≠ .running)
    (hmay : NetThread.mayTake life e = true)
    (hstep : NetLoop.step (netThread cfg) loop e = some loop') :
    loop'.thread.server.recvQueue = loop.thread.server.recvQueue ∧
      loop'.thread.server.workers = loop.thread.server.workers := by
  have hown : decide (life = .running) = false := decide_eq_false hlife
  cases e with
  | other e =>
      cases e with
      | accept fd ip port =>
          obtain ⟨s, hs, rfl⟩ := other_eq (f := .accept fd ip port) (fun _ => rfl) hstep
          obtain ⟨net, -, rfl⟩ := Option.map_eq_some_iff.1 hs
          exact ⟨rfl, rfl⟩
      | tick ms =>
          obtain ⟨s, hs, rfl⟩ := other_eq (f := .tick ms) (fun _ => rfl) hstep
          cases hs
          exact ⟨rfl, rfl⟩
      | heartbeat fd ip port request w =>
          obtain ⟨⟨t, n⟩, ht, rfl⟩ := Option.map_eq_some_iff.1 hstep
          obtain ⟨net, -, rfl, rfl⟩ := heartbeat_eq ht
          exact ⟨rfl, rfl⟩
      | take => cases hmay
      | check j => cases hmay
      | handle j resp => cases hmay
      | giveBack j => cases hmay
      | notifySend => cases hmay
  | stop =>
      cases hstep
      exact ⟨rfl, rfl⟩
  | notifyStop =>
      simp only [NetLoop.step] at hstep
      split_ifs at hstep
      cases hstep
      exact ⟨rfl, rfl⟩
  | test => exact absurd (hown.symm.trans hmay) Bool.false_ne_true
  | epollWait outs => exact absurd (hown.symm.trans hmay) Bool.false_ne_true
  | process outs ws => exact absurd (hown.symm.trans hmay) Bool.false_ne_true
  | handle w => exact absurd (hown.symm.trans hmay) Bool.false_ne_true
  | endRound => exact absurd (hown.symm.trans hmay) Bool.false_ne_true

theorem terminated_step {t t' : NetThread} {e : NetThreadEvent} (h : t.terminated = true)
    (hstep : NetThread.step cfg t e = some t') : t'.terminated = true := by
  cases e with
  | enter =>
      simp only [NetThread.step] at hstep
      split_ifs at hstep
      cases hstep
      exact h
  | loop e woken =>
      simp only [NetThread.step] at hstep
      split_ifs at hstep
      obtain ⟨loop, -, hnotify⟩ := Option.bind_eq_some_iff.1 hstep
      split_ifs at hnotify
      · obtain ⟨workers, -, rfl⟩ := Option.map_eq_some_iff.1 hnotify
        exact h
      · cases hnotify
        exact h
  | pop i =>
      have hpop : ∀ t', t.pop cfg i = some t' → t'.terminated = true := by
        intro t' ht'
        rw [NetThread.pop, if_pos h] at ht'
        cases ht'
        exact h
      simp only [NetThread.step] at hstep
      split at hstep
      · exact hpop _ hstep
      · exact hpop _ hstep
      · cases hstep
  | wakeUp i =>
      simp only [NetThread.step] at hstep
      split_ifs at hstep
      cases hstep
      exact h
  | check j =>
      obtain ⟨loop, -, rfl⟩ := Option.map_eq_some_iff.1 hstep
      exact h
  | handle j resp =>
      obtain ⟨loop, -, rfl⟩ := Option.map_eq_some_iff.1 hstep
      exact h
  | giveBack i j =>
      simp only [NetThread.step] at hstep
      split_ifs at hstep
      obtain ⟨loop, -, rfl⟩ := Option.map_eq_some_iff.1 hstep
      exact h
  | notifySend i =>
      simp only [NetThread.step] at hstep
      split_ifs at hstep
      obtain ⟨loop, -, rfl⟩ := Option.map_eq_some_iff.1 hstep
      exact h
  | terminate =>
      simp only [NetThread.step] at hstep
      split_ifs at hstep
      cases hstep
      rfl
  | join =>
      simp only [NetThread.step] at hstep
      split at hstep
      · split at hstep <;> cases hstep <;> exact h
      · cases hstep
  | delete =>
      simp only [NetThread.step] at hstep
      split_ifs at hstep
      cases hstep
      exact h

theorem Manned.life_ne_running {t : NetThread} (h : Manned t) (hterminated : t.terminated = true) :
    t.life ≠ .starting ∧ t.life ≠ .running := by
  have hlife := h.terminated.symm.trans hterminated
  constructor <;>
    · intro heq
      rw [heq] at hlife
      cases hlife

/-- One worker's next step. -/
theorem left_set {t : NetThread} {i : Nat} {a b : WorkerPhase} (hi : t.workers[i]? = some a)
    (hless : workerWeight b + 1 = workerWeight a) :
    total workerWeight (t.workers.set i b) + 1 = total workerWeight t.workers := by
  have hset := total_set (f := workerWeight) (y := b) hi
  omega

/-- The main thread does not put the end off. -/
theorem left_loop {t t' : NetThread} {e : LoopEvent (List ReadOutcome) OtherEvent}
    {woken : Option Nat} (hlife : t.life ≠ .running)
    (hstep : NetThread.step cfg t (.loop e woken) = some t') : t'.left ≤ t.left := by
  simp only [NetThread.step] at hstep
  split_ifs at hstep with hmay
  obtain ⟨loop, hloop, hnotify⟩ := Option.bind_eq_some_iff.1 hstep
  obtain ⟨hrecv, hworkers⟩ := idle_stepLoop hlife hmay hloop
  rw [if_neg (by rw [hrecv]; exact Nat.lt_irrefl _)] at hnotify
  split_ifs at hnotify
  cases hnotify
  unfold NetThread.left
  rw [hworkers]

/-- Behind `Terminate` a worker that looks at the queue returns. -/
theorem left_pop {t t' : NetThread} {i : Nat} (hterminated : t.terminated = true)
    (hstep : NetThread.step cfg t (.pop i) = some t') : t'.left + 1 ≤ t.left := by
  have hpop : ∀ a, workerWeight a = 2 → t.workers[i]? = some a → t.pop cfg i = some t' →
      t'.left + 1 ≤ t.left := by
    intro a ha hi ht'
    rw [NetThread.pop, if_pos hterminated] at ht'
    cases ht'
    have hset := left_set (b := .returned) hi ha.symm
    unfold NetThread.left
    dsimp only
    omega
  simp only [NetThread.step] at hstep
  split at hstep
  · exact hpop _ rfl ‹_› hstep
  · exact hpop _ rfl ‹_› hstep
  · cases hstep

theorem left_check {t t' : NetThread} {j : Nat}
    (hstep : NetThread.step cfg t (.check j) = some t') : t'.left + 1 ≤ t.left := by
  obtain ⟨loop, hloop, rfl⟩ := Option.map_eq_some_iff.1 hstep
  obtain ⟨s, hs, rfl⟩ := other_eq (f := .check j) (fun _ => rfl) hloop
  simp only [State.step, State.checkTask] at hs
  split at hs
  · rename_i ctx hj
    cases hs
    have hset := total_set (f := taskWeight)
      (y := ⟨ctx, .decided (t.loop.thread.server.isWorkerOverload cfg)⟩) hj
    simp only [taskWeight] at hset
    unfold NetThread.left
    dsimp only
    omega
  · cases hs

theorem left_handle {t t' : NetThread} {j : Nat} {resp : Bytes}
    (hstep : NetThread.step cfg t (.handle j resp) = some t') : t'.left + 1 ≤ t.left := by
  obtain ⟨loop, hloop, rfl⟩ := Option.map_eq_some_iff.1 hstep
  obtain ⟨s, hs, rfl⟩ := other_eq (f := .handle j resp) (fun _ => rfl) hloop
  obtain ⟨ctx, overload, hj, -, -, hworkers, -⟩ := State.handleTask_eq hs
  have hset := total_set (f := taskWeight) (y := ⟨ctx, .handled⟩) hj
  simp only [taskWeight] at hset
  unfold NetThread.left
  simp only [hworkers]
  omega

theorem left_giveBack {t t' : NetThread} {i j : Nat}
    (hstep : NetThread.step cfg t (.giveBack i j) = some t') : t'.left + 1 ≤ t.left := by
  simp only [NetThread.step] at hstep
  split_ifs at hstep with hi
  obtain ⟨loop, hloop, rfl⟩ := Option.map_eq_some_iff.1 hstep
  obtain ⟨⟨t₁, n⟩, ht₁, rfl⟩ := Option.map_eq_some_iff.1 hloop
  obtain ⟨t₂, ht₂, heq⟩ := Option.map_eq_some_iff.1 ht₁
  obtain ⟨s, hs, rfl⟩ := act_eq ht₂
  cases heq
  have hset := left_set (b := .notifying) hi rfl
  simp only [State.step, State.giveBackTask] at hs
  split at hs
  · rename_i ctx hj
    have herase := total_eraseIdx (f := taskWeight) hj
    simp only [taskWeight] at herase
    split at hs <;> cases hs
    unfold NetThread.left
    show total workerWeight (t.workers.set i .notifying) +
      total taskWeight (t.loop.thread.server.workers.eraseIdx j) + lifeWeight t.life + 1 ≤ _
    omega
  · cases hs

theorem left_notifySend {t t' : NetThread} {i : Nat}
    (hstep : NetThread.step cfg t (.notifySend i) = some t') : t'.left + 1 ≤ t.left := by
  simp only [NetThread.step] at hstep
  split_ifs at hstep with hi
  obtain ⟨loop, hloop, rfl⟩ := Option.map_eq_some_iff.1 hstep
  obtain ⟨⟨t₁, n⟩, ht₁, rfl⟩ := Option.map_eq_some_iff.1 hloop
  simp only [netThread, ServerThread.other] at ht₁
  split_ifs at ht₁
  cases ht₁
  have hset := left_set (b := .popping) hi rfl
  unfold NetThread.left
  show total workerWeight (t.workers.set i .popping) +
    total taskWeight t.loop.thread.server.workers + lifeWeight t.life + 1 ≤ _
  omega

/-- A worker is joined, or all of them have been. -/
theorem left_join {t t' : NetThread} (hstep : NetThread.step cfg t .join = some t') :
    t'.left + 1 ≤ t.left := by
  simp only [NetThread.step] at hstep
  split at hstep
  · rename_i joined hlife
    unfold NetThread.left
    rw [hlife]
    split at hstep
    · rename_i hreturned
      cases hstep
      have hset := left_set (b := .deleted) hreturned rfl
      show total workerWeight (t.workers.set joined .deleted) +
        total taskWeight t.loop.thread.server.workers + 1 + 1 ≤
          total workerWeight t.workers + total taskWeight t.loop.thread.server.workers + 1
      omega
    · cases hstep
    · cases hstep
      exact Nat.le_refl _
  · cases hstep

/-- **Behind `Terminate`**, each step of a worker and each join brings the end
of `OnStop` nearer, and the main thread does not put it off. -/
theorem variant_left (cfg : Config) :
    Variant (NetThread.step cfg) (fun t => Manned t ∧ t.terminated = true) NetThreadEvent.ofStop
      NetThread.left := by
  rintro t e t' ⟨h, hterminated⟩ hstep
  refine ⟨⟨manned_step h hstep, terminated_step hterminated hstep⟩, ?_⟩
  obtain ⟨hstarting, hrunning⟩ := h.life_ne_running hterminated
  cases e with
  | enter =>
      simp only [NetThread.step] at hstep
      exact absurd hstep (by rw [if_neg hstarting]; simp)
  | loop e woken => exact left_loop hrunning hstep
  | pop i => exact left_pop hterminated hstep
  | wakeUp i =>
      simp only [NetThread.step] at hstep
      split_ifs at hstep with hi
      exact absurd (List.mem_of_getElem? hi) (h.awake hterminated)
  | check j => exact left_check hstep
  | handle j resp => exact left_handle hstep
  | giveBack i j => exact left_giveBack hstep
  | notifySend i => exact left_notifySend hstep
  | terminate =>
      simp only [NetThread.step] at hstep
      exact absurd hstep (by rw [if_neg fun hlife => hrunning hlife.1]; simp)
  | join => exact left_join hstep
  | delete =>
      simp only [NetThread.step] at hstep
      split_ifs at hstep with hlife
      cases hstep
      unfold NetThread.left
      rw [hlife]
      exact Nat.le_refl _

/-- The variant is bounded by the number of the workers. -/
theorem Manned.left_le {t : NetThread} (h : Manned t) : t.left ≤ 6 * t.workers.length + 1 := by
  have hworkers : total workerWeight t.workers ≤ 4 * t.workers.length := by
    refine total_le ?_ _
    intro w
    cases w <;> decide
  have htasks : total taskWeight t.loop.thread.server.workers ≤
      2 * t.loop.thread.server.workers.length := by
    refine total_le ?_ _
    rintro ⟨ctx, stage⟩
    cases stage <;> exact Nat.le_of_ble_eq_true rfl
  have hbusy : t.loop.thread.server.workers.length ≤ t.workers.length :=
    h.busy ▸ List.count_le_length
  have hlife : lifeWeight t.life ≤ 1 := by
    cases t.life <;> exact Nat.le_of_ble_eq_true rfl
  unfold NetThread.left
  omega

/-- A worker that has a packet goes on with it. -/
theorem busy_goes_on {cfg : Config} {t : NetThread} {i : Nat} {task : Task} {rest : List Task}
    (h : Manned t) (hi : t.workers[i]? = some .busy)
    (hworkers : t.loop.thread.server.workers = task :: rest) :
    ∃ e : NetThreadEvent, e.ofStop = true ∧ NetThread.step cfg t e ≠ none := by
  obtain ⟨x, k, hx, hk⟩ : ∃ x k, task.ctx.returnPacket = some x ∧
      t.loop.thread.server.net.ctxs x = some k :=
    h.carried.returnPacket (by simp [hworkers])
  obtain ⟨ctx, stage⟩ := task
  replace hx : ctx.returnPacket = some x := hx
  cases stage with
  | taken =>
      refine ⟨.check 0, rfl, ?_⟩
      simp [NetThread.step, NetLoop.step, netThread, ServerThread.other, ServerThread.act,
        State.step, State.checkTask, hworkers]
  | decided overload =>
      refine ⟨.handle 0 [], rfl, ?_⟩
      simp [NetThread.step, NetLoop.step, netThread, ServerThread.other, ServerThread.act,
        State.step, State.handleTask, hworkers, hx, hk]
  | handled =>
      refine ⟨.giveBack i 0, rfl, ?_⟩
      simp [NetThread.step, NetLoop.step, netThread, ServerThread.other, ServerThread.act,
        State.step, State.giveBackTask, hworkers, hx, hi]

/-- **`OnStop` does not hang**: while it joins, one of the events that it waits
for can happen. -/
theorem Manned.goes_on {cfg : Config} {t : NetThread} {joined : Nat} (h : Manned t)
    (hlife : t.life = .joining joined) :
    ∃ e : NetThreadEvent, e.ofStop = true ∧ NetThread.step cfg t e ≠ none := by
  have hterminated : t.terminated = true := by
    rw [h.terminated, hlife]
    rfl
  cases hi : t.workers[joined]? with
  | none =>
      refine ⟨.join, rfl, ?_⟩
      simp [NetThread.step, hlife, hi]
  | some w =>
      cases w with
      | popping =>
          refine ⟨.pop joined, rfl, ?_⟩
          simp [NetThread.step, NetThread.pop, hi, hterminated]
      | waiting => exact absurd (List.mem_of_getElem? hi) (h.awake hterminated)
      | woken =>
          refine ⟨.pop joined, rfl, ?_⟩
          simp [NetThread.step, NetThread.pop, hi, hterminated]
      | busy =>
          have hpos : 0 < t.loop.thread.server.workers.length :=
            h.busy ▸ List.count_pos_iff.2 (List.mem_of_getElem? hi)
          obtain ⟨task, rest, hworkers⟩ := List.exists_cons_of_length_pos hpos
          exact busy_goes_on h hi hworkers
      | notifying =>
          have hpos : 0 < t.loop.thread.notifying :=
            h.notifying ▸ List.count_pos_iff.2 (List.mem_of_getElem? hi)
          refine ⟨.notifySend joined, rfl, ?_⟩
          simp [NetThread.step, NetLoop.step, netThread, ServerThread.other, hi,
            Nat.ne_of_gt hpos]
      | returned =>
          refine ⟨.join, rfl, ?_⟩
          simp [NetThread.step, hlife, hi]
      | deleted =>
          have hlt := (h.joined joined).1 hi
          rw [hlife] at hlt
          exact absurd hlt (Nat.lt_irrefl _)

/-- **`OnStop` comes to its end.**  From `Terminate` on no worker sleeps, the
workers and `OnStop` take no more steps than the bound, and when none of these
is left, `Entry` has returned. -/
theorem joins_within {n : Nat} {start rest : List NetThreadEvent} {t t' : NetThread}
    (hstart : run (NetThread.step cfg) (NetThread.start cfg n) start = some t)
    (hterminated : t.terminated = true)
    (hrest : run (NetThread.step cfg) t rest = some t') :
    .waiting ∉ t'.workers ∧ rest.countP NetThreadEvent.ofStop ≤ 6 * t.workers.length + 1 ∧
      ((∀ e : NetThreadEvent, e.ofStop = true → NetThread.step cfg t' e = none) →
        t'.life = .finished ∨ t'.life = .deleted) := by
  have h := manned_trace cfg n start t (run_mem_trace hstart)
  obtain ⟨⟨h', hterminated'⟩, hcount⟩ := (variant_left cfg).add_countP_le ⟨h, hterminated⟩ hrest
  refine ⟨h'.awake hterminated', ?_, ?_⟩
  · exact Nat.le_trans (Nat.le_trans (Nat.le_add_left _ _) hcount) h.left_le
  · intro hnone
    obtain ⟨hstarting, hrunning⟩ := h'.life_ne_running hterminated'
    cases hlife : t'.life with
    | starting => exact absurd hlife hstarting
    | running => exact absurd hlife hrunning
    | joining joined =>
        obtain ⟨e, he, hsome⟩ := h'.goes_on hlife
        exact absurd (hnone e he) hsome
    | finished => exact Or.inl rfl
    | deleted => exact Or.inr rfl

theorem joins_within_lastSteps :
    ∃ t t', run (NetThread.step State.sampleConfig) (NetThread.start State.sampleConfig 2)
        oneRequest = some t ∧
      run (NetThread.step State.sampleConfig) t lastSteps = some t' ∧
      t.workers = [.woken, .busy] ∧ lastSteps.countP NetThreadEvent.ofStop ≤ 13 := by
  obtain ⟨t, ht, t', ht', hterminated, hworkers⟩ :
      ∃ t ∈ run (NetThread.step State.sampleConfig) (NetThread.start State.sampleConfig 2)
          oneRequest,
        ∃ t' ∈ run (NetThread.step State.sampleConfig) t lastSteps,
          t.terminated = true ∧ t.workers = [.woken, .busy] := by
    decide +kernel
  refine ⟨t, t', ht, ht', hworkers, ?_⟩
  have hcount := (joins_within ht hterminated ht').2.1
  rw [hworkers] at hcount
  exact hcount

end Unixtar.WebServer
