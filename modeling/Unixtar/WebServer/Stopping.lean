import Unixtar.WebServer.EventLoop

/-!
# Stopping a network thread

`NotifyStop` clears `running_` and arms the notifier.  The notification can be
overwritten by a worker's `NotifySend` before it is reported; `running_` stays
cleared, and any notification ends the wait.

Behind the first line of `NotifyStop` the thread waits once more at most.  What
it still does is bounded by the batch that this wait returns and by the packets
that are on their way: a request that is read makes one more return packet, and
a return packet is popped once.

## Main results

* `load_step` — what an event does to the number of packets on their way.
* `stops_within` — how many steps the thread still takes.
* `wakes_trace` — it does not sleep over a stop.
-/

namespace Unixtar.WebServer

open Unixtar.Lib NetState NetLoop

/-! ## Packets on their way -/

/-- Requests that wait, requests that a worker has, and return packets that
wait. -/
def State.load (s : State) : Nat := s.recvQueue.length + s.workers.length + s.sendQueue.length

theorem length_pushBack_le {α : Type} (queue : List α) (v : α) :
    (pushBack queue v).length ≤ queue.length + 1 := by
  unfold pushBack
  split_ifs
  · exact Nat.le_succ _
  · rw [List.length_append]
    exact Nat.le_refl _

theorem load_handleApplicationPacket {cfg : Config} {s t : State} {ctx : RecvContext}
    (h : s.handleApplicationPacket cfg ctx = some t) :
    t.load ≤ s.load + if State.refuses (s.isWorkerFullyLoad cfg) ctx.applicationPacket then 0
      else 1 := by
  unfold State.handleApplicationPacket at h
  by_cases hrefuses : State.refuses (s.isWorkerFullyLoad cfg) ctx.applicationPacket = true
  · rw [if_pos hrefuses] at h ⊢
    obtain ⟨net, -, rfl⟩ := Option.map_eq_some_iff.1 h
    exact Nat.le_refl _
  · rw [if_neg hrefuses] at h ⊢
    cases h
    have hpush := length_pushBack_le s.recvQueue ctx
    show (pushBack s.recvQueue ctx).length + s.workers.length + s.sendQueue.length ≤ _
    unfold State.load
    omega

/-- A read event puts one more request on its way at most, and none if its
connection is deleted. -/
theorem load_onReadEvent {cfg : Config} {s t : State} {id : ConnId} {outs : List ReadOutcome}
    (h : s.onReadEvent cfg id outs = some t) :
    t.load ≤ s.load + if s.onReadEventResult cfg id outs then 0 else 1 := by
  unfold State.onReadEvent at h
  unfold State.onReadEventResult
  split at h
  · rename_i net ctx hread
    simp only [hread]
    exact load_handleApplicationPacket (s := { s with net }) h
  · rename_i net hread
    cases h
    exact Nat.le_add_right _ _
  · rename_i net hread
    cases h
    exact Nat.le_add_right _ _
  · cases h
  · cases h

/-- The events that neither pass a packet on nor send one. -/
def Event.keepsLoad : Event → Bool
  | .readEvent _ _ => false
  | .handleSend _ => false
  | _ => true

theorem load_step {cfg : Config} {s t : State} {e : Event} (he : e.keepsLoad = true)
    (hstep : State.step cfg s e = some t) : t.load ≤ s.load := by
  have hnet : ∀ {net : Option NetState}, net.map (fun net => { s with net }) = some t →
      t.load ≤ s.load := by
    intro net h
    obtain ⟨net, -, rfl⟩ := Option.map_eq_some_iff.1 h
    exact Nat.le_refl _
  cases e with
  | accept fd ip port => exact hnet hstep
  | readEvent id outs => cases he
  | writeEvent id ws => exact hnet hstep
  | errEvent id => exact hnet hstep
  | clearTimeout =>
      cases hstep
      exact Nat.le_refl _
  | tick ms =>
      cases hstep
      exact Nat.le_refl _
  | take =>
      simp only [State.step, State.takeTask] at hstep
      split at hstep
      · cases hstep
      · rename_i ctx rest hqueue
        cases hstep
        unfold State.load
        dsimp only
        rw [hqueue, List.length_cons, List.length_append, List.length_singleton]
        omega
  | check i =>
      simp only [State.step, State.checkTask] at hstep
      split at hstep <;> cases hstep
      unfold State.load
      rw [List.length_set]
  | handle i resp =>
      obtain ⟨ctx, overload, -, hrecv, hsend, hworkers, -⟩ := State.handleTask_eq hstep
      unfold State.load
      rw [hrecv, hsend, hworkers, List.length_set]
  | giveBack i =>
      simp only [State.step, State.giveBackTask] at hstep
      split at hstep
      · rename_i ctx hworker
        split at hstep
        · cases hstep
        · rename_i x hx
          cases hstep
          have hlt : i < s.workers.length := (List.getElem?_eq_some_iff.1 hworker).1
          have hpush := length_pushBack_le s.sendQueue x
          have herase := List.length_eraseIdx_of_lt hlt
          unfold State.load
          dsimp only
          omega
      · cases hstep
  | handleSend w => cases he

/-! ## Steps of a thread that is told to stop -/

/-- What is to be done about an event: a read event may put a request on its
way, and be followed by a write event. -/
def eventWeight (ev : EpollEvent) : Nat := if ev.input then 4 else 2

def batchWeight (todo : List EpollEvent) : Nat := total eventWeight todo

/-- What is to be done in this round. -/
def phaseWeight : Phase → Nat
  | .ended => 0
  | .testing => 1
  | .notified notifications => 2 + notifications.length
  | .events todo notifications => 3 + batchWeight todo + notifications.length
  | .waiting => 4 + 4 * SocketEpoll.kMaxFds

/-- The variant. -/
def remaining (l : NetLoop ServerThread) : Nat := phaseWeight l.phase + l.thread.server.load

theorem batchWeight_le (todo : List EpollEvent) : batchWeight todo ≤ 4 * todo.length := by
  apply total_le
  intro ev
  unfold eventWeight
  split_ifs <;> omega

theorem two_le_eventWeight (ev : EpollEvent) : 2 ≤ eventWeight ev := by
  unfold eventWeight
  split_ifs <;> omega

theorem load_act {cfg : Config} {e : Event} (he : e.keepsLoad = true) {t t' : ServerThread}
    (h : t.act cfg e = some t') : t'.server.load ≤ t.server.load := by
  obtain ⟨s, hs, rfl⟩ := act_eq h
  exact load_step he hs

/-- The first event of the batch, or the first half of it, is done. -/
theorem remaining_onEvent {cfg : Config} {l l' : NetLoop ServerThread} {outs : List ReadOutcome}
    {ws : List WriteOutcome} {ev : EpollEvent} {todo : List EpollEvent} {ns : List Notification}
    (hphase : l.phase = .events (ev :: todo) ns)
    (h : l.onEvent (netThread cfg) outs ws ev todo ns = some l') :
    remaining l' + 1 ≤ remaining l := by
  have hweight := two_le_eventWeight ev
  have hbefore : remaining l = 3 + (eventWeight ev + batchWeight todo) + ns.length +
      l.thread.server.load := by
    unfold remaining
    rw [hphase]
    rfl
  -- a connection's event that is done with
  have hdone : ∀ {t : ServerThread}, t.server.load ≤ l.thread.server.load →
      l' = { l with thread := t, phase := .events todo ns } → remaining l' + 1 ≤ remaining l := by
    rintro t hload rfl
    show 3 + batchWeight todo + ns.length + t.server.load + 1 ≤ _
    omega
  unfold NetLoop.onEvent at h
  split at h
  · split_ifs at h
    · cases h
      show 0 + l.thread.server.load + 1 ≤ _
      omega
    · cases h
      show 3 + batchWeight todo + (ns ++ [_]).length + l.thread.server.load + 1 ≤ _
      rw [List.length_append, List.length_singleton]
      omega
  · cases h
    exact hdone (t := l.thread) (Nat.le_refl _) rfl
  · rename_i id hdata
    split_ifs at h with herr hinput
    · obtain ⟨t, ht, rfl⟩ := Option.map_eq_some_iff.1 h
      exact hdone (load_act (e := .errEvent id) rfl ht) rfl
    · obtain ⟨⟨t, ret⟩, ht, rfl⟩ := Option.map_eq_some_iff.1 h
      obtain ⟨t₁, ht₁, heq⟩ := Option.map_eq_some_iff.1 ht
      obtain ⟨s, hs, rfl⟩ := act_eq ht₁
      cases heq
      have hload : s.load ≤ _ := load_onReadEvent hs
      have hev : eventWeight ev = 4 := if_pos hinput
      cases hdeleted : l.thread.server.onReadEventResult cfg id outs with
      | true =>
          rw [hdeleted] at hload
          replace hload : s.load ≤ l.thread.server.load := hload
          show 3 + batchWeight todo + ns.length + s.load + 1 ≤ _
          omega
      | false =>
          -- the write event is still to come
          rw [hdeleted] at hload
          replace hload : s.load ≤ l.thread.server.load + 1 := hload
          show 3 + (2 + batchWeight todo) + ns.length + s.load + 1 ≤ _
          omega
    · obtain ⟨t, ht, rfl⟩ := Option.map_eq_some_iff.1 h
      exact hdone (load_act (e := .writeEvent id ws) rfl ht) rfl
    · cases h
      exact hdone (t := l.thread) (Nat.le_refl _) rfl

theorem running_onEvent {cfg : Config} {l l' : NetLoop ServerThread} {outs : List ReadOutcome}
    {ws : List WriteOutcome} {ev : EpollEvent} {todo : List EpollEvent} {ns : List Notification}
    (hrunning : l.running = false)
    (h : l.onEvent (netThread cfg) outs ws ev todo ns = some l') : l'.running = false := by
  unfold NetLoop.onEvent at h
  split at h
  · split_ifs at h <;> cases h
    · rfl
    · exact hrunning
  · cases h
    exact hrunning
  · split_ifs at h
    · obtain ⟨t, -, rfl⟩ := Option.map_eq_some_iff.1 h
      exact hrunning
    · obtain ⟨⟨t, ret⟩, -, rfl⟩ := Option.map_eq_some_iff.1 h
      cases ret with
      | kept => exact hrunning
      | deleted => exact hrunning
      | threw => rfl
    · obtain ⟨t, -, rfl⟩ := Option.map_eq_some_iff.1 h
      exact hrunning
    · cases h
      exact hrunning

theorem remaining_onWait {l l' : NetLoop ServerThread} {net : NetState} {outs : List WaitOutcome}
    (hphase : l.phase = .waiting) (h : l.onWait net outs = some l') :
    l'.running = l.running ∧ remaining l' + 1 ≤ remaining l := by
  have hbefore : remaining l = 4 + 4 * SocketEpoll.kMaxFds + l.thread.server.load := by
    unfold remaining
    rw [hphase]
    rfl
  unfold onWait at h
  split at h
  · cases h
  · split_ifs at h <;> cases h <;> refine ⟨rfl, ?_⟩
    · show 1 + l.thread.server.load + 1 ≤ _
      omega
    · show 1 + l.thread.server.load + 1 ≤ _
      omega
    · show 0 + l.thread.server.load + 1 ≤ _
      omega
  · rename_i evs errno _
    split_ifs at h with hreports
    cases h
    refine ⟨rfl, ?_⟩
    have hbatch := batchWeight_le evs
    have hsize := hreports.size
    show 3 + batchWeight evs + 0 + l.thread.server.load + 1 ≤ _
    omega

/-- One round of `HandleNotification` pops a return packet, or is the last one
for its notification. -/
theorem load_handleNotification {cfg : Config} {n : Notification} {w : WriteOutcome}
    {t t' : ServerThread} {more : Bool}
    (h : (netThread cfg).handleNotification n w t = some (t', more)) :
    t'.server.load + (if more then 1 else 0) ≤ t.server.load := by
  simp only [netThread] at h
  split_ifs at h
  · unfold ServerThread.handleSend at h
    split at h
    · cases h
      exact Nat.le_refl _
    · rename_i x rest hqueue
      obtain ⟨t₁, ht₁, heq⟩ := Option.map_eq_some_iff.1 h
      obtain ⟨s, hs, rfl⟩ := act_eq ht₁
      cases heq
      simp only [State.step, State.handleSend, hqueue] at hs
      obtain ⟨r, -, rfl⟩ := Option.map_eq_some_iff.1 hs
      show t.server.recvQueue.length + t.server.workers.length + rest.length + 1 ≤ t.server.load
      unfold State.load
      rw [hqueue, List.length_cons]
      omega
  · cases h
    exact Nat.le_refl _

theorem load_other {cfg : Config} {e : OtherEvent} {t t' : ServerThread}
    {n : Option Notification} (h : (netThread cfg).other e t = some (t', n)) :
    t'.server.load ≤ t.server.load := by
  simp only [netThread] at h
  cases e with
  | notifySend =>
      simp only [ServerThread.other] at h
      split_ifs at h
      cases h
      exact Nat.le_refl _
  | heartbeat fd ip port request w =>
      obtain ⟨net, -, -, rfl⟩ := heartbeat_eq h
      exact Nat.le_refl _
  | _ =>
      simp only [ServerThread.other] at h
      obtain ⟨t₁, ht₁, heq⟩ := Option.map_eq_some_iff.1 h
      have hload := load_act rfl ht₁
      cases heq
      exact hload

theorem remaining_test {l : NetLoop ServerThread} (hphase : l.phase = .testing)
    (hrunning : l.running = false) :
    remaining { l with phase := if l.running then .waiting else .ended } + 1 ≤ remaining l := by
  unfold remaining
  dsimp only
  rw [hrunning, hphase]
  show 0 + l.thread.server.load + 1 ≤ 1 + l.thread.server.load
  omega

theorem remaining_processed {l : NetLoop ServerThread} {ns : List Notification}
    (hphase : l.phase = .events [] ns) :
    remaining { l with phase := .notified ns } + 1 ≤ remaining l := by
  unfold remaining
  rw [hphase]
  show 2 + ns.length + l.thread.server.load + 1 ≤ 3 + 0 + ns.length + l.thread.server.load
  omega

/-- A notification is handled in rounds, each of which takes a return packet
except the last one. -/
theorem remaining_handle {cfg : Config} {l : NetLoop ServerThread} {n : Notification}
    {rest : List Notification} {w : WriteOutcome} {t : ServerThread} {more : Bool}
    (hphase : l.phase = .notified (n :: rest))
    (h : (netThread cfg).handleNotification n w l.thread = some (t, more)) :
    remaining { l with thread := t, phase := .notified (if more then n :: rest else rest) } + 1 ≤
      remaining l := by
  have hload := load_handleNotification h
  have hbefore : remaining l = 2 + (rest.length + 1) + l.thread.server.load := by
    unfold remaining
    rw [hphase]
    rfl
  cases more with
  | true =>
      show 2 + (rest.length + 1) + t.server.load + 1 ≤ _
      simp only [if_true] at hload
      omega
  | false =>
      show 2 + rest.length + t.server.load + 1 ≤ _
      simp only [Bool.false_eq_true, if_false] at hload
      omega

theorem remaining_endRound {cfg : Config} {l l' : NetLoop ServerThread}
    (hphase : l.phase = .notified []) (h : l.endRound (netThread cfg) = some l') :
    l'.running = l.running ∧ remaining l' + 1 ≤ remaining l := by
  have hbefore : remaining l = 2 + l.thread.server.load := by
    unfold remaining
    rw [hphase]
    rfl
  rcases endRound_cases h with ⟨t, ht, rfl⟩ | rfl
  · have hact : l.thread.act cfg .clearTimeout = some t := ht
    have hload := load_act rfl hact
    refine ⟨rfl, ?_⟩
    show 1 + t.server.load + 1 ≤ _
    omega
  · refine ⟨rfl, ?_⟩
    show 1 + l.thread.server.load + 1 ≤ _
    omega

/-- The steps of the other threads leave the loop where it is. -/
theorem remaining_other {cfg : Config} {l : NetLoop ServerThread} {e : OtherEvent}
    {t : ServerThread} {n : Option Notification}
    (h : (netThread cfg).other e l.thread = some (t, n)) :
    (notifyEpoll n { l with thread := t }).running = l.running ∧
      remaining (notifyEpoll n { l with thread := t }) ≤ remaining l := by
  have hload := load_other h
  constructor
  · cases n <;> rfl
  · unfold remaining
    rw [notifyEpoll_phase, notifyEpoll_thread]
    exact Nat.add_le_add_left hload _

/-- **A thread that is told to stop**: every step of its own brings it nearer
to its end, and no other thread puts that off. -/
theorem variant_remaining (cfg : Config) :
    Variant (NetLoop.step (netThread cfg)) (fun l => l.running = false) own remaining := by
  intro l e l' hrunning hstep
  cases e with
  | test =>
      simp only [NetLoop.step] at hstep
      split at hstep
      · rename_i hphase
        cases hstep
        exact ⟨hrunning, remaining_test hphase hrunning⟩
      · cases hstep
  | epollWait outs =>
      simp only [NetLoop.step] at hstep
      split at hstep
      · rename_i hphase
        obtain ⟨hsame, hle⟩ := remaining_onWait hphase hstep
        exact ⟨hsame.trans hrunning, hle⟩
      · cases hstep
  | process outs ws =>
      simp only [NetLoop.step] at hstep
      split at hstep
      · rename_i ns hphase
        cases hstep
        exact ⟨hrunning, remaining_processed hphase⟩
      · rename_i ev todo ns hphase
        exact ⟨running_onEvent hrunning hstep, remaining_onEvent hphase hstep⟩
      · cases hstep
  | handle w =>
      simp only [NetLoop.step] at hstep
      split at hstep
      · rename_i n rest hphase
        obtain ⟨⟨t, more⟩, ht, rfl⟩ := Option.map_eq_some_iff.1 hstep
        exact ⟨hrunning, remaining_handle hphase ht⟩
      · cases hstep
  | endRound =>
      simp only [NetLoop.step] at hstep
      split at hstep
      · rename_i hphase
        obtain ⟨hsame, hle⟩ := remaining_endRound hphase hstep
        exact ⟨hsame.trans hrunning, hle⟩
      · cases hstep
  | other e =>
      obtain ⟨⟨t, n⟩, ht, rfl⟩ := Option.map_eq_some_iff.1 hstep
      obtain ⟨hsame, hle⟩ := remaining_other ht
      exact ⟨hsame.trans hrunning, hle⟩
  | stop =>
      cases hstep
      exact ⟨rfl, Nat.le_refl _⟩
  | notifyStop =>
      simp only [NetLoop.step] at hstep
      split_ifs at hstep
      cases hstep
      exact ⟨hrunning, Nat.le_refl _⟩

/-! ## A batch is not longer than `kMaxFds` -/

/-- The events and the notifications of a batch. -/
def batchSize : Phase → Nat
  | .events todo notifications => todo.length + notifications.length
  | .notified notifications => notifications.length
  | _ => 0

theorem phaseWeight_le {phase : Phase} (h : batchSize phase ≤ SocketEpoll.kMaxFds) :
    phaseWeight phase ≤ 4 + 4 * SocketEpoll.kMaxFds := by
  cases phase with
  | testing => exact Nat.le_add_right_of_le (by decide)
  | waiting => exact Nat.le_refl _
  | events todo notifications =>
      have hbatch := batchWeight_le todo
      replace h : todo.length + notifications.length ≤ SocketEpoll.kMaxFds := h
      show 3 + batchWeight todo + notifications.length ≤ _
      omega
  | notified notifications =>
      replace h : notifications.length ≤ SocketEpoll.kMaxFds := h
      show 2 + notifications.length ≤ _
      omega
  | ended => exact Nat.zero_le _

theorem batchSize_processed {ev : EpollEvent} {todo : List EpollEvent} {ns : List Notification}
    {phase : Phase} (h : Processed ev todo ns phase) :
    batchSize phase ≤ batchSize (.events (ev :: todo) ns) := by
  cases h with
  | stopped _ => exact Nat.zero_le _
  | collected _ =>
      show todo.length + (ns ++ [Notification.send]).length ≤ (ev :: todo).length + ns.length
      simp only [List.length_append, List.length_cons, List.length_nil]
      omega
  | done _ => exact Nat.add_le_add_right (Nat.le_succ _) _
  | read ev' _ _ => exact Nat.le_refl _

theorem batchSize_step {cfg : Config} {l l' : NetLoop ServerThread}
    {e : LoopEvent (List ReadOutcome) OtherEvent} (h : batchSize l.phase ≤ SocketEpoll.kMaxFds)
    (hstep : NetLoop.step (netThread cfg) l e = some l') :
    batchSize l'.phase ≤ SocketEpoll.kMaxFds := by
  cases e with
  | test =>
      simp only [NetLoop.step] at hstep
      split at hstep <;> cases hstep
      show batchSize (if l.running then .waiting else .ended) ≤ _
      cases l.running <;> exact Nat.zero_le _
  | epollWait outs =>
      simp only [NetLoop.step] at hstep
      split at hstep
      · unfold onWait at hstep
        split at hstep
        · cases hstep
        · split_ifs at hstep <;> cases hstep <;> exact Nat.zero_le _
        · split_ifs at hstep with hreports
          cases hstep
          exact hreports.size
      · cases hstep
  | process outs ws =>
      simp only [NetLoop.step] at hstep
      split at hstep
      · rename_i ns hphase
        rw [hphase] at h
        cases hstep
        exact Nat.le_trans (Nat.le_add_left _ _) h
      · rename_i ev todo ns hphase
        rw [hphase] at h
        exact Nat.le_trans (batchSize_processed (processed_onEvent hstep)) h
      · cases hstep
  | handle w =>
      simp only [NetLoop.step] at hstep
      split at hstep
      · rename_i n rest hphase
        rw [hphase] at h
        obtain ⟨⟨t, more⟩, -, rfl⟩ := Option.map_eq_some_iff.1 hstep
        cases more with
        | true => exact h
        | false => exact Nat.le_trans (Nat.le_succ _) h
      · cases hstep
  | endRound =>
      simp only [NetLoop.step] at hstep
      split at hstep
      · rcases endRound_cases hstep with ⟨t, -, rfl⟩ | rfl <;> exact Nat.zero_le _
      · cases hstep
  | other e =>
      rw [(not_own_step rfl hstep).1]
      exact h
  | stop =>
      rw [(not_own_step rfl hstep).1]
      exact h
  | notifyStop =>
      rw [(not_own_step rfl hstep).1]
      exact h

/-- **A stop is heeded.**  Behind `running_ = false` the thread does not enter
another wait, it takes no more steps than the bound, whatever workers give back
in the meantime, and where it waits, the notification wakes it. -/
theorem stops_within {cfg : Config} {start rest : List (LoopEvent (List ReadOutcome) OtherEvent)}
    {l l' : NetLoop ServerThread}
    (hstart : run (NetLoop.step (netThread cfg)) (launch (ServerThread.init cfg)) start = some l)
    (hrest : run (NetLoop.step (netThread cfg)) l (.stop :: rest) = some l') :
    rest.countP isWait ≤ waits l ∧
      rest.countP own ≤ 4 + 4 * SocketEpoll.kMaxFds + l.thread.server.load ∧
      (l'.phase = .waiting → l'.stopping = true ∨ ∃ n, l'.armed = some (.notification n)) := by
  have hsize : ∀ l ∈ trace (NetLoop.step (netThread cfg)) (launch (ServerThread.init cfg)) start,
      batchSize l.phase ≤ SocketEpoll.kMaxFds :=
    trace_invariant_of_forall (fun _ _ _ h hstep => batchSize_step h hstep) (Nat.zero_le _)
  have hweight := phaseWeight_le (hsize l (run_mem_trace hstart))
  have hwakes := wakes_trace (netThread cfg) (ServerThread.init cfg) (start ++ .stop :: rest) l'
    (run_mem_trace (run_append_some hstart hrest))
  replace hrest : run (NetLoop.step (netThread cfg))
    { l with running := false, stopping := true } rest = some l' := hrest
  obtain ⟨-, hwaits⟩ := (variant_waits (netThread cfg)).add_countP_le rfl hrest
  obtain ⟨hstopped, howns⟩ := (variant_remaining cfg).add_countP_le rfl hrest
  refine ⟨Nat.le_trans (Nat.le_add_left _ _) hwaits, ?_, hwakes hstopped⟩
  have hbound : rest.countP own ≤ phaseWeight l.phase + l.thread.server.load :=
    Nat.le_trans (Nat.le_add_left _ _) howns
  exact Nat.le_trans hbound (Nat.add_le_add_right hweight _)

/-- The stop comes while the thread waits, and its notification is overwritten
by a worker's; the wait ends, the return packet is sent, and the loop is
over. -/
def overwrittenStop : List (LoopEvent (List ReadOutcome) OtherEvent) :=
  [.notifyStop, .other .notifySend,
    .epollWait [.events [⟨.notification .send, false, false, true⟩]], .process [] [],
    .process [] [], .handle (.wrote 2), .handle .eagain, .endRound, .test]

theorem stops_within_overwrittenStop :
    ∃ l l', run (NetLoop.step (netThread State.sampleConfig))
        (launch (ServerThread.init State.sampleConfig)) (twoConnections.dropLast) = some l ∧
      run (NetLoop.step (netThread State.sampleConfig)) l (.stop :: overwrittenStop) = some l' ∧
      l'.phase = .ended ∧ l'.thread.taken = [0] ∧ overwrittenStop.countP isWait ≤ waits l := by
  obtain ⟨l, hl, l', hl', hended, htaken⟩ :
      ∃ l ∈ run (NetLoop.step (netThread State.sampleConfig))
          (launch (ServerThread.init State.sampleConfig)) (twoConnections.dropLast),
        ∃ l' ∈ run (NetLoop.step (netThread State.sampleConfig)) l (.stop :: overwrittenStop),
          l'.phase = .ended ∧ l'.thread.taken = [0] := by
    decide +kernel
  exact ⟨l, l', hl, hl', hended, htaken, (stops_within hl hl').1⟩

end Unixtar.WebServer
