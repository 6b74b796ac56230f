import Unixtar.WebServer.EventLoop
import Unixtar.WebServer.Timeouts

/-!
# How late the loop clears timed out connections

`Run` calls `ClearTimeout` at the end of a round if the last call is more than
`clear_timeout_period` ago.  A connection whose deadline has passed is deleted
then, unless it reads frames or has a packet pending.

The invariant is that no deadline lies before the last call: at the call the
connections behind theirs are deleted, and a deadline written later is at least
`kDefaultTimeout` ahead of the clock.  A connection with a pending packet is
exempt; the packet that is popped last has been sent just before, so that a
new deadline is written with it.

## Main results

* `due_step`, `Due.heartbeat` — every event of the server and every heartbeat
  keep the invariant.
* `notOverdue_of_endRound` — at the end of a round no such connection is
  behind its deadline by more than `clear_timeout_period`.
-/

namespace Unixtar.WebServer

open Unixtar.Lib NetState NetLoop
open ConnectionProfile (kDefaultTimeout)

/-! ## Events that write no deadline -/

/-- From `s` to `t` no deadline is written, and nothing becomes pending or is
popped. -/
structure Quiet (s t : NetState) : Prop where
  steady : Steady s t
  pending : ∀ id c d, s.mgr.conns id = some c → t.mgr.conns id = some d →
    d.pendingSendCtx = c.pendingSendCtx

namespace Quiet

variable {s t u : NetState}

theorem of_conns (hsteady : Steady s t) (hconns : t.mgr.conns = s.mgr.conns) : Quiet s t := by
  refine ⟨hsteady, ?_⟩
  intro id c d hc hd
  rw [hconns, hc] at hd
  cases hd
  rfl

theorem refl (s : NetState) : Quiet s s := of_conns (Steady.refl s) rfl

theorem trans (h : Quiet s t) (h' : Quiet t u) : Quiet s u := by
  refine ⟨h.steady.trans h'.steady, ?_⟩
  intro id c d hc hd
  obtain ⟨c', hc', -⟩ := h'.steady.conns id d hd
  exact (h'.pending id c' d hc' hd).trans (h.pending id c c' hc hc')

theorem setConn {id : ConnId} {c d : ConnectionProfile} (hc : s.mgr.conns id = some c)
    (hsteady : Steady s (s.setConn id d)) (hpending : d.pendingSendCtx = c.pendingSendCtx) :
    Quiet s (s.setConn id d) := by
  refine ⟨hsteady, ?_⟩
  intro id' c' d' hc' hd'
  rw [setConn_conns] at hd'
  by_cases hid : id' = id
  · subst hid
    rw [Function.update_self] at hd'
    rw [hc] at hc'
    cases hc'
    cases hd'
    exact hpending
  · rw [Function.update_of_ne hid, hc'] at hd'
    cases hd'
    rfl

theorem destroy (slot uid : Nat) (id : ConnId) (c : ConnectionProfile) (s : NetState) :
    Quiet s (s.destroy slot uid id c) := by
  refine ⟨Steady.destroy slot uid id c s, ?_⟩
  intro id' c' d hc' hd
  have hsame := (ConnectionManager.conns_of_release hd).2
  rw [hc'] at hsame
  cases hsame
  rfl

theorem delConnection {uid : Nat} (h : s.delConnection uid = some t) : Quiet s t := by
  obtain ⟨id, c, -, -, rfl⟩ := delConnection_cases h
  exact destroy uid uid id c s

theorem clearTimeout (s : NetState) : Quiet s s.clearTimeout := by
  refine clearTimeout_keeps (P := Quiet s) ?_ (refl s)
  intro t slot ht
  unfold clearSlot
  split
  · exact ht.trans (destroy slot _ _ _ t)
  · exact ht

theorem trySend_mgr {x : CtxId} {w : WriteOutcome} {done : Bool}
    (h : s.trySend x w = some (t, done)) : t.mgr = s.mgr := by
  obtain ⟨k, hk, -⟩ := trySend_cases h
  obtain ⟨-, -, rfl⟩ := trySend_eq hk h
  rfl

theorem trySend {x : CtxId} {w : WriteOutcome} {done : Bool}
    (h : s.trySend x w = some (t, done)) : Quiet s t :=
  of_conns (Steady.trySend h) (by rw [trySend_mgr h])

end Quiet

/-! ## No deadline before the last call -/

/-- No connection has a deadline before `last`, unless it reads frames or has a
packet pending; and what is pending, the connection has made itself. -/
structure Due (last : Nat) (s : NetState) : Prop where
  le_now : last ≤ s.now
  ctx_lt : ∀ x k, s.ctxs x = some k → x < s.nextCtx
  owned : ∀ id c, s.mgr.conns id = some c → ∀ x ∈ c.pendingSendCtx,
    (s.ctxs x).map (·.owner) = some id
  due : ∀ id c, s.mgr.conns id = some c → c.isLongLink = false → c.pendingSendCtx = [] →
    last ≤ c.timeoutTs

namespace Due

variable {last : Nat} {s t : NetState}

theorem quiet (h : Due last s) (hquiet : Quiet s t) : Due last t where
  le_now := Nat.le_trans h.le_now hquiet.steady.now
  ctx_lt := by
    intro x k hk
    have howner := hquiet.steady.owners x
    rw [hk] at howner
    obtain ⟨k', hk', -⟩ := Option.map_eq_some_iff.1 howner.symm
    rw [hquiet.steady.nextCtx]
    exact h.ctx_lt x k' hk'
  owned := by
    intro id d hd x hx
    obtain ⟨c, hc, -⟩ := hquiet.steady.conns id d hd
    rw [hquiet.pending id c d hc hd] at hx
    rw [hquiet.steady.owners]
    exact h.owned id c hc x hx
  due := by
    intro id d hd hshort hpending
    obtain ⟨c, hc, htime, -, hlong⟩ := hquiet.steady.conns id d hd
    rw [hquiet.pending id c d hc hd] at hpending
    rw [htime]
    apply h.due id c hc ?_ hpending
    by_contra hlinked
    rw [hlong (Bool.not_eq_false _ |>.mp hlinked)] at hshort
    cases hshort

/-- A context with a new name is nobody's pending packet. -/
theorem allocCtx (h : Due last s) (made : Option SendContext) : Due last (s.allocCtx made) := by
  cases made with
  | none => exact h
  | some k =>
      refine ⟨h.le_now, ?_, ?_, h.due⟩
      · intro x l hl
        replace hl : Function.update s.ctxs s.nextCtx (some k) x = some l := hl
        show x < s.nextCtx + 1
        by_cases hx : x = s.nextCtx
        · rw [hx]
          exact Nat.lt_succ_self _
        · rw [Function.update_of_ne hx] at hl
          exact Nat.lt_succ_of_lt (h.ctx_lt x l hl)
      · intro id c hc x hx
        have howner := h.owned id c hc x hx
        obtain ⟨l, hl, -⟩ := Option.map_eq_some_iff.1 howner
        show (Function.update s.ctxs s.nextCtx (some k) x).map _ = some id
        rw [Function.update_of_ne (Nat.ne_of_lt (h.ctx_lt x l hl))]
        exact howner

/-- A connection with other deadlines and other packets pending. -/
theorem setConn {id : ConnId} {d : ConnectionProfile} (h : Due last s)
    (howned : ∀ x ∈ d.pendingSendCtx, (s.ctxs x).map (·.owner) = some id)
    (hdue : d.isLongLink = false → d.pendingSendCtx = [] → last ≤ d.timeoutTs) :
    Due last (s.setConn id d) := by
  have hconns : ∀ id' e, (s.setConn id d).mgr.conns id' = some e →
      (id' = id ∧ e = d) ∨ s.mgr.conns id' = some e := by
    intro id' e he
    rw [setConn_conns] at he
    by_cases hid : id' = id
    · rw [hid, Function.update_self] at he
      exact Or.inl ⟨hid, (Option.some.inj he).symm⟩
    · rw [Function.update_of_ne hid] at he
      exact Or.inr he
  refine ⟨h.le_now, h.ctx_lt, ?_, ?_⟩
  · intro id' e he
    rcases hconns id' e he with ⟨rfl, rfl⟩ | he
    · exact howned
    · exact h.owned id' e he
  · intro id' e he
    rcases hconns id' e he with ⟨-, rfl⟩ | he
    · exact hdue
    · exact h.due id' e he

/-! ### Sending -/

/-- `OnSendDone` moves the deadline of a connection that reads no frames. -/
theorem sendDone_timeoutTs {c : ConnectionProfile} {seq : Nat} {seqOf : CtxId → Nat}
    (h : Due last s) (hshort : c.isLongLink = false) :
    last ≤ (c.sendContextSendDoneCallback s.now seq seqOf).timeoutTs := by
  have hnow := h.le_now
  simp only [ConnectionProfile.sendContextSendDoneCallback, hshort, Bool.false_eq_true, if_false]
  split_ifs <;> omega

theorem onSendDone (h : Due last s) (x : CtxId) : Due last (s.onSendDone x) := by
  unfold NetState.onSendDone
  split
  · exact h
  · split
    · exact h
    · rename_i k hk c hc
      exact h.setConn (h.owned _ c hc) fun hshort _ => h.sendDone_timeoutTs hshort

theorem markAsPendingPacket (h : Due last s) (x : CtxId) : Due last (s.markAsPendingPacket x) := by
  unfold NetState.markAsPendingPacket
  split
  · exact h
  · rename_i k hk
    split
    · exact h
    · rename_i c hc
      refine h.setConn ?_ ?_
      · intro y hy
        rcases List.mem_append.1 hy with hy | hy
        · exact h.owned _ c hc y hy
        · rw [List.mem_singleton.1 hy, hk]
          rfl
      · intro _ hnone
        exact absurd hnone (List.append_ne_nil_of_right_ne_nil _ (List.cons_ne_nil _ _))

theorem direct {x : CtxId} {w : WriteOutcome} {done : Bool} (h : Due last s)
    (hsend : s.trySendAndMarkPendingIfUndone x w = some (t, done)) : Due last t := by
  cases trySendAndMarkPendingIfUndone_cases hsend with
  | done k t _ _ htry => exact (h.quiet (Quiet.trySend htry)).onSendDone x
  | undone k t _ _ htry => exact (h.quiet (Quiet.trySend htry)).markAsPendingPacket x
  | skipped k _ _ => exact h

/-- A packet that is popped has just been sent, and its connection has a new
deadline. -/
theorem popPending {id : ConnId} {c : ConnectionProfile} {x : CtxId} (h : Due last s)
    (hc : s.mgr.conns id = some c) (hx : x ∈ c.pendingSendCtx) :
    Due last ((s.onSendDone x).popPending id) := by
  have howner := h.owned id c hc x hx
  obtain ⟨k, hk, rfl⟩ := Option.map_eq_some_iff.1 howner
  have hdone : s.onSendDone x =
      s.setConn k.owner (c.sendContextSendDoneCallback s.now k.seq s.seqOf) := by
    unfold NetState.onSendDone
    simp only [hk, hc]
  rw [hdone, popPending_eq (Function.update_self _ _ _), setConn_setConn]
  refine h.setConn ?_ ?_
  · intro y hy
    exact h.owned _ c hc y (List.mem_of_mem_tail hy)
  · intro hshort _
    replace hshort : c.isLongLink = false := hshort
    show last ≤ (c.sendContextSendDoneCallback s.now k.seq s.seqOf).timeoutTs
    exact h.sendDone_timeoutTs hshort

theorem pending {id : ConnId} {ws : List WriteOutcome} (h : Due last s)
    (hsend : s.trySendPendingPackets id ws = some t) : Due last t := by
  induction ws generalizing s with
  | nil =>
      rw [trySendPendingPackets_nil hsend]
      exact h
  | cons w ws ih =>
      obtain ⟨c, x, rest, hc, hpending, ⟨s₁, htry, hrest⟩ | ⟨htry, -⟩⟩ :=
        trySendPendingPackets_cons hsend
      · have hc₁ : s₁.mgr.conns id = some c := by
          rw [Quiet.trySend_mgr htry]
          exact hc
        have hx : x ∈ c.pendingSendCtx := by
          rw [hpending]
          exact List.mem_cons_self
        exact ih ((h.quiet (Quiet.trySend htry)).popPending hc₁ hx) hrest
      · exact h.quiet (Quiet.trySend htry)

/-! ### New connections -/

/-- A new connection has its whole time. -/
theorem addConnection {v : VectorImpl} {c : ConnectionProfile} {id : ConnId} (h : Due last s)
    (hpending : c.pendingSendCtx = []) (htime : s.now ≤ c.timeoutTs)
    (hadd : s.addConnection v c = some (t, id)) : Due last t := by
  obtain ⟨mgr, hmgr, heq⟩ := Option.map_eq_some_iff.1 hadd
  obtain ⟨uid, hconns⟩ := ConnectionManager.addConnection_conns hmgr
  cases heq
  have hcases : ∀ id d, mgr.conns id = some d → s.mgr.conns id = some d ∨
      d.pendingSendCtx = [] ∧ s.now ≤ d.timeoutTs := by
    intro id d hd
    rw [hconns] at hd
    by_cases hid : id = s.nextConn
    · rw [hid, Function.update_self] at hd
      cases hd
      exact Or.inr ⟨hpending, htime⟩
    · rw [Function.update_of_ne hid] at hd
      exact Or.inl hd
  refine ⟨h.le_now, h.ctx_lt, ?_, ?_⟩
  · intro id d hd x hx
    rcases hcases id d hd with hc | ⟨hnone, -⟩
    · exact h.owned id d hc x hx
    · rw [hnone] at hx
      cases hx
  · intro id d hd hshort hnothing
    rcases hcases id d hd with hc | ⟨-, hlater⟩
    · exact h.due id d hc hshort hnothing
    · exact Nat.le_trans h.le_now hlater

theorem accept {cfg : Config} {fd port : Nat} {ip : Bytes} (h : Due last s)
    (hregister : s.registerConnection cfg.vector cfg.maxConnections configApplicationLayer fd ip
      port = some t) : Due last t := by
  unfold registerConnection at hregister
  split_ifs at hregister
  · cases hregister
    exact h
  · obtain ⟨⟨net, id₀⟩, hadd, rfl⟩ := Option.map_eq_some_iff.1 hregister
    exact h.addConnection rfl (Nat.le_add_right s.now kDefaultTimeout) hadd

/-- **A heartbeat** keeps the deadlines behind `last`. -/
theorem heartbeat {cfg : Config} {fd port : Nat} {ip request : Bytes} {w : WriteOutcome}
    (h : Due last s) (hbeat : sendHeartbeat cfg fd ip port request w s = some t) :
    Due last t := by
  obtain ⟨net, uid, done, hadd, hc, hsend⟩ := sendHeartbeat_cases hbeat
  have hnet : Due last net := h.addConnection rfl (Nat.le_add_right s.now kDefaultTimeout) hadd
  have hset : Due last (net.setConn s.nextConn { connectionTo fd ip port s.now uid with
      sendCtxSeq := 2, sendContexts := [s.nextCtx, s.nextCtx + 1] }) :=
    hnet.setConn (fun x hx => by cases hx) fun _ _ =>
      hnet.due s.nextConn (connectionTo fd ip port s.now uid) hc rfl rfl
  exact ((hset.allocCtx _).allocCtx _).direct hsend

end Due

theorem quiet_handleApplicationPacket {cfg : Config} {s t : State} {ctx : RecvContext}
    (h : s.handleApplicationPacket cfg ctx = some t) : Quiet s.net t.net := by
  unfold State.handleApplicationPacket at h
  split at h
  · obtain ⟨net, hdel, rfl⟩ := Option.map_eq_some_iff.1 h
    exact Quiet.delConnection hdel
  · cases h
    exact Quiet.refl s.net

/-! ### Every event of the server -/

theorem due_readEvent {cfg : Config} {last : Nat} {s t : State} {id : ConnId}
    {outs : List ReadOutcome} (h : Due last s.net) (hs : s.Recorded)
    (hstep : s.onReadEvent cfg id outs = some t) : Due last t.net := by
  obtain ⟨net, stop, c, hevent, hc⟩ := State.onReadEvent_net hstep
  have hset : ∀ r, c.receive outs = some r → Quiet s.net (s.net.setConn id r.conn) := by
    intro r hr
    obtain ⟨htime, htype, hlong⟩ := Clocked.receive_deadline hr
    exact Quiet.setConn hc (Steady.setConn hc htime htype hlong)
      (ConnectionProfile.receive_kept hr).2.2.2.2
  have hcases := onReadEvent_cases hc (hs.upgrades.conns id c hc).2.configured hevent
  simp only [State.onReadEvent, hevent] at hstep
  cases hcases with
  | deleted r t' hr hdel =>
      cases hstep
      exact h.quiet ((hset r hr).trans (Quiet.delConnection hdel))
  | idle r hr =>
      cases hstep
      exact h.quiet (hset r hr)
  | crashed r hr => cases hstep
  | dispatched r p parser tcpByteArr nextNo packet packetNo hr hp hpasses =>
      obtain ⟨htime, htype, hlong⟩ := Clocked.receive_deadline hr
      have hbehind : Quiet s.net (s.net.setConn id
          (behindDispatch s.net.nextCtx parser tcpByteArr nextNo r.conn)) := by
        refine Quiet.setConn hc (Steady.setConn hc htime htype ?_)
          (ConnectionProfile.receive_kept hr).2.2.2.2
        intro hlinked
        have hlinked' := hlong hlinked
        rw [ConnectionProfile.isLongLink, hp] at hlinked'
        exact hpasses.isLongLink hlinked'
      have hmade := (h.quiet hbehind).allocCtx (some (madeContext id r.conn))
      exact hmade.quiet (quiet_handleApplicationPacket hstep)

/-- **Every event** keeps the deadlines behind `last`. -/
theorem due_step {cfg : Config} {last : Nat} {s t : State} {e : Event} (h : Due last s.net)
    (hs : s.Recorded) (hstep : State.step cfg s e = some t) : Due last t.net := by
  cases e with
  | accept fd ip port =>
      obtain ⟨net, hregister, rfl⟩ := Option.map_eq_some_iff.1 hstep
      exact h.accept hregister
  | readEvent id outs => exact due_readEvent h hs hstep
  | writeEvent id ws =>
      obtain ⟨net, hsend, rfl⟩ := Option.map_eq_some_iff.1 hstep
      exact h.pending hsend
  | errEvent id =>
      obtain ⟨net, herr, rfl⟩ := Option.map_eq_some_iff.1 hstep
      unfold onErrEvent at herr
      split at herr
      · cases herr
      · exact h.quiet (Quiet.delConnection herr)
  | clearTimeout =>
      cases hstep
      exact h.quiet (Quiet.clearTimeout s.net)
  | tick ms =>
      cases hstep
      refine h.quiet (Quiet.of_conns ?_ rfl)
      exact ⟨Nat.le_add_right _ _, rfl, rfl, fun _ => rfl,
        fun _ d hd => ⟨d, hd, rfl, rfl, fun hl => hl⟩⟩
  | take =>
      replace hstep : s.takeTask = some t := hstep
      unfold State.takeTask at hstep
      split at hstep <;> cases hstep
      exact h
  | check i =>
      replace hstep : s.checkTask cfg i = some t := hstep
      unfold State.checkTask at hstep
      split at hstep <;> cases hstep
      exact h
  | handle i resp =>
      obtain ⟨_, _, -, -, -, -, -, hmgr, -⟩ := State.handleTask_eq hstep
      exact h.quiet (Quiet.of_conns (Clocked.steady_handleTask hstep) (by rw [hmgr]))
  | giveBack i =>
      replace hstep : s.giveBackTask i = some t := hstep
      unfold State.giveBackTask at hstep
      split at hstep
      · split at hstep <;> cases hstep
        exact h
      · cases hstep
  | handleSend o =>
      replace hstep : s.handleSend o = some t := hstep
      unfold State.handleSend at hstep
      split at hstep
      · cases hstep
      · obtain ⟨⟨net, done⟩, hsend, rfl⟩ := Option.map_eq_some_iff.1 hstep
        exact h.direct hsend

theorem clearTimeout_now (s : NetState) : s.clearTimeout.now = s.now := by
  refine clearTimeout_keeps (P := fun t => t.now = s.now) ?_ rfl
  intro t slot ht
  rw [Clocked.clearSlot_now]
  exact ht

/-- `ClearTimeout` leaves no connection behind its deadline. -/
theorem Due.cleared {last : Nat} {s : NetState} (h : Due last s) (hs : Pooled s) :
    Due s.now s.clearTimeout := by
  have hkept := h.quiet (Quiet.clearTimeout s)
  refine ⟨Nat.le_of_eq (clearTimeout_now s).symm, hkept.ctx_lt, hkept.owned, ?_⟩
  intro id d hd hshort hpending
  by_contra hlate
  have hc : s.mgr.conns id = some d := by
    rcases Clocked.foldl_clearSlot_conns (List.range s.mgr.pool.length) s id with
      hsame | ⟨hnone, -⟩
    · exact hsame ▸ hd
    · replace hd : (List.foldl clearSlot s (List.range s.mgr.pool.length)).mgr.conns id =
        some d := hd
      rw [hnone] at hd
      cases hd
  have hdead : s.clearTimeout.isLive id = false := by
    refine (Clocked.clearTimeout_deletes hc).2 ⟨?_, ?_⟩
    · exact List.mem_of_getElem? (hs.distinct.stored id d hc)
    · exact Clocked.isTimeout_iff.2 ⟨hshort, hpending, Nat.not_le.1 hlate⟩
  rw [isLive_of_conns hd] at hdead
  cases hdead

/-! ## The loop -/

/-- What every run keeps. -/
structure Timely (l : NetLoop ServerThread) : Prop where
  pooled : Pooled l.thread.server.net
  batch : BatchLive l.thread.server.net l.todo
  recorded : l.thread.server.Recorded
  due : Due l.lastClearTs l.thread.server.net

theorem recorded_move {cfg : Config} {e : LoopEvent (List ReadOutcome) OtherEvent} {s t : State}
    {last last' : Nat} (h : s.Recorded) (hmove : ServerMove cfg e s last t last') :
    t.Recorded := by
  cases hmove with
  | nothing => exact h
  | event f t _ hf => exact State.recorded_step h hf
  | heartbeat fd ip port request w net _ hbeat => exact recorded_heartbeat h hbeat
  | cleared =>
      have hstep : State.step cfg s .clearTimeout =
          some { s with net := s.net.clearTimeout } := rfl
      exact State.recorded_step h hstep

theorem due_move {cfg : Config} {e : LoopEvent (List ReadOutcome) OtherEvent} {s t : State}
    {last last' : Nat} (h : Due last s.net) (hs : Pooled s.net) (hrecorded : s.Recorded)
    (hmove : ServerMove cfg e s last t last') : Due last' t.net := by
  cases hmove with
  | nothing => exact h
  | event f t _ hf => exact due_step h hrecorded hf
  | heartbeat fd ip port request w net _ hbeat => exact h.heartbeat hbeat
  | cleared => exact h.cleared hs

theorem timely_step {cfg : Config} (hcfg : cfg.FitsUid) {l l' : NetLoop ServerThread}
    {e : LoopEvent (List ReadOutcome) OtherEvent} (h : Timely l) (hfits : UidsSuffice cfg l e)
    (hstep : NetLoop.step (netThread cfg) l e = some l') : Timely l' := by
  obtain ⟨hpooled, hbatch⟩ := batchLive_step (lawful hcfg) ⟨h.pooled, h.batch⟩ hfits hstep
  have hmove := serverMove_called (called_step hstep)
  exact ⟨hpooled, hbatch, recorded_move h.recorded hmove,
    due_move h.due h.pooled h.recorded hmove⟩

theorem timely_launch (cfg : Config) : Timely (launch (ServerThread.init cfg)) where
  pooled := pooled_init cfg.vector
  batch := BatchLive.nil _
  recorded := State.recorded_init cfg
  due :=
    { le_now := Nat.le_refl _
      ctx_lt := fun x k hk => by cases hk
      owned := fun id c hc => by cases hc
      due := fun id c hc => by cases hc }

/-- Behind a round, the last `ClearTimeout` is one period ago at most. -/
theorem now_le_of_endRound {cfg : Config} {l l' : NetLoop ServerThread}
    (hstep : l.endRound (netThread cfg) = some l') :
    l'.thread.server.net.now ≤ l'.lastClearTs + clearTimeoutPeriod := by
  unfold NetLoop.endRound at hstep
  dsimp only at hstep
  split_ifs at hstep with hlate
  · obtain ⟨t, ht, rfl⟩ := Option.map_eq_some_iff.1 hstep
    obtain ⟨s, hs, rfl⟩ := clearTimeout_eq ht
    cases hs
    show l.thread.server.net.clearTimeout.now ≤ l.thread.server.net.now + clearTimeoutPeriod
    rw [clearTimeout_now]
    exact Nat.le_add_right _ _
  · cases hstep
    exact Nat.sub_le_iff_le_add'.1 (Nat.not_lt.1 hlate)

/-- **No idle connection is overdue.**  While the uids suffice, at the end of
every round a connection that reads no frames and has nothing to send is behind
its deadline by `clear_timeout_period` at most. -/
theorem notOverdue_of_endRound {cfg : Config} (hcfg : cfg.FitsUid)
    {events : List (LoopEvent (List ReadOutcome) OtherEvent)} {l : NetLoop ServerThread}
    (hfits : Along (NetLoop.step (netThread cfg)) (UidsSuffice cfg)
      (launch (ServerThread.init cfg)) events)
    (hrun : run (NetLoop.step (netThread cfg)) (launch (ServerThread.init cfg))
      (events ++ [.endRound]) = some l)
    {id : ConnId} {c : ConnectionProfile} (hc : l.thread.server.net.mgr.conns id = some c)
    (hshort : c.isLongLink = false) (hpending : c.pendingSendCtx = []) :
    l.thread.server.net.now ≤ c.timeoutTs + clearTimeoutPeriod := by
  rw [run_append] at hrun
  obtain ⟨l₁, hbefore, hlast⟩ := Option.bind_eq_some_iff.1 hrun
  obtain ⟨l₂, hstep, heq⟩ := Option.bind_eq_some_iff.1 hlast
  cases heq
  have htimely : ∀ l ∈ trace (NetLoop.step (netThread cfg)) (launch (ServerThread.init cfg))
      events, Timely l :=
    trace_invariant (fun _ _ _ h hfits hstep => timely_step hcfg h hfits hstep)
      (timely_launch cfg) hfits
  -- the last step is the end of a round
  have hdue := (timely_step hcfg (htimely l₁ (run_mem_trace hbefore)) (e := .endRound) trivial
    hstep).due.due id c hc hshort hpending
  have hnow : l.thread.server.net.now ≤ l.lastClearTs + clearTimeoutPeriod := by
    simp only [NetLoop.step] at hstep
    split at hstep
    · exact now_le_of_endRound hstep
    · cases hstep
  exact Nat.le_trans hnow (Nat.add_le_add_right hdue _)

/-- A client's connection whose deadline is the very time of a `ClearTimeout`,
and a round ten seconds later.  The connection of a heartbeat has twice the
time. -/
def lateRounds : List (LoopEvent (List ReadOutcome) OtherEvent) :=
  [.other (.tick 1), .other (.accept 7 (lit "10.0.0.1") 4000),
    .other (.heartbeat 9 (lit "10.0.0.9") 5000 (lit "GET / HTTP/1.1\r\n\r\n") (.wrote 18)),
    .other (.tick 10000), .test,
    .epollWait [.events [⟨.descriptor, false, false, false⟩]], .process [] [], .process [] [],
    .endRound, .other (.tick 10000), .test, .epollWait [.events []], .process [] []]

/-- The bound is reached. -/
theorem notOverdue_of_endRound_lateRounds :
    ∃ l c, run (NetLoop.step (netThread State.sampleConfig))
        (launch (ServerThread.init State.sampleConfig)) (lateRounds ++ [.endRound]) = some l ∧
      l.thread.server.net.mgr.conns 0 = some c ∧ c.timeoutTs = 10001 ∧
      l.thread.server.net.now = 20001 ∧
      l.thread.server.net.now ≤ c.timeoutTs + clearTimeoutPeriod := by
  obtain ⟨l, hl, hnow, c, hc, htime, hshort, hpending⟩ :
      ∃ l ∈ run (NetLoop.step (netThread State.sampleConfig))
          (launch (ServerThread.init State.sampleConfig)) (lateRounds ++ [.endRound]),
        l.thread.server.net.now = 20001 ∧ ∃ c ∈ l.thread.server.net.mgr.conns 0,
          c.timeoutTs = 10001 ∧ c.isLongLink = false ∧ c.pendingSendCtx = [] := by
    decide +kernel
  exact ⟨l, c, hl, hc, htime, hnow, notOverdue_of_endRound
    (Config.fitsUid_libstdcxx rfl (by decide)) (by decide +kernel) hl hc hshort hpending⟩

end Unixtar.WebServer
