import Unixtar.NetworkModel.Contexts
import Unixtar.WebServer.Frames

/-!
# Responses go to the connection that asked

Every packet on `recv_queue_` carries a return packet of its own connection,
and every `::write` for a return packet happens while that connection is
live and goes to its socket.  This holds in all runs in which no connection
gives out a number that one of its undone contexts still has; the numbers
are 32 bits wide and wrap around.

## Main results

* `safe_step` — one event keeps `Safe`.
* `returnsOk_of_numberFree` — whole runs.
-/

namespace Unixtar.WebServer

open Unixtar.Lib NetState

namespace State

/-! ## The property and the condition -/

/-- Every packet on `recv_queue_` has a return packet that its own connection
has made, and every write is to the socket of the live connection that made the
context. -/
structure ReturnsOk (s : State) : Prop where
  returns : ∀ ctx ∈ s.recvQueue, ∃ x ∈ ctx.returnPacket, ∃ k ∈ s.net.ctxs x, k.owner = ctx.conn
  writes : ∀ r ∈ s.net.writes, r.live = true ∧ r.socket = r.owner

/-- A read event finds the next number of its connection free: none of the
contexts it still lists has it. -/
def NumberFree (s : State) : Event → Prop
  | .readEvent id _ => ∀ c ∈ s.net.mgr.conns id, ∀ y ∈ c.sendContexts, ∀ k ∈ s.net.ctxs y,
      k.seq ≠ (c.sendCtxSeq + 1) % 2 ^ 32
  | _ => True

instance (s : State) : ∀ e, Decidable (NumberFree s e)
  | .readEvent id _ =>
      inferInstanceAs (Decidable (∀ c ∈ s.net.mgr.conns id, ∀ y ∈ c.sendContexts,
        ∀ k ∈ s.net.ctxs y, k.seq ≠ (c.sendCtxSeq + 1) % 2 ^ 32))
  | .accept _ _ _ => isTrue trivial
  | .writeEvent _ _ => isTrue trivial
  | .errEvent _ => isTrue trivial
  | .clearTimeout => isTrue trivial
  | .tick _ => isTrue trivial
  | .take => isTrue trivial
  | .check _ => isTrue trivial
  | .handle _ _ => isTrue trivial
  | .giveBack _ => isTrue trivial
  | .handleSend _ => isTrue trivial

/-- The packets that wait for a worker or are with one. -/
def underWay (s : State) : List RecvContext := s.recvQueue ++ s.workers.map (·.ctx)

/-- The contexts held by packets and by the send queue. -/
def held (s : State) : List CtxId := s.underWay.filterMap (·.returnPacket) ++ s.sendQueue

/-! ## The invariant -/

/-- The invariant of the whole server. -/
structure Safe (s : State) : Prop where
  net : s.net.Sound s.held
  accepted : ∀ id c, s.net.mgr.conns id = some c → c.type = .kAcceptFrom
  returns : ∀ ctx ∈ s.recvQueue, ∃ x ∈ ctx.returnPacket, ∃ k ∈ s.net.ctxs x, k.owner = ctx.conn

theorem Safe.returnsOk {s : State} (h : s.Safe) : s.ReturnsOk := ⟨h.returns, h.net.writes⟩

theorem safe_init (cfg : Config) : (init cfg).Safe where
  net := NetState.sound_init cfg.vector
  accepted id c h := by cases h
  returns ctx hctx := by cases hctx

/-- The network thread goes on with what it holds. -/
theorem Safe.ofNet {s : State} {net : NetState} (h : s.Safe) (hnet : net.Sound s.held)
    (haccepted : ∀ id c, net.mgr.conns id = some c → c.type = .kAcceptFrom)
    (hkeeps : s.net.KeepsOwners net) : ({ s with net } : State).Safe where
  net := hnet
  accepted := haccepted
  returns := by
    intro ctx hctx
    obtain ⟨x, hx, k, hk, howner⟩ := h.returns ctx hctx
    obtain ⟨l, hl, hlk⟩ := hkeeps x k hk
    exact ⟨x, hx, l, hl, hlk.trans howner⟩

/-- It sends or deletes. -/
theorem Safe.ofFrame {s : State} {net : NetState} (h : s.Safe) (hnet : net.Sound s.held)
    (hframe : s.net.Frame net) : ({ s with net } : State).Safe := by
  apply h.ofNet hnet _ hframe.owners
  intro id d hd
  obtain ⟨c, _, _, _, hc, rfl⟩ := hframe.conns id d hd
  exact h.accepted id c hc

/-- The queues change, and nothing more is held. -/
theorem Safe.ofQueues {s : State} {recvQueue : List RecvContext} {workers : List Task}
    {sendQueue : List CtxId} (h : s.Safe)
    (hrecv : ∀ ctx ∈ recvQueue, ctx ∈ s.recvQueue)
    (hheld : ({ s with recvQueue, workers, sendQueue } : State).held.Subperm s.held) :
    ({ s with recvQueue, workers, sendQueue } : State).Safe where
  net := h.net.mono hheld
  accepted := h.accepted
  returns ctx hctx := h.returns ctx (hrecv ctx hctx)

/-! ## The workers -/

/-- A worker that goes on holds the same packet. -/
theorem map_ctx_set {workers : List Task} {i : Nat} {ctx : RecvContext} {stage : Stage}
    (h : workers[i]? = some ⟨ctx, stage⟩) (stage' : Stage) :
    (workers.set i ⟨ctx, stage'⟩).map (·.ctx) = workers.map (·.ctx) := by
  obtain ⟨hlt, hget⟩ := List.getElem?_eq_some_iff.1 h
  rw [List.map_set]
  apply List.ext_getElem (by simp)
  intro j hj hj'
  rw [List.getElem_set]
  split
  · rename_i hij
    subst hij
    rw [List.getElem_map, hget]
  · rfl

/-- A worker that is done leaves the others. -/
theorem perm_eraseIdx {workers : List Task} {i : Nat} {task : Task}
    (h : workers[i]? = some task) :
    (workers.map (·.ctx)).Perm (task.ctx :: (workers.eraseIdx i).map (·.ctx)) := by
  obtain ⟨hlt, hget⟩ := List.getElem?_eq_some_iff.1 h
  have hperm := (List.getElem_cons_eraseIdx_perm hlt).symm.map (·.ctx)
  rw [List.map_cons, hget] at hperm
  exact hperm

theorem safe_take {s t : State} (h : s.Safe) (hstep : s.takeTask = some t) : t.Safe := by
  unfold takeTask at hstep
  split at hstep
  · cases hstep
  · rename_i ctx rest hqueue
    cases hstep
    apply h.ofQueues
    · intro ctx' hctx'
      rw [hqueue]
      exact List.mem_cons_of_mem _ hctx'
    · apply List.Perm.subperm
      apply List.Perm.append_right
      apply List.Perm.filterMap
      unfold underWay
      rw [hqueue, List.map_append, ← List.append_assoc]
      exact List.perm_append_singleton ctx _

theorem safe_check {cfg : Config} {s t : State} {i : Nat} (h : s.Safe)
    (hstep : s.checkTask cfg i = some t) : t.Safe := by
  unfold checkTask at hstep
  split at hstep
  · rename_i ctx htask
    cases hstep
    apply h.ofQueues
    · intro ctx' hctx'
      exact hctx'
    · unfold held underWay
      rw [map_ctx_set htask]
  · cases hstep

theorem safe_giveBack {s t : State} {i : Nat} (h : s.Safe)
    (hstep : s.giveBackTask i = some t) : t.Safe := by
  unfold giveBackTask at hstep
  split at hstep
  · rename_i ctx htask
    split at hstep
    · cases hstep
    · rename_i x hx
      cases hstep
      apply h.ofQueues
      · intro ctx' hctx'
        exact hctx'
      · have hperm : s.held.Perm
            (x :: ((s.recvQueue ++ (s.workers.eraseIdx i).map (·.ctx)).filterMap
              (·.returnPacket) ++ s.sendQueue)) := by
          have hway : s.underWay.Perm
              (ctx :: (s.recvQueue ++ (s.workers.eraseIdx i).map (·.ctx))) :=
            ((perm_eraseIdx htask).append_left s.recvQueue).trans List.perm_middle
          have hheld := (hway.filterMap (·.returnPacket)).append_right s.sendQueue
          rw [List.filterMap_cons, hx] at hheld
          exact hheld
        refine List.Subperm.trans ?_ hperm.symm.subperm
        unfold held underWay pushBack
        dsimp only
        split
        · exact (List.sublist_cons_self _ _).subperm
        · rw [← List.append_assoc]
          exact (List.perm_append_singleton x _).subperm
  · cases hstep

theorem safe_handle {cfg : Config} {s t : State} {i : Nat} {resp : Bytes} (h : s.Safe)
    (hstep : s.handleTask cfg i resp = some t) : t.Safe := by
  unfold handleTask at hstep
  split at hstep
  · rename_i ctx overload htask
    split at hstep
    · cases hstep
    · split at hstep
      · cases hstep
      · rename_i x hx _ k hk
        cases hstep
        have hheld : s.net.Sound (State.held { s with
            workers := s.workers.set i ⟨ctx, .handled⟩ }) := by
          unfold held underWay
          rw [map_ctx_set htask]
          exact h.net
        have hkeeps : ∀ b, s.net.KeepsOwners { s.net with
            ctxs := Function.update s.net.ctxs x (some { k with buffer := b }) } :=
          fun b => KeepsOwners.of_update (l := { k with buffer := b }) hk rfl rfl
        refine ⟨hheld.congr (label_updateBuffer hk rfl) rfl rfl rfl h.net.writes, h.accepted, ?_⟩
        intro ctx' hctx'
        obtain ⟨y, hy, l, hl, howner⟩ := h.returns ctx' hctx'
        obtain ⟨m, hm, hml⟩ := hkeeps _ y l hl
        exact ⟨y, hy, m, hm, hml.trans howner⟩
  · cases hstep

/-! ## `HandleSend` -/

theorem safe_handleSend {s t : State} {w : WriteOutcome} (h : s.Safe)
    (hstep : s.handleSend w = some t) : t.Safe := by
  unfold handleSend at hstep
  split at hstep
  · cases hstep
  · rename_i x rest hqueue
    obtain ⟨⟨net, done⟩, hsend, rfl⟩ := Option.map_eq_some_iff.1 hstep
    have hperm : s.held.Perm (x :: (s.underWay.filterMap (·.returnPacket) ++ rest)) := by
      unfold held
      rw [hqueue]
      exact List.perm_middle
    have hsound := (h.net.mono hperm.symm.subperm).trySendAndMarkPendingIfUndone
      List.mem_cons_self hsend
    rw [List.erase_cons_head] at hsound
    have hframe := NetState.Frame.trySendAndMarkPendingIfUndone hsend
    have hqueues : ({ s with sendQueue := rest } : State).Safe := by
      apply h.ofQueues
      · intro ctx hctx
        exact hctx
      · exact (List.sublist_cons_self x _).subperm.trans hperm.symm.subperm
    exact hqueues.ofFrame hsound hframe

/-! ## The network thread -/

theorem safe_accept {cfg : Config} {s t : State} {fd port : Nat} {ip : Bytes} (h : s.Safe)
    (hstep : step cfg s (.accept fd ip port) = some t) : t.Safe := by
  obtain ⟨net, hnet, rfl⟩ := Option.map_eq_some_iff.1 hstep
  unfold registerConnection at hnet
  split at hnet
  · cases hnet
    exact h
  · obtain ⟨⟨net', id⟩, hadd, rfl⟩ := Option.map_eq_some_iff.1 hnet
    have hsound := h.net.addConnection rfl rfl hadd
    obtain ⟨mgr, hmgr, heq⟩ := Option.map_eq_some_iff.1 hadd
    obtain ⟨uid, hconns⟩ := ConnectionManager.addConnection_conns hmgr
    cases heq
    apply h.ofNet hsound _ (KeepsOwners.refl _)
    intro id c hc
    replace hc : mgr.conns id = some c := hc
    rw [hconns] at hc
    by_cases hid : id = s.net.nextConn
    · rw [hid, Function.update_self] at hc
      cases hc
      rfl
    · rw [Function.update_of_ne hid] at hc
      exact h.accepted id c hc

/-- A packet that is passed on, with its return packet on top of what is
held. -/
theorem safe_handleApplicationPacket {cfg : Config} {s t : State} {ctx : RecvContext}
    {x : CtxId} {k : SendContext} (hnet : s.net.Sound (s.held ++ [x]))
    (haccepted : ∀ id c, s.net.mgr.conns id = some c → c.type = .kAcceptFrom)
    (hreturns : ∀ ctx ∈ s.recvQueue, ∃ x ∈ ctx.returnPacket, ∃ k ∈ s.net.ctxs x,
      k.owner = ctx.conn)
    (hx : ctx.returnPacket = some x) (hk : s.net.ctxs x = some k) (howner : k.owner = ctx.conn)
    (hstep : s.handleApplicationPacket cfg ctx = some t) : t.Safe := by
  have hless : s.held.Subperm (s.held ++ [x]) := (List.sublist_append_left _ _).subperm
  have hsafe : s.Safe := ⟨hnet.mono hless, haccepted, hreturns⟩
  unfold handleApplicationPacket at hstep
  dsimp only at hstep
  split at hstep
  · obtain ⟨net, hdel, rfl⟩ := Option.map_eq_some_iff.1 hstep
    have hsafe' : ({ s with net } : State).Safe :=
      hsafe.ofFrame (hsafe.net.delConnection hdel) (Frame.delConnection hdel)
    exact ⟨hsafe'.net, hsafe'.accepted, hsafe'.returns⟩
  · cases hstep
    unfold pushBack
    by_cases hfull : s.recvQueue.length > kMaxQueueSize
    · simp only [hfull, if_true]
      exact ⟨hsafe.net, hsafe.accepted, hsafe.returns⟩
    · simp only [hfull, if_false]
      refine ⟨?_, haccepted, ?_⟩
      · apply hnet.mono
        apply List.Perm.subperm
        have hway : ((s.recvQueue ++ [ctx]) ++ s.workers.map (·.ctx)).Perm (ctx :: s.underWay) := by
          rw [List.append_assoc]
          exact List.perm_middle
        have hheld := (hway.filterMap (·.returnPacket)).append_right s.sendQueue
        rw [List.filterMap_cons, hx] at hheld
        exact hheld.trans (List.perm_append_singleton x _).symm
      · intro ctx' hctx'
        rcases List.mem_append.1 hctx' with hctx' | hctx'
        · exact hreturns ctx' hctx'
        · rw [List.mem_singleton.1 hctx']
          exact ⟨x, hx, k, hk, howner⟩

theorem typed_setConn {s : NetState} {id : ConnId} {c : ConnectionProfile}
    (h : ∀ id c, s.mgr.conns id = some c → c.type = .kAcceptFrom) (hc : c.type = .kAcceptFrom) :
    ∀ id' d, (s.setConn id c).mgr.conns id' = some d → d.type = .kAcceptFrom := by
  intro id' d hd
  rw [setConn_conns] at hd
  by_cases hid : id' = id
  · rw [hid, Function.update_self] at hd
    cases hd
    exact hc
  · rw [Function.update_of_ne hid] at hd
    exact h id' d hd

theorem safe_readEvent {cfg : Config} {s t : State} {id : ConnId} {outs : List ReadOutcome}
    (h : s.Safe) (hfree : NumberFree s (.readEvent id outs))
    (hstep : s.onReadEvent cfg id outs = some t) : t.Safe := by
  obtain ⟨net, stop, c, hevent, hc⟩ := onReadEvent_net hstep
  have hcases := onReadEvent_cases hc (Or.inl (h.accepted id c hc)) hevent
  have hreceive : ∀ r, c.receive outs = some r →
      ({ s with net := s.net.setConn id r.conn } : State).Safe := by
    intro r hr
    obtain ⟨-, htype, -, hcontexts, hpending⟩ := ConnectionProfile.receive_kept hr
    apply h.ofNet (h.net.setConn hc hcontexts hpending) _ (KeepsOwners.refl _)
    exact typed_setConn h.accepted (htype.trans (h.accepted id c hc))
  simp only [onReadEvent, hevent] at hstep
  cases hcases with
  | deleted r t' hr hdel =>
      cases hstep
      have hsafe := hreceive r hr
      exact hsafe.ofFrame (hsafe.net.delConnection hdel) (Frame.delConnection hdel)
  | idle r hr =>
      cases hstep
      exact hreceive r hr
  | crashed r hr => cases hstep
  | dispatched r p parser tcpByteArr nextNo packet packetNo hr hp hpasses =>
      obtain ⟨-, htype, hseq, hcontexts, hpending⟩ := ConnectionProfile.receive_kept hr
      have hnumber : ∀ y ∈ c.sendContexts, ∀ l, s.net.label y = some l →
          l.seq ≠ (madeContext id r.conn).seq := by
        intro y hy l hl
        obtain ⟨k, hk, hkl, -⟩ := label_eq_some hl
        show l.seq ≠ (r.conn.sendCtxSeq + 1) % 2 ^ 32
        rw [← hkl, hseq]
        exact hfree c hc y hy k hk
      have hsound : ((s.net.setConn id (behindDispatch s.net.nextCtx parser tcpByteArr
          nextNo r.conn)).allocCtx (some (madeContext id r.conn))).Sound
          (s.held ++ [s.net.nextCtx]) := by
        apply h.net.newContext hc rfl rfl rfl _ _ hnumber
        · rw [← hcontexts]
          rfl
        · rw [← hpending]
          rfl
      refine safe_handleApplicationPacket (k := madeContext id r.conn) hsound ?_ ?_ rfl
        (Function.update_self _ _ _) rfl hstep
      · exact typed_setConn h.accepted (htype.trans (h.accepted id c hc))
      · intro ctx hctx
        obtain ⟨y, hy, l, hl, howner⟩ := h.returns ctx hctx
        obtain ⟨m, hm, hml⟩ := KeepsOwners.allocCtx h.net (madeContext id r.conn) y l hl
        exact ⟨y, hy, m, hm, hml.trans howner⟩

/-- **One event.** -/
theorem safe_step {cfg : Config} {s t : State} {e : Event} (h : s.Safe) (hfree : NumberFree s e)
    (hstep : step cfg s e = some t) : t.Safe := by
  cases e with
  | accept fd ip port => exact safe_accept h hstep
  | readEvent id outs => exact safe_readEvent h hfree hstep
  | writeEvent id ws =>
      obtain ⟨net, hsend, rfl⟩ := Option.map_eq_some_iff.1 hstep
      exact h.ofFrame (h.net.trySendPendingPackets hsend) (Frame.trySendPendingPackets hsend)
  | errEvent id =>
      obtain ⟨net, herr, rfl⟩ := Option.map_eq_some_iff.1 hstep
      unfold onErrEvent at herr
      split at herr
      · cases herr
      · exact h.ofFrame (h.net.delConnection herr) (Frame.delConnection herr)
  | clearTimeout =>
      cases hstep
      exact h.ofFrame h.net.clearTimeout (Frame.clearTimeout s.net)
  | tick ms =>
      cases hstep
      exact h.ofNet (h.net.congr rfl rfl rfl rfl h.net.writes) h.accepted (KeepsOwners.refl _)
  | take => exact safe_take h hstep
  | check i => exact safe_check h hstep
  | handle i resp => exact safe_handle h hstep
  | giveBack i => exact safe_giveBack h hstep
  | handleSend w => exact safe_handleSend h hstep

/-! ## Whole runs -/

/-- **Responses go to the connection that asked**, in every run in which no
read event finds the next number of its connection still in use. -/
theorem returnsOk_of_numberFree (cfg : Config) (events : List Event)
    (hfree : Along (step cfg) NumberFree (init cfg) events) :
    ∀ t ∈ trace (step cfg) (init cfg) events, t.ReturnsOk := by
  intro t ht
  have hsafe := trace_invariant (fun s e s' hs hc hstep => safe_step hs hc hstep)
    (safe_init cfg) hfree t ht
  exact hsafe.returnsOk

/-! ## The numbers wrap around -/

def sampleConfig : Config :=
  { vector := .libstdcxx, maxBacklog := 1024, maxConnections := 1024, digest := fun _ => [] }

/-- A request that is answered at once. -/
def plainRun : List Event :=
  [.accept 7 (lit "10.0.0.1") 4000,
    .readEvent 0 [ConnectionProfile.getRequest],
    .take, .check 0, .handle 0 (lit "ok"), .giveBack 0, .handleSend (.wrote 2)]

theorem returnsOk_plainRun :
    (∃ t ∈ run (step sampleConfig) (init sampleConfig) plainRun, t.net.writes ≠ []) ∧
      ∀ t ∈ trace (step sampleConfig) (init sampleConfig) plainRun, t.ReturnsOk := by
  constructor
  · decide +kernel
  · exact returnsOk_of_numberFree sampleConfig plainRun (by decide +kernel)

/-- The context of the frame that the worker holds. -/
def waitingContext : SendContext :=
  { seq := 2, tcpConnectionUid := 1, owner := 0, socket := 0, buffer := .empty,
    isTcpConnValid := true }

/-- A worker has held the context 1, whose number is 2, for `j` frames; the
connection lists the contexts `listed`, and everything else is at rest. -/
def Waiting (j : Nat) (listed : List CtxId) (s : State) : Prop :=
  (∃ c ∈ s.net.mgr.conns 0, Upgraded c ∧ c.uid = 1 ∧ c.sendCtxSeq = (2 + j) % 2 ^ 32 ∧
    c.sendContexts = listed) ∧
  s.net.mgr.getConnection 1 = some (some 0) ∧
  s.net.ctxs 1 = some waitingContext ∧ 1 < s.net.nextCtx ∧
  (s.workers.map fun task => (task.stage, task.ctx.returnPacket,
    isData task.ctx.applicationPacket)) = [(.taken, some 1, true)] ∧
  s.recvQueue = [] ∧ s.sendQueue = [] ∧ s.visit = j % 2 ^ 64 ∧
  s.net.mgr.currConnectionCnt = 2 ∧ 0 < s.net.nextConn

instance (j : Nat) (listed : List CtxId) (s : State) : Decidable (Waiting j listed s) :=
  inferInstanceAs (Decidable (_ ∧ _))

/-- The worker of a `Waiting` state. -/
theorem workers_of_map {workers : List Task} {stage : Stage} {x : CtxId}
    (h : (workers.map fun task => (task.stage, task.ctx.returnPacket,
      isData task.ctx.applicationPacket)) = [(stage, some x, true)]) :
    ∃ ctx, workers = [⟨ctx, stage⟩] ∧ ctx.returnPacket = some x ∧
      isData ctx.applicationPacket = true := by
  obtain ⟨⟨ctx, stage'⟩, rfl, htask⟩ := List.map_eq_singleton_iff.1 h
  simp only [Prod.mk.injEq] at htask
  obtain ⟨rfl, hreturn, hdata⟩ := htask
  exact ⟨ctx, rfl, hreturn, hdata⟩

/-- The client opens a WebSocket and sends a frame, which a worker takes. -/
def opening : List Event :=
  [.accept 7 (lit "10.0.0.1") 4000,
    .readEvent 0 [ConnectionProfile.upgradeRequest],
    .take, .check 0, .handle 0 [], .giveBack 0, .handleSend (.wrote 101),
    .readEvent 0 [FrameRun.helloGroup.outcome], .take]

/-- What a worker answers to a frame behind `n` visits. -/
def answer (n : Nat) : Bytes := Ws.pack (fakeWsResp ((n + 1) % 2 ^ 64))

/-- Another frame, which another worker answers. -/
def answered (j : Nat) : List Event :=
  [.readEvent 0 [Group.outcome ⟨FrameRun.bye, [], by decide⟩], .take, .check 1, .handle 1 [],
    .giveBack 1, .handleSend (.wrote (answer (j % 2 ^ 64)).length)]

/-- The connection ends, another client takes its place, and the first worker
comes back. -/
def closing (j : Nat) : List Event :=
  [.errEvent 0, .accept 8 (lit "10.0.0.2") 4001, .check 0, .handle 0 [], .giveBack 0,
    .handleSend (.wrote (answer (j % 2 ^ 64)).length)]

/-- A worker that has taken a frame answers it. -/
theorem run_worker {s : State} {i : Nat} {ctx : RecvContext} {x : CtxId} {k : SendContext}
    (hrecv : s.recvQueue = []) (hsend : s.sendQueue = [])
    (htask : s.workers[i]? = some ⟨ctx, .taken⟩) (hreturn : ctx.returnPacket = some x)
    (hdata : isData ctx.applicationPacket = true) (hk : s.net.ctxs x = some k)
    (hbuffer : k.buffer = .empty) :
    ∃ s', run (step sampleConfig) s [.check i, .handle i [], .giveBack i] = some s' ∧
      s'.net.mgr = s.net.mgr ∧ s'.net.nextCtx = s.net.nextCtx ∧
      s'.net.nextConn = s.net.nextConn ∧
      s'.net.ctxs = Function.update s.net.ctxs x
        (some { k with buffer := ⟨answer s.visit, 0, none⟩ }) ∧
      s'.recvQueue = [] ∧ s'.workers = s.workers.eraseIdx i ∧ s'.sendQueue = [x] ∧
      s'.visit = (s.visit + 1) % 2 ^ 64 := by
  have hlt : i < s.workers.length := (List.getElem?_eq_some_iff.1 htask).1
  have hcheck : step sampleConfig s (.check i) =
      some { s with workers := s.workers.set i ⟨ctx, .decided false⟩ } := by
    simp [step, checkTask, htask, isWorkerOverload, hrecv]
  cases hpacket : ctx.applicationPacket with
  | request line headers body => simp [isData, hpacket] at hdata
  | response line headers body => simp [isData, hpacket] at hdata
  | webSocket p =>
      have hshaken : p.isHandShaken = true := by simpa [isData, hpacket] using hdata
      rw [run_cons_some hcheck]
      simp [run, step, handleTask, giveBackTask, hlt, hreturn, hk, handlePacket, hpacket,
        handleWebSocket, hshaken, Output.fill, hbuffer, AutoBuffer.write, AutoBuffer.empty,
        pushBack, hsend, kMaxQueueSize, answer, List.set_set, List.eraseIdx_set_eq, hrecv]

/-- A round of `HandleSend` whose `::write` takes everything. -/
theorem handleSend_all {s : State} {x : CtxId} {k : SendContext} {bytes : Bytes}
    (hsend : s.sendQueue = [x]) (hk : s.net.ctxs x = some { k with buffer := ⟨bytes, 0, none⟩ })
    (hvalid : k.isTcpConnValid = true) (hbytes : bytes ≠ []) :
    s.handleSend (.wrote bytes.length) =
      some
        { s with
          net := NetState.onSendDone x
            { s.net with
              ctxs := Function.update s.net.ctxs x
                (some { k with buffer := ⟨bytes, bytes.length, none⟩ })
              writes := s.net.writes ++
                [⟨x, k.owner, k.socket, s.net.isLive k.owner, 0, bytes.length⟩] }
          sendQueue := [] } := by
  have hpos : bytes.length ≠ 0 := fun h => hbytes (List.length_eq_zero_iff.1 h)
  simp [handleSend, hsend, trySendAndMarkPendingIfUndone, hk, hvalid, trySend,
    WriteOutcome.Fits, WriteOutcome.count, AutoBuffer.ntotal, send, hpos, AutoBuffer.seekEnd]

/-- It lists one write. -/
theorem handleSend_writes {s : State} {x : CtxId} {k : SendContext} {bytes : Bytes}
    (hsend : s.sendQueue = [x]) (hk : s.net.ctxs x = some { k with buffer := ⟨bytes, 0, none⟩ })
    (hvalid : k.isTcpConnValid = true) (hbytes : bytes ≠ []) :
    ∃ t, step sampleConfig s (.handleSend (.wrote bytes.length)) = some t ∧
      t.net.writes = s.net.writes ++
        [⟨x, k.owner, k.socket, s.net.isLive k.owner, 0, bytes.length⟩] :=
  ⟨_, handleSend_all hsend hk hvalid hbytes, onSendDone_writes x _⟩

/-- The same round, when the connection is live: the contexts with the number
of `x` go off its list. -/
theorem run_sent {s : State} {x : CtxId} {k : SendContext} {bytes : Bytes}
    {c : ConnectionProfile} (hsend : s.sendQueue = [x])
    (hk : s.net.ctxs x = some { k with buffer := ⟨bytes, 0, none⟩ })
    (hvalid : k.isTcpConnValid = true) (hbytes : bytes ≠ [])
    (hc : s.net.mgr.conns k.owner = some c) :
    ∃ s' timeoutTs sendContexts,
      run (step sampleConfig) s [.handleSend (.wrote bytes.length)] = some s' ∧
      s'.net.mgr = s.net.mgr.update k.owner { c with timeoutTs, sendContexts } ∧
      s'.net.ctxs = Function.update s.net.ctxs x
        (some { k with buffer := ⟨bytes, bytes.length, none⟩ }) ∧
      s'.net.nextCtx = s.net.nextCtx ∧ s'.net.nextConn = s.net.nextConn ∧
      s'.recvQueue = s.recvQueue ∧ s'.workers = s.workers ∧ s'.sendQueue = [] ∧
      s'.visit = s.visit ∧
      sendContexts = c.sendContexts.filter fun y => s'.net.seqOf y ≠ k.seq := by
  generalize hN : ({ s.net with
      ctxs := Function.update s.net.ctxs x (some { k with buffer := ⟨bytes, bytes.length, none⟩ })
      writes := s.net.writes ++
        [⟨x, k.owner, k.socket, s.net.isLive k.owner, 0, bytes.length⟩] } : NetState) = N
  have hround : step sampleConfig s (.handleSend (.wrote bytes.length)) =
      some { s with net := N.onSendDone x, sendQueue := [] } := by
    rw [← hN]
    exact handleSend_all hsend hk hvalid hbytes
  have hctxs : N.ctxs = Function.update s.net.ctxs x
      (some { k with buffer := ⟨bytes, bytes.length, none⟩ }) := by rw [← hN]
  have hmgr : N.mgr = s.net.mgr := by rw [← hN]
  have hnextCtx : N.nextCtx = s.net.nextCtx := by rw [← hN]
  have hnextConn : N.nextConn = s.net.nextConn := by rw [← hN]
  have hkN : N.ctxs x = some { k with buffer := ⟨bytes, bytes.length, none⟩ } := by
    rw [hctxs, Function.update_self]
  have hcN : N.mgr.conns k.owner = some c := by
    rw [hmgr]
    exact hc
  obtain ⟨d, hd⟩ : ∃ d, d = c.sendContextSendDoneCallback N.now k.seq N.seqOf := ⟨_, rfl⟩
  have hdone : N.onSendDone x = N.setConn k.owner d := by
    unfold NetState.onSendDone
    simp only [hkN, hcN, hd]
  have hrun : run (step sampleConfig) s [.handleSend (.wrote bytes.length)] =
      some { s with net := N.onSendDone x, sendQueue := [] } := by
    rw [run_cons_some hround, run_nil]
  refine ⟨_, d.timeoutTs, d.sendContexts, hrun, ?_, ?_, ?_, ?_, rfl, rfl, rfl, rfl, ?_⟩
  · show (N.onSendDone x).mgr = _
    rw [hdone, ← hmgr, hd]
    rfl
  · exact (onSendDone_ctxs x N).trans hctxs
  · show (N.onSendDone x).nextCtx = _
    rw [hdone]
    exact hnextCtx
  · show (N.onSendDone x).nextConn = _
    rw [hdone]
    exact hnextConn
  · have hseqOf : (N.onSendDone x).seqOf = N.seqOf := by
      unfold seqOf
      rw [onSendDone_ctxs]
    show _ = c.sendContexts.filter fun y => decide ((N.onSendDone x).seqOf y ≠ k.seq)
    rw [hseqOf, hd]
    rfl

/-- A frame that arrives while nothing else is under way goes to a worker. -/
theorem run_frame {s : State} {c : ConnectionProfile} (g : Group) (htail : g.tail = [])
    (hc : s.net.mgr.conns 0 = some c) (hup : Upgraded c) (hrecv : s.recvQueue = []) :
    ∃ s' nextNo ctx, run (step sampleConfig) s [.readEvent 0 [g.outcome], .take] = some s' ∧
      s'.net = (s.net.setConn 0 (behindDispatch s.net.nextCtx
        (.webSocket Ws.WebSocketParser.fresh) [] nextNo c)).allocCtx (some (madeContext 0 c)) ∧
      s'.recvQueue = [] ∧ s'.workers = s.workers ++ [⟨ctx, .taken⟩] ∧
      s'.sendQueue = s.sendQueue ∧ s'.visit = s.visit ∧
      ctx.returnPacket = some s.net.nextCtx ∧ isData ctx.applicationPacket = true := by
  obtain ⟨nextNo, packetNo, packet, hevent, hshaken, -, hclose⟩ :=
    onReadEvent_single g hup 0 s.net.nextCtx htail
  have hnet : s.net.onReadEvent upgradeApplicationProtocol 0 [g.outcome] =
      some ((s.net.setConn 0 (behindDispatch s.net.nextCtx
        (.webSocket Ws.WebSocketParser.fresh) [] nextNo c)).allocCtx (some (madeContext 0 c)),
        .dispatched (passedContext 0 s.net.nextCtx (.webSocket packet) packetNo c)) := by
    unfold NetState.onReadEvent
    simp only [hc, hevent]
  have hrun : run (step sampleConfig) s [.readEvent 0 [g.outcome], .take] =
      some
        { s with
          net := (s.net.setConn 0 (behindDispatch s.net.nextCtx
            (.webSocket Ws.WebSocketParser.fresh) [] nextNo c)).allocCtx (some (madeContext 0 c))
          recvQueue := []
          workers := s.workers ++
            [⟨passedContext 0 s.net.nextCtx (.webSocket packet) packetNo c, .taken⟩]
          queued := s.queued ++
            [passedContext 0 s.net.nextCtx (.webSocket packet) packetNo c] } := by
    simp [run, step, onReadEvent, hnet, handleApplicationPacket, refuses, isWorkerFullyLoad,
      hrecv, sampleConfig, hclose, passedContext, pushBack, kMaxQueueSize, takeTask]
  exact ⟨_, nextNo, _, hrun, rfl, rfl, rfl, rfl, rfl, rfl, hshaken⟩

theorem waiting_opening :
    ∃ s, run (step sampleConfig) (init sampleConfig) opening = some s ∧ Waiting 0 [1] s := by
  have hopening : ∃ s ∈ run (step sampleConfig) (init sampleConfig) opening, Waiting 0 [1] s := by
    decide +kernel
  exact hopening

/-- **One more frame.**  The number of its context is taken off the list, and
with it the waiting context if it has the same number. -/
theorem waiting_answered {j : Nat} {s : State} (h : Waiting j [1] s) :
    ∃ s', run (step sampleConfig) s (answered j) = some s' ∧
      Waiting (j + 1) (if (2 + j + 1) % 2 ^ 32 = 2 then [] else [1]) s' := by
  obtain ⟨⟨c, hc, hup, huid, hseq, hlisted⟩, hslot, hctx, hnext, hworkers, hrecv, hsend,
    hvisit, hcnt, hnextConn⟩ := h
  obtain ⟨s₁, nextNo, ctx, hrun₁, hnet₁, hrecv₁, hworkers₁, hsend₁, hvisit₁, hreturn₁, hdata₁⟩ :=
    run_frame ⟨FrameRun.bye, [], by decide⟩ rfl hc hup hrecv
  obtain ⟨ctx₀, hworkers₀, -⟩ := workers_of_map hworkers
  have hk₁ : s₁.net.ctxs s.net.nextCtx = some (madeContext 0 c) := by
    rw [hnet₁]
    exact Function.update_self _ _ _
  obtain ⟨s₂, hrun₂, hmgr₂, hnext₂, hnextConn₂, hctxs₂, hrecv₂, hworkers₂, hsend₂, hvisit₂⟩ :=
    run_worker (i := 1) hrecv₁ (hsend₁.trans hsend) (by rw [hworkers₁, hworkers₀]; rfl) hreturn₁
      hdata₁ hk₁ rfl
  rw [hvisit₁, hvisit] at hctxs₂ hvisit₂
  have hk₂ : s₂.net.ctxs s.net.nextCtx =
      some { madeContext 0 c with buffer := ⟨answer (j % 2 ^ 64), 0, none⟩ } := by
    rw [hctxs₂, Function.update_self]
  have hc₂ : s₂.net.mgr.conns 0 = some (behindDispatch s.net.nextCtx
      (.webSocket Ws.WebSocketParser.fresh) [] nextNo c) := by
    rw [hmgr₂, hnet₁]
    show Function.update s.net.mgr.conns 0 (some _) 0 = some _
    rw [Function.update_self]
  obtain ⟨s₃, timeoutTs, sendContexts, hrun₃, hmgr₃, hctxs₃, hnext₃, hnextConn₃, hrecv₃,
    hworkers₃, hsend₃, hvisit₃, hlisted₃⟩ := run_sent hsend₂ hk₂ rfl (Ws.pack_ne_nil _) hc₂
  refine ⟨s₃, run_append_some hrun₁ (run_append_some hrun₂ hrun₃), ?_⟩
  -- the contexts of the new frame and of the waiting worker, by their numbers
  have hne : (1 : CtxId) ≠ s.net.nextCtx := Nat.ne_of_lt hnext
  have hnumber : (madeContext 0 c).seq = (2 + j + 1) % 2 ^ 32 := by
    show (c.sendCtxSeq + 1) % 2 ^ 32 = _
    rw [hseq, Nat.mod_add_mod]
  have hctx₃ : s₃.net.ctxs 1 = some waitingContext := by
    rw [hctxs₃, Function.update_of_ne hne, hctxs₂, Function.update_of_ne hne, hnet₁]
    show Function.update s.net.ctxs s.net.nextCtx _ 1 = _
    rw [Function.update_of_ne hne, hctx]
  have hself : s₃.net.seqOf s.net.nextCtx = (madeContext 0 c).seq := by
    unfold seqOf
    rw [hctxs₃, Function.update_self]
  have hold : s₃.net.seqOf 1 = 2 := by
    unfold seqOf
    rw [hctx₃]
    rfl
  have hlist : sendContexts = if (2 + j + 1) % 2 ^ 32 = 2 then [] else [1] := by
    rw [hlisted₃]
    show (c.sendContexts ++ [s.net.nextCtx]).filter _ = _
    have hlast : decide (s₃.net.seqOf s.net.nextCtx ≠ (madeContext 0 c).seq) = false :=
      decide_eq_false fun h => h hself
    rw [hlisted, List.filter_append, List.filter_singleton, List.filter_singleton, hlast, hold,
      hnumber]
    by_cases hwrap : (2 + j + 1) % 2 ^ 32 = 2
    · rw [if_pos hwrap, hwrap]
      rfl
    · rw [if_neg hwrap, decide_eq_true (Ne.symm hwrap)]
      rfl
  have hc₃ : s₃.net.mgr.conns 0 = some { behindDispatch s.net.nextCtx
      (.webSocket Ws.WebSocketParser.fresh) [] nextNo c with timeoutTs, sendContexts } := by
    rw [hmgr₃]
    show Function.update s₂.net.mgr.conns 0 (some _) 0 = some _
    rw [Function.update_self]
  refine ⟨⟨_, hc₃, ⟨hup.type, rfl, rfl, hup.unflagged, hup.running⟩, huid, hnumber, hlist⟩, ?_,
    hctx₃, ?_, ?_, hrecv₃.trans hrecv₂, hsend₃, ?_, ?_, ?_⟩
  · rw [hmgr₃, hmgr₂, hnet₁]
    exact hslot
  · rw [hnext₃, hnext₂, hnet₁]
    exact Nat.lt_succ_of_lt hnext
  · rw [hworkers₃, hworkers₂, hworkers₁, hworkers₀]
    rw [hworkers₀] at hworkers
    exact hworkers
  · rw [hvisit₃, hvisit₂, Nat.mod_add_mod]
  · rw [hmgr₃, hmgr₂, hnet₁]
    exact hcnt
  · rw [hnextConn₃, hnextConn₂, hnet₁]
    exact hnextConn

/-- `n` more frames, as long as the numbers have not wrapped around. -/
theorem waiting_frames (n : Nat) (hn : n < 2 ^ 32) :
    ∃ s, run (step sampleConfig) (init sampleConfig)
        (opening ++ (List.range n).flatMap answered) = some s ∧ Waiting n [1] s := by
  induction n with
  | zero =>
      obtain ⟨s, hrun, hwaiting⟩ := waiting_opening
      exact ⟨s, by simpa using hrun, hwaiting⟩
  | succ n ih =>
      obtain ⟨s, hrun, hwaiting⟩ := ih (Nat.lt_of_succ_lt hn)
      obtain ⟨s', hrun', hwaiting'⟩ := waiting_answered hwaiting
      refine ⟨s', ?_, ?_⟩
      · rw [List.range_succ, List.flatMap_append, ← List.append_assoc]
        exact run_append_some hrun (by simpa using hrun')
      · rw [if_neg] at hwaiting'
        · exact hwaiting'
        · omega

/-- A client that comes behind a deletion gets the uid, and nothing else of the
server changes. -/
theorem step_accept_released {s : State} {uid : Nat} {rest : List Nat} (fd : Nat) (ip : Bytes)
    (port : Nat) (hfree : s.net.mgr.freePlaces = uid :: rest)
    (huid : uid < s.net.mgr.pool.length)
    (hcnt : s.net.mgr.currConnectionCnt < sampleConfig.maxConnections) :
    ∃ mgr, step sampleConfig s (.accept fd ip port) =
        some { s with net := { s.net with mgr, nextConn := s.net.nextConn + 1 } } ∧
      ∀ id, id ≠ s.net.nextConn → mgr.conns id = s.net.mgr.conns id := by
  have hroom : s.net.mgr.checkCapacity sampleConfig.vector = s.net.mgr := by
    unfold ConnectionManager.checkCapacity
    rw [if_neg (by rw [hfree]; exact List.cons_ne_nil _ _)]
  let c := configApplicationLayer (.init .kAcceptFrom fd ip port s.net.now)
  let mgr := { s.net.mgr with
    pool := s.net.mgr.pool.set uid (some s.net.nextConn), freePlaces := rest,
    conns := Function.update s.net.mgr.conns s.net.nextConn (some { c with uid }) }
  have hadd : s.net.mgr.addConnection sampleConfig.vector s.net.nextConn c = some mgr := by
    unfold ConnectionManager.addConnection
    simp only [hroom, hfree, if_pos huid]
    rfl
  refine ⟨mgr, ?_, fun id hid => Function.update_of_ne hid _ _⟩
  simp only [step, registerConnection, if_neg (Nat.not_le_of_lt hcnt), NetState.addConnection]
  rw [hadd]
  rfl

/-- The connection ends while it does not list the waiting context. -/
theorem not_returnsOk_closing {j : Nat} {s : State} (h : Waiting j [] s) :
    ∃ t, run (step sampleConfig) s (closing j) = some t ∧ ¬ t.ReturnsOk := by
  obtain ⟨⟨c, hc, hup, huid, hseq, hlisted⟩, hslot, hctx, hnext, hworkers, hrecv, hsend,
    hvisit, hcnt, hnextConn⟩ := h
  obtain ⟨ctx, hworkers, hreturn, hdata⟩ := workers_of_map hworkers
  have herr : step sampleConfig s (.errEvent 0) =
      some { s with net := s.net.destroy 1 1 0 c } := by
    have hc' : s.net.mgr.conns 0 = some c := hc
    simp [step, onErrEvent, hc', huid, delConnection, hslot]
  generalize hs₀ : ({ s with net := s.net.destroy 1 1 0 c } : State) = s₀ at herr
  -- another client gets the uid of the deleted connection
  have huid₀ : 1 < s₀.net.mgr.pool.length := by
    rw [← hs₀]
    show 1 < (s.net.mgr.pool.set 1 none).length
    rw [List.length_set]
    unfold ConnectionManager.getConnection at hslot
    split_ifs at hslot
    exact (List.getElem?_eq_some_iff.1 hslot).1
  have hcnt₀ : s₀.net.mgr.currConnectionCnt < sampleConfig.maxConnections := by
    rw [← hs₀]
    show s.net.mgr.capacity - (s.net.mgr.freePlaces.length + 1) < 1024
    unfold ConnectionManager.currConnectionCnt at hcnt
    omega
  obtain ⟨mgr, haccept, hconns⟩ := step_accept_released 8 (lit "10.0.0.2") 4001
    (by rw [← hs₀]; rfl) huid₀ hcnt₀
  generalize hs₁ : ({ s₀ with
    net := { s₀.net with mgr, nextConn := s₀.net.nextConn + 1 } } : State) = s₁ at haccept
  have hctx₁ : s₁.net.ctxs 1 = some waitingContext := by
    rw [← hs₁, ← hs₀]
    show invalidate c.sendContexts s.net.ctxs 1 = _
    rw [hlisted, ← hctx]
    rfl
  obtain ⟨s₂, hrun₂, hmgr₂, -, -, hctxs₂, -, -, hsend₂, -⟩ :=
    run_worker (s := s₁) (i := 0) (by rw [← hs₁, ← hs₀]; exact hrecv)
      (by rw [← hs₁, ← hs₀]; exact hsend)
      (by rw [← hs₁, ← hs₀]; show s.workers[0]? = _; rw [hworkers]; rfl) hreturn hdata hctx₁ rfl
  have hvisit₁ : s₁.visit = j % 2 ^ 64 := by
    rw [← hs₁, ← hs₀]
    exact hvisit
  rw [hvisit₁] at hctxs₂
  have hk₂ : s₂.net.ctxs 1 = some { waitingContext with
      buffer := ⟨answer (j % 2 ^ 64), 0, none⟩ } := by
    rw [hctxs₂, Function.update_self]
  obtain ⟨t, hsent, hwrites⟩ := handleSend_writes hsend₂ hk₂ rfl (Ws.pack_ne_nil _)
  have hdead : s₂.net.isLive 0 = false := by
    have hold : (0 : ConnId) ≠ s₀.net.nextConn := by
      rw [← hs₀]
      exact Nat.ne_of_lt hnextConn
    have hnone : s₂.net.mgr.conns 0 = none := by
      rw [hmgr₂, ← hs₁, hconns 0 hold, ← hs₀]
      show Function.update s.net.mgr.conns 0 none 0 = none
      rw [Function.update_self]
    unfold isLive
    rw [hnone]
    rfl
  refine ⟨t, ?_, ?_⟩
  · show run (step sampleConfig) s
      (.errEvent 0 :: _ :: ([.check 0, .handle 0 [], .giveBack 0] ++ [_])) = _
    rw [run_cons_some herr, run_cons_some haccept]
    apply run_append_some hrun₂
    rw [run_cons_some hsent, run_nil]
  · intro hok
    have hwrite := hok.writes _
      (by rw [hwrites]; exact List.mem_append_right _ List.mem_cons_self)
    have hlive := hwrite.1
    exact absurd (hdead.symm.trans hlive) (by decide)

/-- **Behind 2³² frames** the context of the first worker is not listed any
more: the destructor does not reach it, and it is sent on a dead connection,
when another one may have taken its memory. -/
theorem not_returnsOk_wrapAround :
    ∃ t, run (step sampleConfig) (init sampleConfig)
        (opening ++ (List.range (2 ^ 32)).flatMap answered ++ closing (2 ^ 32)) = some t ∧
      ¬ t.ReturnsOk := by
  obtain ⟨s₁, hrun₁, hwaiting₁⟩ := waiting_frames (2 ^ 32 - 1) (by decide)
  obtain ⟨s, hrun₂, hwaiting⟩ := waiting_answered hwaiting₁
  rw [if_pos (by decide)] at hwaiting
  obtain ⟨t, hrun₃, hbad⟩ := not_returnsOk_closing hwaiting
  refine ⟨t, run_append_some ?_ hrun₃, hbad⟩
  have hrange : List.range (2 ^ 32) = List.range (2 ^ 32 - 1) ++ [2 ^ 32 - 1] :=
    List.range_succ
  rw [hrange, List.flatMap_append, ← List.append_assoc]
  apply run_append_some hrun₁
  rw [List.flatMap_singleton]
  exact hrun₂

end State

end Unixtar.WebServer
