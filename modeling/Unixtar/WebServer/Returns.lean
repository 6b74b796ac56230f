import Unixtar.WebServer.Heartbeat
import Unixtar.WebServer.Requests

/-!
# The return packets of requests

A request takes its return packet along from `MakeRecvContext` on, and a
`shared_ptr` keeps the packet: neither the end of the connection nor the other
threads take it away from the worker.

## Main results

* `carried_step`, `carried_heartbeat` — the requests that wait or are with
  workers have their return packets.
-/

namespace Unixtar.WebServer

open NetState

/-! ## The heap of contexts -/

/-- Every context that has been made is there. -/
def Filled (s : NetState) : Prop := ∀ x, x < s.nextCtx → s.ctxs x ≠ none

namespace Filled

variable {s t : NetState}

theorem ofFrame (h : Filled s) (hframe : s.Frame t) : Filled t := by
  intro x hx
  rw [hframe.nextCtx] at hx
  obtain ⟨k, hk⟩ := Option.ne_none_iff_exists'.1 (h x hx)
  obtain ⟨l, hl, -⟩ := hframe.owners x k hk
  rw [hl]
  exact Option.some_ne_none l

/-- A context that is there changes. -/
theorem update (h : Filled s) (x : CtxId) (k : SendContext)
    (hctxs : t.ctxs = Function.update s.ctxs x (some k)) (hnext : t.nextCtx = s.nextCtx) :
    Filled t := by
  intro y hy
  rw [hctxs]
  by_cases hyx : y = x
  · rw [hyx, Function.update_self]
    exact Option.some_ne_none k
  · rw [Function.update_of_ne hyx]
    exact h y (hnext ▸ hy)

theorem allocCtx (h : Filled s) (made : Option SendContext) : Filled (s.allocCtx made) := by
  cases made with
  | none => exact h
  | some k =>
      intro x hx
      replace hx : x < s.nextCtx + 1 := hx
      show Function.update s.ctxs s.nextCtx (some k) x ≠ none
      by_cases hnew : x = s.nextCtx
      · rw [hnew, Function.update_self]
        exact Option.some_ne_none k
      · rw [Function.update_of_ne hnew]
        exact h x (Nat.lt_of_le_of_ne (Nat.le_of_lt_succ hx) hnew)

theorem addConnection (h : Filled s) {v : VectorImpl} {c : ConnectionProfile} {id : ConnId}
    (hadd : s.addConnection v c = some (t, id)) : Filled t := by
  obtain ⟨mgr, -, heq⟩ := Option.map_eq_some_iff.1 hadd
  cases heq
  exact h

theorem register (h : Filled s) {v : VectorImpl} {maxConnections fd port : Nat} {ip : Bytes}
    (hstep : s.registerConnection v maxConnections configApplicationLayer fd ip port = some t) :
    Filled t := by
  unfold registerConnection at hstep
  split_ifs at hstep
  · cases hstep
    exact h
  · obtain ⟨⟨net, id⟩, hadd, rfl⟩ := Option.map_eq_some_iff.1 hstep
    exact h.addConnection hadd

theorem onReadEvent (h : Filled s) {id : ConnId} {outs : List ReadOutcome}
    {stop : ConnectionProfile.ReadEnd}
    (hread : s.onReadEvent upgradeApplicationProtocol id outs = some (t, stop)) : Filled t := by
  obtain ⟨c, hc⟩ := exists_conn_of_onReadEvent hread
  have hset : ∀ d, Filled (s.setConn id d) := fun d => h
  cases NetState.onReadEvent_cases hc hread with
  | deleted r t hr hdel => exact (hset r.conn).ofFrame (Frame.delConnection hdel)
  | idle r hr => exact hset r.conn
  | crashed r hr => exact hset r.conn
  | dispatched r p hr hp => exact (hset _).allocCtx _

theorem heartbeat {cfg : Config} {fd port : Nat} {ip request : Bytes} {w : WriteOutcome}
    (h : Filled s) (hbeat : sendHeartbeat cfg fd ip port request w s = some t) : Filled t := by
  obtain ⟨net, uid, done, hadd, -, hsend⟩ := sendHeartbeat_cases hbeat
  have hnet : Filled net := h.addConnection hadd
  have hset : Filled (net.setConn s.nextConn { connectionTo fd ip port s.now uid with
    sendCtxSeq := 2, sendContexts := [s.nextCtx, s.nextCtx + 1] }) := hnet
  exact ((hset.allocCtx _).allocCtx _).ofFrame (Frame.trySendAndMarkPendingIfUndone hsend)

end Filled

theorem filled_handleTask {cfg : Config} {s t : State} {i : Nat} {resp : Bytes}
    (h : Filled s.net) (hstep : s.handleTask cfg i resp = some t) : Filled t.net := by
  unfold State.handleTask at hstep
  split at hstep
  · split at hstep
    · cases hstep
    · split at hstep
      · cases hstep
      · cases hstep
        exact h.update _ _ rfl rfl
  · cases hstep

theorem filled_step {cfg : Config} {s t : State} {e : Event} (h : Filled s.net)
    (hstep : State.step cfg s e = some t) : Filled t.net := by
  cases e with
  | accept fd ip port =>
      obtain ⟨net, hnet, rfl⟩ := Option.map_eq_some_iff.1 hstep
      exact h.register hnet
  | readEvent id outs =>
      simp only [State.step, State.onReadEvent] at hstep
      split at hstep
      · rename_i net ctx hread
        have hnet := h.onReadEvent hread
        unfold State.handleApplicationPacket at hstep
        split at hstep
        · obtain ⟨net', hdel, rfl⟩ := Option.map_eq_some_iff.1 hstep
          exact hnet.ofFrame (Frame.delConnection hdel)
        · cases hstep
          exact hnet
      · rename_i net hread
        cases hstep
        exact h.onReadEvent hread
      · rename_i net hread
        cases hstep
        exact h.onReadEvent hread
      · cases hstep
      · cases hstep
  | writeEvent id ws =>
      obtain ⟨net, hnet, rfl⟩ := Option.map_eq_some_iff.1 hstep
      exact h.ofFrame (Frame.trySendPendingPackets hnet)
  | errEvent id =>
      obtain ⟨net, hnet, rfl⟩ := Option.map_eq_some_iff.1 hstep
      unfold onErrEvent at hnet
      split at hnet
      · cases hnet
      · exact h.ofFrame (Frame.delConnection hnet)
  | clearTimeout =>
      cases hstep
      exact h.ofFrame (Frame.clearTimeout s.net)
  | tick ms =>
      cases hstep
      exact h
  | take =>
      simp only [State.step, State.takeTask] at hstep
      split at hstep <;> cases hstep
      exact h
  | check i =>
      simp only [State.step, State.checkTask] at hstep
      split at hstep <;> cases hstep
      exact h
  | handle i resp => exact filled_handleTask h hstep
  | giveBack i =>
      simp only [State.step, State.giveBackTask] at hstep
      split at hstep
      · split at hstep <;> cases hstep
        exact h
      · cases hstep
  | handleSend w =>
      simp only [State.step, State.handleSend] at hstep
      split at hstep
      · cases hstep
      · obtain ⟨⟨net, done⟩, hnet, rfl⟩ := Option.map_eq_some_iff.1 hstep
        exact h.ofFrame (Frame.trySendAndMarkPendingIfUndone hnet)

/-! ## The requests -/

/-- The records of a server, and the return packets of its requests. -/
structure State.Carried (s : State) : Prop where
  recorded : s.Recorded
  filled : Filled s.net
  returns : ∀ ctx ∈ s.recvQueue ++ s.workers.map (·.ctx),
    ∃ x, ctx.returnPacket = some x ∧ x < s.net.nextCtx

theorem carried_init (cfg : Config) : (State.init cfg).Carried where
  recorded := State.recorded_init cfg
  filled x hx := absurd hx (Nat.not_lt_zero x)
  returns ctx hctx := by cases hctx

/-- **A request that waits or is with a worker** has its return packet. -/
theorem State.Carried.returnPacket {s : State} (h : s.Carried) {ctx : RecvContext}
    (hctx : ctx ∈ s.recvQueue ++ s.workers.map (·.ctx)) :
    ∃ x k, ctx.returnPacket = some x ∧ s.net.ctxs x = some k := by
  obtain ⟨x, hx, hlt⟩ := h.returns ctx hctx
  obtain ⟨k, hk⟩ := Option.ne_none_iff_exists'.1 (h.filled x hlt)
  exact ⟨x, k, hx, hk⟩

/-- **Every event** leaves them their return packets. -/
theorem carried_step {cfg : Config} {s t : State} {e : Event} (h : s.Carried)
    (hstep : State.step cfg s e = some t) : t.Carried := by
  refine ⟨State.recorded_step h.recorded hstep, filled_step h.filled hstep, ?_⟩
  have hold : ∀ ctx ∈ s.recvQueue ++ s.workers.map (·.ctx), s.net.nextCtx ≤ t.net.nextCtx →
      ∃ x, ctx.returnPacket = some x ∧ x < t.net.nextCtx := by
    intro ctx hctx hle
    obtain ⟨x, hx, hlt⟩ := h.returns ctx hctx
    exact ⟨x, hx, Nat.lt_of_lt_of_le hlt hle⟩
  intro u hu
  cases Watched.step_moves h.recorded hstep with
  | keeps e hrecv hworkers _ _ _ _ hnext =>
      rw [hrecv, hworkers] at hu
      exact hold u hu hnext
  | accepts id outs ctx _ hctx hrecv hworkers _ hnext =>
      rw [hrecv, hworkers] at hu
      have hcases : u ∈ s.recvQueue ++ s.workers.map (·.ctx) ∨ u = ctx := by
        unfold pushBack at hu
        split at hu
        · exact Or.inl hu
        · simp only [List.mem_append, List.mem_singleton] at hu ⊢
          tauto
      rcases hcases with hu | rfl
      · exact hold u hu (hnext ▸ Nat.le_succ _)
      · exact ⟨s.net.nextCtx, hctx, hnext ▸ Nat.lt_succ_self _⟩
  | takes ctx hrecv hworkers _ hnext =>
      refine hold u ?_ (Nat.le_of_eq hnext.symm)
      rw [hworkers, List.map_append] at hu
      rw [hrecv]
      simp only [List.mem_append, List.mem_cons, List.map_cons, List.map_nil] at hu ⊢
      tauto
  | gives i ctx x before after hworkers hworkers' _ hrecv _ hnext =>
      refine hold u ?_ (Nat.le_of_eq hnext.symm)
      rw [hrecv, hworkers'] at hu
      rw [hworkers]
      simp only [List.mem_append, List.mem_cons] at hu ⊢
      tauto
  | sends w x _ hrecv hworkers hnext =>
      rw [hrecv, hworkers] at hu
      exact hold u hu (Nat.le_of_eq hnext.symm)

/-- **A heartbeat** takes none away. -/
theorem carried_heartbeat {cfg : Config} {fd port : Nat} {ip request : Bytes}
    {w : WriteOutcome} {s : State} {net : NetState} (h : s.Carried)
    (hbeat : sendHeartbeat cfg fd ip port request w s.net = some net) :
    ({ s with net } : State).Carried := by
  refine ⟨recorded_heartbeat h.recorded hbeat, h.filled.heartbeat hbeat, ?_⟩
  intro ctx hctx
  obtain ⟨x, hx, hlt⟩ := h.returns ctx hctx
  exact ⟨x, hx, Nat.lt_of_lt_of_le hlt (heartbeat_nextCtx hbeat)⟩

end Unixtar.WebServer
