import Unixtar.WebServer.Handshake

/-!
# Requests between the network thread and the workers

`HandleApplicationPacket` says that the connection is not deleted as soon as it
has called `push_back`, and a worker has called `push_back` when it is done
with a request.  Both ignore what the queue answers, and a queue that holds
more than its `max_size_` drops what it is given; the checks for overload look
at `max_backlog_`, which is configured independently.

## Main results

* `step_moves` — what an event can do to the two queues and the workers.
* `placed_step` — an event that finds room keeps every accepted request in one
  place.
* `inOnePlace_iff_hasRoom` — no request is lost or doubled exactly when every
  push finds room.
-/

namespace Unixtar.WebServer

open Unixtar.Lib NetState State

/-! ## Watching a server -/

/-- A server with the requests for which `HandleApplicationPacket` has
reported that the connection is not deleted, and the return packets that
`TrySendAndMarkPendingIfUndone` has been given. -/
structure Watched where
  state : State
  accepted : List RecvContext
  sent : List CtxId

namespace Watched

def init (cfg : Config) : Watched := ⟨State.init cfg, [], []⟩

/-- The request that an event accepts. -/
def accepts (cfg : Config) (s : State) : Event → List RecvContext
  | .readEvent id outs =>
      match s.net.onReadEvent upgradeApplicationProtocol id outs with
      | some (_, .dispatched ctx) =>
          if refuses (s.isWorkerFullyLoad cfg) ctx.applicationPacket then [] else [ctx]
      | _ => []
  | _ => []

/-- The return packet that an event hands to the network thread. -/
def hands (s : State) : Event → List CtxId
  | .handleSend _ => s.sendQueue.head?.toList
  | _ => []

/-- One event. -/
def step (cfg : Config) (w : Watched) (e : Event) : Option Watched :=
  (State.step cfg w.state e).map fun state =>
    ⟨state, w.accepted ++ accepts cfg w.state e, w.sent ++ hands w.state e⟩

/-- How often a request is in `recv_queue_`, with a worker, as its return
packet in `send_queue_`, and handed to the network thread. -/
def places (w : Watched) (u : RecvContext) : Nat :=
  w.state.recvQueue.count u + (w.state.workers.map (·.ctx)).count u +
    ((w.state.sendQueue.map some).count u.returnPacket + (w.sent.map some).count u.returnPacket)

/-- Every accepted request is in exactly one place. -/
def InOnePlace (w : Watched) : Prop := ∀ u ∈ w.accepted, w.places u = 1

/-- A push finds room in its queue. -/
def HasRoom (cfg : Config) (w : Watched) : Event → Prop
  | .readEvent id outs =>
      accepts cfg w.state (.readEvent id outs) ≠ [] → w.state.recvQueue.length ≤ kMaxQueueSize
  | .giveBack _ => w.state.sendQueue.length ≤ kMaxQueueSize
  | _ => True

/-! ## What an event moves -/

/-- What an event does to the queues and to the requests with the workers. -/
inductive Moves (cfg : Config) (s t : State) : Event → Prop
  | keeps (e : Event) : t.recvQueue = s.recvQueue →
      t.workers.map (·.ctx) = s.workers.map (·.ctx) → t.sendQueue = s.sendQueue →
      accepts cfg s e = [] → hands s e = [] → (∀ i, e ≠ .giveBack i) →
      s.net.nextCtx ≤ t.net.nextCtx → Moves cfg s t e
  | accepts (id : ConnId) (outs : List ReadOutcome) (ctx : RecvContext) :
      accepts cfg s (.readEvent id outs) = [ctx] → ctx.returnPacket = some s.net.nextCtx →
      t.recvQueue = pushBack s.recvQueue ctx → t.workers = s.workers →
      t.sendQueue = s.sendQueue → t.net.nextCtx = s.net.nextCtx + 1 →
      Moves cfg s t (.readEvent id outs)
  | takes (ctx : RecvContext) : s.recvQueue = ctx :: t.recvQueue →
      t.workers = s.workers ++ [⟨ctx, .taken⟩] → t.sendQueue = s.sendQueue →
      t.net.nextCtx = s.net.nextCtx → Moves cfg s t .take
  | gives (i : Nat) (ctx : RecvContext) (x : CtxId) (before after : List RecvContext) :
      s.workers.map (·.ctx) = before ++ ctx :: after →
      t.workers.map (·.ctx) = before ++ after → ctx.returnPacket = some x →
      t.recvQueue = s.recvQueue → t.sendQueue = pushBack s.sendQueue x →
      t.net.nextCtx = s.net.nextCtx → Moves cfg s t (.giveBack i)
  | sends (outcome : WriteOutcome) (x : CtxId) : s.sendQueue = x :: t.sendQueue →
      t.recvQueue = s.recvQueue → t.workers = s.workers → t.net.nextCtx = s.net.nextCtx →
      Moves cfg s t (.handleSend outcome)

theorem moves_readEvent {cfg : Config} {s t : State} {id : ConnId} {outs : List ReadOutcome}
    (h : s.Recorded) (hstep : s.onReadEvent cfg id outs = some t) :
    Moves cfg s t (.readEvent id outs) := by
  obtain ⟨net, stop, c, hevent, hc⟩ := State.onReadEvent_net hstep
  have hcases := onReadEvent_cases hc (h.upgrades.conns id c hc).2.configured hevent
  have hgive : ∀ i, Event.readEvent id outs ≠ .giveBack i := by
    intro i h
    cases h
  simp only [State.onReadEvent, hevent] at hstep
  cases hcases with
  | deleted r net hr hdel =>
      cases hstep
      refine Moves.keeps _ rfl rfl rfl ?_ rfl hgive ?_
      · simp [accepts, hevent]
      · exact Nat.le_of_eq (Frame.delConnection hdel).nextCtx.symm
  | idle r hr =>
      cases hstep
      refine Moves.keeps _ rfl rfl rfl ?_ rfl hgive (Nat.le_refl _)
      simp [accepts, hevent]
  | crashed r hr => cases hstep
  | dispatched r p parser tcpByteArr nextNo packet packetNo hr hp hpasses =>
      unfold handleApplicationPacket at hstep
      dsimp only at hstep
      split at hstep
      · rename_i hrefuses
        obtain ⟨net, hdel, rfl⟩ := Option.map_eq_some_iff.1 hstep
        refine Moves.keeps _ rfl rfl rfl ?_ rfl hgive ?_
        · simp only [accepts, hevent]
          exact if_pos hrefuses
        · rw [(Frame.delConnection hdel).nextCtx]
          exact Nat.le_succ _
      · rename_i hrefuses
        cases hstep
        refine Moves.accepts id outs _ ?_ rfl rfl rfl rfl rfl
        simp only [accepts, hevent]
        exact if_neg hrefuses

/-- **One event**, seen from the queues. -/
theorem step_moves {cfg : Config} {s t : State} {e : Event} (h : s.Recorded)
    (hstep : State.step cfg s e = some t) : Moves cfg s t e := by
  cases e with
  | accept fd ip port =>
      obtain ⟨net, hnet, rfl⟩ := Option.map_eq_some_iff.1 hstep
      refine Moves.keeps _ rfl rfl rfl rfl rfl (fun i => nofun) ?_
      exact Nat.le_of_eq (registerConnection_nextCtx hnet).symm
  | readEvent id outs => exact moves_readEvent h hstep
  | writeEvent id ws =>
      obtain ⟨net, hsend, rfl⟩ := Option.map_eq_some_iff.1 hstep
      refine Moves.keeps _ rfl rfl rfl rfl rfl (fun i => nofun) ?_
      exact Nat.le_of_eq (Frame.trySendPendingPackets hsend).nextCtx.symm
  | errEvent id =>
      obtain ⟨net, herr, rfl⟩ := Option.map_eq_some_iff.1 hstep
      refine Moves.keeps _ rfl rfl rfl rfl rfl (fun i => nofun) ?_
      unfold onErrEvent at herr
      split at herr
      · cases herr
      · exact Nat.le_of_eq (Frame.delConnection herr).nextCtx.symm
  | clearTimeout =>
      cases hstep
      refine Moves.keeps _ rfl rfl rfl rfl rfl (fun i => nofun) ?_
      exact Nat.le_of_eq (Frame.clearTimeout s.net).nextCtx.symm
  | tick ms =>
      cases hstep
      exact Moves.keeps _ rfl rfl rfl rfl rfl (fun i => nofun) (Nat.le_refl _)
  | take =>
      replace hstep : s.takeTask = some t := hstep
      unfold takeTask at hstep
      split at hstep
      · cases hstep
      · rename_i ctx rest hqueue
        cases hstep
        exact Moves.takes ctx hqueue rfl rfl rfl
  | check i =>
      replace hstep : s.checkTask cfg i = some t := hstep
      unfold checkTask at hstep
      split at hstep
      · rename_i ctx htask
        cases hstep
        obtain ⟨before, after, hworkers, hset, -⟩ := split_worker htask
        refine Moves.keeps _ rfl ?_ rfl rfl rfl (fun i => nofun) (Nat.le_refl _)
        show (s.workers.set i _).map _ = _
        rw [hset, hworkers, List.map_append, List.map_append]
        rfl
      · cases hstep
  | handle i resp =>
      obtain ⟨ctx, overload, htask, hrecv, hsend, hworkers', -, -, -, hnext, -⟩ :=
        handleTask_eq hstep
      obtain ⟨before, after, hworkers, hset, -⟩ := split_worker htask
      refine Moves.keeps _ hrecv ?_ hsend rfl rfl (fun i => nofun) (Nat.le_of_eq hnext.symm)
      rw [hworkers', hset, hworkers, List.map_append, List.map_append]
      rfl
  | giveBack i =>
      replace hstep : s.giveBackTask i = some t := hstep
      unfold giveBackTask at hstep
      split at hstep
      · rename_i ctx htask
        split at hstep
        · cases hstep
        · rename_i x hx
          cases hstep
          obtain ⟨before, after, hworkers, -, herase⟩ := split_worker htask
          refine Moves.gives i ctx x (before.map (·.ctx)) (after.map (·.ctx)) ?_ ?_ hx rfl rfl rfl
          · rw [hworkers, List.map_append, List.map_cons]
          · show (s.workers.eraseIdx i).map _ = _
            rw [herase, List.map_append]
      · cases hstep
  | handleSend outcome =>
      replace hstep : s.handleSend outcome = some t := hstep
      unfold State.handleSend at hstep
      split at hstep
      · cases hstep
      · rename_i x rest hqueue
        obtain ⟨⟨net, done⟩, hsend, rfl⟩ := Option.map_eq_some_iff.1 hstep
        exact Moves.sends outcome x hqueue rfl rfl
          (Frame.trySendAndMarkPendingIfUndone hsend).nextCtx

/-! ## Every accepted request has one place -/

/-- The requests waiting, with the workers, and given back are those accepted,
each with a return packet of its own; those given back have been sent or wait
to be sent, in their order. -/
structure Placed (w : Watched) : Prop where
  recorded : w.state.Recorded
  perm : ∃ given, (w.state.recvQueue ++ (w.state.workers.map (·.ctx) ++ given)).Perm w.accepted ∧
    given.map (·.returnPacket) = (w.sent ++ w.state.sendQueue).map some
  nodup : (w.accepted.map (·.returnPacket)).Nodup
  returns : ∀ u ∈ w.accepted, ∃ x, u.returnPacket = some x ∧ x < w.state.net.nextCtx

theorem placed_init (cfg : Config) : (init cfg).Placed where
  recorded := recorded_init cfg
  perm := ⟨[], List.Perm.refl _, rfl⟩
  nodup := List.nodup_nil
  returns u hu := by cases hu

/-- A return packet belongs to one request. -/
theorem Placed.eq_of_returnPacket {w : Watched} (h : w.Placed) {u v : RecvContext}
    (hu : u ∈ w.accepted) (hv : v ∈ w.accepted) (huv : u.returnPacket = v.returnPacket) : u = v :=
  List.inj_on_of_nodup_map h.nodup hu hv huv

/-- The requests given back, by their return packets. -/
theorem count_map_returnPacket {l : List RecvContext} {u : RecvContext}
    (h : ∀ v ∈ l, v.returnPacket = u.returnPacket → v = u) :
    (l.map (·.returnPacket)).count u.returnPacket = l.count u := by
  induction l with
  | nil => rfl
  | cons v l ih =>
      have hrest := ih fun v' hv' => h v' (List.mem_cons_of_mem v hv')
      rw [List.map_cons, List.count_cons, List.count_cons, hrest]
      by_cases hvu : v = u
      · rw [hvu]
        simp
      · have hne : v.returnPacket ≠ u.returnPacket :=
          fun heq => hvu (h v (List.mem_cons_self ..) heq)
        simp [hvu, hne]

/-- The places of a request, counted among the requests. -/
theorem places_eq {w : Watched} {given : List RecvContext} {u : RecvContext}
    (hgiven : given.map (·.returnPacket) = (w.sent ++ w.state.sendQueue).map some)
    (hinj : ∀ v ∈ given, v.returnPacket = u.returnPacket → v = u) :
    w.places u = (w.state.recvQueue ++ (w.state.workers.map (·.ctx) ++ given)).count u := by
  have hcount := count_map_returnPacket hinj
  rw [hgiven, List.map_append, List.count_append] at hcount
  unfold places
  rw [List.count_append, List.count_append, ← hcount]
  omega

theorem Placed.inOnePlace {w : Watched} (h : w.Placed) : w.InOnePlace := by
  obtain ⟨given, hperm, hgiven⟩ := h.perm
  intro u hu
  have hinj : ∀ v ∈ given, v.returnPacket = u.returnPacket → v = u := by
    intro v hv hvu
    have hv' : v ∈ w.accepted :=
      hperm.subset (List.mem_append_right _ (List.mem_append_right _ hv))
    exact h.eq_of_returnPacket hv' hu hvu
  rw [places_eq hgiven hinj, hperm.count_eq]
  exact List.count_eq_one_of_mem (List.Nodup.of_map _ h.nodup) hu

/-- The queue with room takes what it is given. -/
theorem pushBack_of_le {α : Type} {queue : List α} (h : queue.length ≤ kMaxQueueSize) (v : α) :
    pushBack queue v = queue ++ [v] :=
  if_neg (Nat.not_lt.2 h)

theorem pushBack_of_lt {α : Type} {queue : List α} (h : kMaxQueueSize < queue.length) (v : α) :
    pushBack queue v = queue :=
  if_pos h

/-- The new return packet is nobody else's. -/
theorem Placed.fresh {w : Watched} (h : w.Placed) {ctx : RecvContext}
    (hctx : ctx.returnPacket = some w.state.net.nextCtx) :
    ctx.returnPacket ∉ w.accepted.map (·.returnPacket) := by
  intro hmem
  obtain ⟨v, hv, hreturn⟩ := List.mem_map.1 hmem
  obtain ⟨x, hx, hlt⟩ := h.returns v hv
  rw [hx, hctx] at hreturn
  cases hreturn
  exact Nat.lt_irrefl _ hlt

theorem Placed.returns_mono {w : Watched} (h : w.Placed) {n : Nat}
    (hn : w.state.net.nextCtx ≤ n) :
    ∀ u ∈ w.accepted, ∃ x, u.returnPacket = some x ∧ x < n := by
  intro u hu
  obtain ⟨x, hx, hlt⟩ := h.returns u hu
  exact ⟨x, hx, Nat.lt_of_lt_of_le hlt hn⟩

/-- No request is accepted, and the others have moved. -/
theorem Placed.ofPerm {w : Watched} {t : State} {sent : List CtxId} {given : List RecvContext}
    (h : w.Placed) (hrecorded : t.Recorded) (hnext : w.state.net.nextCtx ≤ t.net.nextCtx)
    (hperm : (t.recvQueue ++ (t.workers.map (·.ctx) ++ given)).Perm w.accepted)
    (hgiven : given.map (·.returnPacket) = (sent ++ t.sendQueue).map some) :
    Placed ⟨t, w.accepted, sent⟩ where
  recorded := hrecorded
  perm := ⟨given, hperm, hgiven⟩
  nodup := h.nodup
  returns := h.returns_mono hnext

/-- A request is accepted, and its queue takes it. -/
theorem Placed.accept {w : Watched} {t : State} {ctx : RecvContext} (h : w.Placed)
    (hrecorded : t.Recorded) (hreturn : ctx.returnPacket = some w.state.net.nextCtx)
    (hnext : t.net.nextCtx = w.state.net.nextCtx + 1)
    (hrecv : t.recvQueue = w.state.recvQueue ++ [ctx]) (hworkers : t.workers = w.state.workers)
    (hsend : t.sendQueue = w.state.sendQueue) : Placed ⟨t, w.accepted ++ [ctx], w.sent⟩ where
  recorded := hrecorded
  perm := by
    obtain ⟨given, hperm, hgiven⟩ := h.perm
    refine ⟨given, ?_, ?_⟩
    · show (t.recvQueue ++ (t.workers.map _ ++ given)).Perm (w.accepted ++ [ctx])
      rw [hrecv, hworkers, List.append_assoc]
      refine (List.perm_middle.trans (hperm.cons ctx)).trans ?_
      exact (List.perm_append_singleton ctx _).symm
    · show _ = (w.sent ++ t.sendQueue).map some
      rw [hsend]
      exact hgiven
  nodup := by
    have hfresh := h.fresh hreturn
    rw [List.map_append, List.nodup_append]
    refine ⟨h.nodup, List.nodup_singleton _, ?_⟩
    intro x hx y hy hxy
    rw [hxy, List.mem_singleton.1 hy] at hx
    exact hfresh hx
  returns := by
    intro u hu
    rcases List.mem_append.1 hu with hu | hu
    · exact h.returns_mono (Nat.le_of_lt (hnext ▸ Nat.lt_succ_self _)) u hu
    · rw [List.mem_singleton.1 hu]
      exact ⟨_, hreturn, hnext ▸ Nat.lt_succ_self _⟩

/-- **An event that finds room** keeps every accepted request in one place. -/
theorem placed_step {cfg : Config} {w w' : Watched} {e : Event} (h : w.Placed)
    (hroom : HasRoom cfg w e) (hstep : step cfg w e = some w') : w'.Placed := by
  obtain ⟨t, ht, rfl⟩ := Option.map_eq_some_iff.1 hstep
  have hrecorded := recorded_step h.recorded ht
  obtain ⟨given, hperm, hgiven⟩ := h.perm
  cases step_moves h.recorded ht with
  | keeps _ hrecv hworkers hsend haccepts hhands _ hnext =>
      rw [haccepts, hhands, List.append_nil, List.append_nil]
      rw [← hrecv, ← hworkers] at hperm
      rw [← hsend] at hgiven
      exact h.ofPerm hrecorded hnext hperm hgiven
  | accepts id outs ctx haccepts hreturn hrecv hworkers hsend hnext =>
      have hle : w.state.recvQueue.length ≤ kMaxQueueSize := by
        apply hroom
        rw [haccepts]
        exact List.cons_ne_nil ctx []
      rw [pushBack_of_le hle] at hrecv
      show Placed ⟨t, w.accepted ++ accepts cfg w.state _, w.sent ++ []⟩
      rw [haccepts, List.append_nil]
      exact h.accept hrecorded hreturn hnext hrecv hworkers hsend
  | takes ctx hqueue hworkers hsend hnext =>
      show Placed ⟨t, w.accepted ++ [], w.sent ++ []⟩
      rw [List.append_nil, List.append_nil]
      rw [← hsend] at hgiven
      refine h.ofPerm hrecorded (Nat.le_of_eq hnext.symm) (List.Perm.trans ?_ hperm) hgiven
      rw [hworkers, hqueue, List.map_append, List.append_assoc, ← List.append_assoc t.recvQueue]
      refine List.perm_middle.trans ?_
      rw [List.append_assoc]
      exact List.Perm.refl _
  | gives i ctx x before after hworkers hworkers' hreturn hrecv hsend hnext =>
      replace hroom : w.state.sendQueue.length ≤ kMaxQueueSize := hroom
      rw [pushBack_of_le hroom] at hsend
      show Placed ⟨t, w.accepted ++ [], w.sent ++ []⟩
      rw [List.append_nil, List.append_nil]
      have hgiven' : (given ++ [ctx]).map (·.returnPacket) = (w.sent ++ t.sendQueue).map some := by
        rw [hsend, ← List.append_assoc, List.map_append, List.map_append, hgiven,
          List.map_singleton, hreturn]
        rfl
      refine h.ofPerm hrecorded (Nat.le_of_eq hnext.symm) (List.Perm.trans ?_ hperm) hgiven'
      rw [hrecv, hworkers, hworkers']
      apply List.Perm.append_left
      rw [← List.append_assoc, List.append_assoc before (ctx :: after) given]
      refine (List.perm_append_singleton ctx _).trans ?_
      rw [List.append_assoc]
      exact List.perm_middle.symm
  | sends outcome x hqueue hrecv hworkers hnext =>
      have hhands : hands w.state (.handleSend outcome) = [x] := by
        simp only [hands, hqueue]
        rfl
      show Placed ⟨t, w.accepted ++ [], w.sent ++ hands w.state _⟩
      rw [List.append_nil, hhands]
      rw [← hrecv, ← hworkers] at hperm
      refine h.ofPerm hrecorded (Nat.le_of_eq hnext.symm) hperm ?_
      rw [hgiven, hqueue, List.append_assoc]
      rfl

theorem placed_trace {cfg : Config} {events : List Event}
    (hroom : Along (step cfg) (HasRoom cfg) (init cfg) events) :
    ∀ w ∈ trace (step cfg) (init cfg) events, w.Placed := by
  refine trace_invariant (C := HasRoom cfg) ?_ (placed_init cfg) hroom
  intro w e w' h hfinds hstep
  exact placed_step h hfinds hstep

/-- An accepted request that is nowhere. -/
theorem not_inOnePlace_of_missing {w : Watched} {given : List RecvContext} {u : RecvContext}
    (hgiven : given.map (·.returnPacket) = (w.sent ++ w.state.sendQueue).map some)
    (hu : u ∈ w.accepted)
    (hnone : ∀ v ∈ w.state.recvQueue ++ (w.state.workers.map (·.ctx) ++ given),
      v.returnPacket ≠ u.returnPacket) : ¬ w.InOnePlace := by
  intro hone
  have hplaces := hone u hu
  rw [places_eq hgiven] at hplaces
  · have hmem := List.count_pos_iff.1 (hplaces ▸ Nat.one_pos)
    exact hnone u hmem rfl
  · intro v hv heq
    exact absurd heq (hnone v (List.mem_append_right _ (List.mem_append_right _ hv)))

/-- **An event that finds no room** loses a request. -/
theorem not_inOnePlace_step {cfg : Config} {w w' : Watched} {e : Event} (h : w.Placed)
    (hroom : ¬ HasRoom cfg w e) (hstep : step cfg w e = some w') : ¬ w'.InOnePlace := by
  obtain ⟨t, ht, rfl⟩ := Option.map_eq_some_iff.1 hstep
  obtain ⟨given, hperm, hgiven⟩ := h.perm
  cases step_moves h.recorded ht with
  | keeps e hrecv hworkers hsend haccepts hhands hother hnext =>
      exfalso
      apply hroom
      cases e with
      | readEvent id outs => exact fun hne => absurd haccepts hne
      | giveBack i => exact absurd rfl (hother i)
      | accept fd ip port => trivial
      | writeEvent id ws => trivial
      | errEvent id => trivial
      | clearTimeout => trivial
      | tick ms => trivial
      | take => trivial
      | check i => trivial
      | handle i resp => trivial
      | handleSend outcome => trivial
  | accepts id outs ctx haccepts hreturn hrecv hworkers hsend hnext =>
      have hlt : kMaxQueueSize < w.state.recvQueue.length := by
        by_contra hle
        exact hroom fun _ => Nat.not_lt.1 hle
      rw [pushBack_of_lt hlt] at hrecv
      have hfresh := h.fresh hreturn
      show ¬ InOnePlace ⟨t, w.accepted ++ accepts cfg w.state _, w.sent ++ []⟩
      rw [haccepts, List.append_nil]
      rw [← hsend] at hgiven
      rw [← hrecv, ← hworkers] at hperm
      refine not_inOnePlace_of_missing hgiven
        (List.mem_append_right _ (List.mem_singleton_self ctx)) ?_
      intro v hv heq
      exact hfresh (heq ▸ List.mem_map_of_mem (hperm.subset hv))
  | takes ctx hqueue hworkers hsend hnext => exact absurd trivial hroom
  | gives i ctx x before after hworkers hworkers' hreturn hrecv hsend hnext =>
      have hlt : kMaxQueueSize < w.state.sendQueue.length := Nat.not_le.1 hroom
      rw [pushBack_of_lt hlt] at hsend
      show ¬ InOnePlace ⟨t, w.accepted ++ [], w.sent ++ []⟩
      rw [List.append_nil, List.append_nil]
      rw [← hsend] at hgiven
      -- the request that the worker had is one of those accepted, and no other
      have hmoved : (ctx :: (t.recvQueue ++ (t.workers.map (·.ctx) ++ given))).Perm w.accepted := by
        refine List.Perm.trans ?_ hperm
        rw [hrecv, hworkers, hworkers', List.append_assoc, List.append_assoc, ← List.append_assoc,
          ← List.append_assoc w.state.recvQueue]
        exact List.perm_middle.symm
      have hnodup := (hmoved.map (·.returnPacket)).nodup_iff.2 h.nodup
      rw [List.map_cons, List.nodup_cons] at hnodup
      refine not_inOnePlace_of_missing hgiven (hmoved.subset (List.mem_cons_self ..)) ?_
      intro v hv heq
      exact hnodup.1 (heq ▸ List.mem_map_of_mem hv)
  | sends outcome x hqueue hrecv hworkers hnext => exact absurd trivial hroom

/-- **No accepted request is lost or doubled**, exactly when every push finds
room in its queue. -/
theorem inOnePlace_iff_hasRoom (cfg : Config) (events : List Event) :
    (∀ w ∈ trace (step cfg) (init cfg) events, w.InOnePlace) ↔
      Along (step cfg) (HasRoom cfg) (init cfg) events := by
  refine trace_iff_along (I := Placed) (P := InOnePlace) ?_ ?_ ?_ (placed_init cfg)
  · intro w h
    exact h.inOnePlace
  · intro w e w' h hroom hstep
    exact placed_step h hroom hstep
  · intro w e w' h hroom hstep
    exact not_inOnePlace_step h hroom hstep

/-! ## A long queue -/

instance (cfg : Config) (w : Watched) : ∀ e, Decidable (HasRoom cfg w e)
  | .readEvent id outs =>
      inferInstanceAs (Decidable (accepts cfg w.state (.readEvent id outs) ≠ [] →
        w.state.recvQueue.length ≤ kMaxQueueSize))
  | .giveBack _ => inferInstanceAs (Decidable (w.state.sendQueue.length ≤ kMaxQueueSize))
  | .accept _ _ _ => isTrue trivial
  | .writeEvent _ _ => isTrue trivial
  | .errEvent _ => isTrue trivial
  | .clearTimeout => isTrue trivial
  | .tick _ => isTrue trivial
  | .take => isTrue trivial
  | .check _ => isTrue trivial
  | .handle _ _ => isTrue trivial
  | .handleSend _ => isTrue trivial

/-- More backlog than `recv_queue_` takes. -/
def wideConfig : Config := { sampleConfig with maxBacklog := 16384 }

/-- A client asks for an upgrade. -/
def upgraded : List Event :=
  [.accept 7 (lit "10.0.0.1") 4000,
    .readEvent 0 [ConnectionProfile.upgradeRequest]]

/-- It sends a frame. -/
def nextFrame : Event := .readEvent 0 [FrameRun.helloGroup.outcome]

/-- `n` requests wait, and the client may send another frame. -/
structure Flooded (n : Nat) (w : Watched) : Prop where
  placed : w.Placed
  length : w.state.recvQueue.length = n
  client : ∃ c, w.state.net.mgr.conns 0 = some c ∧ Upgraded c

theorem flooded_upgraded :
    ∃ w, run (step wideConfig) (init wideConfig) upgraded = some w ∧ Flooded 1 w := by
  have hrun : ∃ w ∈ run (step wideConfig) (init wideConfig) upgraded,
      w.state.recvQueue.length = 1 ∧ ∃ c ∈ w.state.net.mgr.conns 0, Upgraded c := by
    decide +kernel
  obtain ⟨w, hw, hlength, c, hc, hup⟩ := hrun
  have hplaced : ∀ v ∈ trace (step wideConfig) (init wideConfig) upgraded, v.Placed :=
    placed_trace (by decide +kernel)
  exact ⟨w, hw, hplaced w (run_mem_trace hw), hlength, c, hc, hup⟩

/-- Another frame is accepted. -/
theorem step_nextFrame {w : Watched} {c : ConnectionProfile}
    (hc : w.state.net.mgr.conns 0 = some c) (hup : Upgraded c)
    (hlen : w.state.recvQueue.length < 16384) :
    ∃ w' ctx c', step wideConfig w nextFrame = some w' ∧
      accepts wideConfig w.state nextFrame = [ctx] ∧
      w'.state.recvQueue = pushBack w.state.recvQueue ctx ∧
      w'.state.net.mgr.conns 0 = some c' ∧ Upgraded c' := by
  obtain ⟨nextNo, packetNo, packet, hevent, -, -, hclose⟩ :=
    onReadEvent_single FrameRun.helloGroup hup 0 w.state.net.nextCtx rfl
  have hnet : w.state.net.onReadEvent upgradeApplicationProtocol 0
      [FrameRun.helloGroup.outcome] =
      some ((w.state.net.setConn 0 (behindDispatch w.state.net.nextCtx
        (.webSocket Ws.WebSocketParser.fresh) [] nextNo c)).allocCtx (some (madeContext 0 c)),
        .dispatched (passedContext 0 w.state.net.nextCtx (.webSocket packet) packetNo c)) := by
    unfold NetState.onReadEvent
    simp only [hc, hevent]
  have hload : w.state.isWorkerFullyLoad wideConfig = false :=
    decide_eq_false (Nat.not_le.2 hlen)
  have hrefuses : refuses (w.state.isWorkerFullyLoad wideConfig)
      (passedContext 0 w.state.net.nextCtx (.webSocket packet) packetNo c).applicationPacket =
        false := by
    rw [hload]
    exact decide_eq_false hclose
  have haccepts : accepts wideConfig w.state nextFrame =
      [passedContext 0 w.state.net.nextCtx (.webSocket packet) packetNo c] := by
    simp only [accepts, nextFrame, hnet, hrefuses]
    rfl
  obtain ⟨t, ht, hrecv, hconns⟩ : ∃ t, State.step wideConfig w.state nextFrame = some t ∧
      t.recvQueue = pushBack w.state.recvQueue
        (passedContext 0 w.state.net.nextCtx (.webSocket packet) packetNo c) ∧
      t.net.mgr.conns = Function.update w.state.net.mgr.conns 0 (some (behindDispatch
        w.state.net.nextCtx (.webSocket Ws.WebSocketParser.fresh) [] nextNo c)) := by
    have hevent : State.step wideConfig w.state nextFrame = handleApplicationPacket wideConfig
        (passedContext 0 w.state.net.nextCtx (.webSocket packet) packetNo c)
        { w.state with
          net := (w.state.net.setConn 0 (behindDispatch w.state.net.nextCtx
            (.webSocket Ws.WebSocketParser.fresh) [] nextNo c)).allocCtx
              (some (madeContext 0 c)) } := by
      show w.state.onReadEvent wideConfig 0 _ = _
      unfold State.onReadEvent
      rw [hnet]
    rw [hevent]
    unfold handleApplicationPacket
    refine ⟨_, if_neg ?_, rfl, rfl⟩
    show ¬ refuses (w.state.isWorkerFullyLoad wideConfig) _ = true
    rw [hrefuses]
    exact Bool.false_ne_true
  have hstep : step wideConfig w nextFrame = some
      ⟨t, w.accepted ++ accepts wideConfig w.state nextFrame,
        w.sent ++ hands w.state nextFrame⟩ := by
    unfold step
    rw [ht]
    rfl
  have hup' : Upgraded (behindDispatch w.state.net.nextCtx
      (.webSocket Ws.WebSocketParser.fresh) [] nextNo c) :=
    ⟨hup.type, rfl, rfl, hup.unflagged, hup.running⟩
  refine ⟨_, _, _, hstep, haccepts, hrecv, ?_, hup'⟩
  show t.net.mgr.conns 0 = _
  rw [hconns, Function.update_self]

/-- As long as `recv_queue_` has room, it takes the frame. -/
theorem flooded_nextFrame {n : Nat} {w : Watched} (h : Flooded n w) (hn : n ≤ kMaxQueueSize) :
    ∃ w', step wideConfig w nextFrame = some w' ∧ Flooded (n + 1) w' := by
  obtain ⟨c, hc, hup⟩ := h.client
  have hroom : w.state.recvQueue.length ≤ kMaxQueueSize := by
    rw [h.length]
    exact hn
  obtain ⟨w', ctx, c', hstep, haccepts, hrecv, hc', hup'⟩ :=
    step_nextFrame hc hup (Nat.lt_of_le_of_lt hroom (by decide))
  have hfinds : HasRoom wideConfig w nextFrame := fun _ => hroom
  refine ⟨w', hstep, placed_step h.placed hfinds hstep, ?_, c', hc', hup'⟩
  rw [hrecv, pushBack_of_le hroom, List.length_append, h.length]
  rfl

theorem flooded_frames (n : Nat) (hn : n ≤ kMaxQueueSize) :
    ∃ w, run (step wideConfig) (init wideConfig) (upgraded ++ List.replicate n nextFrame) = some w ∧
      Flooded (n + 1) w := by
  induction n with
  | zero =>
      rw [List.replicate_zero, List.append_nil]
      exact flooded_upgraded
  | succ n ih =>
      obtain ⟨w, hrun, hflooded⟩ := ih (Nat.le_of_succ_le hn)
      obtain ⟨w', hstep, hflooded'⟩ := flooded_nextFrame hflooded hn
      refine ⟨w', ?_, hflooded'⟩
      rw [List.replicate_succ', ← List.append_assoc]
      apply run_append_some hrun
      rw [run_cons_some hstep, run_nil]

/-- A request that finds 10241 others in `recv_queue_` is lost, although its
connection is not deleted. -/
theorem not_inOnePlace_flood :
    ¬ ∀ w ∈ trace (step wideConfig) (init wideConfig)
        (upgraded ++ List.replicate (kMaxQueueSize + 1) nextFrame), w.InOnePlace := by
  obtain ⟨w, hrun, hflooded⟩ := flooded_frames kMaxQueueSize (Nat.le_refl _)
  obtain ⟨c, hc, hup⟩ := hflooded.client
  have hlength := hflooded.length
  obtain ⟨w', ctx, c', hstep, haccepts, -⟩ := step_nextFrame hc hup (hlength ▸ by decide)
  have hroom : ¬ HasRoom wideConfig w nextFrame := by
    intro hroom
    have hne : accepts wideConfig w.state nextFrame ≠ [] := by
      rw [haccepts]
      exact List.cons_ne_nil ctx []
    have hle : w.state.recvQueue.length ≤ kMaxQueueSize := hroom hne
    rw [hlength] at hle
    exact Nat.not_succ_le_self _ hle
  intro hall
  refine not_inOnePlace_step hflooded.placed hroom hstep (hall w' (run_mem_trace ?_))
  rw [List.replicate_succ', ← List.append_assoc]
  apply run_append_some hrun
  rw [run_cons_some hstep, run_nil]

end Watched

end Unixtar.WebServer
