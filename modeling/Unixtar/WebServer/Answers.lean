import Unixtar.NetworkModel.Effects
import Unixtar.WebServer.Handshake
import Unixtar.WebServer.ReturnPackets

/-!
# What a worker answers is what the client gets

A worker fills the return packet of its request, and from then on the network
thread sends it: a first attempt in `HandleSend`, and the rest in write events.
Between them any number of other requests, answers, disconnects and timeouts
take place.  Whatever the writes take, the bytes written for a request are a
prefix of its answer, and `OnSendDone` runs when they are all of it.

## Main results

* `answering_step` — every event keeps the accounts of all return packets.
* `answered_in_order` — whole runs: which bytes are written for a request, in
  which order, and on which socket.
-/

namespace Unixtar.WebServer

open Unixtar.Lib NetState State

/-! ## Watching the answers -/

/-- The bytes a worker puts into the return packet. -/
def State.Output.bytes : State.Output → Bytes
  | .replace bytes => bytes
  | .append bytes => bytes

/-- A return packet is empty before. -/
theorem fill_empty (output : Output) : output.fill .empty = ⟨output.bytes, 0, none⟩ := by
  cases output <;> rfl

/-- A server with the packets that have been handled and the answers put into
their return packets, and the effects of its writes. -/
structure Answering where
  state : State
  answers : List (RecvContext × Bytes)
  effects : List Effect

namespace Answering

def init (cfg : Config) : Answering := ⟨State.init cfg, [], []⟩

/-- The answer that an event gives. -/
def answerOf (cfg : Config) (s : State) : Event → List (RecvContext × Bytes)
  | .handle i resp =>
      match s.workers[i]? with
      | some ⟨ctx, .decided overload⟩ =>
          [(ctx, (handlePacket cfg overload resp s.visit ctx.applicationPacket).2.1.bytes)]
      | _ => []
  | _ => []

/-- The effects of an event on return packets. -/
def effectsOf (s : State) : Event → List Effect
  | .writeEvent id ws => s.net.pendingEffects id ws
  | .handleSend w =>
      match s.sendQueue with
      | [] => []
      | x :: _ => s.net.sendEffects x w
  | _ => []

/-- One event. -/
def step (cfg : Config) (r : Answering) (e : Event) : Option Answering :=
  (State.step cfg r.state e).map fun state =>
    ⟨state, r.answers ++ answerOf cfg r.state e, r.effects ++ effectsOf r.state e⟩

/-- The return packet of an answer that is not empty. -/
def Answered (r : Answering) (x : CtxId) : Prop :=
  ∃ a ∈ r.answers, a.2 ≠ [] ∧ a.1.returnPacket = some x

/-- What has been written for the packet `ctx` is a prefix of its answer, and
there is no other write for it; `OnSendDone` has run once if that is all of it,
and never before.  All writes are to the socket of the packet's connection. -/
structure AnsweredWell (ctx : RecvContext) (answer : Bytes) (r : Answering) : Prop where
  isPrefix : ∀ x ∈ ctx.returnPacket, written x r.effects <+: answer
  counted : ∀ x ∈ ctx.returnPacket, r.state.net.counted x = (written x r.effects).length
  done : ∀ x ∈ ctx.returnPacket,
    r.effects.count (.sendDone x) = if written x r.effects = answer then 1 else 0
  whenDone : ∀ x ∈ ctx.returnPacket, ∀ before after,
    r.effects = before ++ .sendDone x :: after → written x before = answer
  socket : ∀ w ∈ r.state.net.writes, ctx.returnPacket = some w.ctx →
    w.owner = ctx.conn ∧ w.socket = ctx.conn

end Answering

/-! ## Threads that write nothing -/

/-- The socket of every context is that of its owner. -/
def SocketsOwn (s : NetState) : Prop := ∀ x k, s.ctxs x = some k → k.socket = k.owner

/-- The owner of a write is that of its context, and its socket the owner's. -/
def WritesOwned (s : NetState) : Prop :=
  ∀ w ∈ s.writes, w.socket = w.owner ∧ ∃ k, s.ctxs w.ctx = some k ∧ k.owner = w.owner

theorem SocketsOwn.update {s t : NetState} {x : CtxId} {k l : SendContext} (h : SocketsOwn s)
    (hk : s.ctxs x = some k) (hctxs : t.ctxs = Function.update s.ctxs x (some l))
    (hsocket : l.socket = k.socket) (howner : l.owner = k.owner) : SocketsOwn t := by
  intro y m hm
  rw [hctxs] at hm
  by_cases hy : y = x
  · rw [hy, Function.update_self] at hm
    cases hm
    rw [hsocket, howner]
    exact h x k hk
  · rw [Function.update_of_ne hy] at hm
    exact h y m hm

/-- No further writes. -/
theorem WritesOwned.kept {s t : NetState} (h : WritesOwned s) (hwrites : t.writes = s.writes)
    (howners : KeepsOwners s t) : WritesOwned t := by
  intro w hw
  rw [hwrites] at hw
  obtain ⟨hsocket, k, hk, howner⟩ := h w hw
  obtain ⟨k', hk', hkk⟩ := howners w.ctx k hk
  exact ⟨hsocket, k', hk', hkk.trans howner⟩

theorem writesOwned_closed : Closed fun s _ => SocketsOwn s ∧ WritesOwned s where
  frame := by
    intro s t l hctxs hwrites _ _ h
    unfold SocketsOwn WritesOwned
    rw [hctxs, hwrites]
    exact h
  send := by
    rintro s t l x w done hsend ⟨hsockets, h⟩
    obtain ⟨k, hk, -, -, hctxs, hwrites, -, -, -⟩ := trySend_cases hsend
    have hkept : KeepsOwners s t := by
      refine KeepsOwners.of_update hk ?_ hctxs
      rfl
    refine ⟨hsockets.update hk hctxs rfl rfl, ?_⟩
    intro r hr
    have hcase : r ∈ s.writes ∨ r = ⟨x, k.owner, k.socket, s.isLive k.owner, k.buffer.pos,
        w.count⟩ := by
      rw [hwrites] at hr
      split at hr
      · exact Or.inl hr
      · exact (List.mem_append.1 hr).imp_right List.mem_singleton.1
    rcases hcase with hr | rfl
    · obtain ⟨hsocket, m, hm, howner⟩ := h r hr
      obtain ⟨m', hm', hmm⟩ := hkept r.ctx m hm
      exact ⟨hsocket, m', hm', hmm.trans howner⟩
    · obtain ⟨m, hm, howner⟩ := hkept x k hk
      exact ⟨hsockets x k hk, m, hm, howner⟩

/-- All writes are for these contexts, and the other ones are empty. -/
def WritesOnly (P : CtxId → Prop) (s : NetState) : Prop :=
  (∀ w ∈ s.writes, P w.ctx) ∧ ∀ x k, s.ctxs x = some k → P x ∨ k.buffer = .empty

theorem writesOnly_closed (P : CtxId → Prop) : Closed fun s _ => WritesOnly P s where
  frame := by
    intro s t l hctxs hwrites _ _ h
    unfold WritesOnly
    rw [hctxs, hwrites]
    exact h
  send := by
    rintro s t l x w done hsend ⟨hwritten, hothers⟩
    obtain ⟨k, hk, -, -, hctxs, hwrites, -, -, -⟩ := trySend_cases hsend
    constructor
    · intro r hr
      rw [hwrites] at hr
      split at hr
      · exact hwritten r hr
      · rename_i hpos
        rcases List.mem_append.1 hr with hr | hr
        · exact hwritten r hr
        · rw [List.mem_singleton.1 hr]
          refine (hothers x k hk).resolve_right ?_
          intro hempty
          rw [hempty] at hpos
          exact hpos rfl
    · intro y m hm
      rw [hctxs] at hm
      by_cases hy : y = x
      · subst hy
        rw [Function.update_self] at hm
        cases hm
        refine (hothers y k hk).imp_right ?_
        intro hempty
        show (send k.buffer w).1 = .empty
        rw [hempty]
        rfl
      · rw [Function.update_of_ne hy] at hm
        exact hothers y m hm

/-- The network thread goes on without the known contexts, and writes
nothing. -/
structure Silent (s t : NetState) : Prop where
  quiet : Quiet s t
  writes : t.writes = s.writes
  owners : KeepsOwners s t
  sockets : SocketsOwn s → SocketsOwn t
  buffers : ∀ x k, t.ctxs x = some k →
    k.buffer = .empty ∨ ∃ m, s.ctxs x = some m ∧ m.buffer = k.buffer

namespace Silent

theorem trans {s t u : NetState} (h : Silent s t) (h' : Silent t u) : Silent s u := by
  refine ⟨h.quiet.trans h'.quiet, h'.writes.trans h.writes, h.owners.trans h'.owners,
    fun hs => h'.sockets (h.sockets hs), ?_⟩
  intro x k hk
  rcases h'.buffers x k hk with hempty | ⟨m, hm, hmk⟩
  · exact Or.inl hempty
  · rw [← hmk]
    exact h.buffers x m hm

theorem writesOnly {P : CtxId → Prop} {s t : NetState} (h : Silent s t) (hs : WritesOnly P s) :
    WritesOnly P t := by
  refine ⟨h.writes ▸ hs.1, ?_⟩
  intro x k hk
  rcases h.buffers x k hk with hempty | ⟨m, hm, hmk⟩
  · exact Or.inr hempty
  · rw [← hmk]
    exact hs.2 x m hm

theorem of_eq {s t : NetState} (hctxs : t.ctxs = s.ctxs) (hwrites : t.writes = s.writes)
    (hnext : t.nextCtx = s.nextCtx) : Silent s t := by
  refine ⟨Quiet.of_eq hctxs hwrites hnext, hwrites, ?_, ?_, ?_⟩
  · intro x k hk
    exact ⟨k, hctxs ▸ hk, rfl⟩
  · intro h x k hk
    exact h x k (hctxs ▸ hk)
  · intro x k hk
    exact Or.inr ⟨k, hctxs ▸ hk, rfl⟩

theorem destroy (slot uid : Nat) (id : ConnId) (c : ConnectionProfile) (s : NetState) :
    Silent s (s.destroy slot uid id c) := by
  have hback : ∀ x k, (s.destroy slot uid id c).ctxs x = some k → ∃ m, s.ctxs x = some m ∧
      m.buffer = k.buffer ∧ k.socket = m.socket ∧ k.owner = m.owner := by
    intro x k hk
    replace hk : invalidate c.sendContexts s.ctxs x = some k := hk
    unfold invalidate at hk
    split at hk
    · obtain ⟨m, hm, rfl⟩ := Option.map_eq_some_iff.1 hk
      exact ⟨m, hm, rfl, rfl, rfl⟩
    · exact ⟨k, hk, rfl, rfl, rfl⟩
  refine ⟨Quiet.destroy slot uid id c s, rfl, (Frame.destroy slot uid id c s).owners, ?_, ?_⟩
  · intro h x k hk
    obtain ⟨m, hm, -, hsocket, howner⟩ := hback x k hk
    rw [hsocket, howner]
    exact h x m hm
  · intro x k hk
    obtain ⟨m, hm, hbuffer, -⟩ := hback x k hk
    exact Or.inr ⟨m, hm, hbuffer⟩

theorem delConnection {s t : NetState} {uid : Nat} (h : s.delConnection uid = some t) :
    Silent s t := by
  obtain ⟨id, c, -, -, rfl⟩ := delConnection_cases h
  exact destroy uid uid id c s

theorem onErrEvent {s t : NetState} {id : ConnId} (h : s.onErrEvent id = some t) :
    Silent s t := by
  unfold NetState.onErrEvent at h
  split at h
  · cases h
  · exact delConnection h

theorem clearTimeout (s : NetState) : Silent s s.clearTimeout := by
  refine clearTimeout_keeps (P := Silent s) ?_ (of_eq rfl rfl rfl)
  intro t slot ht
  unfold NetState.clearSlot
  split
  · exact ht.trans (destroy slot _ _ _ t)
  · exact ht

theorem registerConnection {v : VectorImpl} {n fd port : Nat} {ip : Bytes}
    {config : ConnectionProfile → ConnectionProfile} {s t : NetState}
    (h : s.registerConnection v n config fd ip port = some t) : Silent s t := by
  unfold NetState.registerConnection at h
  split at h
  · cases h
    exact of_eq rfl rfl rfl
  · obtain ⟨⟨net, id⟩, hadd, rfl⟩ := Option.map_eq_some_iff.1 h
    obtain ⟨mgr, -, heq⟩ := Option.map_eq_some_iff.1 hadd
    cases heq
    exact of_eq rfl rfl rfl

theorem allocCtx {s : NetState} {l : List Effect} (h : Known s l) {k : SendContext}
    (hk : k.buffer = .empty) (hsocket : k.socket = k.owner) :
    Silent s (s.allocCtx (some k)) := by
  have hctxs : (s.allocCtx (some k)).ctxs = Function.update s.ctxs s.nextCtx (some k) := rfl
  refine ⟨Quiet.allocCtx _ s, rfl, ?_, ?_, ?_⟩
  · intro x m hm
    refine ⟨m, ?_, rfl⟩
    rw [hctxs, Function.update_of_ne (Nat.ne_of_lt (h.ctxs x m hm))]
    exact hm
  · intro hs x m hm
    rw [hctxs] at hm
    by_cases hx : x = s.nextCtx
    · rw [hx, Function.update_self] at hm
      cases hm
      exact hsocket
    · rw [Function.update_of_ne hx] at hm
      exact hs x m hm
  · intro x m hm
    rw [hctxs] at hm
    by_cases hx : x = s.nextCtx
    · rw [hx, Function.update_self] at hm
      cases hm
      exact Or.inl hk
    · rw [Function.update_of_ne hx] at hm
      exact Or.inr ⟨m, hm, rfl⟩

end Silent

/-! ## The invariant -/

/-- An answer is put into an unused buffer. -/
theorem account_of_unused {x : CtxId} {k : SendContext} {s t : NetState} {l : List Effect}
    {answer : Bytes} (h : Unused x s l)
    (hctxs : t.ctxs = Function.update s.ctxs x (some { k with buffer := ⟨answer, 0, none⟩ }))
    (hwrites : t.writes = s.writes) (hne : answer ≠ []) : OwnAccount answer x t l := by
  have hbuffer : t.bufferOf x = some ⟨answer, 0, none⟩ := by
    unfold bufferOf
    rw [hctxs, Function.update_self]
    rfl
  have hown : ∀ b ∈ t.bufferOf x, Owned b := by
    intro b hb
    rw [hbuffer] at hb
    cases hb
    exact Or.inr rfl
  refine ⟨⟨⟨⟨answer, 0, none⟩, hbuffer, Nat.zero_le _, ?_, ?_⟩,
    fun b hb => (hown b hb).readable t, ?_, h.tame, ?_⟩, hown⟩
  · rw [h.written]
    rfl
  · rw [List.count_eq_zero_of_not_mem h.undone]
    exact (if_neg hne).symm
  · unfold NetState.counted
    rw [hwrites, h.written]
    exact h.counted
  · intro before after hl
    have hmem : .sendDone x ∈ l := by
      rw [hl]
      exact List.mem_append_right before List.mem_cons_self
    exact absurd hmem h.undone

namespace Answering

/-- What the return packets of all requests have in common. -/
structure Accounted (r : Answering) : Prop where
  recorded : r.state.Recorded
  /-- each request has a return packet of its own -/
  numbered : (r.state.queued.map (·.returnPacket)).Nodup
  handled : r.answers.map (·.1) = r.state.handled.map (·.1)
  known : Known r.state.net r.effects
  unused : ∀ ctx ∈ r.state.unhandled, ∀ x ∈ ctx.returnPacket, Unused x r.state.net r.effects
  accounts : ∀ a ∈ r.answers, a.2 ≠ [] → ∀ x ∈ a.1.returnPacket,
    OwnAccount a.2 x r.state.net r.effects
  owners : ∀ ctx ∈ r.state.queued, ∀ x ∈ ctx.returnPacket,
    ∃ k, r.state.net.ctxs x = some k ∧ k.owner = ctx.conn
  writes : SocketsOwn r.state.net ∧ WritesOwned r.state.net
  only : WritesOnly r.Answered r.state.net

theorem accounted_init (cfg : Config) : (init cfg).Accounted where
  recorded := recorded_init cfg
  numbered := List.nodup_nil
  handled := rfl
  known :=
    { ctxs := fun x k hk => by cases hk
      writes := fun r hr => by cases hr
      effects := fun e he => by cases he }
  unused ctx hctx := by cases hctx
  accounts a ha := by cases ha
  owners ctx hctx := by cases hctx
  writes := ⟨(fun x k hk => by cases hk), (fun w hw => by cases hw)⟩
  only := ⟨(fun w hw => by cases hw), (fun x k hk => by cases hk)⟩

theorem Accounted.mem_queued {r : Answering} (h : r.Accounted) {a : RecvContext × Bytes}
    (ha : a ∈ r.answers) : a.1 ∈ r.state.queued := by
  apply h.recorded.accounts.perm_queued.subset
  rw [← h.handled]
  exact List.mem_append_right _ (List.mem_map_of_mem ha)

theorem Accounted.unhandled_queued {r : Answering} (h : r.Accounted) {ctx : RecvContext}
    (hctx : ctx ∈ r.state.unhandled) : ctx ∈ r.state.queued :=
  h.recorded.accounts.perm_queued.subset (List.mem_append_left _ hctx)

/-- A packet that is still to be handled has its return packet alone. -/
theorem Accounted.ne_of_unhandled {r : Answering} (h : r.Accounted) {ctx : RecvContext}
    (hctx : ctx ∈ r.state.unhandled) {a : RecvContext × Bytes} (ha : a ∈ r.answers) :
    a.1.returnPacket ≠ ctx.returnPacket := by
  intro heq
  have hsame : a.1 = ctx :=
    List.inj_on_of_nodup_map h.numbered (h.mem_queued ha) (h.unhandled_queued hctx) heq
  have hnodup := h.recorded.accounts.perm_queued.nodup_iff.2 h.recorded.accounts.nodup
  refine (List.nodup_append.1 hnodup).2.2 ctx hctx a.1 ?_ hsame.symm
  rw [← h.handled]
  exact List.mem_map_of_mem ha

theorem Accounted.answeredWell {r : Answering} (h : r.Accounted) {ctx : RecvContext}
    {answer : Bytes} (ha : (ctx, answer) ∈ r.answers) (hne : answer ≠ []) :
    AnsweredWell ctx answer r := by
  have haccount := h.accounts (ctx, answer) ha hne
  refine ⟨?_, fun x hx => (haccount x hx).counted, ?_, fun x hx => (haccount x hx).whenDone, ?_⟩
  · intro x hx
    obtain ⟨b, -, -, hwhole, -⟩ := (haccount x hx).split
    exact ⟨b.remaining, hwhole⟩
  · intro x hx
    obtain ⟨b, -, -, hwhole, hcount⟩ := (haccount x hx).split
    replace hwhole : written x r.effects ++ b.remaining = answer := hwhole
    have hiff : b.remaining = [] ↔ written x r.effects = answer := by
      constructor
      · intro hnil
        rw [← hwhole, hnil, List.append_nil]
      · intro hall
        rw [hall] at hwhole
        exact List.append_right_eq_self.1 hwhole
    rw [hcount]
    simp only [hiff]
  · intro w hw hctx
    obtain ⟨hsocket, k, hk, howner⟩ := h.writes.2 w hw
    obtain ⟨k', hk', howner'⟩ := h.owners ctx (h.mem_queued ha) w.ctx hctx
    rw [hk] at hk'
    cases hk'
    have hconn := howner.symm.trans howner'
    exact ⟨hconn, hsocket.trans hconn⟩

/-! ## Every event -/

/-- What a new packet brings: a return packet that nobody has used. -/
structure Fresh (s t : NetState) (ctx : RecvContext) : Prop where
  number : ctx.returnPacket = some s.nextCtx
  buffer : t.bufferOf s.nextCtx = some .empty
  owner : ∃ k, t.ctxs s.nextCtx = some k ∧ k.owner = ctx.conn

/-- An event that gives no answer and writes nothing; it may pass new packets
on. -/
theorem Accounted.silent {r : Answering} {t : State} {passed : List RecvContext}
    (h : r.Accounted) (ht : t.Recorded) (hnet : Silent r.state.net t.net)
    (hqueued : t.queued = r.state.queued ++ passed) (hhandled : t.handled = r.state.handled)
    (hunhandled : ∀ ctx ∈ t.unhandled, ctx ∈ r.state.unhandled ∨ ctx ∈ passed)
    (hpassed : passed.length ≤ 1) (hfresh : ∀ ctx ∈ passed, Fresh r.state.net t.net ctx) :
    Accounted ⟨t, r.answers, r.effects⟩ where
  recorded := ht
  numbered := by
    show (t.queued.map (·.returnPacket)).Nodup
    rw [hqueued, List.map_append, List.nodup_append]
    refine ⟨h.numbered, ?_, ?_⟩
    · rw [List.nodup_iff_injective_get]
      intro i j _
      have hi := i.isLt
      have hj := j.isLt
      simp only [List.length_map] at hi hj
      omega
    · intro y hy z hz heq
      obtain ⟨u, hu, rfl⟩ := List.mem_map.1 hy
      obtain ⟨v, hv, rfl⟩ := List.mem_map.1 hz
      have hlt := h.recorded.accounts.returns_lt u hu r.state.net.nextCtx
        (heq.trans (hfresh v hv).number)
      exact Nat.lt_irrefl _ hlt
  handled := h.handled.trans (congrArg _ hhandled.symm)
  known := hnet.quiet.known _ h.known
  unused := by
    intro ctx hctx x hx
    rcases hunhandled ctx hctx with hold | hnew
    · have hlt := h.recorded.accounts.returns_lt ctx (h.unhandled_queued hold) x hx
      exact (h.unused ctx hold x hx).untouched (hnet.quiet.same x hlt)
    · obtain ⟨hnumber, hbuffer, -⟩ := hfresh ctx hnew
      have hxeq : x = r.state.net.nextCtx := Option.some.inj (hx.symm.trans hnumber)
      rw [hxeq]
      exact Unused.of_known h.known (Nat.le_refl _) hbuffer hnet.writes
  accounts := by
    intro a ha hne x hx
    have hlt := h.recorded.accounts.returns_lt a.1 (h.mem_queued ha) x hx
    exact (h.accounts a ha hne x hx).untouched (hnet.quiet.same x hlt)
  owners := by
    intro ctx hctx x hx
    replace hctx : ctx ∈ r.state.queued ++ passed := hqueued ▸ hctx
    rcases List.mem_append.1 hctx with hold | hnew
    · obtain ⟨k, hk, howner⟩ := h.owners ctx hold x hx
      obtain ⟨k', hk', hkk⟩ := hnet.owners x k hk
      exact ⟨k', hk', hkk.trans howner⟩
    · obtain ⟨hnumber, -, howner⟩ := hfresh ctx hnew
      have hxeq : x = r.state.net.nextCtx := Option.some.inj (hx.symm.trans hnumber)
      rw [hxeq]
      exact howner
  writes := ⟨hnet.sockets h.writes.1, h.writes.2.kept hnet.writes hnet.owners⟩
  only := hnet.writesOnly h.only

/-- An event that passes nothing on. -/
theorem Accounted.unmoved {r : Answering} {t : State} (h : r.Accounted) (ht : t.Recorded)
    (hnet : Silent r.state.net t.net) (hqueued : t.queued = r.state.queued)
    (hhandled : t.handled = r.state.handled)
    (hunhandled : ∀ ctx ∈ t.unhandled, ctx ∈ r.state.unhandled) :
    Accounted ⟨t, r.answers, r.effects⟩ :=
  h.silent ht hnet (hqueued.trans (List.append_nil _).symm) hhandled
    (fun ctx hctx => Or.inl (hunhandled ctx hctx)) (Nat.zero_le _) (fun ctx hctx => by cases hctx)

/-- A send, of whatever context. -/
theorem Accounted.sent {r : Answering} {net : NetState} {sendQueue : List CtxId}
    {l : List Effect} (h : r.Accounted)
    (ht : ({ r.state with net, sendQueue } : State).Recorded) (hframe : r.state.net.Frame net)
    (hclosed : ∀ {Q : NetState → List Effect → Prop}, Closed Q → Q r.state.net r.effects →
      Q net (r.effects ++ l)) :
    Accounted ⟨{ r.state with net, sendQueue }, r.answers, r.effects ++ l⟩ where
  recorded := ht
  numbered := h.numbered
  handled := h.handled
  known := hclosed known_closed h.known
  unused ctx hctx x hx := hclosed (Unused.closed x) (h.unused ctx hctx x hx)
  accounts a ha hne x hx := hclosed (OwnAccount.closed a.2 x) (h.accounts a ha hne x hx)
  owners := by
    intro ctx hctx x hx
    obtain ⟨k, hk, howner⟩ := h.owners ctx hctx x hx
    obtain ⟨k', hk', hkk⟩ := hframe.owners x k hk
    exact ⟨k', hk', hkk.trans howner⟩
  writes := hclosed writesOwned_closed h.writes
  only := hclosed (writesOnly_closed r.Answered) h.only

/-- A worker handles the packet `ctx` and puts its answer into the return packet
`x`, which was empty. -/
structure Handles (s t : State) (ctx : RecvContext) (x : CtxId) (k : SendContext)
    (answer : Bytes) : Prop where
  returnPacket : ctx.returnPacket = some x
  packet : s.net.ctxs x = some k
  ctxs : t.net.ctxs =
    Function.update s.net.ctxs x (some { k with buffer := ⟨answer, 0, none⟩ })
  writes : t.net.writes = s.net.writes
  nextCtx : t.net.nextCtx = s.net.nextCtx
  queued : t.queued = s.queued
  handled : t.handled.map (·.1) = s.handled.map (·.1) ++ [ctx]
  moved : s.unhandled.Perm (ctx :: t.unhandled)

/-- The handled packet leaves the packets that are to be handled. -/
theorem moved_of_handleTask {cfg : Config} {s t : State} {i : Nat} {resp : Bytes}
    {ctx : RecvContext} {overload : Bool} (htask : s.workers[i]? = some ⟨ctx, .decided overload⟩)
    (hstep : s.handleTask cfg i resp = some t) : s.unhandled.Perm (ctx :: t.unhandled) := by
  obtain ⟨ctx', overload', htask', hrecv, -, hworkers, -⟩ := handleTask_eq hstep
  rw [htask] at htask'
  cases htask'
  obtain ⟨before, after, hsplit, hset, -⟩ := split_worker htask
  unfold unhandled
  rw [hrecv, hworkers, hset, hsplit, unhandledOf_append, unhandledOf_append,
    unhandledOf_cons_handled, unhandledOf_cons_of_ne (by simp), ← List.append_assoc,
    ← List.append_assoc]
  exact List.perm_middle

theorem Accounted.handles {cfg : Config} {r : Answering} {t : State} {i : Nat} {resp : Bytes}
    (h : r.Accounted) (hstep : r.state.handleTask cfg i resp = some t) :
    ∃ ctx x k answer, answerOf cfg r.state (.handle i resp) = [(ctx, answer)] ∧
      Handles r.state t ctx x k answer := by
  obtain ⟨ctx, overload, htask, -⟩ := handleTask_eq hstep
  have hmoved := moved_of_handleTask htask hstep
  have hctx : ctx ∈ r.state.unhandled := hmoved.symm.subset List.mem_cons_self
  unfold handleTask at hstep
  simp only [htask] at hstep
  split at hstep
  · cases hstep
  · rename_i x hx
    split at hstep
    · cases hstep
    · rename_i k hk
      have hbuffer : k.buffer = .empty := by
        have hsome := (h.unused ctx hctx x hx).buffer
        rw [bufferOf_of_ctxs hk] at hsome
        exact Option.some.inj hsome
      refine ⟨ctx, x, k,
        (handlePacket cfg overload resp r.state.visit ctx.applicationPacket).2.1.bytes, ?_,
        ⟨hx, hk, ?_, ?_, ?_, ?_, ?_, hmoved⟩⟩
      · simp only [answerOf, htask]
      · rw [← fill_empty, ← hbuffer]
        cases hstep
        rfl
      · cases hstep
        rfl
      · cases hstep
        rfl
      · cases hstep
        rfl
      · cases hstep
        rw [List.map_append]
        rfl

section Handles

variable {r : Answering} {t : State} {ctx : RecvContext} {x : CtxId} {k : SendContext}
  {answer : Bytes}

theorem Handles.ctx_mem {s : State} (hh : Handles s t ctx x k answer) : ctx ∈ s.unhandled :=
  hh.moved.symm.subset List.mem_cons_self

theorem Handles.keepsOwners {s : State} (hh : Handles s t ctx x k answer) :
    KeepsOwners s.net t.net := by
  refine KeepsOwners.of_update hh.packet ?_ hh.ctxs
  rfl

/-- The other return packets are left alone. -/
theorem Handles.untouched {s : State} (hh : Handles s t ctx x k answer) {y : CtxId}
    (hne : y ≠ x) : Untouched y s.net t.net := by
  constructor
  · unfold bufferOf
    rw [hh.ctxs, Function.update_of_ne hne]
  · unfold NetState.counted
    rw [hh.writes]

theorem Handles.known {s : State} {l : List Effect} (hh : Handles s t ctx x k answer)
    (h : Known s.net l) : Known t.net l := by
  refine ⟨?_, ?_, ?_⟩
  · intro y m hm
    rw [hh.ctxs] at hm
    rw [hh.nextCtx]
    by_cases hy : y = x
    · rw [hy]
      exact h.ctxs x k hh.packet
    · rw [Function.update_of_ne hy] at hm
      exact h.ctxs y m hm
  · rw [hh.writes, hh.nextCtx]
    exact h.writes
  · rw [hh.nextCtx]
    exact h.effects

/-- The packets still to be handled have other return packets. -/
theorem Handles.unused (hh : Handles r.state t ctx x k answer) (h : r.Accounted) :
    ∀ u ∈ t.unhandled, ∀ y ∈ u.returnPacket, Unused y t.net r.effects := by
  intro u hu y hy
  have hold : u ∈ r.state.unhandled := hh.moved.symm.subset (List.mem_cons_of_mem ctx hu)
  have hne : y ≠ x := by
    rintro rfl
    have hnodup : (ctx :: t.unhandled).Nodup := by
      have hall := h.recorded.accounts.perm_queued.nodup_iff.2 h.recorded.accounts.nodup
      exact hh.moved.nodup_iff.1 (List.nodup_append.1 hall).1
    have heq : u = ctx := List.inj_on_of_nodup_map h.numbered (h.unhandled_queued hold)
      (h.unhandled_queued hh.ctx_mem) (hy.trans hh.returnPacket.symm)
    exact (List.nodup_cons.1 hnodup).1 (heq ▸ hu)
  exact (h.unused u hold y hy).untouched (hh.untouched hne)

/-- The accounts of the earlier answers stay, and there is one for the new
answer. -/
theorem Handles.accounts (hh : Handles r.state t ctx x k answer) (h : r.Accounted) :
    ∀ a ∈ r.answers ++ [(ctx, answer)], a.2 ≠ [] → ∀ y ∈ a.1.returnPacket,
      OwnAccount a.2 y t.net r.effects := by
  intro a ha hne y hy
  rcases List.mem_append.1 ha with ha | ha
  · have hyx : y ≠ x := by
      rintro rfl
      exact h.ne_of_unhandled hh.ctx_mem ha (hy.trans hh.returnPacket.symm)
    exact (h.accounts a ha hne y hy).untouched (hh.untouched hyx)
  · rw [List.mem_singleton.1 ha] at hy hne ⊢
    have hyx : y = x := Option.some.inj (hy.symm.trans hh.returnPacket)
    rw [hyx]
    exact account_of_unused (h.unused ctx hh.ctx_mem x hh.returnPacket) hh.ctxs hh.writes hne

theorem Handles.owners (hh : Handles r.state t ctx x k answer) (h : r.Accounted) :
    ∀ u ∈ t.queued, ∀ y ∈ u.returnPacket, ∃ m, t.net.ctxs y = some m ∧ m.owner = u.conn := by
  intro u hu y hy
  obtain ⟨m, hm, howner⟩ := h.owners u (hh.queued ▸ hu) y hy
  obtain ⟨m', hm', hmm⟩ := hh.keepsOwners y m hm
  exact ⟨m', hm', hmm.trans howner⟩

/-- What is not empty is answered, the new answer included. -/
theorem Handles.only (hh : Handles r.state t ctx x k answer) (h : r.Accounted) :
    WritesOnly (Answered ⟨t, r.answers ++ [(ctx, answer)], r.effects⟩) t.net := by
  have hmore : ∀ y, r.Answered y →
      Answered ⟨t, r.answers ++ [(ctx, answer)], r.effects⟩ y := by
    rintro y ⟨a, ha, hay⟩
    exact ⟨a, List.mem_append_left _ ha, hay⟩
  constructor
  · intro w hw
    exact hmore _ (h.only.1 w (hh.writes ▸ hw))
  · intro y m hm
    rw [hh.ctxs] at hm
    by_cases hy : y = x
    · by_cases hnil : answer = []
      · rw [hy, Function.update_self, hnil] at hm
        cases hm
        exact Or.inr rfl
      · exact Or.inl ⟨(ctx, answer), List.mem_append_right _ List.mem_cons_self, hnil,
          hy ▸ hh.returnPacket⟩
    · rw [Function.update_of_ne hy] at hm
      exact (h.only.2 y m hm).imp_left (hmore y)

end Handles

/-- **A packet is handled**: its return packet was unused, and now holds the
answer. -/
theorem accounted_handle {cfg : Config} {r : Answering} {t : State} {i : Nat} {resp : Bytes}
    (h : r.Accounted) (hstep : r.state.handleTask cfg i resp = some t) :
    Accounted ⟨t, r.answers ++ answerOf cfg r.state (.handle i resp), r.effects⟩ := by
  have ht := recorded_handle h.recorded hstep
  obtain ⟨ctx, x, k, answer, hanswers, hh⟩ := h.handles hstep
  rw [hanswers]
  exact
    { recorded := ht
      numbered := hh.queued ▸ h.numbered
      handled := by
        rw [hh.handled, List.map_append, h.handled]
        rfl
      known := hh.known h.known
      unused := hh.unused h
      accounts := hh.accounts h
      owners := hh.owners h
      writes := ⟨h.writes.1.update hh.packet hh.ctxs rfl rfl,
        h.writes.2.kept hh.writes hh.keepsOwners⟩
      only := hh.only h }

/-- **A packet is passed on**, with a return packet that nobody has used. -/
theorem accounted_handleApplicationPacket {cfg : Config} {r : Answering} {net : NetState}
    {t : State} {ctx : RecvContext} (h : r.Accounted) (ht : t.Recorded)
    (hnet : Silent r.state.net net) (hfresh : Fresh r.state.net net ctx)
    (hstep : State.handleApplicationPacket cfg ctx { r.state with net } = some t) :
    Accounted ⟨t, r.answers, r.effects⟩ := by
  unfold State.handleApplicationPacket at hstep
  split at hstep
  · obtain ⟨net', hdel, rfl⟩ := Option.map_eq_some_iff.1 hstep
    exact h.unmoved ht (hnet.trans (Silent.delConnection hdel)) rfl rfl fun _ hctx => hctx
  · cases hstep
    by_cases hfull : r.state.recvQueue.length > kMaxQueueSize
    · refine h.unmoved ht hnet (if_pos hfull) rfl ?_
      intro u hu
      unfold unhandled pushBack at hu
      rw [if_pos hfull] at hu
      exact hu
    · refine h.silent ht hnet (show _ = r.state.queued ++ [ctx] from if_neg hfull) rfl ?_
        (Nat.le_refl _) ?_
      · intro u hu
        unfold unhandled pushBack at hu
        rw [if_neg hfull, List.append_assoc] at hu
        unfold unhandled
        simp only [List.mem_append, List.mem_singleton] at hu ⊢
        tauto
      · intro u hu
        rw [List.mem_singleton.1 hu]
        exact hfresh

theorem accounted_readEvent {cfg : Config} {r : Answering} {t : State} {id : ConnId}
    {outs : List ReadOutcome} (h : r.Accounted) (hstep : r.state.onReadEvent cfg id outs = some t) :
    Accounted ⟨t, r.answers, r.effects⟩ := by
  have ht := recorded_readEvent h.recorded hstep
  obtain ⟨net, stop, c, hevent, hc⟩ := onReadEvent_net hstep
  have hcases := onReadEvent_cases hc (h.recorded.upgrades.conns id c hc).2.configured hevent
  have hset : ∀ d, Silent r.state.net (r.state.net.setConn id d) :=
    fun _ => Silent.of_eq rfl rfl rfl
  simp only [State.onReadEvent, hevent] at hstep
  cases hcases with
  | deleted q net hq hdel =>
      cases hstep
      exact h.unmoved ht ((hset _).trans (Silent.delConnection hdel)) rfl rfl fun _ hctx => hctx
  | idle q hq =>
      cases hstep
      exact h.unmoved ht (hset _) rfl rfl fun _ hctx => hctx
  | crashed q hq => cases hstep
  | dispatched q p parser tcpByteArr nextNo packet packetNo hq hp hpasses =>
      have hknown := (hset (behindDispatch r.state.net.nextCtx parser tcpByteArr nextNo
        q.conn)).quiet.known _ h.known
      have hmade : ((r.state.net.setConn id (behindDispatch r.state.net.nextCtx parser tcpByteArr
          nextNo q.conn)).allocCtx (some (madeContext id q.conn))).ctxs r.state.net.nextCtx =
          some (madeContext id q.conn) := Function.update_self _ _ _
      refine accounted_handleApplicationPacket h ht
        ((hset _).trans (Silent.allocCtx hknown rfl rfl)) ⟨rfl, ?_, _, hmade, rfl⟩ hstep
      rw [bufferOf_of_ctxs hmade]
      rfl

/-- A worker takes a packet from the queue. -/
theorem accounted_take {r : Answering} {t : State} (h : r.Accounted) (ht : t.Recorded)
    (hstep : r.state.takeTask = some t) : Accounted ⟨t, r.answers, r.effects⟩ := by
  unfold takeTask at hstep
  split at hstep
  · cases hstep
  · rename_i ctx rest hqueue
    cases hstep
    refine h.unmoved ht (Silent.of_eq rfl rfl rfl) rfl rfl ?_
    intro u hu
    unfold unhandled at hu ⊢
    rw [hqueue]
    rw [unhandledOf_append, unhandledOf_cons_of_ne (by simp)] at hu
    simp only [List.mem_append, List.mem_cons] at hu ⊢
    tauto

/-- It asks whether it is overloaded. -/
theorem accounted_check {cfg : Config} {r : Answering} {t : State} {i : Nat} (h : r.Accounted)
    (ht : t.Recorded) (hstep : r.state.checkTask cfg i = some t) :
    Accounted ⟨t, r.answers, r.effects⟩ := by
  unfold checkTask at hstep
  split at hstep
  · rename_i ctx htask
    cases hstep
    obtain ⟨before, after, hworkers, hset, -⟩ := split_worker htask
    refine h.unmoved ht (Silent.of_eq rfl rfl rfl) rfl rfl ?_
    intro u hu
    unfold unhandled at hu ⊢
    rw [hset, unhandledOf_append, unhandledOf_cons_of_ne (by simp)] at hu
    rw [hworkers, unhandledOf_append, unhandledOf_cons_of_ne (by simp)]
    exact hu
  · cases hstep

/-- It gives the return packet back. -/
theorem accounted_giveBack {r : Answering} {t : State} {i : Nat} (h : r.Accounted)
    (ht : t.Recorded) (hstep : r.state.giveBackTask i = some t) :
    Accounted ⟨t, r.answers, r.effects⟩ := by
  unfold giveBackTask at hstep
  split at hstep
  · rename_i ctx htask
    split at hstep
    · cases hstep
    · cases hstep
      obtain ⟨before, after, hworkers, -, herase⟩ := split_worker htask
      refine h.unmoved ht (Silent.of_eq rfl rfl rfl) rfl rfl ?_
      intro u hu
      unfold unhandled at hu ⊢
      rw [herase, unhandledOf_append] at hu
      rw [hworkers, unhandledOf_append, unhandledOf_cons_handled]
      exact hu
  · cases hstep

/-- `HandleSend` sends the first return packet of the queue. -/
theorem accounted_handleSend {r : Answering} {t : State} {w : WriteOutcome} (h : r.Accounted)
    (ht : t.Recorded) (hstep : r.state.handleSend w = some t) :
    Accounted ⟨t, r.answers, r.effects ++ effectsOf r.state (.handleSend w)⟩ := by
  unfold State.handleSend at hstep
  unfold effectsOf
  cases hqueue : r.state.sendQueue with
  | nil =>
      rw [hqueue] at hstep
      cases hstep
  | cons x rest =>
      rw [hqueue] at hstep
      obtain ⟨⟨net, done⟩, hsend, rfl⟩ := Option.map_eq_some_iff.1 hstep
      exact h.sent ht (Frame.trySendAndMarkPendingIfUndone hsend)
        (fun hQ hs => hQ.direct hsend hs)

/-- **Every event** keeps the accounts. -/
theorem answering_step {cfg : Config} {r r' : Answering} {e : Event} (h : r.Accounted)
    (hstep : step cfg r e = some r') : r'.Accounted := by
  obtain ⟨t, ht, rfl⟩ := Option.map_eq_some_iff.1 hstep
  have hrecorded := recorded_step h.recorded ht
  cases e with
  | accept fd ip port =>
      obtain ⟨net, hnet, rfl⟩ := Option.map_eq_some_iff.1 ht
      simp only [answerOf, effectsOf, List.append_nil]
      exact h.unmoved hrecorded (Silent.registerConnection hnet) rfl rfl fun _ hctx => hctx
  | readEvent id outs =>
      simp only [answerOf, effectsOf, List.append_nil]
      exact accounted_readEvent h ht
  | writeEvent id ws =>
      obtain ⟨net, hsend, rfl⟩ := Option.map_eq_some_iff.1 ht
      simp only [answerOf, effectsOf, List.append_nil]
      exact h.sent hrecorded (Frame.trySendPendingPackets hsend)
        (fun hQ hs => hQ.pending hsend hs)
  | errEvent id =>
      obtain ⟨net, herr, rfl⟩ := Option.map_eq_some_iff.1 ht
      simp only [answerOf, effectsOf, List.append_nil]
      exact h.unmoved hrecorded (Silent.onErrEvent herr) rfl rfl fun _ hctx => hctx
  | clearTimeout =>
      cases ht
      simp only [answerOf, effectsOf, List.append_nil]
      exact h.unmoved hrecorded (Silent.clearTimeout _) rfl rfl fun _ hctx => hctx
  | tick ms =>
      cases ht
      simp only [answerOf, effectsOf, List.append_nil]
      exact h.unmoved hrecorded (Silent.of_eq rfl rfl rfl) rfl rfl fun _ hctx => hctx
  | take =>
      simp only [answerOf, effectsOf, List.append_nil]
      exact accounted_take h hrecorded ht
  | check i =>
      simp only [answerOf, effectsOf, List.append_nil]
      exact accounted_check h hrecorded ht
  | handle i resp =>
      simp only [effectsOf, List.append_nil]
      exact accounted_handle h ht
  | giveBack i =>
      simp only [answerOf, effectsOf, List.append_nil]
      exact accounted_giveBack h hrecorded ht
  | handleSend w =>
      simp only [answerOf, List.append_nil]
      exact accounted_handleSend h hrecorded ht

/-- The server below goes on without being watched. -/
theorem state_of_step {cfg : Config} (r : Answering) (e : Event) (r' : Answering)
    (h : step cfg r e = some r') : State.step cfg r.state e = some r'.state := by
  obtain ⟨t, ht, rfl⟩ := Option.map_eq_some_iff.1 h
  exact ht

theorem run_state {cfg : Config} {r r' : Answering} {events : List Event}
    (h : run (step cfg) r events = some r') :
    run (State.step cfg) r.state events = some r'.state :=
  run_project state_of_step h

theorem accounted_trace (cfg : Config) (events : List Event) :
    ∀ r ∈ trace (step cfg) (init cfg) events, r.Accounted :=
  trace_invariant_of_forall (fun _ _ _ h hstep => answering_step h hstep) (accounted_init cfg)

/-- Every write is to the socket of a connection that is still there. -/
def WritesLive (r : Answering) : Prop := ∀ w ∈ r.state.net.writes, w.live = true

theorem writesLive_trace {cfg : Config} {events : List Event} {r : Answering}
    (hfree : Along (State.step cfg) NumberFree (State.init cfg) events)
    (hr : r ∈ trace (step cfg) (init cfg) events) : r.WritesLive := by
  have hstate : r.state ∈ trace (State.step cfg) (State.init cfg) events :=
    mem_trace_project state_of_step hr
  have hsafe := trace_invariant (fun s e s' hs hc hstep => safe_step hs hc hstep)
    (safe_init cfg) hfree r.state hstate
  exact fun w hw => (hsafe.net.writes w hw).1

/-- **What a worker answers is what the client gets**, up to where the writes
have come, and nothing else is written, in every state of every run; the socket
is that of the client as long as no number of a context comes again. -/
theorem answered_in_order (cfg : Config) (events : List Event) :
    ∀ r ∈ trace (step cfg) (init cfg) events, (∀ w ∈ r.state.net.writes, r.Answered w.ctx) ∧
      (∀ a ∈ r.answers, a.2 ≠ [] → AnsweredWell a.1 a.2 r) ∧
      (Along (State.step cfg) NumberFree (State.init cfg) events → r.WritesLive) := by
  intro r hr
  have haccounted := accounted_trace cfg events r hr
  exact ⟨haccounted.only.1, fun a ha hne => haccounted.answeredWell ha hne,
    fun hfree => writesLive_trace hfree hr⟩

/-- An answer in two writes; between them another client comes and goes. -/
def answeredInTwo : List Event :=
  [.accept 7 (lit "10.0.0.1") 4000, .readEvent 0 [ConnectionProfile.getRequest], .take, .check 0,
    .accept 8 (lit "10.0.0.2") 4000, .handle 0 (lit "hello"), .giveBack 0, .handleSend (.wrote 2),
    .errEvent 1, .writeEvent 0 [.wrote 3]]

theorem answered_in_order_answeredInTwo :
    ∃ r, ∃ a ∈ r.answers, run (step sampleConfig) (init sampleConfig) answeredInTwo = some r ∧
      written 0 r.effects = lit "hello" ∧ a.2 = lit "hello" ∧ AnsweredWell a.1 a.2 r ∧
      r.WritesLive := by
  obtain ⟨r, hr, a, ha, hreply, hwritten⟩ :
      ∃ r ∈ run (step sampleConfig) (init sampleConfig) answeredInTwo, ∃ a ∈ r.answers,
        a.2 = lit "hello" ∧ written 0 r.effects = lit "hello" := by
    decide +kernel
  obtain ⟨-, hanswered, hlive⟩ :=
    answered_in_order sampleConfig answeredInTwo r (run_mem_trace hr)
  exact ⟨r, a, ha, hr, hwritten, hreply, hanswered a ha (hreply ▸ by decide),
    hlive (by decide +kernel)⟩

end Answering

end Unixtar.WebServer
