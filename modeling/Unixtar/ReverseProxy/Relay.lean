import Unixtar.NetworkModel.Owners
import Unixtar.ReverseProxy.Routing

/-!
# A response is relayed completely

`HandleHttpResponse` sends the response through a shallow copy: the bytes stand
in the `tcp_byte_arr_` of the connection to the web server, which is deleted
before the call ends.  When a `::write` takes less than everything, the return
packet waits among the pending packets, and its buffer is replaced by a deep
copy of what is left, with a position of 0.  Whatever the writes take, first and
later, the bytes written for the return packet are a prefix of the response, and
none of them is read behind the end of the connection they stood in.

A return packet whose client is gone keeps its shallow copy, but nothing is sent
for it any more.

A return packet is made for one request.  `ReverseProxy.OneResponse` shows that
`conn_map_` does not give it out for a second response; here the responses are
listed by their return packets.

## Main results

* `account_deepCopyRest` — the deep copy keeps the account, and its bytes are
  its own.
* `loyal_onReadEvent`, `loyal_forwardTo`, `loyal_finish` — the events leave the
  contexts with their makers.
* `handleHttpResponse_cases` — what a response does to the thread and to
  `conn_map_`.
* `relaying_step` — every event keeps the accounts of all return packets.
-/

namespace Unixtar.ReverseProxy

open Unixtar.Lib NetState State

/-! ## Watching the proxy -/

/-- `HandleHttpResponse` behind its test for the client: the return packet, the
response, and the thread at the call of `TrySendAndMarkPendingIfUndone`. -/
def relayCall (ctx : RecvContext) (s : State) : Option (CtxId × Bytes × NetState) :=
  let found := s.lookup ctx.tcpConnectionUid
  match s.net.mgr.getConnection found.clientUid, found.returnPacket,
    tcpByteArray s.net ctx.tcpConnectionUid with
  | some (some _), some x, some (webserver, httpPacket) =>
      (s.net.ctxs x).map fun k =>
        (x, httpPacket, setBuffer x k (k.buffer.shallowCopyFrom webserver httpPacket) s.net)
  | _, _, _ => none

/-- A proxy with the responses that `HandleHttpResponse` has handled, by their
return packets, and the effects of its writes. -/
structure Relay where
  state : State
  handled : CtxId → List Bytes
  effects : List Effect

namespace Relay

def init (cfg : Config) : Relay := ⟨State.init cfg, fun _ => [], []⟩

/-- The call that an event makes. -/
def callOf (s : State) : Event → Option (CtxId × Bytes × NetState)
  | .readEvent id outs _ _ =>
      match s.net.onReadEvent upgradeApplicationProtocol id outs with
      | some (net, .dispatched ctx) =>
          if ctx.applicationPacket.protocol = .kHttp1_1 ∧ ctx.type = .kConnectTo then
            relayCall ctx { s with net }
          else none
      | _ => none
  | _ => none

/-- The response in a call, for its return packet. -/
def inCall (call : Option (CtxId × Bytes × NetState)) (x : CtxId) : List Bytes :=
  match call with
  | some (y, httpPacket, _) => if y = x then [httpPacket] else []
  | none => []

/-- The effects of a call. -/
def callEffects (w : WriteOutcome) (call : Option (CtxId × Bytes × NetState)) : List Effect :=
  match call with
  | some (x, _, net) => net.sendEffects x w
  | none => []

/-- The effects of an event on return packets and on pending packets. -/
def effectsOf (s : State) : Event → List Effect
  | .readEvent id outs forward w => callEffects w (callOf s (.readEvent id outs forward w))
  | .writeEvent id ws => s.net.pendingEffects id ws
  | _ => []

/-- One event. -/
def step (cfg : Config) (r : Relay) (e : Event) : Option Relay :=
  (State.step cfg r.state e).map fun state =>
    ⟨state, fun x => r.handled x ++ inCall (callOf r.state e) x, r.effects ++ effectsOf r.state e⟩

/-- What has been written for `x` is a prefix of the response, and there is no
other write for it, and none of memory that is gone; `OnSendDone` has run once if
that is all of it, and never before. -/
structure RelayedWell (httpPacket : Bytes) (x : CtxId) (r : Relay) : Prop where
  isPrefix : written x r.effects <+: httpPacket
  tame : .wild x ∉ r.effects
  counted : r.state.net.counted x = (written x r.effects).length
  done : r.effects.count (.sendDone x) = if written x r.effects = httpPacket then 1 else 0
  whenDone : ∀ before after, r.effects = before ++ .sendDone x :: after →
    written x before = httpPacket

/-- Every response that has been handled, through a return packet of its
own, is relayed well. -/
def RelaysCompletely (r : Relay) : Prop :=
  ∀ x httpPacket, r.handled x = [httpPacket] → httpPacket ≠ [] → RelayedWell httpPacket x r

theorem relayedWell_of_account {httpPacket : Bytes} {x : CtxId} {r : Relay}
    (h : Account httpPacket x r.state.net r.effects) : RelayedWell httpPacket x r := by
  obtain ⟨b, -, -, hwhole, hcount⟩ := h.split
  refine ⟨⟨b.remaining, hwhole⟩, h.tame, h.counted, ?_, h.whenDone⟩
  rw [hcount]
  have hiff : b.remaining = [] ↔ written x r.effects = httpPacket := by
    constructor
    · intro hnil
      rw [← hwhole, hnil, List.append_nil]
    · intro hall
      rw [hall] at hwhole
      exact List.append_right_eq_self.1 hwhole
  simp only [hiff]

/-- A return packet whose connection is gone, and for which nothing has been
written. -/
structure Orphan (x : CtxId) (s : NetState) (l : List Effect) : Prop where
  dead : ∃ k, s.ctxs x = some k ∧ s.isLive k.owner = false
  counted : s.counted x = 0
  written : written x l = []
  tame : .wild x ∉ l
  undone : .sendDone x ∉ l

theorem relayedWell_of_orphan {httpPacket : Bytes} {x : CtxId} {r : Relay}
    (h : Orphan x r.state.net r.effects) (hne : httpPacket ≠ []) : RelayedWell httpPacket x r := by
  refine ⟨?_, h.tame, ?_, ?_, ?_⟩
  · rw [h.written]
    exact List.nil_prefix
  · rw [h.written]
    exact h.counted
  · rw [h.written, List.count_eq_zero_of_not_mem h.undone, if_neg (Ne.symm hne)]
  · intro before after hl
    refine absurd ?_ h.undone
    rw [hl]
    exact List.mem_append_right before List.mem_cons_self

/-- Its connection stays gone. -/
theorem Orphan.kept {x : CtxId} {s t : NetState} {l l' : List Effect} (h : Orphan x s l)
    (howners : s.Owners) (hburies : Buries s t) (hcounted : t.counted x = s.counted x)
    (hothers : ∀ e ∈ l', e.ctx ≠ x) : Orphan x t (l ++ l') where
  dead := by
    obtain ⟨k, hk, hdead⟩ := h.dead
    obtain ⟨k', hk', howner⟩ := hburies.owners x k hk
    exact ⟨k', hk', howner ▸ hburies.gone _ (howners.owner_lt x k hk) hdead⟩
  counted := hcounted.trans h.counted
  written := by
    rw [written_append, h.written, written_eq_nil hothers]
    rfl
  tame := tame_append h.tame hothers
  undone := by
    intro hmem
    rcases List.mem_append.1 hmem with hmem | hmem
    · exact h.undone hmem
    · exact sendDone_not_mem hothers hmem

/-! ## The direct attempt -/

theorem arrayOf_of_tcpByteArray {net : NetState} {uid : Nat} {id : ConnId} {bytes : Bytes}
    (h : tcpByteArray net uid = some (id, bytes)) : net.arrayOf id = some bytes := by
  unfold tcpByteArray at h
  split at h
  · obtain ⟨c, hc, heq⟩ := Option.map_eq_some_iff.1 h
    cases heq
    unfold arrayOf
    rw [hc]
    rfl
  · cases h

/-- The response is put into an unused buffer. -/
theorem account_shallowCopy {x : CtxId} {k : SendContext} {net : NetState} {l : List Effect}
    {webserver : ConnId} {httpPacket : Bytes} (h : Unused x net l) (hk : net.ctxs x = some k)
    (harray : net.arrayOf webserver = some httpPacket) (hne : httpPacket ≠ []) :
    Account httpPacket x (setBuffer x k (k.buffer.shallowCopyFrom webserver httpPacket) net)
      l := by
  have hbuffer : k.buffer = .empty := by
    have hsome := h.buffer
    rw [bufferOf_of_ctxs hk] at hsome
    exact Option.some.inj hsome
  have hcopy : (setBuffer x k (k.buffer.shallowCopyFrom webserver httpPacket) net).bufferOf x =
      some ⟨httpPacket, 0, some webserver⟩ := by
    show (Function.update net.ctxs x _ x).map _ = _
    rw [Function.update_self, hbuffer]
    rfl
  refine ⟨⟨⟨httpPacket, 0, some webserver⟩, hcopy, Nat.zero_le _, ?_, ?_⟩, ?_, ?_, h.tame, ?_⟩
  · rw [h.written]
    rfl
  · rw [List.count_eq_zero_of_not_mem h.undone]
    exact (if_neg hne).symm
  · intro b hb
    rw [hcopy] at hb
    cases hb
    right
    show (net.arrayOf webserver).filter _ = _
    rw [harray]
    simp
  · rw [h.written]
    exact h.counted
  · intro before after hl
    have hmem : .sendDone x ∈ l := by
      rw [hl]
      exact List.mem_append_right before (List.mem_cons_self ..)
    exact absurd hmem h.undone

/-- **The deep copy** of what is left keeps the account, and its bytes are its
own. -/
theorem account_deepCopyRest {x : CtxId} {k : SendContext} {net : NetState} {l : List Effect}
    {httpPacket : Bytes} (h : Account httpPacket x net l) (hk : net.ctxs x = some k)
    (hbytes : k.buffer.bytes = httpPacket) :
    OwnAccount httpPacket x (deepCopyRest x httpPacket net) l := by
  obtain ⟨b, hb, -, hwhole, hcount⟩ := h.split
  rw [bufferOf_of_ctxs hk] at hb
  cases hb
  have hrest : (AutoBuffer.empty.write (httpPacket.drop k.buffer.pos)).remaining =
      k.buffer.remaining := by
    show ([] ++ httpPacket.drop k.buffer.pos).drop 0 = k.buffer.bytes.drop k.buffer.pos
    rw [hbytes]
    rfl
  have hcopy : (deepCopyRest x httpPacket net).bufferOf x =
      some (AutoBuffer.empty.write (httpPacket.drop k.buffer.pos)) := by
    unfold deepCopyRest
    simp only [hk]
    show (Function.update net.ctxs x _ x).map _ = _
    rw [Function.update_self]
    rfl
  have hown : ∀ b ∈ (deepCopyRest x httpPacket net).bufferOf x, Owned b := by
    intro b hb
    rw [hcopy] at hb
    cases hb
    exact Or.inr rfl
  have hcounted : (deepCopyRest x httpPacket net).counted x = net.counted x := by
    unfold deepCopyRest
    simp only [hk]
    rfl
  refine ⟨⟨⟨_, hcopy, Nat.zero_le _, ?_, ?_⟩, fun b hb => (hown b hb).readable _,
    hcounted.trans h.counted, h.tame, h.whenDone⟩, hown⟩
  · rw [hrest]
    exact hwhole
  · rw [hrest]
    exact hcount

/-! ## The invariant -/

/-- What the return packets of all responses have in common. -/
structure Relaying (r : Relay) : Prop where
  known : Known r.state.net r.effects
  owners : r.state.net.Owners
  handled_lt : ∀ x, r.handled x ≠ [] → x < r.state.net.nextCtx
  mapped : ∀ uid e x, r.state.connMap uid = some e → e.returnPacket = some x →
    r.handled x = [] → Unused x r.state.net r.effects
  accounts : ∀ x httpPacket, r.handled x = [httpPacket] → httpPacket ≠ [] →
    OwnAccount httpPacket x r.state.net r.effects ∨ Orphan x r.state.net r.effects

theorem relaying_init (cfg : Config) : (init cfg).Relaying where
  known :=
    { ctxs := fun x k hk => by cases hk
      writes := fun r hr => by cases hr
      effects := fun e he => by cases he }
  owners := owners_init cfg.vector
  handled_lt x hx := absurd rfl hx
  mapped uid e x he := by cases he
  accounts x httpPacket hx := by cases hx

theorem Relaying.completely {r : Relay} (h : r.Relaying) : r.RelaysCompletely := by
  intro x httpPacket hhandled hne
  rcases h.accounts x httpPacket hhandled hne with haccount | horphan
  · exact relayedWell_of_account haccount.toAccount
  · exact relayedWell_of_orphan horphan hne

theorem lt_of_unused {x : CtxId} {s : NetState} {l l' : List Effect} (hknown : Known s l)
    (h : Unused x s l') : x < s.nextCtx := by
  obtain ⟨k, hk, -⟩ := Option.map_eq_some_iff.1 h.buffer
  exact hknown.ctxs x k hk

/-- The entries of `conn_map_` are old ones, or lead to unused packets. -/
def MapsUnused (s t : State) (l : List Effect) : Prop :=
  ∀ uid e x, t.connMap uid = some e → e.returnPacket = some x →
    (∃ uid' e', s.connMap uid' = some e' ∧ e'.returnPacket = some x) ∨ Unused x t.net l

/-- An account stays, whatever becomes of the other contexts. -/
theorem accounts_untouched {httpPacket : Bytes} {x : CtxId} {s t : NetState} {l : List Effect}
    (howners : s.Owners) (hloyal : Loyal s t) (hsame : Untouched x s t) (l' : List Effect)
    (hothers : ∀ e ∈ l', e.ctx ≠ x) (h : OwnAccount httpPacket x s l ∨ Orphan x s l) :
    OwnAccount httpPacket x t (l ++ l') ∨ Orphan x t (l ++ l') :=
  h.imp (fun haccount => haccount.sendOther hsame hothers)
    fun horphan => horphan.kept howners (hloyal howners).2 hsame.counted hothers

/-- An event that leaves the known contexts alone. -/
theorem Relaying.quiet {r : Relay} {t : State} (h : r.Relaying)
    (hquiet : Quiet r.state.net t.net) (hloyal : Loyal r.state.net t.net)
    (hmap : MapsUnused r.state t r.effects) : Relaying ⟨t, r.handled, r.effects⟩ where
  known := hquiet.known r.effects h.known
  owners := (hloyal h.owners).1
  handled_lt x hx := Nat.lt_of_lt_of_le (h.handled_lt x hx) hquiet.nextCtx
  mapped := by
    intro uid e x he hx hhandled
    rcases hmap uid e x he hx with ⟨uid', e', he', hx'⟩ | hunused
    · have hold := h.mapped uid' e' x he' hx' hhandled
      exact hold.untouched (hquiet.same x (lt_of_unused h.known hold))
    · exact hunused
  accounts := by
    intro x httpPacket hhandled hne
    have hlt : x < r.state.net.nextCtx := by
      apply h.handled_lt x
      rw [hhandled]
      exact List.cons_ne_nil _ _
    have hkept := accounts_untouched h.owners hloyal (hquiet.same x hlt) []
      (fun e he => by cases he) (h.accounts x httpPacket hhandled hne)
    rw [List.append_nil] at hkept
    exact hkept

/-- Write events send pending packets of all kinds. -/
theorem Relaying.pending {r : Relay} {net : NetState} {id : ConnId} {ws : List WriteOutcome}
    (h : r.Relaying) (hsend : r.state.net.trySendPendingPackets id ws = some net) :
    Relaying ⟨{ r.state with net }, r.handled, r.effects ++ r.state.net.pendingEffects id ws⟩ where
  known := known_closed.pending hsend h.known
  owners := (Loyal.pending hsend h.owners).1
  handled_lt := by
    intro x hx
    show x < net.nextCtx
    rw [(Frame.trySendPendingPackets hsend).nextCtx]
    exact h.handled_lt x hx
  mapped := by
    intro uid e x he hx hhandled
    exact (Unused.closed x).pending hsend (h.mapped uid e x he hx hhandled)
  accounts := by
    intro x httpPacket hhandled hne
    rcases h.accounts x httpPacket hhandled hne with haccount | horphan
    · exact Or.inl ((OwnAccount.closed httpPacket x).pending hsend haccount)
    · right
      obtain ⟨c, hc⟩ := exists_conn_of_pending hsend
      -- what waits at a live connection is not an orphan
      have hx : x ∉ c.pendingSendCtx := by
        intro hmem
        obtain ⟨k, hk, hdead⟩ := horphan.dead
        have howner := h.owners.listed id c hc x (Or.inr hmem)
        rw [ownerOf_of_ctxs hk] at howner
        rw [Option.some.inj howner, isLive_of_conns hc] at hdead
        cases hdead
      refine horphan.kept h.owners (Loyal.pending hsend h.owners).2
        (untouched_pending hc hx hsend).counted ?_
      rintro e he rfl
      exact hx (pendingEffects_pending hc e he)

/-! ## The contexts stay with their makers -/

theorem loyal_setBuffer {s : NetState} {x : CtxId} {k : SendContext} (hk : s.ctxs x = some k)
    (b : AutoBuffer) : Loyal s (setBuffer x k b s) :=
  Loyal.buffer hk rfl rfl rfl rfl

theorem loyal_deepCopyRest (x : CtxId) (httpPacket : Bytes) (s : NetState) :
    Loyal s (deepCopyRest x httpPacket s) := by
  unfold deepCopyRest
  split
  · exact Loyal.refl s
  · rename_i k hk
    exact loyal_setBuffer hk _

theorem configApplicationLayer_lists (c : ConnectionProfile) :
    (configApplicationLayer c).sendContexts = c.sendContexts ∧
      (configApplicationLayer c).pendingSendCtx = c.pendingSendCtx := by
  unfold configApplicationLayer
  cases c.type <;> exact ⟨rfl, rfl⟩

theorem loyal_makeConnection {v : VectorImpl} {fd port : Nat} {ip : Bytes} {s t : NetState}
    {id : ConnId} (h : s.makeConnection v configApplicationLayer fd ip port = some (t, id)) :
    Loyal s t := by
  obtain ⟨hcontexts, hpending⟩ :=
    configApplicationLayer_lists (.init .kConnectTo fd ip port s.now)
  exact Loyal.addConnection hcontexts hpending h

theorem loyal_registerConnection {v : VectorImpl} {n fd port : Nat} {ip : Bytes}
    {s t : NetState} (h : s.registerConnection v n configApplicationLayer fd ip port = some t) :
    Loyal s t := by
  unfold registerConnection at h
  split at h
  · cases h
    exact Loyal.refl s
  · obtain ⟨⟨net, id⟩, hadd, rfl⟩ := Option.map_eq_some_iff.1 h
    obtain ⟨hcontexts, hpending⟩ :=
      configApplicationLayer_lists (.init .kAcceptFrom fd ip port s.now)
    exact Loyal.addConnection hcontexts hpending hadd

theorem loyal_onReadEvent {s net : NetState} {id : ConnId} {outs : List ReadOutcome}
    {stop : ConnectionProfile.ReadEnd}
    (h : s.onReadEvent upgradeApplicationProtocol id outs = some (net, stop)) : Loyal s net := by
  obtain ⟨c, hc⟩ := NetState.exists_conn_of_onReadEvent h
  have hlists : ∀ r, c.receive outs = some r → ∀ x, InLists r.conn x ↔ InLists c x := by
    intro r hr x
    obtain ⟨-, -, -, hcontexts, hpending⟩ := ConnectionProfile.receive_kept hr
    unfold InLists
    rw [hcontexts, hpending]
  have hset : ∀ r, c.receive outs = some r → Loyal s (s.setConn id r.conn) :=
    fun r hr => Loyal.setConn hc fun x hx => Or.inl ((hlists r hr x).1 hx)
  cases NetState.onReadEvent_cases hc h with
  | deleted r t hr hdel => exact (hset r hr).trans (Loyal.delConnection hdel)
  | idle r hr => exact hset r hr
  | crashed r hr => exact hset r hr
  | dispatched r p hr hp =>
      rcases dispatch_cases id s.nextCtx hp with
        ⟨_, _, _, _, _, -, hdispatch⟩ | ⟨_, _, _, _, _, hdispatch⟩
      · rw [hdispatch]
        exact Loyal.setConn hc fun x hx => Or.inl ((hlists r hr x).1 hx)
      · rw [hdispatch]
        refine Loyal.newContext hc rfl rfl rfl ?_
        rintro x (hx | hx)
        · rcases List.mem_append.1 hx with hx | hx
          · exact Or.inl ((hlists r hr x).1 (Or.inl hx))
          · exact Or.inr (List.mem_singleton.1 hx)
        · exact Or.inl ((hlists r hr x).1 (Or.inr hx))

theorem loyal_onErrEvent {s t : NetState} {id : ConnId} (h : s.onErrEvent id = some t) :
    Loyal s t := by
  unfold NetState.onErrEvent at h
  split at h
  · cases h
  · exact Loyal.delConnection h

theorem loyal_handleForwardFailed {s t : State} {ctx : RecvContext} {w : WriteOutcome}
    (h : s.handleForwardFailed ctx w = some t) : Loyal s.net t.net := by
  unfold handleForwardFailed at h
  split at h
  · cases h
  · split at h
    · cases h
    · rename_i k hk
      obtain ⟨⟨net, done⟩, hsend, rfl⟩ := Option.map_eq_some_iff.1 h
      exact (loyal_setBuffer hk _).trans (Loyal.direct hsend)

theorem loyal_forwardTo {s t : State} {ctx : RecvContext} {id : ConnId} {w : WriteOutcome}
    (h : forwardTo ctx id w s = some t) : Loyal s.net t.net := by
  unfold forwardTo at h
  split at h
  · rename_i c client httpPacket hc _
    obtain ⟨⟨net, done⟩, hsend, rfl⟩ := Option.map_eq_some_iff.1 h
    refine Loyal.trans (Loyal.newContext hc rfl rfl rfl ?_) (Loyal.direct hsend)
    rintro x (hx | hx)
    · rcases List.mem_append.1 hx with hx | hx
      · exact Or.inl (Or.inl hx)
      · exact Or.inr (List.mem_singleton.1 hx)
    · exact Or.inl (Or.inr hx)
  · cases h

theorem loyal_finish (webserverUid : Nat) (r : Routed) (s : State) :
    Loyal s.net (s.finish webserverUid r).net := by
  unfold finish
  split
  · exact Loyal.refl s.net
  · rename_i net hdel
    exact Loyal.delConnection hdel

/-! ## Requests -/

theorem known_setBuffer {s : NetState} {l : List Effect} {x : CtxId} {k : SendContext}
    (h : Known s l) (hk : s.ctxs x = some k) (b : AutoBuffer) : Known (setBuffer x k b s) l := by
  refine ⟨?_, h.writes, h.effects⟩
  intro y m hm
  replace hm : Function.update s.ctxs x (some { k with buffer := b }) y = some m := hm
  by_cases hy : y = x
  · rw [hy]
    exact h.ctxs x k hk
  · rw [Function.update_of_ne hy] at hm
    exact h.ctxs y m hm

theorem untouched_setBuffer {x y : CtxId} (hne : y ≠ x) (k : SendContext) (b : AutoBuffer)
    (s : NetState) : Untouched y s (setBuffer x k b s) := by
  refine ⟨?_, rfl⟩
  show (Function.update s.ctxs x _ y).map _ = _
  rw [Function.update_of_ne hne]
  rfl

theorem quiet_setBuffer {s t : NetState} {x : CtxId} {k : SendContext} (h : Quiet s t)
    (hx : s.nextCtx ≤ x) (hk : t.ctxs x = some k) (b : AutoBuffer) :
    Quiet s (setBuffer x k b t) where
  known l hl := known_setBuffer (h.known l hl) hk b
  nextCtx := h.nextCtx
  same := by
    intro y hy
    have hne : y ≠ x := Nat.ne_of_lt (Nat.lt_of_lt_of_le hy hx)
    exact (h.same y hy).trans (untouched_setBuffer hne k b t)

theorem quiet_addConnection {v : VectorImpl} {c : ConnectionProfile} {s t : NetState} {id : ConnId}
    (h : s.addConnection v c = some (t, id)) : Quiet s t := by
  obtain ⟨mgr, -, heq⟩ := Option.map_eq_some_iff.1 h
  cases heq
  exact Quiet.of_eq rfl rfl rfl

theorem quiet_registerConnection {v : VectorImpl} {n fd port : Nat} {ip : Bytes}
    {config : ConnectionProfile → ConnectionProfile} {s t : NetState}
    (h : s.registerConnection v n config fd ip port = some t) : Quiet s t := by
  unfold registerConnection at h
  split at h
  · cases h
    exact Quiet.of_eq rfl rfl rfl
  · obtain ⟨⟨net, id⟩, hadd, rfl⟩ := Option.map_eq_some_iff.1 h
    exact quiet_addConnection hadd

/-- `HandleForwardFailed`, for a return packet that `old` does not have. -/
theorem quiet_handleForwardFailed {old : NetState} {s t : State} {ctx : RecvContext}
    {w : WriteOutcome} (h : Quiet old s.net) (hnew : ∀ x ∈ ctx.returnPacket, old.nextCtx ≤ x)
    (hstep : s.handleForwardFailed ctx w = some t) :
    Quiet old t.net ∧ t.connMap = s.connMap := by
  unfold handleForwardFailed at hstep
  split at hstep
  · cases hstep
  · rename_i x hx
    split at hstep
    · cases hstep
    · rename_i k hk
      obtain ⟨⟨net, done⟩, hsend, rfl⟩ := Option.map_eq_some_iff.1 hstep
      have hle := hnew x hx
      exact ⟨(quiet_setBuffer h hle hk _).direct hle hsend, rfl⟩

/-- `HandleHttpRequest` behind its loop: a context of its own is sent, and the
return packet is put into `conn_map_`. -/
theorem quiet_forwardTo {s t : State} {ctx : RecvContext} {id : ConnId} {w : WriteOutcome}
    (hstep : forwardTo ctx id w s = some t) :
    Quiet s.net t.net ∧ ∃ uid, t.connMap = Function.update s.connMap uid
      (some ⟨ctx.tcpConnectionUid, ctx.returnPacket⟩) := by
  unfold forwardTo at hstep
  split at hstep
  · rename_i c client httpPacket hc _
    obtain ⟨⟨net, done⟩, hsend, rfl⟩ := Option.map_eq_some_iff.1 hstep
    have hset : ∀ d, Quiet s.net (s.net.setConn id d) := fun _ => Quiet.of_eq rfl rfl rfl
    exact ⟨((hset _).trans (Quiet.allocCtx _ _)).direct (Nat.le_refl _) hsend, c.uid, rfl⟩
  · cases hstep

theorem quiet_onReadEvent {s net : NetState} {id : ConnId} {outs : List ReadOutcome}
    {stop : ConnectionProfile.ReadEnd}
    (h : s.onReadEvent upgradeApplicationProtocol id outs = some (net, stop)) : Quiet s net := by
  have hset : ∀ d, Quiet s (s.setConn id d) := fun _ => Quiet.of_eq rfl rfl rfl
  obtain ⟨c, hc⟩ := NetState.exists_conn_of_onReadEvent h
  cases NetState.onReadEvent_cases hc h with
  | deleted r t hr hdel => exact (hset _).trans (Quiet.delConnection hdel)
  | idle r hr => exact hset _
  | crashed r hr => exact hset _
  | dispatched r p hr hp => exact (hset _).trans (Quiet.allocCtx _ _)

/-- What a read event passes on: a response without a return packet, or a
request with a new one. -/
theorem returnPacket_new {s net : NetState} {id : ConnId} {outs : List ReadOutcome}
    {ctx : RecvContext}
    (h : s.onReadEvent upgradeApplicationProtocol id outs = some (net, .dispatched ctx)) :
    ∀ x ∈ ctx.returnPacket,
      x = s.nextCtx ∧ net.bufferOf x = some .empty ∧ net.writes = s.writes := by
  intro x hx
  obtain ⟨c, hc⟩ := NetState.exists_conn_of_onReadEvent h
  generalize hstop : ConnectionProfile.ReadEnd.dispatched ctx = stop at h
  cases NetState.onReadEvent_cases hc h with
  | deleted r t hr hdel => cases hstop
  | idle r hr => cases hstop
  | crashed r hr => cases hstop
  | dispatched r p hr hp =>
      rcases dispatch_cases id s.nextCtx hp with
        ⟨_, _, _, _, _, -, hdispatch⟩ | ⟨_, _, _, _, _, hdispatch⟩
      · rw [hdispatch] at hstop
        cases hstop
        cases hx
      · rw [hdispatch] at hstop ⊢
        cases hstop
        cases hx
        refine ⟨rfl, ?_, rfl⟩
        show (Function.update s.ctxs s.nextCtx (some _) s.nextCtx).map _ = _
        rw [Function.update_self]
        rfl

/-- **A request**: a known context is left alone, and the new entry of
`conn_map_` leads to the new return packet. -/
theorem relaying_handleHttpRequest {cfg : Config} {r : Relay} {net : NetState} {t : State}
    {ctx : RecvContext} {forward : Forward} {w : WriteOutcome} (h : r.Relaying)
    (hquiet : Quiet r.state.net net) (hloyal : Loyal r.state.net net)
    (hnew : ∀ x ∈ ctx.returnPacket, x = r.state.net.nextCtx ∧ net.bufferOf x = some .empty ∧
      net.writes = r.state.net.writes)
    (hstep : handleHttpRequest cfg ctx forward w { r.state with net } = some t) :
    Relaying ⟨t, r.handled, r.effects⟩ := by
  have hsame : ∀ s' : State, s'.connMap = r.state.connMap → MapsUnused r.state s' r.effects := by
    intro s' hmap uid e x he hx
    rw [hmap] at he
    exact Or.inl ⟨uid, e, he, hx⟩
  unfold handleHttpRequest at hstep
  split at hstep
  · cases hstep
  · obtain ⟨net', hdel, rfl⟩ := Option.map_eq_some_iff.1 hstep
    exact h.quiet (hquiet.trans (Quiet.delConnection hdel))
      (hloyal.trans (Loyal.delConnection hdel)) (hsame _ rfl)
  · split at hstep
    · obtain ⟨hfailed, hmap⟩ := quiet_handleForwardFailed hquiet
        (fun x hx => Nat.le_of_eq (hnew x hx).1.symm) hstep
      exact h.quiet hfailed (hloyal.trans (loyal_handleForwardFailed hstep)) (hsame t hmap)
    · cases hstep
    · split at hstep
      · cases hstep
      · rename_i net' id hmake
        obtain ⟨hforward, uid, hmap⟩ := quiet_forwardTo hstep
        have hbehind : Quiet net t.net := (quiet_addConnection hmake).trans hforward
        apply h.quiet (hquiet.trans hbehind)
          (hloyal.trans ((loyal_makeConnection hmake).trans (loyal_forwardTo hstep)))
        intro uid' e x he hx
        rw [hmap] at he
        by_cases huid : uid' = uid
        · rw [huid, Function.update_self] at he
          cases he
          obtain ⟨hfresh, hbuffer, hwrites⟩ := hnew x hx
          have hunused : Unused x net r.effects :=
            Unused.of_known h.known (Nat.le_of_eq hfresh.symm) hbuffer hwrites
          right
          exact hunused.untouched
            (hbehind.same x (lt_of_unused (hquiet.known _ h.known) hunused))
        · rw [Function.update_of_ne huid] at he
          exact Or.inl ⟨uid', e, he, hx⟩

/-! ## Responses -/

theorem deepCopyRest_nextCtx (x : CtxId) (httpPacket : Bytes) (net : NetState) :
    (deepCopyRest x httpPacket net).nextCtx = net.nextCtx := by
  unfold deepCopyRest
  split <;> rfl

theorem known_deepCopyRest {net : NetState} {l : List Effect} (h : Known net l) (x : CtxId)
    (httpPacket : Bytes) : Known (deepCopyRest x httpPacket net) l := by
  unfold deepCopyRest
  split
  · exact h
  · rename_i k hk
    exact known_setBuffer h hk _

theorem untouched_deepCopyRest {x y : CtxId} (hne : y ≠ x) (httpPacket : Bytes)
    (net : NetState) : Untouched y net (deepCopyRest x httpPacket net) := by
  unfold deepCopyRest
  split
  · exact Untouched.of_eq rfl rfl y
  · exact untouched_setBuffer hne _ _ net

/-- The entries of `conn_map_` are old ones, or the pair that `operator[]`
makes. -/
def MapsOld (s t : State) : Prop :=
  ∀ uid e, t.connMap uid = some e → e = Entry.default ∨ s.connMap uid = some e

theorem MapsOld.lookup (s : State) (uid : Nat) :
    MapsOld s { s with connMap := Function.update s.connMap uid (some (s.lookup uid)) } := by
  intro uid' e he
  replace he : Function.update s.connMap uid (some (s.lookup uid)) uid' = some e := he
  by_cases huid : uid' = uid
  · rw [huid, Function.update_self] at he
    cases he
    unfold State.lookup
    cases hentry : s.connMap uid with
    | none => exact Or.inl rfl
    | some entry =>
        rw [huid]
        exact Or.inr hentry
  · rw [Function.update_of_ne huid] at he
    exact Or.inr he

theorem MapsOld.of_returnPacket {s t : State} {uid : Nat} {e : Entry} {x : CtxId}
    (h : MapsOld s t) (he : t.connMap uid = some e) (hx : e.returnPacket = some x) :
    s.connMap uid = some e := by
  rcases h uid e he with rfl | hold
  · cases hx
  · exact hold

theorem MapsOld.ofNet {s t : State} (h : MapsOld s t) (net : NetState) :
    MapsOld s { t with net } := h

theorem quiet_finish (webserverUid : Nat) (r : Routed) (s : State) :
    Quiet s.net (s.finish webserverUid r).net := by
  unfold finish
  split
  · exact Quiet.of_eq rfl rfl rfl
  · rename_i net hdel
    exact Quiet.delConnection hdel

theorem MapsOld.finish {s t : State} (h : MapsOld s t) (webserverUid : Nat) (r : Routed) :
    MapsOld s (t.finish webserverUid r) := by
  unfold State.finish
  split
  · exact h
  · intro uid e he
    replace he : Function.update t.connMap r.found.clientUid none uid = some e := he
    by_cases huid : uid = r.found.clientUid
    · rw [huid, Function.update_self] at he
      cases he
    · rw [Function.update_of_ne huid] at he
      exact h uid e he

/-- `HandleHttpResponse` without a call. -/
structure CallsNot (ctx : RecvContext) (s t : State) : Prop where
  call : relayCall ctx s = none
  quiet : Quiet s.net t.net
  loyal : Loyal s.net t.net

/-- `HandleHttpResponse` with its call, for the response `httpPacket` in the
array of `webserver` and the return packet `x`; `net` is the thread behind the
call. -/
structure Calls (ctx : RecvContext) (w : WriteOutcome) (s t : State) (x : CtxId)
    (webserver : ConnId) (httpPacket : Bytes) (k : SendContext) (net : NetState)
    (done : Bool) : Prop where
  call : relayCall ctx s =
    some (x, httpPacket, setBuffer x k (k.buffer.shallowCopyFrom webserver httpPacket) s.net)
  array : s.net.arrayOf webserver = some httpPacket
  packet : s.net.ctxs x = some k
  entry : ∃ e, s.connMap ctx.tcpConnectionUid = some e ∧ e.returnPacket = some x
  send : (setBuffer x k (k.buffer.shallowCopyFrom webserver httpPacket)
    s.net).trySendAndMarkPendingIfUndone x w = some (net, done)
  quiet : Quiet (if done then net else deepCopyRest x httpPacket net) t.net
  loyal : Loyal (if done then net else deepCopyRest x httpPacket net) t.net

/-- **A response**, taken apart. -/
theorem handleHttpResponse_cases {s t : State} {ctx : RecvContext} {w : WriteOutcome}
    (h : s.handleHttpResponse ctx w = some t) :
    MapsOld s t ∧ (CallsNot ctx s t ∨
      ∃ x webserver httpPacket k net done, Calls ctx w s t x webserver httpPacket k net done) := by
  have hmap := MapsOld.lookup s ctx.tcpConnectionUid
  unfold handleHttpResponse at h
  dsimp only at h
  split at h
  · rename_i hconn
    cases h
    refine ⟨hmap, Or.inl ⟨?_, Quiet.of_eq rfl rfl rfl, Loyal.refl s.net⟩⟩
    unfold relayCall
    simp only [hconn]
  · rename_i hconn
    cases h
    refine ⟨hmap.finish _ _, Or.inl ⟨?_, ?_, ?_⟩⟩
    · unfold relayCall
      simp only [hconn]
    · exact quiet_finish ctx.tcpConnectionUid _
        { s with connMap := Function.update s.connMap ctx.tcpConnectionUid _ }
    · exact loyal_finish ctx.tcpConnectionUid _
        { s with connMap := Function.update s.connMap ctx.tcpConnectionUid _ }
  · rename_i id hconn
    split at h
    · rename_i x webserver httpPacket hreturn hbytes
      split at h
      · rename_i hnone
        cases h
        refine ⟨hmap, Or.inl ⟨?_, Quiet.of_eq rfl rfl rfl, Loyal.refl s.net⟩⟩
        unfold relayCall
        simp only [hconn, hreturn, hbytes, hnone]
        rfl
      · rename_i k hk
        obtain ⟨⟨net, done⟩, hsend, rfl⟩ := Option.map_eq_some_iff.1 h
        refine ⟨(hmap.ofNet _).finish _ _, Or.inr
          ⟨x, webserver, httpPacket, k, net, done, ?_⟩⟩
        refine ⟨?_, arrayOf_of_tcpByteArray hbytes, hk, ?_, hsend, ?_, ?_⟩
        · unfold relayCall
          simp only [hconn, hreturn, hbytes, hk]
          rfl
        · unfold State.lookup at hreturn
          cases hentry : s.connMap ctx.tcpConnectionUid with
          | none =>
              rw [hentry] at hreturn
              cases hreturn
          | some entry =>
              rw [hentry] at hreturn
              exact ⟨entry, rfl, hreturn⟩
        · exact quiet_finish ctx.tcpConnectionUid _
            { s with
              net := if done then net else deepCopyRest x httpPacket net
              connMap := Function.update s.connMap ctx.tcpConnectionUid _ }
        · exact loyal_finish ctx.tcpConnectionUid _
            { s with
              net := if done then net else deepCopyRest x httpPacket net
              connMap := Function.update s.connMap ctx.tcpConnectionUid _ }
    · rename_i hother
      cases h
      refine ⟨hmap, Or.inl ⟨?_, Quiet.of_eq rfl rfl rfl, Loyal.refl s.net⟩⟩
      unfold relayCall
      dsimp only
      split
      · rename_i x webserver httpPacket _ hreturn hbytes
        exact absurd hbytes (hother x webserver httpPacket hreturn)
      · rfl

section Calls

variable {ctx : RecvContext} {w : WriteOutcome} {s t : State} {x : CtxId} {webserver : ConnId}
  {httpPacket : Bytes} {k : SendContext} {net : NetState} {done : Bool}

theorem Calls.nextCtx (h : Calls ctx w s t x webserver httpPacket k net done) :
    net.nextCtx = s.net.nextCtx :=
  (Frame.trySendAndMarkPendingIfUndone h.send).nextCtx

/-- The contexts stay with their makers. -/
theorem Calls.loyal_all (h : Calls ctx w s t x webserver httpPacket k net done) :
    Loyal s.net t.net := by
  have hsent : Loyal s.net net := (loyal_setBuffer h.packet _).trans (Loyal.direct h.send)
  have hloyal := h.loyal
  cases done with
  | true => exact hsent.trans hloyal
  | false => exact (hsent.trans (loyal_deepCopyRest x httpPacket net)).trans hloyal

/-- The contexts besides the return packet are left alone. -/
theorem Calls.untouched {y : CtxId} (h : Calls ctx w s t x webserver httpPacket k net done)
    (hne : y ≠ x) (hy : y < s.net.nextCtx) : Untouched y s.net t.net := by
  have hsent : Untouched y s.net net :=
    (untouched_setBuffer hne k _ s.net).trans (Untouched.direct (Ne.symm hne) h.send)
  have hquiet := h.quiet
  rw [← h.nextCtx] at hy
  cases done with
  | true => exact hsent.trans (hquiet.same y hy)
  | false =>
      have hcopied := untouched_deepCopyRest hne httpPacket net
      rw [← deepCopyRest_nextCtx x httpPacket net] at hy
      exact (hsent.trans hcopied).trans (hquiet.same y hy)

theorem Calls.known {l : List Effect} (h : Calls ctx w s t x webserver httpPacket k net done)
    (hl : Known s.net l) : Known t.net (l ++ callEffects w (relayCall ctx s)) := by
  have hsent := known_closed.direct h.send (known_setBuffer hl h.packet _)
  apply h.quiet.known
  rw [h.call]
  cases done with
  | true => exact hsent
  | false => exact known_deepCopyRest hsent x httpPacket

/-- A send that is done leaves nothing in the buffer. -/
theorem owned_of_done {u v : NetState} {l : List Effect} {whole : Bytes}
    (htry : u.trySend x w = some (v, true)) (h : Account whole x u l) :
    OwnAccount whole x (v.onSendDone x) (l ++ u.trySendEffects x w) := by
  have haccount := (Account.closed whole x).sendClosed.done htry h
  refine ⟨haccount, ?_⟩
  obtain ⟨b, hb, -, -, hcount⟩ := haccount.split
  obtain ⟨k', hk', -, hdone, -, -, -, -, heffects⟩ := trySend_cases htry
  intro b' hb'
  rw [hb] at hb'
  cases hb'
  left
  -- `OnSendDone` has run, so nothing is left
  by_contra hne
  rw [if_neg hne] at hcount
  have hmem : .sendDone x ∈ l ++ u.trySendEffects x w := by
    rw [heffects, ← hdone]
    simp
  exact List.count_eq_zero.1 hcount hmem

/-- The return packet itself, if it was unused: its bytes are its own behind the
call, or it has no connection any more. -/
theorem Calls.account {l : List Effect} (h : Calls ctx w s t x webserver httpPacket k net done)
    (howners : s.net.Owners) (hl : Unused x s.net l) (hx : x < s.net.nextCtx)
    (hne : httpPacket ≠ []) :
    OwnAccount httpPacket x t.net (l ++ callEffects w (relayCall ctx s)) ∨
      Orphan x t.net (l ++ callEffects w (relayCall ctx s)) := by
  have hcopied := account_shallowCopy hl h.packet h.array hne
  have hquiet := h.quiet
  have hsend := h.send
  rw [← h.nextCtx] at hx
  rw [h.call]
  generalize hcopy : setBuffer x k (k.buffer.shallowCopyFrom webserver httpPacket) s.net = copied
    at hsend hcopied
  cases trySendAndMarkPendingIfUndone_cases hsend with
  | done k' u hk' hvalid htry =>
      left
      simp only [callEffects, sendEffects, hk', hvalid, if_true]
      exact (owned_of_done htry hcopied).untouched (hquiet.same x hx)
  | undone k' u hk' hvalid htry =>
      left
      have hsent := (Account.closed httpPacket x).direct hsend hcopied
      -- the buffer still has the bytes of the shallow copy
      have hholds : ∃ m, copied.ctxs x = some m ∧ m.buffer.bytes = httpPacket := by
        rw [← hcopy]
        exact ⟨_, Function.update_self _ _ _, rfl⟩
      obtain ⟨m, hm, hbytes⟩ := (holds_closed x httpPacket).direct (l := l) hsend hholds
      rw [← deepCopyRest_nextCtx x httpPacket _] at hx
      exact (account_deepCopyRest hsent hm hbytes).untouched (hquiet.same x hx)
  | skipped k' hk' hinvalid =>
      right
      simp only [callEffects, sendEffects, hk', hinvalid, Bool.false_eq_true, if_false,
        List.append_nil]
      have hsame : k'.owner = k.owner ∧ k'.isTcpConnValid = k.isTcpConnValid := by
        rw [← hcopy] at hk'
        replace hk' : Function.update s.net.ctxs x _ x = some k' := hk'
        rw [Function.update_self] at hk'
        cases hk'
        exact ⟨rfl, rfl⟩
      rw [hsame.2] at hinvalid
      have hdead := howners.invalid x k h.packet hinvalid
      obtain ⟨-, hburies⟩ := h.loyal_all howners
      obtain ⟨m, hm, howner⟩ := hburies.owners x k h.packet
      have hcounted : t.net.counted x = s.net.counted x := by
        rw [(hquiet.same x hx).counted, ← hcopy]
        rfl
      refine ⟨⟨m, hm, ?_⟩, hcounted.trans hl.counted, hl.written, hl.tame, hl.undone⟩
      rw [howner]
      exact hburies.gone _ (howners.owner_lt x k h.packet) hdead

end Calls

/-- **A response** keeps the accounts of all return packets, and opens one. -/
theorem relaying_handleHttpResponse {r : Relay} {t : State} {ctx : RecvContext}
    {w : WriteOutcome} (h : r.Relaying) (hstep : r.state.handleHttpResponse ctx w = some t) :
    Relaying ⟨t, fun x => r.handled x ++ inCall (relayCall ctx r.state) x,
      r.effects ++ callEffects w (relayCall ctx r.state)⟩ := by
  obtain ⟨hmap, hcall⟩ := handleHttpResponse_cases hstep
  rcases hcall with hnot | ⟨x, webserver, httpPacket, k, net, done, hcalls⟩
  · rw [hnot.call]
    simp only [inCall, callEffects, List.append_nil]
    apply h.quiet hnot.quiet hnot.loyal
    intro uid e y he hy
    exact Or.inl ⟨uid, e, hmap.of_returnPacket he hy, hy⟩
  · have hx : x < r.state.net.nextCtx := h.known.ctxs x k hcalls.packet
    have hnext : r.state.net.nextCtx ≤ t.net.nextCtx := by
      have hle := hcalls.quiet.nextCtx
      rw [← hcalls.nextCtx]
      cases done with
      | true => exact hle
      | false =>
          rw [← deepCopyRest_nextCtx x httpPacket net]
          exact hle
    have hothers : ∀ y, y ≠ x → ∀ e ∈ callEffects w (relayCall ctx r.state), e.ctx ≠ y := by
      intro y hne e he
      rw [hcalls.call] at he
      rw [sendEffects_ctx e he]
      exact Ne.symm hne
    have hhandled : ∀ y, y ≠ x → inCall (relayCall ctx r.state) y = [] := by
      intro y hne
      rw [hcalls.call]
      exact if_neg (Ne.symm hne)
    have hthis : inCall (relayCall ctx r.state) x = [httpPacket] := by
      rw [hcalls.call]
      exact if_pos rfl
    refine ⟨hcalls.known h.known, (hcalls.loyal_all h.owners).1, ?_, ?_, ?_⟩
    · intro y hy
      refine Nat.lt_of_lt_of_le ?_ hnext
      by_cases hne : y = x
      · rw [hne]
        exact hx
      · apply h.handled_lt y
        intro hnil
        apply hy
        show r.handled y ++ _ = []
        rw [hnil, hhandled y hne]
        rfl
    · intro uid e y he hy hnil
      obtain ⟨hold, hnew⟩ := List.append_eq_nil_iff.1 hnil
      have hne : y ≠ x := by
        rintro rfl
        rw [hthis] at hnew
        cases hnew
      have hunused := h.mapped uid e y (hmap.of_returnPacket he hy) hy hold
      exact hunused.sendOther (hcalls.untouched hne (lt_of_unused h.known hunused))
        (hothers y hne)
    · intro y whole hone hwhole
      replace hone : r.handled y ++ inCall (relayCall ctx r.state) y = [whole] := hone
      by_cases hne : y = x
      · subst hne
        rw [hthis] at hone
        obtain ⟨hold, heq⟩ := List.append_inj' (hone.trans (List.nil_append _).symm) rfl
        cases heq
        obtain ⟨e, he, hreturn⟩ := hcalls.entry
        exact hcalls.account h.owners (h.mapped _ e y he hreturn hold) hx hwhole
      · rw [hhandled y hne, List.append_nil] at hone
        have hlt : y < r.state.net.nextCtx :=
          h.handled_lt y (by rw [hone]; exact List.cons_ne_nil _ _)
        exact accounts_untouched h.owners hcalls.loyal_all (hcalls.untouched hne hlt) _
          (hothers y hne) (h.accounts y whole hone hwhole)

/-! ## Runs -/

/-- A thread that goes on without its `conn_map_`. -/
theorem Relaying.ofNet {r : Relay} {net : NetState} (h : r.Relaying)
    (hquiet : Quiet r.state.net net) (hloyal : Loyal r.state.net net) :
    Relaying ⟨{ r.state with net }, r.handled, r.effects⟩ :=
  h.quiet hquiet hloyal fun uid e _ he hx => Or.inl ⟨uid, e, he, hx⟩

theorem relaying_handleApplicationPacket {cfg : Config} {r : Relay} {net : NetState} {t : State}
    {ctx : RecvContext} {forward : Forward} {w : WriteOutcome} (h : r.Relaying)
    (hquiet : Quiet r.state.net net) (hloyal : Loyal r.state.net net)
    (hnew : ∀ x ∈ ctx.returnPacket, x = r.state.net.nextCtx ∧ net.bufferOf x = some .empty ∧
      net.writes = r.state.net.writes)
    (hstep : handleApplicationPacket cfg ctx forward w { r.state with net } = some t)
    (call : Option (CtxId × Bytes × NetState))
    (hcall : call = if ctx.applicationPacket.protocol = .kHttp1_1 ∧ ctx.type = .kConnectTo then
      relayCall ctx { r.state with net } else none) :
    Relaying ⟨t, fun x => r.handled x ++ inCall call x, r.effects ++ callEffects w call⟩ := by
  unfold handleApplicationPacket at hstep
  split at hstep
  · rename_i hprotocol
    split at hstep
    · rename_i htype
      rw [if_neg (by rw [htype]; simp)] at hcall
      rw [hcall]
      simp only [inCall, callEffects, List.append_nil]
      exact relaying_handleHttpRequest h hquiet hloyal hnew hstep
    · rename_i htype
      rw [if_pos ⟨hprotocol, htype⟩] at hcall
      rw [hcall]
      exact relaying_handleHttpResponse (h.ofNet hquiet hloyal) hstep
  · rename_i hprotocol
    rw [if_neg (by rw [hprotocol]; simp)] at hcall
    cases hstep
    rw [hcall]
    simp only [inCall, callEffects, List.append_nil]
    exact h.ofNet hquiet hloyal
  · rename_i hprotocol _
    rw [if_neg (fun hboth => hprotocol hboth.1)] at hcall
    obtain ⟨net', hdel, rfl⟩ := Option.map_eq_some_iff.1 hstep
    rw [hcall]
    simp only [inCall, callEffects, List.append_nil]
    exact h.ofNet (hquiet.trans (Quiet.delConnection hdel))
      (hloyal.trans (Loyal.delConnection hdel))

theorem relaying_readEvent {cfg : Config} {r : Relay} {t : State} {id : ConnId}
    {outs : List ReadOutcome} {forward : Forward} {w : WriteOutcome} (h : r.Relaying)
    (hstep : r.state.onReadEvent cfg id outs forward w = some t) :
    Relaying ⟨t, fun x => r.handled x ++ inCall (callOf r.state (.readEvent id outs forward w)) x,
      r.effects ++ callEffects w (callOf r.state (.readEvent id outs forward w))⟩ := by
  unfold State.onReadEvent at hstep
  unfold callOf
  dsimp only
  split at hstep
  · rename_i net ctx hread
    rw [hread]
    exact relaying_handleApplicationPacket h (quiet_onReadEvent hread) (loyal_onReadEvent hread)
      (returnPacket_new hread) hstep _ rfl
  · rename_i net hread
    cases hstep
    rw [hread]
    simp only [inCall, callEffects, List.append_nil]
    exact h.ofNet (quiet_onReadEvent hread) (loyal_onReadEvent hread)
  · rename_i net hread
    cases hstep
    rw [hread]
    simp only [inCall, callEffects, List.append_nil]
    exact h.ofNet (quiet_onReadEvent hread) (loyal_onReadEvent hread)
  · cases hstep
  · cases hstep

theorem quiet_onErrEvent {s t : NetState} {id : ConnId} (h : s.onErrEvent id = some t) :
    Quiet s t := by
  unfold NetState.onErrEvent at h
  split at h
  · cases h
  · exact Quiet.delConnection h

/-- **Every event** keeps the accounts. -/
theorem relaying_step {cfg : Config} {r r' : Relay} {e : Event} (h : r.Relaying)
    (hstep : step cfg r e = some r') : r'.Relaying := by
  obtain ⟨t, ht, rfl⟩ := Option.map_eq_some_iff.1 hstep
  unfold State.step at ht
  split at ht
  · cases ht
  · cases e with
    | accept fd ip port =>
        obtain ⟨net, hregister, rfl⟩ := Option.map_eq_some_iff.1 ht
        simp only [callOf, inCall, effectsOf, List.append_nil]
        exact h.ofNet (quiet_registerConnection hregister) (loyal_registerConnection hregister)
    | readEvent id outs forward w => exact relaying_readEvent h ht
    | writeEvent id ws =>
        obtain ⟨net, hsend, rfl⟩ := Option.map_eq_some_iff.1 ht
        simp only [callOf, inCall, effectsOf, List.append_nil]
        exact h.pending hsend
    | errEvent id =>
        obtain ⟨net, herr, rfl⟩ := Option.map_eq_some_iff.1 ht
        simp only [callOf, inCall, effectsOf, List.append_nil]
        exact h.ofNet (quiet_onErrEvent herr) (loyal_onErrEvent herr)
    | clearTimeout =>
        cases ht
        simp only [callOf, inCall, effectsOf, List.append_nil]
        exact h.ofNet (Quiet.clearTimeout r.state.net) (Loyal.clearTimeout r.state.net)
    | tick ms =>
        cases ht
        simp only [callOf, inCall, effectsOf, List.append_nil]
        exact h.ofNet (Quiet.of_eq rfl rfl rfl) (Loyal.of_eq rfl rfl rfl rfl)

end Relay

end Unixtar.ReverseProxy
