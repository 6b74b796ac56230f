import Unixtar.ReverseProxy.Relay

/-!
# A return packet is for one response

`HandleHttpResponse` leaves the entry under the uid of the web server in
`conn_map_`, return packet included: it erases the uid of the client.  What
keeps the entry from being found again is that the connection is deleted, and
that the next connection to a web server with this uid gets an entry of its
own before a response can come.

## Main results

* `once_step` — no return packet is given out for a second response, as long
  as the uids do not wrap around.
* `relaysCompletely` — every response is relayed completely.
-/

namespace Unixtar.ReverseProxy

open Unixtar.Lib NetState State

/-! ## Threads that open no connection -/

/-- From `s` to `t` no connection is opened, and none changes its uid or its
type.  Nothing is said about contexts. -/
structure Stays (s t : NetState) : Prop where
  distinct : s.mgr.Distinct → t.mgr.Distinct
  nextConn : t.nextConn = s.nextConn
  conns : ∀ id d, t.mgr.conns id = some d →
    ∃ c, s.mgr.conns id = some c ∧ d.uid = c.uid ∧ d.type = c.type

namespace Stays

theorem of_keeps {s t : NetState} (h : s.Keeps t) : Stays s t := ⟨h.distinct, h.nextConn, h.conns⟩

theorem trans {s t u : NetState} (h : Stays s t) (h' : Stays t u) : Stays s u := by
  refine ⟨fun hs => h'.distinct (h.distinct hs), h'.nextConn.trans h.nextConn, ?_⟩
  intro id d hd
  obtain ⟨c', hc', huid', htype'⟩ := h'.conns id d hd
  obtain ⟨c, hc, huid, htype⟩ := h.conns id c' hc'
  exact ⟨c, hc, huid'.trans huid, htype'.trans htype⟩

/-- Only contexts and the clock change. -/
theorem of_mgr {s t : NetState} (hmgr : t.mgr = s.mgr) (hnext : t.nextConn = s.nextConn) :
    Stays s t := by
  refine ⟨fun h => by rw [hmgr]; exact h, hnext, ?_⟩
  intro id d hd
  rw [hmgr] at hd
  exact ⟨d, hd, rfl, rfl⟩

theorem allocCtx (made : Option SendContext) (s : NetState) : Stays s (s.allocCtx made) := by
  cases made with
  | none => exact of_mgr rfl rfl
  | some k => exact of_mgr rfl rfl

theorem setBuffer (x : CtxId) (k : SendContext) (b : AutoBuffer) (s : NetState) :
    Stays s (setBuffer x k b s) :=
  of_mgr rfl rfl

theorem deepCopyRest (x : CtxId) (httpPacket : Bytes) (s : NetState) :
    Stays s (deepCopyRest x httpPacket s) := by
  unfold ReverseProxy.deepCopyRest
  split
  · exact of_mgr rfl rfl
  · exact setBuffer _ _ _ s

theorem direct {s t : NetState} {x : CtxId} {w : WriteOutcome} {done : Bool}
    (h : s.trySendAndMarkPendingIfUndone x w = some (t, done)) : Stays s t :=
  of_keeps (Keeps.trySendAndMarkPendingIfUndone h)

end Stays

/-- Behind `DelConnection` nobody has the uid. -/
theorem delConnection_uid {s t : NetState} {uid : Nat} (hs : s.mgr.Distinct)
    (h : s.delConnection uid = some t) : ∀ id d, t.mgr.conns id = some d → d.uid ≠ uid := by
  intro id d hd huid
  have hslot := ((Keeps.delConnection h).distinct hs).stored id d hd
  obtain ⟨id', c, -, -, rfl⟩ := NetState.delConnection_cases h
  replace hslot : (s.mgr.pool.set uid none)[d.uid]? = some (some id) := hslot
  rw [huid, List.getElem?_set_self'] at hslot
  cases hold : s.mgr.pool[uid]? with
  | none => simp [hold] at hslot
  | some slot => simp [hold] at hslot

namespace Relay

/-! ## The invariant -/

/-- The responses that the live connections to web servers wait for are not
handled yet. -/
structure Once (s : State) (handled : CtxId → List Bytes) : Prop where
  distinct : s.net.mgr.Distinct
  conn_lt : ∀ id c, s.net.mgr.conns id = some c → id < s.net.nextConn
  unique : ∀ uid uid' e e' x, s.connMap uid = some e → s.connMap uid' = some e' →
    e.returnPacket = some x → e'.returnPacket = some x → uid = uid'
  waiting : s.aborted = false → ∀ id c e x, s.net.mgr.conns id = some c → c.type = .kConnectTo →
    s.connMap c.uid = some e → e.returnPacket = some x → handled x = []
  once : ∀ x, (handled x).length ≤ 1

theorem once_init (cfg : Config) : Once (State.init cfg) fun _ => [] where
  distinct := ConnectionManager.init_distinct cfg.vector
  conn_lt id c hc := by cases hc
  unique uid uid' e e' x he := by cases he
  waiting _ id c e x hc := by cases hc
  once x := Nat.zero_le _

theorem Once.stays {s : State} {net : NetState} {handled : CtxId → List Bytes}
    (h : Once s handled) (hstays : Stays s.net net) : Once { s with net } handled where
  distinct := hstays.distinct h.distinct
  conn_lt := by
    intro id d hd
    obtain ⟨c, hc, -⟩ := hstays.conns id d hd
    show id < net.nextConn
    rw [hstays.nextConn]
    exact h.conn_lt id c hc
  unique := h.unique
  waiting := by
    intro hrunning id d e x hd htype he hx
    obtain ⟨c, hc, huid, hctype⟩ := hstays.conns id d hd
    exact h.waiting hrunning id c e x hc (hctype.symm.trans htype) (huid ▸ he) hx
  once := h.once

theorem conn_lt_of_added {s t : NetState} {id : ConnId} {c : ConnectionProfile}
    (h : State.Added s t id c) (hlt : ∀ id' d, s.mgr.conns id' = some d → id' < s.nextConn) :
    ∀ id' d, t.mgr.conns id' = some d → id' < t.nextConn := by
  intro id' d hd
  rw [h.nextConn]
  rw [h.conns] at hd
  by_cases hid : id' = id
  · rw [hid, h.new]
    exact Nat.lt_succ_self _
  · rw [Function.update_of_ne hid] at hd
    exact Nat.lt_succ_of_lt (hlt id' d hd)

/-- A connection from a client. -/
theorem Once.accepted {s : State} {net : NetState} {handled : CtxId → List Bytes} {id : ConnId}
    {c : ConnectionProfile} (h : Once s handled) (hadded : State.Added s.net net id c)
    (htype : c.type = .kAcceptFrom) : Once { s with net } handled where
  distinct := hadded.distinct
  conn_lt := conn_lt_of_added hadded h.conn_lt
  unique := h.unique
  waiting := by
    intro hrunning id' d e x hd hdtype he hx
    have hold := hadded.old_of_connectTo htype hd hdtype
    exact h.waiting hrunning id' d e x hold hdtype he hx
  once := h.once

/-- **A connection to a web server**, with an entry of its own. -/
theorem Once.connected {s : State} {net : NetState} {handled : CtxId → List Bytes} {id : ConnId}
    {c : ConnectionProfile} {e : Entry} (h : Once s handled)
    (hadded : State.Added s.net net id c)
    (hnew : ∀ x, e.returnPacket = some x → handled x = [] ∧
      ∀ uid e', s.connMap uid = some e' → e'.returnPacket ≠ some x)
    (opened : ConnId → Option Opened) :
    Once { s with net, connMap := Function.update s.connMap c.uid (some e), opened }
      handled where
  distinct := hadded.distinct
  conn_lt := conn_lt_of_added hadded h.conn_lt
  unique := by
    intro uid uid' e₁ e₂ x he he' hx hx'
    replace he : Function.update s.connMap c.uid (some e) uid = some e₁ := he
    replace he' : Function.update s.connMap c.uid (some e) uid' = some e₂ := he'
    by_cases huid : uid = c.uid
    · rw [huid, Function.update_self] at he
      cases he
      by_cases huid' : uid' = c.uid
      · rw [huid, huid']
      · rw [Function.update_of_ne huid'] at he'
        exact absurd hx' ((hnew x hx).2 uid' e₂ he')
    · rw [Function.update_of_ne huid] at he
      by_cases huid' : uid' = c.uid
      · rw [huid', Function.update_self] at he'
        cases he'
        exact absurd hx ((hnew x hx').2 uid e₁ he)
      · rw [Function.update_of_ne huid'] at he'
        exact h.unique uid uid' e₁ e₂ x he he' hx hx'
  waiting := by
    intro hrunning id' d e' x hd htype he hx
    replace hd : net.mgr.conns id' = some d := hd
    replace he : Function.update s.connMap c.uid (some e) d.uid = some e' := he
    rw [hadded.conns] at hd
    by_cases hid : id' = id
    · rw [hid, Function.update_self] at hd
      cases hd
      rw [Function.update_self] at he
      cases he
      exact (hnew x hx).1
    · rw [Function.update_of_ne hid] at hd
      rw [Function.update_of_ne (hadded.uid id' d hd)] at he
      exact h.waiting hrunning id' d e' x hd htype he hx
  once := h.once

/-! ## Requests and responses -/

theorem once_forwardTo {cfg : Config} {s t : State} {net : NetState} {id : ConnId}
    {handled : CtxId → List Bytes} {ctx : RecvContext} {c : ConnectionProfile} {w : WriteOutcome}
    (h : Once s handled)
    (hnew : ∀ x ∈ ctx.returnPacket, handled x = [] ∧
      ∀ uid e, s.connMap uid = some e → e.returnPacket ≠ some x)
    (hfits : s.net.mgr.FitsUid cfg.vector)
    (hadd : s.net.addConnection cfg.vector c = some (net, id))
    (hstep : forwardTo ctx id w { s with net } = some t) : Once t handled := by
  obtain ⟨uid, hadded⟩ := added_of_addConnection h.conn_lt h.distinct hfits hadd
  unfold forwardTo at hstep
  split at hstep
  · rename_i d client httpPacket hd _
    obtain ⟨⟨net', done⟩, hsend, rfl⟩ := Option.map_eq_some_iff.1 hstep
    have hconn : d = { c with uid } := by
      replace hd : net.mgr.conns id = some d := hd
      rw [hadded.conns, Function.update_self] at hd
      exact (Option.some.inj hd).symm
    have hconnected := h.connected (e := ⟨ctx.tcpConnectionUid, ctx.returnPacket⟩) hadded hnew
      (Function.update s.opened id (some ⟨ctx.conn, ⟨ctx.tcpConnectionUid, ctx.returnPacket⟩⟩))
    subst hconn
    apply hconnected.stays
    refine (Stays.trans ?_ (Stays.allocCtx _ _)).trans (Stays.direct hsend)
    exact Stays.of_keeps (Keeps.setConn hd rfl rfl)
  · cases hstep

theorem once_handleHttpRequest {cfg : Config} {s t : State} {handled : CtxId → List Bytes}
    {ctx : RecvContext} {forward : Forward} {w : WriteOutcome} (h : Once s handled)
    (hnew : ∀ x ∈ ctx.returnPacket, handled x = [] ∧
      ∀ uid e, s.connMap uid = some e → e.returnPacket ≠ some x)
    (hfits : ∀ fd ip port, forward = .connected fd ip port → s.net.mgr.FitsUid cfg.vector)
    (hstep : s.handleHttpRequest cfg ctx forward w = some t) : Once t handled := by
  unfold handleHttpRequest at hstep
  split at hstep
  · cases hstep
  · obtain ⟨net, hdel, rfl⟩ := Option.map_eq_some_iff.1 hstep
    exact h.stays (Stays.of_keeps (Keeps.delConnection hdel))
  · split at hstep
    · unfold handleForwardFailed at hstep
      split at hstep
      · cases hstep
      · split at hstep
        · cases hstep
        · obtain ⟨⟨net, done⟩, hsend, rfl⟩ := Option.map_eq_some_iff.1 hstep
          exact h.stays ((Stays.setBuffer _ _ _ s.net).trans (Stays.direct hsend))
    · cases hstep
    · rename_i fd ip port
      split at hstep
      · cases hstep
      · rename_i net id hmake
        exact once_forwardTo h hnew (hfits fd ip port rfl) hmake hstep

/-- The end of `HandleHttpResponse`. -/
theorem finish_leaves {s : State} (hs : s.net.mgr.Distinct) (uid : Nat) (r : Routed) :
    Stays s.net (s.finish uid r).net ∧ ((s.finish uid r).aborted = true ∨
      ∀ id d, (s.finish uid r).net.mgr.conns id = some d → d.uid ≠ uid) := by
  unfold State.finish
  split
  · exact ⟨Stays.of_mgr rfl rfl, Or.inl rfl⟩
  · rename_i net hdel
    exact ⟨Stays.of_keeps (Keeps.delConnection hdel), Or.inr (delConnection_uid hs hdel)⟩

/-- **The connection of a response** does not stay. -/
theorem handleHttpResponse_leaves {s t : State} {ctx : RecvContext} {w : WriteOutcome}
    (hs : s.net.mgr.Distinct) (h : s.handleHttpResponse ctx w = some t) :
    Stays s.net t.net ∧ (t.aborted = true ∨
      ∀ id d, t.net.mgr.conns id = some d → d.uid ≠ ctx.tcpConnectionUid) := by
  unfold handleHttpResponse at h
  dsimp only at h
  split at h
  · cases h
    exact ⟨Stays.of_mgr rfl rfl, Or.inl rfl⟩
  · cases h
    exact finish_leaves
      (s := { s with connMap := Function.update s.connMap ctx.tcpConnectionUid _ }) hs _ _
  · split at h
    · rename_i x webserver httpPacket _ _
      split at h
      · cases h
        exact ⟨Stays.of_mgr rfl rfl, Or.inl rfl⟩
      · rename_i k _
        obtain ⟨⟨net, done⟩, hsend, rfl⟩ := Option.map_eq_some_iff.1 h
        have hsent : Stays s.net (if done then net else deepCopyRest x httpPacket net) := by
          have hdirect : Stays s.net net := (Stays.setBuffer _ _ _ s.net).trans (Stays.direct hsend)
          split
          · exact hdirect
          · exact hdirect.trans (Stays.deepCopyRest x httpPacket net)
        refine (finish_leaves
          (s := { s with
                  net := if done then net else deepCopyRest x httpPacket net
                  connMap := Function.update s.connMap ctx.tcpConnectionUid _ })
          (hsent.distinct hs) _ _).imp_left hsent.trans
    · cases h
      exact ⟨Stays.of_mgr rfl rfl, Or.inl rfl⟩

/-- **A response** uses up the entry of its connection. -/
theorem once_handleHttpResponse {s t : State} {handled : CtxId → List Bytes} {ctx : RecvContext}
    {c : ConnectionProfile} {w : WriteOutcome} (h : Once s handled) (hrunning : s.aborted = false)
    (hc : s.net.mgr.conns ctx.conn = some c) (htype : c.type = .kConnectTo)
    (huid : ctx.tcpConnectionUid = c.uid) (hstep : s.handleHttpResponse ctx w = some t) :
    Once t fun x => handled x ++ inCall (relayCall ctx s) x := by
  obtain ⟨hstays, hleaves⟩ := handleHttpResponse_leaves h.distinct hstep
  obtain ⟨hmap, hcall⟩ := handleHttpResponse_cases hstep
  -- what is in the call was found under the uid of the connection
  have hincall : ∀ x, inCall (relayCall ctx s) x = [] ∨
      (inCall (relayCall ctx s) x).length = 1 ∧
        ∃ e, s.connMap ctx.tcpConnectionUid = some e ∧ e.returnPacket = some x := by
    intro x
    rcases hcall with hnot | ⟨y, webserver, httpPacket, k, net, done, hcalls⟩
    · rw [hnot.call]
      exact Or.inl rfl
    · rw [hcalls.call]
      by_cases hy : y = x
      · subst hy
        right
        refine ⟨?_, hcalls.entry⟩
        simp [inCall]
      · left
        exact if_neg hy
  refine ⟨hstays.distinct h.distinct, ?_, ?_, ?_, ?_⟩
  · intro id d hd
    obtain ⟨d', hd', -⟩ := hstays.conns id d hd
    rw [hstays.nextConn]
    exact h.conn_lt id d' hd'
  · intro uid uid' e e' x he he' hx hx'
    exact h.unique uid uid' e e' x (hmap.of_returnPacket he hx) (hmap.of_returnPacket he' hx') hx
      hx'
  · intro hrunning' id d e x hd hdtype he hx
    have hne : d.uid ≠ ctx.tcpConnectionUid := by
      rcases hleaves with haborted | hleaves
      · rw [hrunning'] at haborted
        cases haborted
      · exact hleaves id d hd
    obtain ⟨d', hd', hduid, hdtype'⟩ := hstays.conns id d hd
    have hold := hmap.of_returnPacket he hx
    have hhandled := h.waiting hrunning id d' e x hd' (hdtype'.symm.trans hdtype) (hduid ▸ hold) hx
    show handled x ++ _ = []
    rw [hhandled, List.nil_append]
    rcases hincall x with hnil | ⟨-, e', he', hx'⟩
    · exact hnil
    · exact absurd (h.unique d.uid ctx.tcpConnectionUid e e' x hold he' hx hx') hne
  · intro x
    show (handled x ++ inCall (relayCall ctx s) x).length ≤ 1
    rcases hincall x with hnil | ⟨hlength, e, he, hx⟩
    · rw [hnil, List.append_nil]
      exact h.once x
    · rw [h.waiting hrunning ctx.conn c e x hc htype (huid ▸ he) hx, List.nil_append]
      exact Nat.le_of_eq hlength

/-! ## Steps -/

/-- A read event, and the connection of what it passes on. -/
theorem stays_onReadEvent {s net : NetState} {id : ConnId} {outs : List ReadOutcome}
    {stop : ConnectionProfile.ReadEnd}
    (h : s.onReadEvent upgradeApplicationProtocol id outs = some (net, stop)) :
    Stays s net ∧ ∀ ctx, stop = .dispatched ctx → ∃ d, net.mgr = s.mgr.update id d ∧
      ctx.conn = id ∧ ctx.type = d.type ∧ ctx.tcpConnectionUid = d.uid := by
  obtain ⟨c, hc⟩ := NetState.exists_conn_of_onReadEvent h
  have hset : ∀ d : ConnectionProfile, d.uid = c.uid → d.type = c.type →
      Stays s (s.setConn id d) :=
    fun d huid htype => Stays.of_keeps (Keeps.setConn hc huid htype)
  cases NetState.onReadEvent_cases hc h with
  | deleted r t hr hdel =>
      obtain ⟨huid, htype, -⟩ := ConnectionProfile.receive_kept hr
      refine ⟨(hset _ huid htype).trans (Stays.of_keeps (Keeps.delConnection hdel)), ?_⟩
      intro ctx hstop
      cases hstop
  | idle r hr =>
      obtain ⟨huid, htype, -⟩ := ConnectionProfile.receive_kept hr
      refine ⟨hset _ huid htype, ?_⟩
      intro ctx hstop
      cases hstop
  | crashed r hr =>
      obtain ⟨huid, htype, -⟩ := ConnectionProfile.receive_kept hr
      refine ⟨hset _ huid htype, ?_⟩
      intro ctx hstop
      cases hstop
  | dispatched r p hr hp =>
      obtain ⟨huid, htype, -⟩ := ConnectionProfile.receive_kept hr
      rcases dispatch_cases id s.nextCtx hp with
        ⟨_, _, _, _, _, -, hdispatch⟩ | ⟨_, _, _, _, _, hdispatch⟩
      · rw [hdispatch]
        refine ⟨Stays.trans ?_ (Stays.allocCtx _ _), ?_⟩
        · exact hset _ huid htype
        · intro ctx hstop
          cases hstop
          exact ⟨_, rfl, rfl, rfl, rfl⟩
      · rw [hdispatch]
        refine ⟨Stays.trans ?_ (Stays.allocCtx _ _), ?_⟩
        · exact hset _ huid htype
        · intro ctx hstop
          cases hstop
          exact ⟨_, rfl, rfl, rfl, rfl⟩

/-- A connection that is opened gets a uid of its own: the pool stays within
the range of a uid. -/
def UidsFit (cfg : Config) (r : Relay) : Event → Prop
  | .accept _ _ _ => r.state.net.mgr.FitsUid cfg.vector
  | .readEvent _ _ (.connected _ _ _) _ => r.state.net.mgr.FitsUid cfg.vector
  | _ => True

instance (cfg : Config) (r : Relay) : ∀ e, Decidable (UidsFit cfg r e)
  | .accept _ _ _ => inferInstanceAs (Decidable (r.state.net.mgr.FitsUid cfg.vector))
  | .readEvent _ _ (.connected _ _ _) _ =>
      inferInstanceAs (Decidable (r.state.net.mgr.FitsUid cfg.vector))
  | .readEvent _ _ .noServer _ => isTrue trivial
  | .readEvent _ _ .connectFailed _ => isTrue trivial
  | .writeEvent _ _ => isTrue trivial
  | .errEvent _ => isTrue trivial
  | .clearTimeout => isTrue trivial
  | .tick _ => isTrue trivial

/-- The entries of `conn_map_` lead to contexts that have been made. -/
theorem Relaying.map_lt {r : Relay} (h : r.Relaying) {uid : Nat} {e : Entry} {x : CtxId}
    (he : r.state.connMap uid = some e) (hx : e.returnPacket = some x) :
    x < r.state.net.nextCtx := by
  by_cases hhandled : r.handled x = []
  · exact lt_of_unused h.known (h.mapped uid e x he hx hhandled)
  · exact h.handled_lt x hhandled

theorem once_readEvent {cfg : Config} {r : Relay} {t : State} {id : ConnId}
    {outs : List ReadOutcome} {forward : Forward} {w : WriteOutcome} (hr : r.Relaying)
    (h : Once r.state r.handled) (hrunning : r.state.aborted = false)
    (hfits : UidsFit cfg r (.readEvent id outs forward w))
    (hstep : r.state.onReadEvent cfg id outs forward w = some t) :
    Once t fun x => r.handled x ++ inCall (callOf r.state (.readEvent id outs forward w)) x := by
  unfold State.onReadEvent at hstep
  unfold callOf
  dsimp only
  split at hstep
  · rename_i net ctx hread
    obtain ⟨hstays, hpassed⟩ := stays_onReadEvent hread
    obtain ⟨d, hmgr, hconn, htype, huid⟩ := hpassed ctx rfl
    have hnet : Once { r.state with net } r.handled := h.stays hstays
    simp only [hread]
    unfold handleApplicationPacket at hstep
    split at hstep
    · rename_i hprotocol
      split at hstep
      · rename_i haccept
        rw [if_neg (by rw [haccept]; simp)]
        simp only [inCall, List.append_nil]
        apply once_handleHttpRequest hnet ?_ ?_ hstep
        · intro x hx
          obtain ⟨hnew, -⟩ := returnPacket_new hread x hx
          constructor
          · by_contra hhandled
            exact Nat.ne_of_lt (hr.handled_lt x hhandled) hnew
          · intro uid e he hx'
            exact Nat.ne_of_lt (hr.map_lt he hx') hnew
        · intro fd ip port heq
          rw [heq] at hfits
          show net.mgr.FitsUid cfg.vector
          rw [hmgr]
          exact hfits
      · rename_i hconnect
        rw [if_pos ⟨hprotocol, hconnect⟩]
        apply once_handleHttpResponse hnet hrunning ?_ (htype.symm.trans hconnect) huid hstep
        show net.mgr.conns ctx.conn = some d
        rw [hmgr, hconn]
        exact Function.update_self _ _ _
    · rename_i hprotocol
      rw [if_neg (by rw [hprotocol]; simp)]
      cases hstep
      simp only [inCall, List.append_nil]
      exact hnet
    · rename_i hprotocol _
      rw [if_neg (fun hboth => hprotocol hboth.1)]
      obtain ⟨net', hdel, rfl⟩ := Option.map_eq_some_iff.1 hstep
      simp only [inCall, List.append_nil]
      exact hnet.stays (Stays.of_keeps (Keeps.delConnection hdel))
  · rename_i net hread
    cases hstep
    simp only [hread, inCall, List.append_nil]
    exact h.stays (stays_onReadEvent hread).1
  · rename_i net hread
    cases hstep
    simp only [hread, inCall, List.append_nil]
    exact h.stays (stays_onReadEvent hread).1
  · cases hstep
  · cases hstep

/-- **Every event** leaves at most one response for a return packet. -/
theorem once_step {cfg : Config} {r r' : Relay} {e : Event} (hr : r.Relaying)
    (h : Once r.state r.handled) (hfits : UidsFit cfg r e) (hstep : step cfg r e = some r') :
    Once r'.state r'.handled := by
  obtain ⟨t, ht, rfl⟩ := Option.map_eq_some_iff.1 hstep
  unfold State.step at ht
  split at ht
  · cases ht
  · rename_i hrunning
    cases e with
    | accept fd ip port =>
        obtain ⟨net, hregister, rfl⟩ := Option.map_eq_some_iff.1 ht
        simp only [callOf, inCall, List.append_nil]
        unfold registerConnection at hregister
        split at hregister
        · cases hregister
          exact h
        · obtain ⟨⟨net', id⟩, hadd, rfl⟩ := Option.map_eq_some_iff.1 hregister
          obtain ⟨uid, hadded⟩ := added_of_addConnection h.conn_lt h.distinct hfits hadd
          exact h.accepted hadded rfl
    | readEvent id outs forward w =>
        exact once_readEvent hr h (Bool.eq_false_iff.2 hrunning) hfits ht
    | writeEvent id ws =>
        obtain ⟨net, hsend, rfl⟩ := Option.map_eq_some_iff.1 ht
        simp only [callOf, inCall, List.append_nil]
        exact h.stays (Stays.of_keeps (Keeps.trySendPendingPackets hsend))
    | errEvent id =>
        obtain ⟨net, herr, rfl⟩ := Option.map_eq_some_iff.1 ht
        simp only [callOf, inCall, List.append_nil]
        unfold onErrEvent at herr
        split at herr
        · cases herr
        · exact h.stays (Stays.of_keeps (Keeps.delConnection herr))
    | clearTimeout =>
        cases ht
        simp only [callOf, inCall, List.append_nil]
        exact h.stays (Stays.of_keeps (Keeps.clearTimeout r.state.net h.distinct))
    | tick ms =>
        cases ht
        simp only [callOf, inCall, List.append_nil]
        exact h.stays (Stays.of_mgr rfl rfl)

/-! ## Whole runs -/

/-- **Every response is relayed completely**: in every state of every run, the
bytes written for a return packet are a prefix of the one response that it is
for.  A return packet is for one response, as long as the uids fit. -/
theorem relaysCompletely (cfg : Config) (events : List Event) :
    (∀ r ∈ trace (step cfg) (init cfg) events, r.RelaysCompletely) ∧
      (Along (step cfg) (UidsFit cfg) (init cfg) events →
        ∀ r ∈ trace (step cfg) (init cfg) events, ∀ x, (r.handled x).length ≤ 1) := by
  constructor
  · intro r hr
    have hinv : r.Relaying := trace_invariant_of_forall (fun _ _ _ hs hstep =>
      relaying_step hs hstep) (relaying_init cfg) r hr
    exact hinv.completely
  · intro hfits r hr
    have hstep : ∀ s e t, (Relaying s ∧ Once s.state s.handled) → UidsFit cfg s e →
        step cfg s e = some t → Relaying t ∧ Once t.state t.handled := by
      intro s e t hs he hst
      exact ⟨relaying_step hs.1 hst, once_step hs.1 hs.2 he hst⟩
    have hinv := trace_invariant hstep ⟨relaying_init cfg, once_init cfg⟩ hfits r hr
    exact hinv.2.once

/-- A response of 46 bytes, of which the first write takes 10, the next one
nothing, and two more the rest. -/
def shortWrites : List Event :=
  [.accept 7 (lit "10.0.0.1") 4000, State.request 0,
    .readEvent 1 [State.okResponse] .noServer (.wrote 10),
    .writeEvent 0 [.eagain], .writeEvent 0 [.wrote 20], .writeEvent 0 [.wrote 16]]

theorem relaysCompletely_shortWrites :
    (∃ r ∈ run (step sampleConfig) (init sampleConfig) shortWrites,
      r.effects.map (fun e => (e.ctx, (e.bytesFor 0).length)) =
        [(0, 10), (0, 0), (0, 20), (0, 16), (0, 0)] ∧
      r.handled 0 = [written 0 r.effects] ∧ .sendDone 0 ∈ r.effects) ∧
      (∀ r ∈ trace (step sampleConfig) (init sampleConfig) shortWrites, r.RelaysCompletely) ∧
      ∀ r ∈ trace (step sampleConfig) (init sampleConfig) shortWrites,
        ∀ x, (r.handled x).length ≤ 1 := by
  refine ⟨by decide +kernel, (relaysCompletely sampleConfig shortWrites).1, ?_⟩
  exact (relaysCompletely sampleConfig shortWrites).2 (by decide +kernel)

end Relay

end Unixtar.ReverseProxy
