import Unixtar.ReverseProxy.ProxyServer

/-!
# Responses go to the client that asked

`HandleHttpResponse` erases `conn_map_` at the client's uid where it means
the web server's.  As long as the client is connected, or nobody has its
slot, the entry there is not in use.  But a connection to another web server
may have got the slot, and then its entry is gone.

## Main results

* `Table` — what `conn_map_` says about the live connections to web servers.
* `table_forwardTo`, `table_handleHttpResponse` — the two handlers.
* `routesRight_of_harmless` — whole runs.
-/

namespace Unixtar.ReverseProxy

open Unixtar.Lib NetState

/-! ## The property and the condition -/

/-- `HandleHttpResponse` has found the entry that was written when the
connection was opened.  It has sent the return packet to the client whose
request was forwarded, if that was live, and nothing otherwise. -/
def RoutedRight (opened : ConnId → Option Opened) (r : Routed) : Prop :=
  ∃ o, opened r.webserver = some o ∧ r.found = o.entry ∧
    (r.clientLive = true → ∃ x ∈ o.entry.returnPacket, r.answer = .sent x o.client) ∧
    (r.clientLive = false → r.answer = .clientGone ∨ r.answer = .skipped)

/-- No assertion has failed, and each response has been routed right. -/
structure RoutesRight (s : State) : Prop where
  running : s.aborted = false
  routed : ∀ r ∈ s.responses, RoutedRight s.opened r

/-- The packet that a read event passes on. -/
def recvContext : ConnectionProfile.ReadEnd → Option RecvContext
  | .dispatched ctx => some ctx
  | _ => none

/-- None of the contexts that the connection still lists has its next
number. -/
def NumberFree (net : NetState) (id : ConnId) : Prop :=
  ∀ c ∈ net.mgr.conns id, ∀ y ∈ c.sendContexts, ∀ k ∈ net.ctxs y,
    k.seq ≠ (c.sendCtxSeq + 1) % 2 ^ 32

instance (net : NetState) (id : ConnId) : Decidable (NumberFree net id) :=
  inferInstanceAs (Decidable (∀ c ∈ net.mgr.conns id, ∀ y ∈ c.sendContexts, ∀ k ∈ net.ctxs y,
    k.seq ≠ (c.sendCtxSeq + 1) % 2 ^ 32))

/-- No connection to a web server is stored under this uid. -/
def NoWebServer (net : NetState) (uid : Nat) : Prop :=
  ∀ slot ∈ net.mgr.getConnection uid, ∀ id ∈ slot, ∀ c ∈ net.mgr.conns id,
    c.type = .kAcceptFrom

instance (net : NetState) (uid : Nat) : Decidable (NoWebServer net uid) :=
  inferInstanceAs (Decidable (∀ slot ∈ net.mgr.getConnection uid, ∀ id ∈ slot,
    ∀ c ∈ net.mgr.conns id, c.type = .kAcceptFrom))

namespace State

/-- A read event that completes a response finds no connection to a web
server under the uid of the recorded client. -/
def ClientSlot (s : State) (id : ConnId) (outs : List ReadOutcome) : Prop :=
  ∀ ev ∈ s.net.onReadEvent upgradeApplicationProtocol id outs, ∀ ctx ∈ recvContext ev.2,
    ctx.type = .kConnectTo → NoWebServer s.net (s.lookup ctx.tcpConnectionUid).clientUid

instance (s : State) (id : ConnId) (outs : List ReadOutcome) : Decidable (ClientSlot s id outs) :=
  inferInstanceAs (Decidable (∀ ev ∈ s.net.onReadEvent upgradeApplicationProtocol id outs,
    ∀ ctx ∈ recvContext ev.2, ctx.type = .kConnectTo →
      NoWebServer s.net (s.lookup ctx.tcpConnectionUid).clientUid))

/-- The condition on a step. -/
def Harmless (cfg : Config) (s : State) : Event → Prop
  | .accept _ _ _ => s.net.mgr.FitsUid cfg.vector
  | .readEvent id outs (.connected _ _ _) _ =>
      s.net.mgr.FitsUid cfg.vector ∧ NumberFree s.net id ∧ s.ClientSlot id outs
  | .readEvent id outs _ _ => NumberFree s.net id ∧ s.ClientSlot id outs
  | _ => True

instance (cfg : Config) (s : State) : ∀ e, Decidable (Harmless cfg s e)
  | .accept _ _ _ => inferInstanceAs (Decidable (s.net.mgr.FitsUid cfg.vector))
  | .readEvent id outs (.connected _ _ _) _ =>
      inferInstanceAs (Decidable (s.net.mgr.FitsUid cfg.vector ∧ NumberFree s.net id ∧
        s.ClientSlot id outs))
  | .readEvent id outs .noServer _ =>
      inferInstanceAs (Decidable (NumberFree s.net id ∧ s.ClientSlot id outs))
  | .readEvent id outs .connectFailed _ =>
      inferInstanceAs (Decidable (NumberFree s.net id ∧ s.ClientSlot id outs))
  | .writeEvent _ _ => isTrue trivial
  | .errEvent _ => isTrue trivial
  | .clearTimeout => isTrue trivial
  | .tick _ => isTrue trivial

/-! ## The invariant -/

/-- The clients' side of an entry. -/
structure Client (net : NetState) (o : Opened) : Prop where
  lt : o.client < net.nextConn
  pos : 0 < o.entry.clientUid
  inside : o.entry.clientUid < net.mgr.pool.length
  uid : ∀ d, net.mgr.conns o.client = some d → d.uid = o.entry.clientUid
  packet : ∃ x k, o.entry.returnPacket = some x ∧ net.ctxs x = some k ∧ k.owner = o.client

/-- Every live connection to a web server has its entry in `conn_map_`, and
the return packets in the entries are held. -/
structure Table (s : State) (held : List CtxId) : Prop where
  sound : s.net.Sound held
  distinct : s.net.mgr.Distinct
  mapped : ∀ id c, s.net.mgr.conns id = some c → c.type = .kConnectTo →
    ∃ o, s.opened id = some o ∧ s.connMap c.uid = some o.entry
  opened_lt : ∀ id o, s.opened id = some o → id < s.net.nextConn
  client : ∀ id o, s.opened id = some o → Client s.net o
  unique : ∀ id id' o o' x, s.opened id = some o → s.opened id' = some o' →
    o.entry.returnPacket = some x → o'.entry.returnPacket = some x → id = id'
  holds : ∀ id o x, s.net.isLive id = true → s.opened id = some o →
    o.entry.returnPacket = some x → x ∈ held

theorem table_init (cfg : Config) : Table (init cfg) [] where
  sound := sound_init cfg.vector
  distinct := ConnectionManager.init_distinct cfg.vector
  mapped id c hc := by cases hc
  opened_lt id o ho := by cases ho
  client id o ho := by cases ho
  unique id id' o o' x ho := by cases ho
  holds id o x _ ho := by cases ho

theorem Client.keeps {s t : NetState} {o : Opened} (h : Client s o) (hkeeps : s.Keeps t) :
    Client t o where
  lt := by
    rw [hkeeps.nextConn]
    exact h.lt
  pos := h.pos
  inside := by
    rw [hkeeps.length]
    exact h.inside
  uid := by
    intro d hd
    obtain ⟨c, hc, huid, -⟩ := hkeeps.conns _ d hd
    exact huid.trans (h.uid c hc)
  packet := by
    obtain ⟨x, k, hx, hk, howner⟩ := h.packet
    obtain ⟨l, hl, hlk⟩ := hkeeps.owners x k hk
    exact ⟨x, l, hx, hl, hlk.trans howner⟩

/-- The network thread goes on without a new connection. -/
theorem Table.ofKeeps {s : State} {net : NetState} {held held' : List CtxId} (h : Table s held)
    (hkeeps : s.net.Keeps net) (hsound : net.Sound held')
    (hheld : ∀ id o x, net.isLive id = true → s.opened id = some o →
      o.entry.returnPacket = some x → x ∈ held → x ∈ held') :
    Table { s with net } held' where
  sound := hsound
  distinct := hkeeps.distinct h.distinct
  mapped := by
    intro id d hd htype
    obtain ⟨c, hc, huid, hctype⟩ := hkeeps.conns id d hd
    obtain ⟨o, ho, hentry⟩ := h.mapped id c hc (hctype.symm.trans htype)
    exact ⟨o, ho, by rw [huid]; exact hentry⟩
  opened_lt := by
    intro id o ho
    show id < net.nextConn
    rw [hkeeps.nextConn]
    exact h.opened_lt id o ho
  client id o ho := (h.client id o ho).keeps hkeeps
  unique := h.unique
  holds := by
    intro id o x hlive ho hx
    exact hheld id o x hlive ho hx (h.holds id o x (hkeeps.isLive hlive) ho hx)

/-- Nothing stops being held. -/
theorem Table.ofKeepsHeld {s : State} {net : NetState} {held held' : List CtxId}
    (h : Table s held) (hkeeps : s.net.Keeps net) (hsound : net.Sound held')
    (hheld : ∀ x ∈ held, x ∈ held') : Table { s with net } held' :=
  h.ofKeeps hkeeps hsound fun _ _ x _ _ _ hx => hheld x hx

/-- `conn_map_` changes where no connection to a web server looks. -/
theorem Table.setMap {s : State} {connMap : Nat → Option Entry} {held : List CtxId}
    (h : Table s held)
    (hmap : ∀ id c, s.net.mgr.conns id = some c → c.type = .kConnectTo →
      connMap c.uid = s.connMap c.uid) : Table { s with connMap } held where
  sound := h.sound
  distinct := h.distinct
  mapped := by
    intro id c hc htype
    obtain ⟨o, ho, hentry⟩ := h.mapped id c hc htype
    exact ⟨o, ho, (hmap id c hc htype).trans hentry⟩
  opened_lt := h.opened_lt
  client := h.client
  unique := h.unique
  holds := h.holds

/-! ## New connections -/

/-- What an `AddConnection` does to the network thread. -/
structure Added (s t : NetState) (id : ConnId) (c : ConnectionProfile) : Prop where
  distinct : t.mgr.Distinct
  length : s.mgr.pool.length ≤ t.mgr.pool.length
  ctxs : t.ctxs = s.ctxs
  nextConn : t.nextConn = s.nextConn + 1
  new : id = s.nextConn
  conns : t.mgr.conns = Function.update s.mgr.conns id (some c)
  uid : ∀ id' c', s.mgr.conns id' = some c' → c'.uid ≠ c.uid

theorem Added.conns_of_ne {s t : NetState} {id id' : ConnId} {c : ConnectionProfile}
    (h : Added s t id c) (hid : id' < s.nextConn) : t.mgr.conns id' = s.mgr.conns id' := by
  rw [h.conns, h.new, Function.update_of_ne (Nat.ne_of_lt hid)]

/-- When a client is accepted, the connections to web servers are the old ones. -/
theorem Added.old_of_connectTo {s t : NetState} {id id' : ConnId} {c d : ConnectionProfile}
    (h : Added s t id c) (htype : c.type = .kAcceptFrom) (hd : t.mgr.conns id' = some d)
    (hdtype : d.type = .kConnectTo) : s.mgr.conns id' = some d := by
  rw [h.conns] at hd
  by_cases hid : id' = id
  · rw [hid, Function.update_self] at hd
    cases hd
    rw [htype] at hdtype
    cases hdtype
  · rw [Function.update_of_ne hid] at hd
    exact hd

theorem added_of_addConnection {v : VectorImpl} {s t : NetState} {c : ConnectionProfile}
    {id : ConnId} (hlt : ∀ id' d, s.mgr.conns id' = some d → id' < s.nextConn)
    (hdistinct : s.mgr.Distinct) (hfits : s.mgr.FitsUid v)
    (hadd : s.addConnection v c = some (t, id)) :
    ∃ uid, Added s t id { c with uid } := by
  obtain ⟨mgr, hmgr, heq⟩ := Option.map_eq_some_iff.1 hadd
  cases heq
  have hnew : s.mgr.conns s.nextConn = none := by
    cases hd : s.mgr.conns s.nextConn with
    | none => rfl
    | some d => exact absurd (hlt _ d hd) (Nat.lt_irrefl _)
  obtain ⟨hmgr', hlength, uid, hconns, hother⟩ :=
    ConnectionManager.addConnection_distinct hdistinct hfits hnew hmgr
  exact ⟨uid, hmgr', hlength, rfl, rfl, rfl, hconns, hother⟩

theorem Client.added {s t : NetState} {id : ConnId} {c : ConnectionProfile} {o : Opened}
    (h : Client s o) (hadded : Added s t id c) : Client t o where
  lt := by
    rw [hadded.nextConn]
    exact Nat.lt_succ_of_lt h.lt
  pos := h.pos
  inside := Nat.lt_of_lt_of_le h.inside hadded.length
  uid := by
    intro d hd
    rw [hadded.conns_of_ne h.lt] at hd
    exact h.uid d hd
  packet := by
    rw [hadded.ctxs]
    exact h.packet

theorem isLive_added {s t : NetState} {id id' : ConnId} {c : ConnectionProfile}
    (hadded : Added s t id c) (hid : id' < s.nextConn) : t.isLive id' = s.isLive id' := by
  unfold isLive
  rw [hadded.conns_of_ne hid]

/-- A connection from a client. -/
theorem Table.accepted {s : State} {net : NetState} {held : List CtxId} {id : ConnId}
    {c : ConnectionProfile} (h : Table s held) (hadded : Added s.net net id c)
    (hsound : net.Sound held) (htype : c.type = .kAcceptFrom) : Table { s with net } held where
  sound := hsound
  distinct := hadded.distinct
  mapped := by
    intro id' d hd hdtype
    exact h.mapped id' d (hadded.old_of_connectTo htype hd hdtype) hdtype
  opened_lt := by
    intro id' o ho
    show id' < net.nextConn
    rw [hadded.nextConn]
    exact Nat.lt_succ_of_lt (h.opened_lt id' o ho)
  client id' o ho := (h.client id' o ho).added hadded
  unique := h.unique
  holds := by
    intro id' o x hlive ho hx
    replace hlive : net.isLive id' = true := hlive
    rw [isLive_added hadded (h.opened_lt id' o ho)] at hlive
    exact h.holds id' o x hlive ho hx

/-- **A connection to a web server**, opened for the client of `o`: its entry
is written under a uid that no other connection has. -/
theorem Table.connected {s : State} {net : NetState} {held : List CtxId} {id : ConnId}
    {c : ConnectionProfile} {o : Opened} {x : CtxId} (h : Table s held)
    (hadded : Added s.net net id c) (hsound : net.Sound held) (hclient : Client s.net o)
    (hx : o.entry.returnPacket = some x) (hheld : x ∈ held)
    (hfresh : ∀ id' o', s.opened id' = some o' → o'.entry.returnPacket ≠ some x) :
    Table
      { s with
        net
        connMap := Function.update s.connMap c.uid (some o.entry)
        opened := Function.update s.opened id (some o) } held := by
  have hcases : ∀ id' o', Function.update s.opened id (some o) id' = some o' →
      (id' = id ∧ o' = o) ∨ (id' ≠ id ∧ s.opened id' = some o') := by
    intro id' o' ho'
    by_cases hid : id' = id
    · rw [hid, Function.update_self] at ho'
      cases ho'
      exact Or.inl ⟨hid, rfl⟩
    · rw [Function.update_of_ne hid] at ho'
      exact Or.inr ⟨hid, ho'⟩
  refine ⟨hsound, hadded.distinct, ?_, ?_, ?_, ?_, ?_⟩
  · intro id' d hd hdtype
    replace hd : net.mgr.conns id' = some d := hd
    rw [hadded.conns] at hd
    by_cases hid : id' = id
    · rw [hid, Function.update_self] at hd
      cases hd
      rw [hid]
      exact ⟨o, Function.update_self _ _ _, Function.update_self _ _ _⟩
    · rw [Function.update_of_ne hid] at hd
      obtain ⟨o', ho', hentry⟩ := h.mapped id' d hd hdtype
      refine ⟨o', ?_, ?_⟩
      · show Function.update s.opened id (some o) id' = some o'
        rw [Function.update_of_ne hid]
        exact ho'
      · show Function.update s.connMap c.uid (some o.entry) d.uid = some o'.entry
        rw [Function.update_of_ne (hadded.uid id' d hd)]
        exact hentry
  · intro id' o' ho'
    show id' < net.nextConn
    rw [hadded.nextConn]
    rcases hcases id' o' ho' with ⟨rfl, -⟩ | ⟨-, ho'⟩
    · rw [hadded.new]
      exact Nat.lt_succ_self _
    · exact Nat.lt_succ_of_lt (h.opened_lt id' o' ho')
  · intro id' o' ho'
    rcases hcases id' o' ho' with ⟨-, rfl⟩ | ⟨-, ho'⟩
    · exact hclient.added hadded
    · exact (h.client id' o' ho').added hadded
  · intro id₁ id₂ o₁ o₂ y ho₁ ho₂ hy₁ hy₂
    rcases hcases id₁ o₁ ho₁ with ⟨rfl, rfl⟩ | ⟨-, hold₁⟩
    · rcases hcases id₂ o₂ ho₂ with ⟨rfl, -⟩ | ⟨-, hold₂⟩
      · rfl
      · rw [hx] at hy₁
        cases hy₁
        exact absurd hy₂ (hfresh id₂ o₂ hold₂)
    · rcases hcases id₂ o₂ ho₂ with ⟨rfl, rfl⟩ | ⟨-, hold₂⟩
      · rw [hx] at hy₂
        cases hy₂
        exact absurd hy₁ (hfresh id₁ o₁ hold₁)
      · exact h.unique id₁ id₂ o₁ o₂ y hold₁ hold₂ hy₁ hy₂
  · intro id' o' y hlive ho' hy
    rcases hcases id' o' ho' with ⟨-, rfl⟩ | ⟨-, ho'⟩
    · rw [hx] at hy
      cases hy
      exact hheld
    · replace hlive : net.isLive id' = true := hlive
      rw [isLive_added hadded (h.opened_lt id' o' ho')] at hlive
      exact h.holds id' o' y hlive ho' hy

/-! ## Requests -/

theorem sound_setBuffer {net : NetState} {held : List CtxId} {x : CtxId} {k : SendContext}
    (h : net.Sound held) (hk : net.ctxs x = some k) (b : AutoBuffer) :
    (setBuffer x k b net).Sound held :=
  h.congr (label_updateBuffer hk rfl) rfl rfl rfl h.writes

theorem keeps_setBuffer {net : NetState} {x : CtxId} {k : SendContext}
    (hk : net.ctxs x = some k) (b : AutoBuffer) : net.Keeps (setBuffer x k b net) :=
  Keeps.ofCtxs (KeepsOwners.of_update (l := { k with buffer := b }) hk rfl rfl)

theorem lt_of_mem_held {net : NetState} {held : List CtxId} {x : CtxId} (h : net.Sound held)
    (hx : x ∈ held) : x < net.nextCtx := by
  obtain ⟨k, hk, -⟩ := h.accounted x hx
  exact h.ctx_lt x k hk

/-- A request on its way: its client is live, and its return packet is new. -/
structure Asks (s : State) (held : List CtxId) (ctx : RecvContext) (x : CtxId) : Prop where
  client : ∃ d, s.net.mgr.conns ctx.conn = some d ∧ d.uid = ctx.tcpConnectionUid
  returnPacket : ctx.returnPacket = some x
  owner : ∃ k, s.net.ctxs x = some k ∧ k.owner = ctx.conn
  held : x ∈ held
  fresh : ∀ id o, s.opened id = some o → o.entry.returnPacket ≠ some x

/-- No response is handled from `s` to `t`. -/
structure Silent (s t : State) : Prop where
  responses : t.responses = s.responses
  aborted : t.aborted = s.aborted
  opened : ∀ id o, s.opened id = some o → t.opened id = some o

theorem Silent.refl_net (s : State) (net : NetState) : Silent s { s with net } :=
  ⟨rfl, rfl, fun _ _ ho => ho⟩

theorem table_handleForwardFailed {s t : State} {held : List CtxId} {ctx : RecvContext}
    {x : CtxId} {w : WriteOutcome} (h : Table s held) (hasks : Asks s held ctx x)
    (hstep : s.handleForwardFailed ctx w = some t) : (∃ held', Table t held') ∧ Silent s t := by
  obtain ⟨k, hk, -⟩ := hasks.owner
  unfold handleForwardFailed at hstep
  simp only [hasks.returnPacket, hk] at hstep
  obtain ⟨⟨net, done⟩, hsend, rfl⟩ := Option.map_eq_some_iff.1 hstep
  have hsound := (sound_setBuffer h.sound hk _).trySendAndMarkPendingIfUndone hasks.held hsend
  have hkeeps := (keeps_setBuffer hk _).trans (Keeps.trySendAndMarkPendingIfUndone hsend)
  refine ⟨⟨held.erase x, h.ofKeeps hkeeps hsound ?_⟩, Silent.refl_net s net⟩
  intro id o y _ ho hy hheld
  apply (List.mem_erase_of_ne _).2 hheld
  rintro rfl
  exact hasks.fresh id o ho hy

/-- **The request is forwarded** on a connection that has just been
opened. -/
theorem table_forwardTo {cfg : Config} {s t : State} {net : NetState} {held : List CtxId}
    {ctx : RecvContext} {x : CtxId} {id : ConnId} {fd port : Nat} {ip : Bytes}
    {w : WriteOutcome} (h : Table s held) (hasks : Asks s held ctx x)
    (hfits : s.net.mgr.FitsUid cfg.vector)
    (hmake : s.net.makeConnection cfg.vector configApplicationLayer fd ip port = some (net, id))
    (hstep : forwardTo ctx id w { s with net } = some t) :
    (∃ held', Table t held') ∧ Silent s t := by
  obtain ⟨uid, hadded⟩ := added_of_addConnection h.sound.conn_lt h.distinct hfits hmake
  have hsound : net.Sound held := h.sound.addConnection rfl rfl hmake
  obtain ⟨d, hd, huid⟩ := hasks.client
  have hslot := h.distinct.stored ctx.conn d hd
  rw [huid] at hslot
  have hclient : Client s.net ⟨ctx.conn, ⟨ctx.tcpConnectionUid, ctx.returnPacket⟩⟩ := by
    refine ⟨h.sound.conn_lt _ d hd, h.distinct.used _ _ hslot,
      (List.getElem?_eq_some_iff.1 hslot).1, ?_, ?_⟩
    · intro d' hd'
      rw [hd] at hd'
      cases hd'
      exact huid
    · obtain ⟨k, hk, howner⟩ := hasks.owner
      exact ⟨x, k, hasks.returnPacket, hk, howner⟩
  have htable := h.connected hadded hsound hclient hasks.returnPacket hasks.held hasks.fresh
  generalize hc : ({ configApplicationLayer (.init .kConnectTo fd ip port s.net.now) with
    uid } : ConnectionProfile) = c at hadded htable
  have hid : net.mgr.conns id = some c := by
    rw [hadded.conns, Function.update_self]
  unfold forwardTo at hstep
  simp only [hid] at hstep
  split at hstep
  · rename_i c' client httpPacket hc' _
    cases hc'
    obtain ⟨⟨net', done⟩, hsend, rfl⟩ := Option.map_eq_some_iff.1 hstep
    generalize hk : ({ (c.makeSendContext id net.nextCtx).2 with
      buffer := (c.makeSendContext id net.nextCtx).2.buffer.shallowCopyFrom client httpPacket } :
        SendContext) = k at hsend
    have hnew : ((net.setConn id (c.makeSendContext id net.nextCtx).1).allocCtx (some k)).Sound
        (held ++ [net.nextCtx]) := by
      rw [← hk]
      apply hsound.newContext hid
      · rfl
      · rfl
      · rfl
      · rfl
      · rfl
      · intro y hy
        rw [← hc] at hy
        cases hy
    have hsent := hnew.trySendAndMarkPendingIfUndone (List.mem_append_right _ List.mem_cons_self)
      hsend
    have hkeeps : net.Keeps net' := by
      refine Keeps.trans ?_ (Keeps.trySendAndMarkPendingIfUndone hsend)
      apply Keeps.newContext hsound hid
      · rfl
      · rfl
    refine ⟨⟨_, htable.ofKeepsHeld hkeeps hsent ?_⟩, rfl, rfl, ?_⟩
    · intro y hy
      apply (List.mem_erase_of_ne _).2 (List.mem_append_left _ hy)
      exact Nat.ne_of_lt (lt_of_mem_held hsound hy)
    · intro id' o ho
      show Function.update s.opened id _ id' = some o
      have hlt := h.opened_lt id' o ho
      rw [hadded.new, Function.update_of_ne (Nat.ne_of_lt hlt)]
      exact ho
  · cases hstep

/-- **`HandleHttpRequest`.** -/
theorem table_handleHttpRequest {cfg : Config} {s t : State} {held : List CtxId}
    {ctx : RecvContext} {x : CtxId} {forward : Forward} {w : WriteOutcome} (h : Table s held)
    (hasks : Asks s held ctx x)
    (hfits : ∀ fd ip port, forward = .connected fd ip port → s.net.mgr.FitsUid cfg.vector)
    (hstep : s.handleHttpRequest cfg ctx forward w = some t) :
    (∃ held', Table t held') ∧ Silent s t := by
  unfold handleHttpRequest at hstep
  split at hstep
  · cases hstep
  · obtain ⟨net, hdel, rfl⟩ := Option.map_eq_some_iff.1 hstep
    exact ⟨⟨held, h.ofKeepsHeld (Keeps.delConnection hdel) (h.sound.delConnection hdel)
      fun _ hx => hx⟩, Silent.refl_net s net⟩
  · cases forward with
    | noServer => exact table_handleForwardFailed h hasks hstep
    | connectFailed => cases hstep
    | connected fd ip port =>
        dsimp only at hstep
        split at hstep
        · cases hstep
        · rename_i net id hmake
          exact table_forwardTo h hasks (hfits fd ip port rfl) hmake hstep

/-! ## Responses -/

/-- The connections to web servers do not have the recorded client's uid. -/
theorem uid_ne_of_noWebServer {net : NetState} {uid : Nat} (h : net.mgr.Distinct)
    (hslot : NoWebServer net uid) :
    ∀ id d, net.mgr.conns id = some d → d.type = .kConnectTo → d.uid ≠ uid := by
  rintro id d hd htype rfl
  have haccepted := hslot (some id) (h.getConnection hd) id rfl d hd
  rw [htype] at haccepted
  cases haccepted

/-- **The end of `HandleHttpResponse`** on the connection `id`: its own entry
is not needed any more, and no other one is erased. -/
theorem table_finish {s : State} {net : NetState} {held held' : List CtxId} {id : ConnId}
    {c : ConnectionProfile} {o : Opened} {x : CtxId} {r : Routed} (h : Table s held)
    (hc : s.net.mgr.conns id = some c) (ho : s.opened id = some o)
    (hx : o.entry.returnPacket = some x) (hfound : r.found = o.entry)
    (hslot : NoWebServer s.net o.entry.clientUid) (hkeeps : s.net.Keeps net)
    (hsame : s.net.mgr.SameUids net.mgr) (hsound : net.Sound held')
    (hheld : ∀ y ∈ held, y ≠ x → y ∈ held') :
    Table (finish c.uid r { s with net }) held' ∧
      (finish c.uid r { s with net }).opened = s.opened ∧
      (finish c.uid r { s with net }).aborted = s.aborted ∧
      (finish c.uid r { s with net }).responses = s.responses ++ [r] := by
  have huids := hsame.uids id
  rw [hc] at huids
  obtain ⟨c', hc', huid⟩ := Option.map_eq_some_iff.1 huids
  have hdel := delConnection_eq (hkeeps.distinct h.distinct) hc'
  rw [show c'.uid = c.uid from huid] at hdel
  have hkeeps' := hkeeps.trans (Keeps.delConnection hdel)
  have hfinish : finish c.uid r { s with net } =
      { s with
        net := net.destroy c.uid c.uid id c'
        connMap := Function.update s.connMap r.found.clientUid none
        responses := s.responses ++ [r] } := by
    simp only [finish, hdel]
  rw [hfinish]
  refine ⟨?_, rfl, rfl, rfl⟩
  have htable : Table { s with net := net.destroy c.uid c.uid id c' } held' := by
    apply h.ofKeeps hkeeps' (hsound.delConnection hdel)
    intro id' o' y hlive ho' hy hmem
    apply hheld y hmem
    rintro rfl
    have hid := h.unique id' id o' o y ho' ho hy hx
    have hgone : (net.destroy c.uid c.uid id c').isLive id = false := by
      show (Function.update net.mgr.conns id none id).isSome = false
      rw [Function.update_self]
      rfl
    rw [hid, hgone] at hlive
    cases hlive
  have hmap : Table
      { s with
        net := net.destroy c.uid c.uid id c'
        connMap := Function.update s.connMap r.found.clientUid none } held' := by
    apply htable.setMap
    intro id' d hd htype
    obtain ⟨e, he, hed, het⟩ := hkeeps'.conns id' d hd
    have hne := uid_ne_of_noWebServer h.distinct hslot id' e he (het.symm.trans htype)
    rw [hfound, Function.update_of_ne (by rw [hed]; exact hne)]
  exact ⟨hmap.sound, hmap.distinct, hmap.mapped, hmap.opened_lt, hmap.client, hmap.unique,
    hmap.holds⟩

theorem deepCopyRest_spec {net : NetState} {held : List CtxId} (x : CtxId) (httpPacket : Bytes)
    (h : net.Sound held) :
    (deepCopyRest x httpPacket net).Sound held ∧ net.Keeps (deepCopyRest x httpPacket net) ∧
      (deepCopyRest x httpPacket net).mgr = net.mgr := by
  unfold deepCopyRest
  split
  · exact ⟨h, Keeps.refl net, rfl⟩
  · rename_i k hk
    exact ⟨sound_setBuffer h hk _, keeps_setBuffer hk _, rfl⟩

/-- The return packet of a live connection's entry is valid as long as the
client is live. -/
theorem Table.returnPacket {s : State} {held : List CtxId} {id : ConnId}
    {c : ConnectionProfile} {o : Opened} (h : Table s held) (hc : s.net.mgr.conns id = some c)
    (ho : s.opened id = some o) :
    ∃ x k, o.entry.returnPacket = some x ∧ x ∈ held ∧ s.net.ctxs x = some k ∧
      k.socket = o.client ∧ k.isTcpConnValid = s.net.isLive o.client := by
  obtain ⟨x, k, hx, hk, howner⟩ := (h.client id o ho).packet
  have hheld := h.holds id o x (isLive_of_conns hc) ho hx
  obtain ⟨l, hl, -, hvalid⟩ := h.sound.accounted x hheld
  rw [label_of_ctxs hk] at hl
  cases hl
  rw [← howner]
  exact ⟨x, k, hx, hheld, hk, (h.sound.owned x _ (label_of_ctxs hk)).1, hvalid⟩

/-- An empty slot is not that of a live client. -/
theorem Table.client_dead {s : State} {held : List CtxId} {id : ConnId} {o : Opened}
    (h : Table s held) (ho : s.opened id = some o)
    (hget : s.net.mgr.getConnection o.entry.clientUid = some none) :
    s.net.isLive o.client = false := by
  cases hd : s.net.mgr.conns o.client with
  | none =>
      unfold isLive
      rw [hd]
      rfl
  | some d =>
      have hlive := h.distinct.getConnection hd
      rw [(h.client id o ho).uid d hd, hget] at hlive
      cases hlive

/-- **`HandleHttpResponse`** finds the entry of its connection. -/
theorem table_handleHttpResponse {s t : State} {held : List CtxId} {ctx : RecvContext}
    {c : ConnectionProfile} {w : WriteOutcome} (h : Table s held)
    (hc : s.net.mgr.conns ctx.conn = some c) (htype : c.type = .kConnectTo)
    (huid : ctx.tcpConnectionUid = c.uid)
    (hslot : NoWebServer s.net (s.lookup ctx.tcpConnectionUid).clientUid)
    (hstep : s.handleHttpResponse ctx w = some t) :
    (∃ held', Table t held') ∧ t.opened = s.opened ∧ t.aborted = s.aborted ∧
      ∃ r, t.responses = s.responses ++ [r] ∧ RoutedRight s.opened r := by
  obtain ⟨o, ho, hentry⟩ := h.mapped ctx.conn c hc htype
  obtain ⟨x, k, hx, hheld, hk, hsocket, hvalid⟩ := h.returnPacket hc ho
  have hclient := h.client ctx.conn o ho
  rw [huid] at hslot
  have hfound : s.lookup c.uid = o.entry := by
    unfold lookup
    rw [hentry]
    rfl
  have hclientLive : s.isClientLive ctx.conn = s.net.isLive o.client := by
    unfold isClientLive
    rw [ho]
  have hmap : Function.update s.connMap c.uid (some o.entry) = s.connMap := by
    rw [← hentry]
    exact Function.update_eq_self _ _
  have hbytes : tcpByteArray s.net c.uid = some (ctx.conn, c.tcpByteArr) := by
    unfold tcpByteArray
    rw [h.distinct.getConnection hc]
    show (s.net.mgr.conns ctx.conn).map _ = _
    rw [hc]
    rfl
  rw [hfound] at hslot
  unfold handleHttpResponse at hstep
  simp only [huid, hfound, hmap, hclientLive] at hstep
  split at hstep
  · -- the client's uid is inside of the pool
    rename_i hget
    unfold ConnectionManager.getConnection at hget
    rw [if_pos ⟨hclient.pos, Nat.lt_of_lt_of_le hclient.inside h.distinct.size_le⟩,
      List.getElem?_eq_getElem hclient.inside] at hget
    cases hget
  · rename_i hget
    cases hstep
    obtain ⟨htable, hopened, haborted, hresponses⟩ := table_finish h hc ho hx
      (r := ⟨ctx.conn, o.entry, s.net.isLive o.client, .clientGone⟩) rfl hslot
      (Keeps.refl s.net) (ConnectionManager.SameUids.refl _) h.sound fun y hy _ => hy
    refine ⟨⟨held, htable⟩, hopened, haborted, _, hresponses, o, ho, rfl, ?_, fun _ => Or.inl rfl⟩
    intro hlive
    replace hlive : s.net.isLive o.client = true := hlive
    rw [h.client_dead ho hget] at hlive
    cases hlive
  · simp only [hx, hbytes, hk] at hstep
    obtain ⟨⟨net, done⟩, hsend, rfl⟩ := Option.map_eq_some_iff.1 hstep
    obtain ⟨hsound, hkeeps, hsame⟩ : (if done then net else
        deepCopyRest x c.tcpByteArr net).Sound (held.erase x) ∧
        s.net.Keeps (if done then net else deepCopyRest x c.tcpByteArr net) ∧
        s.net.mgr.SameUids (if done then net else deepCopyRest x c.tcpByteArr net).mgr := by
      have hsound := (sound_setBuffer h.sound hk _).trySendAndMarkPendingIfUndone hheld hsend
      have hkeeps := (keeps_setBuffer hk _).trans (Keeps.trySendAndMarkPendingIfUndone hsend)
      have hsame := sameUids_trySendAndMarkPendingIfUndone hsend
      cases done with
      | true => exact ⟨hsound, hkeeps, hsame⟩
      | false =>
          obtain ⟨hsound', hkeeps', hmgr⟩ := deepCopyRest_spec x c.tcpByteArr hsound
          refine ⟨hsound', hkeeps.trans hkeeps', ?_⟩
          show s.net.mgr.SameUids (deepCopyRest x c.tcpByteArr net).mgr
          rw [hmgr]
          exact hsame
    obtain ⟨htable, hopened, haborted, hresponses⟩ := table_finish h hc ho hx
      (r := ⟨ctx.conn, o.entry, s.net.isLive o.client,
        if k.isTcpConnValid then .sent x k.socket else .skipped⟩) rfl hslot hkeeps hsame hsound
      fun y hy hne => (List.mem_erase_of_ne hne).2 hy
    refine ⟨⟨held.erase x, htable⟩, hopened, haborted, _, hresponses, o, ho, rfl, ?_, ?_⟩
    · intro hlive
      replace hlive : s.net.isLive o.client = true := hlive
      refine ⟨x, hx, ?_⟩
      show (if k.isTcpConnValid then Answer.sent x k.socket else .skipped) = _
      rw [hvalid, hlive, hsocket]
      rfl
    · intro hdead
      replace hdead : s.net.isLive o.client = false := hdead
      right
      show (if k.isTcpConnValid then Answer.sent x k.socket else .skipped) = _
      rw [hvalid, hdead]
      rfl

/-! ## Read events -/

/-- What a connection of the proxy passes on: a response comes without a
return packet. -/
theorem dispatch_cases (id : ConnId) (x : CtxId) {p : ApplicationProtocolParser}
    {c : ConnectionProfile} (hp : c.parser = some p) :
    (∃ parser tcpByteArr nextNo packet packetNo, c.type = .kConnectTo ∧
      ConnectionProfile.dispatch upgradeApplicationProtocol id x p c =
        ⟨{ c with parser := some parser, tcpByteArr, packetNo := nextNo },
          .dispatched { passedContext id x packet packetNo c with returnPacket := none }, none⟩) ∨
    ∃ parser tcpByteArr nextNo packet packetNo,
      ConnectionProfile.dispatch upgradeApplicationProtocol id x p c =
        ⟨behindDispatch x parser tcpByteArr nextNo c,
          .dispatched (passedContext id x packet packetNo c), some (madeContext id c)⟩ := by
  obtain ⟨parser, tcpByteArr, nextNo, hrecycle⟩ : ∃ parser tcpByteArr nextNo,
      c.recycleParser = { c with parser := some parser, tcpByteArr, packetNo := nextNo } := by
    unfold ConnectionProfile.recycleParser
    split
    · exact ⟨_, _, _, rfl⟩
    · exact ⟨p, c.tcpByteArr, c.packetNo, by rw [← hp]⟩
  cases hup : p.isUpgradeProtocol with
  | true =>
      right
      cases p with
      | request q =>
          refine ⟨.request q, c.tcpByteArr, c.packetNo,
            (ApplicationProtocolParser.request q).packet, c.packetNo, ?_⟩
          simp [ConnectionProfile.dispatch, hup, ConnectionProfile.makeRecvContext,
            ConnectionProfile.recycleParser, hp, upgradeApplicationProtocol,
            ConnectionProfile.makeSendContext, behindDispatch, madeContext, passedContext]
      | response q => cases hup
      | webSocket q => cases hup
  | false =>
      cases htype : c.type with
      | kAcceptFrom =>
          right
          refine ⟨parser, tcpByteArr, nextNo, p.packet, c.packetNo, ?_⟩
          simp [ConnectionProfile.dispatch, hup, ConnectionProfile.makeRecvContext, hrecycle, htype,
            ConnectionProfile.makeSendContext, behindDispatch, madeContext, passedContext]
      | kConnectTo =>
          left
          refine ⟨parser, tcpByteArr, nextNo, p.packet, c.packetNo, rfl, ?_⟩
          simp [ConnectionProfile.dispatch, hup, ConnectionProfile.makeRecvContext, hrecycle, htype,
            passedContext]

/-- What a step does that goes well. -/
structure GoesWell (s t : State) : Prop where
  table : ∃ held, Table t held
  aborted : t.aborted = s.aborted
  opened : ∀ id o, s.opened id = some o → t.opened id = some o
  routed : ∀ r ∈ t.responses, r ∈ s.responses ∨ RoutedRight t.opened r

theorem Silent.goesWell {s t : State} (h : Silent s t) (htable : ∃ held, Table t held) :
    GoesWell s t :=
  ⟨htable, h.aborted, h.opened, fun r hr => Or.inl (by rw [← h.responses]; exact hr)⟩

/-- Steps of the network thread alone. -/
theorem Table.goesWell {s : State} {net : NetState} {held held' : List CtxId} (h : Table s held)
    (hkeeps : s.net.Keeps net) (hsound : net.Sound held') (hheld : ∀ x ∈ held, x ∈ held') :
    GoesWell s { s with net } :=
  (Silent.refl_net s net).goesWell ⟨held', h.ofKeepsHeld hkeeps hsound hheld⟩

/-- A packet that is passed on. -/
theorem goesWell_handleApplicationPacket {cfg : Config} {s t : State} {held : List CtxId}
    {ctx : RecvContext} {c : ConnectionProfile} {forward : Forward} {w : WriteOutcome}
    (h : Table s held) (hc : s.net.mgr.conns ctx.conn = some c) (htype : ctx.type = c.type)
    (huid : ctx.tcpConnectionUid = c.uid)
    (hasks : c.type = .kAcceptFrom → ∃ x, Asks s held ctx x)
    (hfits : ∀ fd ip port, forward = .connected fd ip port → s.net.mgr.FitsUid cfg.vector)
    (hslot : c.type = .kConnectTo →
      NoWebServer s.net (s.lookup ctx.tcpConnectionUid).clientUid)
    (hstep : s.handleApplicationPacket cfg ctx forward w = some t) : GoesWell s t := by
  unfold handleApplicationPacket at hstep
  split at hstep
  · split at hstep
    · rename_i hctype
      obtain ⟨x, hx⟩ := hasks (htype.symm.trans hctype)
      obtain ⟨htable, hsilent⟩ := table_handleHttpRequest h hx hfits hstep
      exact hsilent.goesWell htable
    · rename_i hctype
      have hconnect : c.type = .kConnectTo := htype.symm.trans hctype
      obtain ⟨htable, hopened, haborted, r, hresponses, hright⟩ :=
        table_handleHttpResponse h hc hconnect huid (hslot hconnect) hstep
      refine ⟨htable, haborted, fun id o ho => by rw [hopened]; exact ho, ?_⟩
      intro r' hr'
      rw [hresponses] at hr'
      rcases List.mem_append.1 hr' with hr' | hr'
      · exact Or.inl hr'
      · rw [List.mem_singleton.1 hr', hopened]
        exact Or.inr hright
  · cases hstep
    exact h.goesWell (Keeps.refl s.net) h.sound fun _ hx => hx
  · obtain ⟨net, hdel, rfl⟩ := Option.map_eq_some_iff.1 hstep
    exact h.goesWell (Keeps.delConnection hdel) (h.sound.delConnection hdel) fun _ hx => hx

/-- A state in which some connection has changed, but no slot. -/
theorem noWebServer_keeps {s t : NetState} {uid : Nat} (h : NoWebServer s uid)
    (hkeeps : s.Keeps t) (hget : t.mgr.getConnection uid = s.mgr.getConnection uid) :
    NoWebServer t uid := by
  intro slot hslot id hid d hd
  rw [hget] at hslot
  obtain ⟨c, hc, -, htype⟩ := hkeeps.conns id d hd
  exact htype.trans (h slot hslot id hid c hc)

/-- Old return packets are not the next context. -/
theorem Table.fresh {s : State} {held : List CtxId} (h : Table s held) :
    ∀ id o, s.opened id = some o → o.entry.returnPacket ≠ some s.net.nextCtx := by
  intro id o ho heq
  obtain ⟨x, k, hx, hk, -⟩ := (h.client id o ho).packet
  rw [heq] at hx
  cases hx
  exact Nat.lt_irrefl _ (h.sound.ctx_lt _ _ (label_of_ctxs hk))

/-- What is known of a packet that a read event on `id` passes on, and of
the network thread behind it. -/
structure Passed (s t : NetState) (held held' : List CtxId) (id : ConnId)
    (d : ConnectionProfile) (ctx : RecvContext) : Prop where
  keeps : s.Keeps t
  sound : t.Sound held'
  held : ∀ x ∈ held, x ∈ held'
  mgr : t.mgr = s.mgr.update id d
  conn : ctx.conn = id
  type : ctx.type = d.type
  uid : ctx.tcpConnectionUid = d.uid
  returnPacket : d.type = .kAcceptFrom → ctx.returnPacket = some s.nextCtx ∧
    s.nextCtx ∈ held' ∧ ∃ k, t.ctxs s.nextCtx = some k ∧ k.owner = id

theorem passed_of_dispatch {s : NetState} {held : List CtxId} {id : ConnId}
    {c : ConnectionProfile} {outs : List ReadOutcome} {r : ConnectionProfile.Received}
    {p : ApplicationProtocolParser} {ev : ConnectionProfile.ReadEvent} (h : s.Sound held)
    (hnumber : NumberFree s id) (hc : s.mgr.conns id = some c) (hr : c.receive outs = some r)
    (hp : r.conn.parser = some p)
    (hev : ConnectionProfile.dispatch upgradeApplicationProtocol id s.nextCtx p r.conn = ev) :
    ∃ ctx held', ev.stop = .dispatched ctx ∧
      Passed s ((s.setConn id ev.conn).allocCtx ev.made) held held' id ev.conn ctx := by
  obtain ⟨huid, htype, hseq, hcontexts, hpending⟩ := ConnectionProfile.receive_kept hr
  rcases dispatch_cases id s.nextCtx hp with
    ⟨parser, tcpByteArr, nextNo, packet, packetNo, hconnect, hdispatch⟩ |
    ⟨parser, tcpByteArr, nextNo, packet, packetNo, hdispatch⟩
  · rw [hdispatch] at hev
    subst hev
    refine ⟨_, held, rfl, ⟨?_, ?_, fun _ hx => hx, rfl, rfl, rfl, rfl, ?_⟩⟩
    · exact Keeps.setConn hc huid htype
    · exact h.setConn hc hcontexts hpending
    · intro haccept
      replace haccept : r.conn.type = .kAcceptFrom := haccept
      rw [hconnect] at haccept
      cases haccept
  · rw [hdispatch] at hev
    subst hev
    refine ⟨_, held ++ [s.nextCtx], rfl, ⟨?_, ?_, fun _ hx => List.mem_append_left _ hx, rfl, rfl,
      rfl, rfl, ?_⟩⟩
    · apply Keeps.newContext h hc
      · exact huid
      · exact htype
    · apply h.newContext hc
      · rfl
      · rfl
      · rfl
      · rw [← hcontexts]
        rfl
      · rw [← hpending]
        rfl
      · intro y hy l hl
        obtain ⟨k, hk, hkl, -⟩ := label_eq_some hl
        show l.seq ≠ (r.conn.sendCtxSeq + 1) % 2 ^ 32
        rw [← hkl, hseq]
        exact hnumber c hc y hy k hk
    · intro _
      exact ⟨rfl, List.mem_append_right _ List.mem_cons_self, madeContext id r.conn,
        Function.update_self _ _ _, rfl⟩

theorem goesWell_readEvent {cfg : Config} {s t : State} {held : List CtxId} {id : ConnId}
    {outs : List ReadOutcome} {forward : Forward} {w : WriteOutcome} (h : Table s held)
    (hnumber : NumberFree s.net id) (hslot : s.ClientSlot id outs)
    (hfits : ∀ fd ip port, forward = .connected fd ip port → s.net.mgr.FitsUid cfg.vector)
    (hstep : s.onReadEvent cfg id outs forward w = some t) : GoesWell s t := by
  cases hevent : s.net.onReadEvent upgradeApplicationProtocol id outs with
  | none => simp [onReadEvent, hevent] at hstep
  | some ev =>
      obtain ⟨net, stop⟩ := ev
      obtain ⟨c, hc⟩ := NetState.exists_conn_of_onReadEvent hevent
      have hreceive : ∀ r, c.receive outs = some r →
          s.net.Keeps (s.net.setConn id r.conn) ∧ (s.net.setConn id r.conn).Sound held := by
        intro r hr
        obtain ⟨huid, htype, -, hcontexts, hpending⟩ := ConnectionProfile.receive_kept hr
        exact ⟨Keeps.setConn hc huid htype, h.sound.setConn hc hcontexts hpending⟩
      have hcases := NetState.onReadEvent_cases hc hevent
      have hslot' := hslot _ hevent
      simp only [onReadEvent, hevent] at hstep
      cases hcases with
      | deleted r t' hr hdel =>
          cases hstep
          obtain ⟨hkeeps, hsound⟩ := hreceive r hr
          exact h.goesWell (hkeeps.trans (Keeps.delConnection hdel))
            (hsound.delConnection hdel) fun _ hx => hx
      | idle r hr =>
          cases hstep
          obtain ⟨hkeeps, hsound⟩ := hreceive r hr
          exact h.goesWell hkeeps hsound fun _ hx => hx
      | crashed r hr => cases hstep
      | dispatched r p hr hp =>
          generalize hev : ConnectionProfile.dispatch upgradeApplicationProtocol id s.net.nextCtx
            p r.conn = ev at hstep hslot'
          obtain ⟨ctx, held', hstop, hpassed⟩ :=
            passed_of_dispatch h.sound hnumber hc hr hp hev
          generalize (s.net.setConn id ev.conn).allocCtx ev.made = net at hstep hslot' hpassed
          simp only [hstop] at hstep hslot'
          have htable : Table { s with net } held' :=
            h.ofKeepsHeld hpassed.keeps hpassed.sound hpassed.held
          have hconn : net.mgr.conns ctx.conn = some ev.conn := by
            rw [hpassed.mgr, hpassed.conn]
            exact Function.update_self _ _ _
          have hgood := goesWell_handleApplicationPacket htable hconn hpassed.type hpassed.uid
            ?_ ?_ ?_ hstep
          · exact ⟨hgood.table, hgood.aborted, hgood.opened, hgood.routed⟩
          · intro haccept
            obtain ⟨hreturn, hheld, hk⟩ := hpassed.returnPacket haccept
            refine ⟨s.net.nextCtx, ⟨ev.conn, hconn, hpassed.uid.symm⟩, hreturn, ?_, hheld,
              h.fresh⟩
            rw [hpassed.conn]
            exact hk
          · intro fd ip port heq
            show net.mgr.FitsUid cfg.vector
            rw [hpassed.mgr]
            exact hfits fd ip port heq
          · intro hconnect
            apply noWebServer_keeps (hslot' ctx rfl (hpassed.type.trans hconnect)) hpassed.keeps
            show net.mgr.getConnection _ = _
            rw [hpassed.mgr]
            rfl

/-- **One event.** -/
theorem goesWell_step {cfg : Config} {s t : State} {held : List CtxId} {e : Event}
    (h : Table s held) (hharmless : Harmless cfg s e) (hstep : step cfg s e = some t) :
    GoesWell s t := by
  unfold step at hstep
  split at hstep
  · cases hstep
  · cases e with
    | accept fd ip port =>
        obtain ⟨net, hnet, rfl⟩ := Option.map_eq_some_iff.1 hstep
        unfold registerConnection at hnet
        split at hnet
        · cases hnet
          exact h.goesWell (Keeps.refl s.net) h.sound fun _ hx => hx
        · obtain ⟨⟨net', id⟩, hadd, rfl⟩ := Option.map_eq_some_iff.1 hnet
          obtain ⟨uid, hadded⟩ := added_of_addConnection h.sound.conn_lt h.distinct hharmless hadd
          exact (Silent.refl_net s net').goesWell
            ⟨held, h.accepted hadded (h.sound.addConnection rfl rfl hadd) rfl⟩
    | readEvent id outs forward w =>
        cases forward with
        | noServer =>
            exact goesWell_readEvent h hharmless.1 hharmless.2 (fun _ _ _ heq => by cases heq) hstep
        | connectFailed =>
            exact goesWell_readEvent h hharmless.1 hharmless.2 (fun _ _ _ heq => by cases heq) hstep
        | connected fd ip port =>
            exact goesWell_readEvent h hharmless.2.1 hharmless.2.2 (fun _ _ _ _ => hharmless.1)
              hstep
    | writeEvent id ws =>
        obtain ⟨net, hsend, rfl⟩ := Option.map_eq_some_iff.1 hstep
        exact h.goesWell (Keeps.trySendPendingPackets hsend) (h.sound.trySendPendingPackets hsend)
          fun _ hx => hx
    | errEvent id =>
        obtain ⟨net, herr, rfl⟩ := Option.map_eq_some_iff.1 hstep
        unfold onErrEvent at herr
        split at herr
        · cases herr
        · exact h.goesWell (Keeps.delConnection herr) (h.sound.delConnection herr) fun _ hx => hx
    | clearTimeout =>
        cases hstep
        exact h.goesWell (Keeps.clearTimeout s.net h.distinct) h.sound.clearTimeout
          fun _ hx => hx
    | tick ms =>
        cases hstep
        exact h.goesWell ⟨fun hd => hd, rfl, rfl, KeepsOwners.refl _, fun _ d hd =>
          ⟨d, hd, rfl, rfl⟩⟩ (h.sound.congr rfl rfl rfl rfl h.sound.writes) fun _ hx => hx

/-! ## Whole runs -/

/-- The invariant of whole runs. -/
structure Routing (s : State) : Prop where
  table : ∃ held, Table s held
  right : RoutesRight s

theorem routing_init (cfg : Config) : Routing (init cfg) :=
  ⟨⟨[], table_init cfg⟩, rfl, fun r hr => by cases hr⟩

theorem routing_step {cfg : Config} {s t : State} {e : Event} (h : Routing s)
    (hharmless : Harmless cfg s e) (hstep : step cfg s e = some t) : Routing t := by
  obtain ⟨held, htable⟩ := h.table
  have hgood := goesWell_step htable hharmless hstep
  refine ⟨hgood.table, hgood.aborted.trans h.right.running, ?_⟩
  intro r hr
  rcases hgood.routed r hr with hold | hnew
  · obtain ⟨o, ho, hrest⟩ := h.right.routed r hold
    exact ⟨o, hgood.opened _ o ho, hrest⟩
  · exact hnew

/-- **Every response is routed right**, in every run in which no response
arrives while the recorded client's uid belongs to a connection to a web
server, and no number wraps around. -/
theorem routesRight_of_harmless (cfg : Config) (events : List Event)
    (hharmless : Along (step cfg) (Harmless cfg) (init cfg) events) :
    ∀ t ∈ trace (step cfg) (init cfg) events, RoutesRight t := by
  intro t ht
  have hrouting := trace_invariant (fun s e s' hs hc hstep => routing_step hs hc hstep)
    (routing_init cfg) hharmless t ht
  exact hrouting.right

/-! ## The wrong entry -/

def sampleConfig : Config :=
  { vector := .libstdcxx, maxConnections := 1024, webservers := [],
    parseFromArray := fun _ _ => ⟨none, none⟩ }

/-- A whole request, which is forwarded at once. -/
def request (id : ConnId) : Event :=
  .readEvent id [ConnectionProfile.getRequest]
    (.connected 8 (lit "10.0.1.1") 80) (.wrote 24)

/-- A read that delivers a whole response. -/
def okResponse : ReadOutcome :=
  ConnectionProfile.reads "HTTP/1.1 200 OK\r\nContent-Length: 2\r\nA: b\r\n\r\nok" (by decide)

/-- A whole response, which is sent back at once. -/
def response (id : ConnId) : Event := .readEvent id [okResponse] .noServer (.wrote 46)

/-- Two clients; the first one leaves before its response comes. -/
def plainRun : List Event :=
  [.accept 7 (lit "10.0.0.1") 4000, .accept 9 (lit "10.0.0.2") 4001, request 0, request 1,
    .errEvent 0, response 2, response 3]

theorem routesRight_plainRun :
    (∃ t ∈ run (step sampleConfig) (init sampleConfig) plainRun,
      t.responses.map (·.answer) = [.clientGone, .sent 2 1]) ∧
      ∀ t ∈ trace (step sampleConfig) (init sampleConfig) plainRun, RoutesRight t := by
  constructor
  · decide +kernel
  · exact routesRight_of_harmless sampleConfig plainRun (by decide +kernel)

/-- The first client's slot goes to the second client's web server, whose
entry the first response then erases. -/
def reusedRun : List Event :=
  [.accept 7 (lit "10.0.0.1") 4000, request 0, .accept 9 (lit "10.0.0.2") 4001, .errEvent 0,
    request 2, response 1, response 3]

theorem not_routesRight_reusedRun :
    ∃ t ∈ trace (step sampleConfig) (init sampleConfig) reusedRun,
      (∃ r ∈ t.responses, r.webserver = 3 ∧ r.found = Entry.default ∧ r.clientLive = true ∧
        r.answer = .aborted) ∧ ¬ RoutesRight t := by
  have hrun : ∃ t ∈ run (step sampleConfig) (init sampleConfig) reusedRun,
      (∃ r ∈ t.responses, r.webserver = 3 ∧ r.found = Entry.default ∧ r.clientLive = true ∧
        r.answer = .aborted) ∧ t.aborted = true := by
    decide +kernel
  obtain ⟨t, ht, hresponse, haborted⟩ := hrun
  refine ⟨t, run_mem_trace ht, hresponse, ?_⟩
  intro hright
  rw [hright.running] at haborted
  cases haborted

end State

end Unixtar.ReverseProxy
