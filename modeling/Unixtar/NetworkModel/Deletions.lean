import Unixtar.NetworkModel.Uids

/-!
# Which connections a network thread deletes

`DelConnection` takes a uid, `__OnErrEvent` and `__OnReadEvent` take it from
the connection of their event.  As long as no two live connections share a
uid, an event deletes no connection but its own, and `__OnReadEvent` says
whether it did.

## Main results

* `delConnection_others` — `DelConnection` of a connection's uid deletes this
  connection and no other.
* `reading_onReadEvent` — what a read event leaves behind.
-/

namespace Unixtar.NetState

open Unixtar.Lib

/-! ## Live connections -/

/-- The uids of the live connections lead to them, and new connections have
new names. -/
structure Pooled (s : NetState) : Prop where
  distinct : s.mgr.Distinct
  conn_lt : ∀ id c, s.mgr.conns id = some c → id < s.nextConn

/-- Every live connection goes on living. -/
def KeepsLive (s t : NetState) : Prop := ∀ id, s.isLive id = true → t.isLive id = true

/-- Every live connection but `id` goes on living. -/
def KeepsOthers (id : ConnId) (s t : NetState) : Prop :=
  ∀ id', id' ≠ id → s.isLive id' = true → t.isLive id' = true

theorem pooled_init (v : VectorImpl) : Pooled (init v) :=
  ⟨ConnectionManager.init_distinct v, fun id c hc => by cases hc⟩

theorem KeepsLive.others {s t : NetState} (h : KeepsLive s t) (id : ConnId) :
    KeepsOthers id s t :=
  fun id' _ => h id'

theorem KeepsLive.trans {s t u : NetState} (h : KeepsLive s t) (h' : KeepsLive t u) :
    KeepsLive s u :=
  fun id hid => h' id (h id hid)

theorem KeepsLive.transOthers {s t u : NetState} {id : ConnId} (h : KeepsLive s t)
    (h' : KeepsOthers id t u) : KeepsOthers id s u :=
  fun id' hne hid' => h' id' hne (h id' hid')

theorem Pooled.ofKeeps {s t : NetState} (h : Pooled s) (hkeeps : Keeps s t) : Pooled t := by
  refine ⟨hkeeps.distinct h.distinct, ?_⟩
  intro id d hd
  obtain ⟨c, hc, -⟩ := hkeeps.conns id d hd
  rw [hkeeps.nextConn]
  exact h.conn_lt id c hc

/-! ## No connection is opened or deleted -/

/-- From `s` to `t` no connection is opened or deleted, and none changes its
uid. -/
structure Undeleted (s t : NetState) : Prop where
  same : ConnectionManager.SameUids s.mgr t.mgr
  nextConn : t.nextConn = s.nextConn

namespace Undeleted

variable {s t u : NetState}

theorem refl (s : NetState) : Undeleted s s := ⟨ConnectionManager.SameUids.refl _, rfl⟩

theorem trans (h : Undeleted s t) (h' : Undeleted t u) : Undeleted s u :=
  ⟨h.same.trans h'.same, h'.nextConn.trans h.nextConn⟩

/-- Only the heap, the clock or the log changes. -/
theorem of_eq (hmgr : t.mgr = s.mgr) (hnext : t.nextConn = s.nextConn) : Undeleted s t :=
  ⟨hmgr ▸ ConnectionManager.SameUids.refl _, hnext⟩

theorem setConn {id : ConnId} {c d : ConnectionProfile} (hc : s.mgr.conns id = some c)
    (huid : d.uid = c.uid) : Undeleted s (s.setConn id d) :=
  ⟨ConnectionManager.sameUids_update hc huid, rfl⟩

theorem allocCtx (made : Option SendContext) (s : NetState) : Undeleted s (s.allocCtx made) := by
  cases made <;> exact of_eq rfl rfl

theorem allocCtx_mgr (made : Option SendContext) (s : NetState) :
    (s.allocCtx made).mgr = s.mgr := by
  cases made <;> rfl

theorem direct {x : CtxId} {w : WriteOutcome} {done : Bool}
    (h : s.trySendAndMarkPendingIfUndone x w = some (t, done)) : Undeleted s t :=
  ⟨sameUids_trySendAndMarkPendingIfUndone h, (Frame.trySendAndMarkPendingIfUndone h).nextConn⟩

theorem pending {id : ConnId} {ws : List WriteOutcome}
    (h : s.trySendPendingPackets id ws = some t) : Undeleted s t :=
  ⟨sameUids_trySendPendingPackets h, (Frame.trySendPendingPackets h).nextConn⟩

/-- A live connection has its uid still. -/
theorem conn {id : ConnId} {c : ConnectionProfile} (h : Undeleted s t)
    (hc : s.mgr.conns id = some c) : ∃ d, t.mgr.conns id = some d ∧ d.uid = c.uid := by
  have huid := h.same.uids id
  rw [hc] at huid
  exact Option.map_eq_some_iff.1 huid

theorem isLive (h : Undeleted s t) (id : ConnId) : t.isLive id = s.isLive id := by
  have huid := congrArg Option.isSome (h.same.uids id)
  rw [Option.isSome_map, Option.isSome_map] at huid
  exact huid

theorem keepsLive (h : Undeleted s t) : KeepsLive s t := fun id hid => (h.isLive id).trans hid

theorem pooled (h : Undeleted s t) (hs : Pooled s) : Pooled t := by
  refine ⟨h.same.distinct hs.distinct, ?_⟩
  intro id d hd
  have hlive : s.isLive id = true := (h.isLive id).symm.trans (isLive_of_conns hd)
  obtain ⟨c, hc⟩ := Option.isSome_iff_exists.1 hlive
  rw [h.nextConn]
  exact hs.conn_lt id c hc

end Undeleted

/-! ## The operations -/

/-- **`DelConnection`** of the uid of a live connection deletes this one. -/
theorem delConnection_others {s t : NetState} {id : ConnId} {c : ConnectionProfile}
    (h : Pooled s) (hc : s.mgr.conns id = some c) (hdel : s.delConnection c.uid = some t) :
    Pooled t ∧ KeepsOthers id s t ∧ t.isLive id = false := by
  refine ⟨h.ofKeeps (Keeps.delConnection hdel), ?_⟩
  rw [delConnection_eq h.distinct hc] at hdel
  cases hdel
  constructor
  · intro id' hne hid'
    show (Function.update s.mgr.conns id none id').isSome = true
    rw [Function.update_of_ne hne]
    exact hid'
  · show (Function.update s.mgr.conns id none id).isSome = false
    rw [Function.update_self]
    rfl

/-- `__OnErrEvent`. -/
theorem onErrEvent_others {s t : NetState} {id : ConnId} (h : Pooled s)
    (herr : s.onErrEvent id = some t) : Pooled t ∧ KeepsOthers id s t := by
  unfold onErrEvent at herr
  split at herr
  · cases herr
  · rename_i c hc
    obtain ⟨ht, hothers, -⟩ := delConnection_others h hc herr
    exact ⟨ht, hothers⟩

/-- `AddConnection`. -/
theorem addConnection_others {v : VectorImpl} {s t : NetState} {c : ConnectionProfile}
    {id : ConnId} (h : Pooled s) (hfits : s.mgr.FitsUid v)
    (hadd : s.addConnection v c = some (t, id)) :
    Pooled t ∧ KeepsLive s t ∧ id = s.nextConn ∧
      ∃ uid, t.mgr.conns = Function.update s.mgr.conns id (some { c with uid }) := by
  obtain ⟨mgr, hmgr, heq⟩ := Option.map_eq_some_iff.1 hadd
  cases heq
  have hnew : s.mgr.conns s.nextConn = none := by
    cases hd : s.mgr.conns s.nextConn with
    | none => rfl
    | some d => exact absurd (h.conn_lt _ d hd) (Nat.lt_irrefl _)
  obtain ⟨hdistinct, -, uid, hconns, -⟩ :=
    ConnectionManager.addConnection_distinct h.distinct hfits hnew hmgr
  refine ⟨⟨hdistinct, ?_⟩, ?_, rfl, uid, hconns⟩
  · intro id d hd
    replace hd : mgr.conns id = some d := hd
    show id < s.nextConn + 1
    rw [hconns] at hd
    by_cases hid : id = s.nextConn
    · rw [hid]
      exact Nat.lt_succ_self _
    · rw [Function.update_of_ne hid] at hd
      exact Nat.lt_succ_of_lt (h.conn_lt id d hd)
  · intro id hid
    show (mgr.conns id).isSome = true
    rw [hconns]
    by_cases heq : id = s.nextConn
    · rw [heq, Function.update_self]
      rfl
    · rw [Function.update_of_ne heq]
      exact hid

theorem pooled_clearTimeout {s : NetState} (h : Pooled s) : Pooled s.clearTimeout :=
  h.ofKeeps (Keeps.clearTimeout s h.distinct)

/-! ## Read events -/

variable {upgrade : ConnectionProfile → ApplicationPacket → ConnectionProfile}

/-- A connection whose packet is passed on keeps its uid, and the packet has
it. -/
theorem dispatch_uid (hupgrade : ∀ c packet, (upgrade c packet).uid = c.uid) (id : ConnId)
    (x : CtxId) (p : ApplicationProtocolParser) (c : ConnectionProfile) :
    (ConnectionProfile.dispatch upgrade id x p c).conn.uid = c.uid ∧
      ∀ ctx, (ConnectionProfile.dispatch upgrade id x p c).stop = .dispatched ctx →
        ctx.tcpConnectionUid = c.uid := by
  have hrecycle : ∀ c : ConnectionProfile, c.recycleParser.uid = c.uid := by
    intro c
    unfold ConnectionProfile.recycleParser
    split <;> rfl
  unfold ConnectionProfile.dispatch
  split_ifs
  · dsimp only [ConnectionProfile.makeRecvContext]
    split
    · refine ⟨(hupgrade _ _).trans (hrecycle c), ?_⟩
      intro ctx hctx
      cases hctx
    · dsimp only [ConnectionProfile.makeSendContext]
      have huid := (hrecycle _).trans ((hupgrade c.recycleParser p.packet).trans (hrecycle c))
      refine ⟨huid, ?_⟩
      intro ctx hctx
      cases hctx
      exact (hupgrade _ _).trans (hrecycle c)
  · dsimp only [ConnectionProfile.makeRecvContext]
    split
    · refine ⟨hrecycle c, ?_⟩
      intro ctx hctx
      cases hctx
      rfl
    · refine ⟨hrecycle c, ?_⟩
      intro ctx hctx
      cases hctx
      rfl

/-- A thread behind a read event on `id` up to `HandleApplicationPacket`: the
connection is deleted, or it is live and the packet has its uid. -/
structure Reading (id : ConnId) (s t : NetState) (stop : ConnectionProfile.ReadEnd) : Prop where
  pooled : Pooled t
  others : KeepsOthers id s t
  deleted : stop = .deleted → t.isLive id = false
  undeleted : stop ≠ .deleted → Undeleted s t
  conn : stop ≠ .deleted → ∃ c, t.mgr.conns id = some c ∧
    ∀ ctx, stop = .dispatched ctx → ctx.tcpConnectionUid = c.uid

/-- **A read event** deletes no connection but its own. -/
theorem reading_onReadEvent (hupgrade : ∀ c packet, (upgrade c packet).uid = c.uid)
    {s t : NetState} {id : ConnId} {outs : List ReadOutcome} {stop : ConnectionProfile.ReadEnd}
    (h : Pooled s) (hread : s.onReadEvent upgrade id outs = some (t, stop)) :
    Reading id s t stop := by
  obtain ⟨c, hc⟩ := exists_conn_of_onReadEvent hread
  -- the connection behind `Receive`
  have hset : ∀ {r : ConnectionProfile.Received}, c.receive outs = some r →
      Undeleted s (s.setConn id r.conn) :=
    fun hr => Undeleted.setConn hc (ConnectionProfile.receive_kept hr).1
  have hself : ∀ d : ConnectionProfile, (s.setConn id d).mgr.conns id = some d :=
    fun d => Function.update_self _ _ _
  cases onReadEvent_cases hc hread with
  | deleted r t hr hdel =>
      rw [← (ConnectionProfile.receive_kept hr).1] at hdel
      obtain ⟨ht, hothers, hdead⟩ :=
        delConnection_others ((hset hr).pooled h) (hself r.conn) hdel
      exact ⟨ht, (hset hr).keepsLive.transOthers hothers, fun _ => hdead,
        fun hstop => absurd rfl hstop, fun hstop => absurd rfl hstop⟩
  | idle r hr =>
      refine ⟨(hset hr).pooled h, (hset hr).keepsLive.others id,
        (fun hstop => by cases hstop), fun _ => hset hr, ?_⟩
      intro _
      exact ⟨r.conn, hself r.conn, fun ctx hctx => by cases hctx⟩
  | crashed r hr =>
      refine ⟨(hset hr).pooled h, (hset hr).keepsLive.others id,
        (fun hstop => by cases hstop), fun _ => hset hr, ?_⟩
      intro _
      exact ⟨r.conn, hself r.conn, fun ctx hctx => by cases hctx⟩
  | dispatched r p hr hp =>
      obtain ⟨huid, hpacket⟩ := dispatch_uid hupgrade id s.nextCtx p r.conn
      have hundeleted := (Undeleted.setConn hc
        (huid.trans (ConnectionProfile.receive_kept hr).1)).trans
          (Undeleted.allocCtx (ConnectionProfile.dispatch upgrade id s.nextCtx p r.conn).made _)
      refine ⟨hundeleted.pooled h, hundeleted.keepsLive.others id, ?_, fun _ => hundeleted, ?_⟩
      · intro hstop
        exact absurd hstop (ConnectionProfile.dispatch_stop_ne_deleted _ _ _ _ _)
      · intro _
        refine ⟨(ConnectionProfile.dispatch upgrade id s.nextCtx p r.conn).conn, ?_, ?_⟩
        · rw [Undeleted.allocCtx_mgr]
          exact hself _
        · intro ctx hctx
          exact (hpacket ctx hctx).trans huid.symm

end Unixtar.NetState
