import Unixtar.WebServer.EventLoop

/-!
# Where connections come from

The main thread opens every connection of a network thread: those of clients,
which `RegisterConnection` counts, and those of heartbeats, which nothing
counts.  A network thread itself only deletes, and no connection ever changes
its kind or its descriptor.

## Main result

* `netMove_move` — what an event of the server or a heartbeat does to the
  connections.
-/

namespace Unixtar.WebServer

open Unixtar.Lib NetState NetLoop

/-! ## The same peers -/

/-- From `s` to `t` no connection is opened or deleted, and none changes its
uid, its kind or its descriptor. -/
structure SamePeers (s t : NetState) : Prop where
  undeleted : Undeleted s t
  conns : ∀ id d, t.mgr.conns id = some d →
    ∃ c, s.mgr.conns id = some c ∧ d.type = c.type ∧ d.fd = c.fd

namespace SamePeers

variable {s t u : NetState}

/-- Only the heap, the clock or the log changes. -/
theorem of_eq (hmgr : t.mgr = s.mgr) (hnext : t.nextConn = s.nextConn) : SamePeers s t := by
  refine ⟨Undeleted.of_eq hmgr hnext, ?_⟩
  intro id d hd
  exact ⟨d, hmgr ▸ hd, rfl, rfl⟩

theorem refl (s : NetState) : SamePeers s s := of_eq rfl rfl

theorem trans (h : SamePeers s t) (h' : SamePeers t u) : SamePeers s u := by
  refine ⟨h.undeleted.trans h'.undeleted, ?_⟩
  intro id d hd
  obtain ⟨c, hc, htype, hfd⟩ := h'.conns id d hd
  obtain ⟨b, hb, htype', hfd'⟩ := h.conns id c hc
  exact ⟨b, hb, htype.trans htype', hfd.trans hfd'⟩

theorem setConn {id : ConnId} {c d : ConnectionProfile} (hc : s.mgr.conns id = some c)
    (huid : d.uid = c.uid) (htype : d.type = c.type) (hfd : d.fd = c.fd) :
    SamePeers s (s.setConn id d) := by
  refine ⟨Undeleted.setConn hc huid, ?_⟩
  intro id' d' hd'
  rw [setConn_conns] at hd'
  by_cases hid : id' = id
  · subst hid
    rw [Function.update_self] at hd'
    cases hd'
    exact ⟨c, hc, htype, hfd⟩
  · rw [Function.update_of_ne hid] at hd'
    exact ⟨d', hd', rfl, rfl⟩

theorem allocCtx (made : Option SendContext) (s : NetState) : SamePeers s (s.allocCtx made) :=
  of_eq (Undeleted.allocCtx_mgr made s) (Undeleted.allocCtx made s).nextConn

/-- Sending changes the timeout and the contexts of a connection. -/
theorem of_frame (h : Undeleted s t) (hframe : s.Frame t) : SamePeers s t := by
  refine ⟨h, ?_⟩
  intro id d hd
  obtain ⟨c, _, _, _, hc, rfl⟩ := hframe.conns id d hd
  exact ⟨c, hc, rfl, rfl⟩

end SamePeers

/-! ## Read events -/

/-- A connection whose packet is passed on is still the same one. -/
theorem dispatch_peer (id : ConnId) (x : CtxId) (p : ApplicationProtocolParser)
    (c : ConnectionProfile) :
    (ConnectionProfile.dispatch upgradeApplicationProtocol id x p c).conn.type = c.type ∧
      (ConnectionProfile.dispatch upgradeApplicationProtocol id x p c).conn.fd = c.fd := by
  have hrecycle : ∀ c : ConnectionProfile,
      c.recycleParser.type = c.type ∧ c.recycleParser.fd = c.fd := by
    intro c
    unfold ConnectionProfile.recycleParser
    split <;> exact ⟨rfl, rfl⟩
  have hupgrade : ∀ (c : ConnectionProfile) (packet : ApplicationPacket),
      (upgradeApplicationProtocol c packet).type = c.type ∧
        (upgradeApplicationProtocol c packet).fd = c.fd := by
    intro c packet
    unfold upgradeApplicationProtocol
    split
    · split <;> exact ⟨rfl, rfl⟩
    · exact ⟨rfl, rfl⟩
  have hboth : (upgradeApplicationProtocol c.recycleParser p.packet).type = c.type ∧
      (upgradeApplicationProtocol c.recycleParser p.packet).fd = c.fd :=
    ⟨(hupgrade _ _).1.trans (hrecycle c).1, (hupgrade _ _).2.trans (hrecycle c).2⟩
  unfold ConnectionProfile.dispatch
  split_ifs
  · dsimp only [ConnectionProfile.makeRecvContext]
    split
    · exact hboth
    · dsimp only [ConnectionProfile.makeSendContext]
      exact ⟨(hrecycle _).1.trans hboth.1, (hrecycle _).2.trans hboth.2⟩
  · dsimp only [ConnectionProfile.makeRecvContext]
    split <;> exact hrecycle c

/-- Behind `Receive`. -/
theorem samePeers_receive {s : NetState} {id : ConnId} {c : ConnectionProfile}
    {outs : List ReadOutcome} {r : ConnectionProfile.Received} (hc : s.mgr.conns id = some c)
    (hr : c.receive outs = some r) : SamePeers s (s.setConn id r.conn) := by
  obtain ⟨_, _, _, hconn, -⟩ := ConnectionProfile.receive_frame hr
  refine SamePeers.setConn hc ?_ ?_ ?_ <;> rw [hconn]

/-! ## What a move does -/

/-- What a move does to the connections of a network thread. -/
inductive NetMove (cfg : Config) (f : Move) (s : NetState) : NetState → Prop
  | kept (t : NetState) : SamePeers s t → NetMove cfg f s t
  | deleted (u t : NetState) (uid : Nat) : SamePeers s u → u.delConnection uid = some t →
      NetMove cfg f s t
  | cleared : NetMove cfg f s s.clearTimeout
  | accepted (fd : Nat) (ip : Bytes) (port : Nat) (t : NetState) (id : ConnId) :
      f = .event (.accept fd ip port) → s.mgr.currConnectionCnt < cfg.maxConnections →
      s.addConnection cfg.vector (configApplicationLayer (.init .kAcceptFrom fd ip port s.now)) =
        some (t, id) → NetMove cfg f s t
  | beaten (fd : Nat) (ip : Bytes) (port : Nat) (request : Bytes) (w : WriteOutcome)
      (u t : NetState) (id : ConnId) : f = .heartbeat fd ip port request w →
      s.addConnection cfg.vector (.init .kConnectTo fd ip port s.now) = some (u, id) →
      SamePeers u t → NetMove cfg f s t

/-- `RegisterConnection`. -/
theorem netMove_accept {cfg : Config} {s t : NetState} {fd port : Nat} {ip : Bytes}
    (h : s.registerConnection cfg.vector cfg.maxConnections configApplicationLayer fd ip port =
      some t) : NetMove cfg (.event (.accept fd ip port)) s t := by
  unfold registerConnection at h
  split_ifs at h with hmax
  · cases h
    exact .kept _ (SamePeers.refl _)
  · obtain ⟨⟨net, id⟩, hadd, rfl⟩ := Option.map_eq_some_iff.1 h
    exact .accepted fd ip port net id rfl (Nat.lt_of_not_le hmax) hadd

/-- `__OnReadEvent`, up to `HandleApplicationPacket`. -/
theorem read_peers {s t : NetState} {id : ConnId} {outs : List ReadOutcome}
    {stop : ConnectionProfile.ReadEnd}
    (h : s.onReadEvent upgradeApplicationProtocol id outs = some (t, stop)) :
    (stop ≠ .deleted → SamePeers s t) ∧
      (stop = .deleted → ∃ u uid, SamePeers s u ∧ u.delConnection uid = some t) := by
  obtain ⟨c, hc⟩ := exists_conn_of_onReadEvent h
  cases NetState.onReadEvent_cases hc h with
  | deleted r t hr hdel =>
      exact ⟨fun hstop => absurd rfl hstop, fun _ => ⟨_, _, samePeers_receive hc hr, hdel⟩⟩
  | idle r hr => exact ⟨fun _ => samePeers_receive hc hr, fun hstop => by cases hstop⟩
  | crashed r hr => exact ⟨fun _ => samePeers_receive hc hr, fun hstop => by cases hstop⟩
  | dispatched r p hr hp =>
      refine ⟨fun _ => ?_, fun hstop =>
        absurd hstop (ConnectionProfile.dispatch_stop_ne_deleted _ _ _ _ _)⟩
      obtain ⟨_, _, _, hconn, -⟩ := ConnectionProfile.receive_frame hr
      obtain ⟨htype, hfd⟩ := dispatch_peer id s.nextCtx p r.conn
      have huid : (ConnectionProfile.dispatch upgradeApplicationProtocol id s.nextCtx p
          r.conn).conn.uid = r.conn.uid :=
        (dispatch_uid upgradeApplicationProtocol_uid id s.nextCtx p r.conn).1
      exact (SamePeers.setConn hc (huid.trans (by rw [hconn])) (htype.trans (by rw [hconn]))
        (hfd.trans (by rw [hconn]))).trans (SamePeers.allocCtx _ _)

/-- `__OnReadEvent`. -/
theorem netMove_readEvent {cfg : Config} {f : Move} {s t : State} {id : ConnId}
    {outs : List ReadOutcome} (h : s.onReadEvent cfg id outs = some t) :
    NetMove cfg f s.net t.net := by
  unfold State.onReadEvent at h
  split at h
  · rename_i net ctx hread
    have hnet := (read_peers hread).1 (by simp)
    unfold State.handleApplicationPacket at h
    split at h
    · obtain ⟨net', hdel, rfl⟩ := Option.map_eq_some_iff.1 h
      exact .deleted net net' _ hnet hdel
    · cases h
      exact .kept _ hnet
  · rename_i net hread
    cases h
    obtain ⟨u, uid, hpeers, hdel⟩ := (read_peers hread).2 rfl
    exact .deleted u net uid hpeers hdel
  · rename_i net hread
    cases h
    exact .kept _ ((read_peers hread).1 (by simp))
  · cases h
  · cases h

/-- The workers and the clock leave the connections alone. -/
theorem netMove_of_eq {cfg : Config} {f : Move} {s t : NetState} (hmgr : t.mgr = s.mgr)
    (hnext : t.nextConn = s.nextConn) : NetMove cfg f s t :=
  .kept t (SamePeers.of_eq hmgr hnext)

theorem netMove_step {cfg : Config} {s t : State} {e : Event}
    (hstep : State.step cfg s e = some t) : NetMove cfg (.event e) s.net t.net := by
  cases e with
  | accept fd ip port =>
      obtain ⟨net, hnet, rfl⟩ := Option.map_eq_some_iff.1 hstep
      exact netMove_accept hnet
  | readEvent id outs => exact netMove_readEvent hstep
  | writeEvent id ws =>
      obtain ⟨net, hnet, rfl⟩ := Option.map_eq_some_iff.1 hstep
      exact .kept net (SamePeers.of_frame (Undeleted.pending hnet)
        (Frame.trySendPendingPackets hnet))
  | errEvent id =>
      obtain ⟨net, hnet, rfl⟩ := Option.map_eq_some_iff.1 hstep
      unfold onErrEvent at hnet
      split at hnet
      · cases hnet
      · exact .deleted s.net net _ (SamePeers.refl _) hnet
  | clearTimeout =>
      cases hstep
      exact .cleared
  | tick ms =>
      cases hstep
      exact netMove_of_eq rfl rfl
  | take =>
      simp only [State.step, State.takeTask] at hstep
      split at hstep <;> cases hstep
      exact netMove_of_eq rfl rfl
  | check i =>
      simp only [State.step, State.checkTask] at hstep
      split at hstep <;> cases hstep
      exact netMove_of_eq rfl rfl
  | handle i resp =>
      obtain ⟨_, _, -, -, -, -, -, hmgr, hnext, -⟩ := State.handleTask_eq hstep
      exact netMove_of_eq hmgr hnext
  | giveBack i =>
      simp only [State.step, State.giveBackTask] at hstep
      split at hstep
      · split at hstep <;> cases hstep
        exact netMove_of_eq rfl rfl
      · cases hstep
  | handleSend w =>
      simp only [State.step, State.handleSend] at hstep
      split at hstep
      · cases hstep
      · obtain ⟨⟨net, done⟩, hnet, rfl⟩ := Option.map_eq_some_iff.1 hstep
        exact .kept net (SamePeers.of_frame (Undeleted.direct hnet)
          (Frame.trySendAndMarkPendingIfUndone hnet))

/-- `SendHeartbeat`. -/
theorem netMove_heartbeat {cfg : Config} {fd port : Nat} {ip request : Bytes} {w : WriteOutcome}
    {s t : NetState} (hbeat : sendHeartbeat cfg fd ip port request w s = some t) :
    NetMove cfg (.heartbeat fd ip port request w) s t := by
  obtain ⟨net, uid, done, hadd, hc, hsend⟩ := sendHeartbeat_cases hbeat
  have hset : SamePeers net (net.setConn s.nextConn { connectionTo fd ip port s.now uid with
      sendCtxSeq := 2, sendContexts := [s.nextCtx, s.nextCtx + 1] }) :=
    SamePeers.setConn hc rfl rfl rfl
  have hmade : SamePeers net (heartbeatMade fd ip port uid request s net) :=
    (hset.trans (SamePeers.allocCtx _ _)).trans (SamePeers.allocCtx _ _)
  have hsent : SamePeers _ t := SamePeers.of_frame (Undeleted.direct hsend)
    (Frame.trySendAndMarkPendingIfUndone hsend)
  exact .beaten fd ip port request w net t _ rfl hadd (hmade.trans hsent)

/-- **A move** of the server opens a connection for the main thread, deletes
connections, or leaves them as they are. -/
theorem netMove_move {cfg : Config} {s t : State} {f : Move}
    (h : State.move cfg s f = some t) : NetMove cfg f s.net t.net := by
  cases f with
  | event e => exact netMove_step h
  | heartbeat fd ip port request w =>
      obtain ⟨net, hbeat, rfl⟩ := Option.map_eq_some_iff.1 h
      exact netMove_heartbeat hbeat

end Unixtar.WebServer
