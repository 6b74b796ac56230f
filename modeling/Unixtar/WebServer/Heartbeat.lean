import Unixtar.NetworkModel.Deletions
import Unixtar.WebServer.Handshake

/-!
# The heartbeat of the main thread: `WebServer::SendHeartbeat`

`LoopingEpollWait` of the main thread opens a connection to the reverse proxy
on the first network thread, and sends a request on it from there.  The
connection goes into this thread's pool, whatever `max_connections_` and its
descriptor are.  It has no parser, and is closed by the proxy or by
`ClearTimeout`.

What the request says is left to the message library; here it is any bytes.

## Main results

* `sendHeartbeat_cases` — the parts of a heartbeat.
* `pooled_heartbeat` — a heartbeat deletes no connection.
-/

namespace Unixtar.WebServer

open NetState

/-- `SendHeartbeat` whose `Connect` succeeds: a connection, two contexts, and
`request` in the buffer of the second one, which is sent. -/
def sendHeartbeat (cfg : Config) (fd : Nat) (ip : Bytes) (port : Nat) (request : Bytes)
    (w : WriteOutcome) (s : NetState) : Option NetState :=
  match s.makeConnection cfg.vector configApplicationLayer fd ip port with
  | none => none
  | some (net, id) =>
      match net.mgr.conns id with
      | none => none
      | some c =>
          let (c₁, k₁) := c.makeSendContext id net.nextCtx
          let (c₂, k₂) := c₁.makeSendContext id (net.nextCtx + 1)
          let made := (net.setConn id c₂).allocCtx (some k₁)
          let sendCtx := { k₂ with buffer := AutoBuffer.empty.write request }
          ((made.allocCtx (some sendCtx)).trySendAndMarkPendingIfUndone made.nextCtx w).map Prod.fst

/-! ## What it has made when it sends -/

/-- A connection to the proxy, behind `AddConnection`. -/
def connectionTo (fd : Nat) (ip : Bytes) (port now uid : Nat) : ConnectionProfile :=
  { ConnectionProfile.init .kConnectTo fd ip port now with uid }

/-- One of the two contexts. -/
def heartbeatContext (id : ConnId) (uid seq : Nat) (buffer : AutoBuffer) : SendContext :=
  { seq, tcpConnectionUid := uid, owner := id, socket := id, buffer, isTcpConnValid := true }

/-- The thread before the `::write`; `net` is the thread behind
`MakeConnection`. -/
def heartbeatMade (fd : Nat) (ip : Bytes) (port uid : Nat) (request : Bytes)
    (s net : NetState) : NetState :=
  ((net.setConn s.nextConn { connectionTo fd ip port s.now uid with
      sendCtxSeq := 2, sendContexts := [s.nextCtx, s.nextCtx + 1] }).allocCtx
    (some (heartbeatContext s.nextConn uid 1 .empty))).allocCtx
    (some (heartbeatContext s.nextConn uid 2 (AutoBuffer.empty.write request)))

/-- **A heartbeat**: a new connection, two contexts, one `::write`. -/
theorem sendHeartbeat_cases {cfg : Config} {fd port : Nat} {ip request : Bytes} {w : WriteOutcome}
    {s t : NetState} (h : sendHeartbeat cfg fd ip port request w s = some t) :
    ∃ net uid done,
      s.addConnection cfg.vector (.init .kConnectTo fd ip port s.now) =
          some (net, s.nextConn) ∧
        net.mgr.conns s.nextConn = some (connectionTo fd ip port s.now uid) ∧
        (heartbeatMade fd ip port uid request s net).trySendAndMarkPendingIfUndone
          (s.nextCtx + 1) w = some (t, done) := by
  unfold sendHeartbeat at h
  split at h
  · cases h
  · rename_i net id hmake
    have hadd : s.addConnection cfg.vector (.init .kConnectTo fd ip port s.now) =
        some (net, id) := hmake
    obtain ⟨mgr, hmgr, heq⟩ := Option.map_eq_some_iff.1 hadd
    obtain ⟨uid, hconns⟩ := ConnectionManager.addConnection_conns hmgr
    cases heq
    have hc : mgr.conns s.nextConn = some (connectionTo fd ip port s.now uid) := by
      rw [hconns, Function.update_self]
      rfl
    split at h
    · cases h
    · rename_i c hc'
      rw [hc] at hc'
      cases hc'
      obtain ⟨⟨t', done⟩, hsend, rfl⟩ := Option.map_eq_some_iff.1 h
      exact ⟨_, uid, done, hadd, hc, hsend⟩

/-- Neither the contexts nor the `::write` open or delete a connection. -/
theorem undeleted_heartbeat {fd port uid : Nat} {ip request : Bytes} {w : WriteOutcome}
    {s net t : NetState} {x : CtxId} {done : Bool}
    (hc : net.mgr.conns s.nextConn = some (connectionTo fd ip port s.now uid))
    (hsend : (heartbeatMade fd ip port uid request s net).trySendAndMarkPendingIfUndone x w =
      some (t, done)) : Undeleted net t := by
  have hset := Undeleted.setConn (d := { connectionTo fd ip port s.now uid with
    sendCtxSeq := 2, sendContexts := [s.nextCtx, s.nextCtx + 1] }) hc rfl
  exact ((hset.trans (Undeleted.allocCtx _ _)).trans (Undeleted.allocCtx _ _)).trans
    (Undeleted.direct hsend)

/-- **A heartbeat deletes no connection**, and the uids stay apart while they
suffice. -/
theorem pooled_heartbeat {cfg : Config} {fd port : Nat} {ip request : Bytes} {w : WriteOutcome}
    {s t : NetState} (h : Pooled s) (hfits : s.mgr.FitsUid cfg.vector)
    (hbeat : sendHeartbeat cfg fd ip port request w s = some t) : Pooled t ∧ KeepsLive s t := by
  obtain ⟨net, uid, done, hadd, hc, hsend⟩ := sendHeartbeat_cases hbeat
  obtain ⟨hnet, hlive, -⟩ := addConnection_others h hfits hadd
  have hundeleted := undeleted_heartbeat hc hsend
  exact ⟨hundeleted.pooled hnet, hlive.trans hundeleted.keepsLive⟩

/-! ## The packets -/

theorem addConnection_nextCtx {v : VectorImpl} {s t : NetState} {c : ConnectionProfile}
    {id : ConnId} (hadd : s.addConnection v c = some (t, id)) : t.nextCtx = s.nextCtx := by
  obtain ⟨mgr, -, heq⟩ := Option.map_eq_some_iff.1 hadd
  cases heq
  rfl

theorem heartbeat_nextCtx {cfg : Config} {fd port : Nat} {ip request : Bytes} {w : WriteOutcome}
    {s t : NetState} (hbeat : sendHeartbeat cfg fd ip port request w s = some t) :
    s.nextCtx ≤ t.nextCtx := by
  obtain ⟨net, uid, done, hadd, -, hsend⟩ := sendHeartbeat_cases hbeat
  rw [(Frame.trySendAndMarkPendingIfUndone hsend).nextCtx]
  show s.nextCtx ≤ net.nextCtx + 1 + 1
  rw [addConnection_nextCtx hadd]
  exact Nat.le_succ_of_le (Nat.le_succ _)

/-- The connection of a heartbeat passes nothing on. -/
theorem recorded_heartbeat {cfg : Config} {fd port : Nat} {ip request : Bytes}
    {w : WriteOutcome} {s : State} {net : NetState} (h : s.Recorded)
    (hbeat : sendHeartbeat cfg fd ip port request w s.net = some net) :
    ({ s with net } : State).Recorded := by
  obtain ⟨net₀, uid, done, hadd, hc, hsend⟩ := sendHeartbeat_cases hbeat
  have hsilent : ∀ uid, State.FramesMarked (connectionTo fd ip port s.net.now uid) := by
    intro uid
    refine ⟨Or.inr rfl, ?_⟩
    intro p hp
    cases hp
  have hadded := State.upgrades_addConnection h.upgrades hsilent hadd
  have hset := hadded.setConn (d := { connectionTo fd ip port s.net.now uid with
    sendCtxSeq := 2, sendContexts := [s.net.nextCtx, s.net.nextCtx + 1] }) hc
    ⟨Or.inr rfl, (hsilent uid).marked⟩ (fun hreads => hreads)
  have hframe := Frame.trySendAndMarkPendingIfUndone hsend
  have hmade : State.Upgrades (heartbeatMade fd ip port uid request s.net net₀) s.queued :=
    ⟨hset.conns, hset.upgraded, hset.unique⟩
  exact h.ofNet (hmade.ofFrame hframe) (heartbeat_nextCtx hbeat)

end Unixtar.WebServer
