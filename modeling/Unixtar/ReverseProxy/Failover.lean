import Unixtar.ReverseProxy.Heartbeat
import Unixtar.ReverseProxy.OneResponse

/-!
# Failover

`HandleHttpRequest` is meant to ask the load balancer for web servers until
one accepts the connection, and to answer with a 500 reply when there is none.
Its first refused connection ends it: the log line behind a failed
`MakeConnection` follows the null pointer, so that `ReportWebServerDown` and
the next round are not reached.

## Main results

* `handleBalanced_eq_some` — the handler ends with the web server picked
  first.
* `requested_of_readEvent` — the requests that come from the clients of a run.
* `forwarded_of_takesPlace` — behind a connection that is accepted, the request
  goes to that web server.
* `failsOver_iff_firstAccepts` — the request is answered as it should be
  exactly when some web server of positive weight accepts, the one picked first
  does, and the pool has a place for the connection.
-/

namespace Unixtar.ReverseProxy

open Unixtar.Http
open Unixtar.Lib.RoundRobin
open ConnectionManager LoadBalancer NetState

/-- What one call of `HandleHttpRequest` does, with the thread behind it. -/
inductive Handling
  | heartbeat (t : Option State)
  /-- `HandleForwardFailed` was called -/
  | failed (t : Option State)
  /-- a null pointer was dereferenced, that of the connection or of the body -/
  | nullPointer
  /-- the request went to the web server at this place -/
  | forwarded (i : Nat) (t : Option State)

namespace State

/-- What the loop of `HandleHttpRequest` makes of the web server that
`LoadBalance` returns.  `Connect` is tried three times, with one answer. -/
def tryForward (cfg : Config) (accepts : Nat → Bool) (fd : Nat) (ctx : RecvContext)
    (w : WriteOutcome) (lb : LoadBalancer) (s : State) : Option Nat → Handling
  | none => .failed (s.handleHttpRequest cfg ctx .noServer w)
  | some i =>
      match lb.webServers[i]? with
      | none => .nullPointer
      | some host =>
          if accepts i then
            .forwarded i (s.handleHttpRequest cfg ctx (.connected fd host.ip host.port) w)
          else .nullPointer

/-- `HandleHttpRequest` with the load balancer: `accepts` says which web
servers accept a connection, and `fd` is the descriptor of the new one. -/
def handleBalanced (cfg : Config) (env : Surroundings) (accepts : Nat → Bool) (fd fuel : Nat)
    (ctx : RecvContext) (w : WriteOutcome) (lb : LoadBalancer) (s : State) :
    Option (LoadBalancer × Handling) :=
  match findHeartbeat cfg ctx with
  | none => some (lb, .nullPointer)
  | some (some (i, backlog)) =>
      some (lb.onRecvHeartbeat (env.clock 0) i backlog.toNat,
        .heartbeat (s.handleHttpRequest cfg ctx .noServer w))
  | some none =>
      match select env fuel ctx.fromIp lb with
      | none => none
      | some (lb, host) => some (lb, s.tryForward cfg accepts fd ctx w lb host)

end State

/-! ## The property -/

/-- Some web server of positive weight accepts connections. -/
def AcceptingServer (accepts : Nat → Bool) (lb : LoadBalancer) : Prop :=
  ∃ i svr, lb.webServers[i]? = some svr ∧ 0 < svr.weight ∧ accepts i = true

/-- A request that a read event has passed on: the client is in its slot, and the
bytes of the request are in its array. -/
structure Requested (s : State) (ctx : RecvContext) (request : Bytes) : Prop where
  slot : s.net.mgr.getConnection ctx.tcpConnectionUid = some (some ctx.conn)
  array : s.net.arrayOf ctx.conn = some request
  nonempty : request ≠ []
  size_le : s.net.mgr.pool.length ≤ s.net.mgr.capacity
  conn_lt : ctx.conn < s.net.nextConn

/-- The bytes are put into the buffer of `x`, a context of the connection `id`,
one `::write` to its socket takes what it can, and the rest waits. -/
structure Sends (x : CtxId) (id : ConnId) (bytes : Bytes) (w : WriteOutcome) (s t : NetState) :
    Prop where
  packet : ∃ k, t.ctxs x = some k ∧ k.owner = id ∧ k.socket = id ∧ k.buffer.bytes = bytes ∧
    k.buffer.pos = w.count
  write : t.writes = s.writes ++ [⟨x, id, id, true, 0, w.count⟩]
  rest : w.count ≠ bytes.length → ∃ c, t.mgr.conns id = some c ∧ x ∈ c.pendingSendCtx

/-- The request goes to the web server `host`: through a new connection to it,
with an entry for the client in `conn_map_`. -/
structure Forwards (ctx : RecvContext) (host : WebServerProfile) (fd : Nat) (request : Bytes)
    (w : WriteOutcome) (s t : State) : Prop where
  sends : Sends s.net.nextCtx s.net.nextConn request w s.net t.net
  connected : ∃ c, t.net.mgr.conns s.net.nextConn = some c ∧ c.type = .kConnectTo ∧ c.fd = fd ∧
    c.remoteIp = host.ip ∧ c.remotePort = host.port ∧
    t.connMap c.uid = some ⟨ctx.tcpConnectionUid, ctx.returnPacket⟩

/-- The reply of `HandleForwardFailed`. -/
def forwardFailedReply : Bytes :=
  Response.pack .kHTTP_1_1 500 StatusLine.kStatusDescOk []
    (some (lit "Internal Server Error: Reverse Proxy Error"))

/-- The client gets the 500 reply. -/
def Replies (ctx : RecvContext) (w : WriteOutcome) (s t : State) : Prop :=
  ∃ x, ctx.returnPacket = some x ∧ Sends x ctx.conn forwardFailedReply w s.net t.net

/-- The handler returns, without the null pointer: the request is forwarded
to a web server that accepts if there is one of positive weight, and answered
with the 500 reply otherwise. -/
def FailsOver (cfg : Config) (env : Surroundings) (accepts : Nat → Bool) (fd : Nat)
    (ctx : RecvContext) (request : Bytes) (w : WriteOutcome) (lb : LoadBalancer) (s : State) :
    Prop :=
  ∃ fuel lb' handling,
    s.handleBalanced cfg env accepts fd fuel ctx w lb = some (lb', handling) ∧
      (AcceptingServer accepts lb → ∃ i host t, accepts i = true ∧
        lb.webServers[i]? = some host ∧ handling = .forwarded i (some t) ∧
        Forwards ctx host.toWebServerProfile fd request w s t) ∧
      (¬ AcceptingServer accepts lb → ∃ t, handling = .failed (some t) ∧ Replies ctx w s t)

/-- The web server picked first accepts connections. -/
def FirstAccepts (env : Surroundings) (accepts : Nat → Bool) (ip : Bytes)
    (lb : LoadBalancer) : Prop :=
  ∃ i, Picks env ip lb i ∧ accepts i = true

/-- The next uid is a place of `pool_`, and not the client's. -/
def TakesPlace (v : VectorImpl) (m : ConnectionManager) (clientUid : Nat) : Prop :=
  ∃ uid, m.nextUid v = some uid ∧ uid < (m.checkCapacity v).pool.length ∧ uid ≠ clientUid

/-! ## A connection that is accepted -/

section

variable {cfg : Config} {env : Surroundings} {accepts : Nat → Bool} {fd : Nat}
  {ctx : RecvContext} {request : Bytes} {w : WriteOutcome} {lb : LoadBalancer} {s : State}
  {host : WebServerProfile}

/-- A read event that passes a request on leaves the client in its slot, in every
run whose uids fit. -/
theorem requested_of_readEvent {handled : CtxId → List Bytes} {net : NetState} {id : ConnId}
    {outs : List ReadOutcome} (h : Relay.Once s handled)
    (hread : s.net.onReadEvent upgradeApplicationProtocol id outs = some (net, .dispatched ctx)) :
    ∃ request, net.arrayOf ctx.conn = some request ∧
      (request ≠ [] → Requested { s with net } ctx request) := by
  obtain ⟨hstays, hpassed⟩ := Relay.stays_onReadEvent hread
  obtain ⟨d, hmgr, hconn, -, huid⟩ := hpassed ctx rfl
  have hd : net.mgr.conns ctx.conn = some d := by
    rw [hmgr, hconn]
    exact Function.update_self _ _ _
  have hdistinct := hstays.distinct h.distinct
  have harray : net.arrayOf ctx.conn = some d.tcpByteArr := by
    unfold arrayOf
    rw [hd]
    rfl
  refine ⟨d.tcpByteArr, harray, fun hne => ⟨?_, harray, hne, hdistinct.size_le, ?_⟩⟩
  · rw [huid]
    exact hdistinct.getConnection hd
  · obtain ⟨c, hc, -⟩ := hstays.conns ctx.conn d hd
    show ctx.conn < net.nextConn
    rw [hstays.nextConn]
    exact h.conn_lt ctx.conn c hc

/-- What `trySendAndMarkPendingIfUndone` makes of a buffer that has just been
filled. -/
theorem sends_of_filled {s : NetState} {x : CtxId} {id : ConnId} {k : SendContext}
    {c : ConnectionProfile} {bytes : Bytes} (hk : s.ctxs x = some k)
    (hvalid : k.isTcpConnValid = true) (howner : k.owner = id) (hsocket : k.socket = id)
    (hbytes : k.buffer.bytes = bytes) (hpos : k.buffer.pos = 0) (hc : s.mgr.conns id = some c)
    (hne : bytes ≠ []) (hfits : w.Fits bytes.length) :
    ∃ t done, s.trySendAndMarkPendingIfUndone x w = some (t, done) ∧
      Sends x id bytes w s t ∧ ∃ timeoutTs sendContexts pendingSendCtx,
        t.mgr.conns id = some { c with timeoutTs, sendContexts, pendingSendCtx } := by
  subst hbytes
  subst howner
  have hlength : 0 < k.buffer.bytes.length := List.length_pos_of_ne_nil hne
  have hntotal : k.buffer.ntotal = k.buffer.bytes.length := by
    unfold AutoBuffer.ntotal
    rw [hpos, Nat.sub_zero]
  have hfits' : w.Fits k.buffer.ntotal := hntotal ▸ hfits
  obtain ⟨hbuffer, hall⟩ := send_of_pos (b := k.buffer) (w := w) (hpos ▸ hlength) hfits'
  rw [hpos, Nat.zero_add] at hbuffer
  obtain ⟨u, htry⟩ : ∃ u, s.trySend x w = some (u, (send k.buffer w).2) := by
    unfold trySend
    simp only [hk, hfits', if_true]
    exact ⟨_, rfl⟩
  obtain ⟨m, hm, -, -, hctxs, hwrites, -, hmgr, -⟩ := trySend_cases htry
  rw [hk] at hm
  cases hm
  rw [if_neg (by omega), hsocket, hpos, isLive_of_conns hc] at hwrites
  have hctx : u.ctxs x = some { k with buffer := (send k.buffer w).1 } := by
    rw [hctxs, Function.update_self]
  have hpacket : ∃ m, u.ctxs x = some m ∧ m.owner = k.owner ∧ m.socket = k.owner ∧
      m.buffer.bytes = k.buffer.bytes ∧ m.buffer.pos = w.count := by
    refine ⟨_, hctx, rfl, hsocket, ?_, ?_⟩
    · rw [hbuffer]
    · rw [hbuffer]
  rw [← hmgr] at hc
  unfold trySendAndMarkPendingIfUndone
  simp only [hk, hvalid, if_true, htry]
  cases hdone : (send k.buffer w).2 with
  | true =>
      refine ⟨_, _, rfl, ⟨?_, ?_, fun hpart => ?_⟩, ?_⟩
      · rw [onSendDone_ctxs]
        exact hpacket
      · rw [onSendDone_writes]
        exact hwrites
      · exact absurd ((hall.1 hdone).trans hntotal) hpart
      · obtain ⟨timeoutTs, sendContexts, heq, -⟩ := onSendDone_eq hctx hc
        rw [heq]
        exact ⟨timeoutTs, sendContexts, c.pendingSendCtx, Function.update_self _ _ _⟩
  | false =>
      have hmark := markAsPendingPacket_eq hctx hc
      refine ⟨_, _, rfl, ⟨?_, ?_, fun _ => ?_⟩, ?_⟩
      · rw [markAsPendingPacket_ctxs]
        exact hpacket
      · rw [markAsPendingPacket_writes]
        exact hwrites
      · rw [hmark]
        exact ⟨_, Function.update_self _ _ _, List.mem_append_right _ List.mem_cons_self⟩
      · rw [hmark]
        exact ⟨c.timeoutTs, c.sendContexts, c.pendingSendCtx ++ [x], Function.update_self _ _ _⟩

/-- The thread behind `MakeConnection`. -/
theorem makeConnection_cases {net : NetState} {id : ConnId}
    (h : s.net.makeConnection cfg.vector configApplicationLayer fd host.ip host.port =
      some (net, id)) :
    ∃ uid, id = s.net.nextConn ∧ s.net.mgr.nextUid cfg.vector = some uid ∧
      uid < (s.net.mgr.checkCapacity cfg.vector).pool.length ∧
      net.mgr.conns = Function.update s.net.mgr.conns id
        (some { configApplicationLayer (.init .kConnectTo fd host.ip host.port s.net.now) with
          uid }) ∧
      s.net.mgr.addConnection cfg.vector id
        (configApplicationLayer (.init .kConnectTo fd host.ip host.port s.net.now)) =
        some net.mgr ∧
      net.ctxs = s.net.ctxs ∧ net.nextCtx = s.net.nextCtx ∧ net.writes = s.net.writes := by
  obtain ⟨mgr, hadd, heq⟩ := Option.map_eq_some_iff.1 h
  cases heq
  obtain ⟨uid, hnext, hlt, -, -, hconns⟩ := addConnection_cases hadd
  exact ⟨uid, rfl, hnext, hlt, hconns, hadd, rfl, rfl, rfl⟩

/-- Whose array `HandleHttpRequest` forwards, behind `MakeConnection`. -/
theorem Requested.slot_makeConnection {net : NetState} {id : ConnId}
    (hrequest : Requested s ctx request)
    (h : s.net.makeConnection cfg.vector configApplicationLayer fd host.ip host.port =
      some (net, id)) :
    net.mgr.getConnection ctx.tcpConnectionUid = some (some
      (if s.net.mgr.nextUid cfg.vector = some ctx.tcpConnectionUid then id else ctx.conn)) := by
  obtain ⟨uid, -, -, -, -, hadd, -⟩ := makeConnection_cases h
  exact getConnection_addConnection hrequest.size_le hrequest.slot hadd

/-- **The request goes to the web server**, if the new connection takes a place
of its own. -/
theorem forwarded_of_takesPlace (fd : Nat) (host : WebServerProfile)
    (hbeat : checkHeartbeat cfg ctx = some false) (hrequest : Requested s ctx request)
    (hw : w.Fits request.length)
    (hplace : TakesPlace cfg.vector s.net.mgr ctx.tcpConnectionUid) :
    ∃ t, s.handleHttpRequest cfg ctx (.connected fd host.ip host.port) w = some t ∧
      Forwards ctx host fd request w s t := by
  obtain ⟨uid, hnext, hlt, hother⟩ := hplace
  obtain ⟨mgr, hadd⟩ := exists_addConnection s.net.nextConn
    (configApplicationLayer (.init .kConnectTo fd host.ip host.port s.net.now)) hnext hlt
  have hmake : s.net.makeConnection cfg.vector configApplicationLayer fd host.ip host.port =
      some ({ s.net with mgr, nextConn := s.net.nextConn + 1 }, s.net.nextConn) := by
    unfold makeConnection NetState.addConnection
    rw [hadd]
    rfl
  have hslot := hrequest.slot_makeConnection hmake
  rw [hnext, if_neg (fun h => hother (Option.some.inj h))] at hslot
  obtain ⟨uid', -, hnext', -, hconns, -⟩ := makeConnection_cases hmake
  rw [hnext] at hnext'
  cases hnext'
  generalize hnet : ({ s.net with mgr, nextConn := s.net.nextConn + 1 } : NetState) = net
    at hmake hslot hconns
  generalize hprofile : ({ configApplicationLayer
    (.init .kConnectTo fd host.ip host.port s.net.now) with uid } : ConnectionProfile) = c
    at hconns
  have hc : net.mgr.conns s.net.nextConn = some c := by
    rw [hconns, Function.update_self]
  have harray : tcpByteArray net ctx.tcpConnectionUid = some (ctx.conn, request) := by
    obtain ⟨d, hd, hbytes⟩ := Option.map_eq_some_iff.1 hrequest.array
    have hclient : net.mgr.conns ctx.conn = some d := by
      rw [hconns, Function.update_of_ne (Nat.ne_of_lt hrequest.conn_lt)]
      exact hd
    unfold tcpByteArray
    simp only [hslot, hclient, Option.map_some, hbytes]
  -- the context of the new connection, filled with the request
  generalize hk : ({ (c.makeSendContext s.net.nextConn s.net.nextCtx).2 with
    buffer := (c.makeSendContext s.net.nextConn s.net.nextCtx).2.buffer.shallowCopyFrom ctx.conn
      request } : SendContext) = k
  generalize hfilled : (net.setConn s.net.nextConn
    (c.makeSendContext s.net.nextConn s.net.nextCtx).1).allocCtx (some k) = filled
  have hnextCtx : net.nextCtx = s.net.nextCtx := by rw [← hnet]
  have hctxs : filled.ctxs s.net.nextCtx = some k := by
    rw [← hfilled, ← hnextCtx]
    exact Function.update_self _ _ _
  have hconn : filled.mgr.conns s.net.nextConn =
      some (c.makeSendContext s.net.nextConn s.net.nextCtx).1 := by
    rw [← hfilled]
    exact Function.update_self _ _ _
  have hwrites : filled.writes = s.net.writes := by
    rw [← hfilled, ← hnet]
    rfl
  obtain ⟨t, done, hsend, hsends, timeoutTs, sendContexts, pendingSendCtx, hbehind⟩ :=
    sends_of_filled hctxs (by rw [← hk]; rfl) (by rw [← hk]; rfl)
      (by rw [← hk]; rfl) (by rw [← hk]; rfl) (by rw [← hk]; rfl) hconn
      hrequest.nonempty hw
  refine ⟨{ s with
    net := t
    connMap := Function.update s.connMap c.uid (some ⟨ctx.tcpConnectionUid, ctx.returnPacket⟩)
    opened := Function.update s.opened s.net.nextConn
      (some ⟨ctx.conn, ⟨ctx.tcpConnectionUid, ctx.returnPacket⟩⟩) }, ?_, ?_, ?_⟩
  · unfold State.handleHttpRequest
    simp only [hbeat, hmake]
    unfold State.forwardTo
    simp only [hc, harray, hnextCtx, hk, hfilled, hsend, Option.map_some]
  · refine ⟨hsends.packet, ?_, hsends.rest⟩
    rw [← hwrites]
    exact hsends.write
  · refine ⟨_, hbehind, ?_, ?_, ?_, ?_, ?_⟩
    · rw [← hprofile]
      rfl
    · rw [← hprofile]
      rfl
    · rw [← hprofile]
      rfl
    · rw [← hprofile]
      rfl
    · exact Function.update_self _ _ _

/-- What is forwarded otherwise is not the request: the new connection has
taken the client's place, and its own array is empty. -/
theorem takesPlace_of_forwarded {t : State} (hbeat : checkHeartbeat cfg ctx = some false)
    (hrequest : Requested s ctx request)
    (h : s.handleHttpRequest cfg ctx (.connected fd host.ip host.port) w = some t)
    (hforwards : Forwards ctx host fd request w s t) :
    TakesPlace cfg.vector s.net.mgr ctx.tcpConnectionUid := by
  unfold State.handleHttpRequest at h
  simp only [hbeat] at h
  split at h
  · cases h
  · rename_i net id hmake
    have hslot := hrequest.slot_makeConnection hmake
    obtain ⟨uid, hid, hnext, hlt, hconns, -, -, hnextCtx, -⟩ := makeConnection_cases hmake
    refine ⟨uid, hnext, hlt, ?_⟩
    rintro rfl
    rw [if_pos hnext] at hslot
    have hconn : net.mgr.conns id = some { configApplicationLayer
        (.init .kConnectTo fd host.ip host.port s.net.now) with uid := ctx.tcpConnectionUid } := by
      rw [hconns, Function.update_self]
    have harray : tcpByteArray net ctx.tcpConnectionUid = some (id, []) := by
      unfold tcpByteArray
      simp only [hslot, hconn, Option.map_some]
      rfl
    unfold State.forwardTo at h
    simp only [hconn, harray] at h
    obtain ⟨⟨net', done⟩, hsend, rfl⟩ := Option.map_eq_some_iff.1 h
    obtain ⟨k, hk, -, -, hbytes, -⟩ := hforwards.sends.packet
    -- sending does not change the bytes
    obtain ⟨k', hk', hbytes'⟩ := (holds_closed net.nextCtx []).direct (l := []) hsend
      ⟨_, Function.update_self _ _ _, rfl⟩
    replace hk : net'.ctxs s.net.nextCtx = some k := hk
    rw [← hnextCtx, hk'] at hk
    cases hk
    apply hrequest.nonempty
    rw [← hbytes, hbytes']

/-! ## What the handler does -/

/-- **The handler** ends with the web server picked first: it forwards the
request to it, or follows the null pointer. -/
theorem handleBalanced_eq_some {fuel : Nat} {lb' : LoadBalancer} {handling : Handling}
    (hne : lb.webServers ≠ []) (hbeat : checkHeartbeat cfg ctx = some false)
    (h : s.handleBalanced cfg env accepts fd fuel ctx w lb = some (lb', handling)) :
    ∃ i, Picks env ctx.fromIp lb i ∧
      ((accepts i = true ∧ ∃ host, lb.webServers[i]? = some host ∧
          handling = .forwarded i
            (s.handleHttpRequest cfg ctx (.connected fd host.ip host.port) w)) ∨
        (accepts i = false ∧ handling = .nullPointer)) := by
  unfold State.handleBalanced at h
  simp only [findHeartbeat_eq_none_iff.2 hbeat] at h
  cases hselect : select env fuel ctx.fromIp lb with
  | none =>
      simp only [hselect] at h
      cases h
  | some r =>
      obtain ⟨found, host⟩ := r
      simp only [hselect] at h
      obtain ⟨i, rfl⟩ := select_ne_null hne hselect
      have hpicks := (exists_select_iff hne).1 ⟨fuel, found, hselect⟩
      have hlt := hpicks.lt hne
      -- the address and the port are those of the list before `Select`
      have hprofile := select_profiles hne hselect i
      rw [List.getElem?_eq_getElem hlt, Option.map_some] at hprofile
      obtain ⟨svr, hsvr, hsame⟩ := Option.map_eq_some_iff.1 hprofile
      refine ⟨i, hpicks, ?_⟩
      simp only [Option.some.injEq, Prod.mk.injEq] at h
      rw [← h.2]
      unfold State.tryForward
      simp only [hsvr]
      cases haccepts : accepts i with
      | true =>
          left
          refine ⟨rfl, _, List.getElem?_eq_getElem hlt, ?_⟩
          rw [if_pos rfl, hsame]
      | false => exact Or.inr ⟨rfl, rfl⟩

/-- The handler returns when a rule picks a web server. -/
theorem exists_handleBalanced {i : Nat} (hne : lb.webServers ≠ [])
    (hbeat : checkHeartbeat cfg ctx = some false) (hpicks : Picks env ctx.fromIp lb i) :
    ∃ fuel lb' handling,
      s.handleBalanced cfg env accepts fd fuel ctx w lb = some (lb', handling) := by
  obtain ⟨fuel, lb', hselect⟩ := (exists_select_iff hne).2 hpicks
  refine ⟨fuel, lb', s.tryForward cfg accepts fd ctx w lb' (some i), ?_⟩
  unfold State.handleBalanced
  simp only [findHeartbeat_eq_none_iff.2 hbeat, hselect]

end

/-! ## Main theorem -/

/-- **A request is failed over** exactly when some web server of positive
weight accepts connections, the one that the load balancer picks first accepts,
and `AddConnection` has a place for its connection. -/
theorem failsOver_iff_firstAccepts (cfg : Config) (env : Surroundings) (accepts : Nat → Bool)
    (fd : Nat) (ctx : RecvContext) (request : Bytes) (w : WriteOutcome) (lb : LoadBalancer)
    (s : State) (hne : lb.webServers ≠ []) (hbeat : checkHeartbeat cfg ctx = some false)
    (hrequest : Requested s ctx request) (hw : w.Fits request.length) :
    FailsOver cfg env accepts fd ctx request w lb s ↔
      AcceptingServer accepts lb ∧ FirstAccepts env accepts ctx.fromIp lb ∧
        TakesPlace cfg.vector s.net.mgr ctx.tcpConnectionUid := by
  constructor
  · rintro ⟨fuel, lb', handling, hrun, hforward, hfailed⟩
    obtain ⟨i, hpicks, hcase⟩ := handleBalanced_eq_some hne hbeat hrun
    have hserver : AcceptingServer accepts lb := by
      by_contra hno
      obtain ⟨u, hu, -⟩ := hfailed hno
      rcases hcase with ⟨-, host, -, rfl⟩ | ⟨-, rfl⟩ <;> cases hu
    obtain ⟨j, host, t, -, hhost, hhandling, hforwards⟩ := hforward hserver
    rcases hcase with ⟨hi, host', hhost', rfl⟩ | ⟨-, rfl⟩
    · obtain ⟨rfl, hstep⟩ := Handling.forwarded.inj hhandling
      rw [hhost] at hhost'
      cases hhost'
      exact ⟨hserver, ⟨i, hpicks, hi⟩,
        takesPlace_of_forwarded hbeat hrequest hstep hforwards⟩
    · cases hhandling
  · rintro ⟨hserver, ⟨i, hpicks, hi⟩, hplace⟩
    obtain ⟨fuel, lb', handling, hrun⟩ := exists_handleBalanced hne hbeat hpicks
    refine ⟨fuel, lb', handling, hrun, ?_, fun hno => absurd hserver hno⟩
    intro _
    obtain ⟨j, hpicks', hcase⟩ := handleBalanced_eq_some hne hbeat hrun
    have hji : j = i := hpicks'.unique hpicks
    rcases hcase with ⟨hj, host, hhost, rfl⟩ | ⟨hj, -⟩
    · obtain ⟨t, ht, hforwards⟩ :=
        forwarded_of_takesPlace fd host.toWebServerProfile hbeat hrequest hw hplace
      exact ⟨j, host, t, hj, hhost, by rw [ht], hforwards⟩
    · rw [hji, hi] at hj
      cases hj

/-! ## A refused connection -/

def sampleSurroundings : Surroundings :=
  { clock := fun _ => 1000, random := 0, inetPton := fun _ => none }

def oneClient : Config :=
  { vector := .libstdcxx, maxConnections := 1024, webservers := [],
    parseFromArray := fun _ _ => ⟨none, none⟩ }

/-- A thread with one client, whose request is complete, and the request. -/
def sampleRequest : Option (State × RecvContext × Bytes) :=
  let s := State.init oneClient
  match s.net.registerConnection oneClient.vector 1024 configApplicationLayer 7 (lit "10.0.0.1")
      4000 with
  | none => none
  | some net =>
      match net.onReadEvent upgradeApplicationProtocol 0
          [ConnectionProfile.getRequest] with
      | some (net, .dispatched ctx) =>
          some ({ s with net }, ctx, ConnectionProfile.getRequest.bytes)
      | _ => none

/-- What the two runs below have in common. -/
theorem sampleRequest_requested :
    ∃ p ∈ sampleRequest, checkHeartbeat oneClient p.2.1 = some false ∧
      Requested p.1 p.2.1 p.2.2 ∧ (WriteOutcome.wrote 24).Fits p.2.2.length ∧
      p.1.net.mgr.nextUid .libstdcxx = some 2 ∧
      2 < (p.1.net.mgr.checkCapacity .libstdcxx).pool.length ∧ p.2.1.tcpConnectionUid = 1 := by
  obtain ⟨p, hp, hbeat, hslot, harray, hne, hsize, hlt, hrest⟩ :
      ∃ p ∈ sampleRequest, checkHeartbeat oneClient p.2.1 = some false ∧
        p.1.net.mgr.getConnection p.2.1.tcpConnectionUid = some (some p.2.1.conn) ∧
        p.1.net.arrayOf p.2.1.conn = some p.2.2 ∧ p.2.2 ≠ [] ∧
        p.1.net.mgr.pool.length ≤ p.1.net.mgr.capacity ∧ p.2.1.conn < p.1.net.nextConn ∧
        (WriteOutcome.wrote 24).Fits p.2.2.length ∧
        p.1.net.mgr.nextUid .libstdcxx = some 2 ∧
        2 < (p.1.net.mgr.checkCapacity .libstdcxx).pool.length ∧ p.2.1.tcpConnectionUid = 1 := by
    decide +kernel
  exact ⟨p, hp, hbeat, ⟨hslot, harray, hne, hsize, hlt⟩, hrest⟩

theorem stopsAt_twoServers : StopsAt sampleSurroundings.clock twoServers 0 :=
  (stopsAt_zero rfl).2 (by decide)

/-- The web server that has its turn accepts. -/
theorem failsOver_twoServers :
    ∃ p ∈ sampleRequest,
      FailsOver oneClient sampleSurroundings (fun i => i == 1) 8 p.2.1 p.2.2 (.wrote 24)
        twoServers p.1 := by
  obtain ⟨p, hp, hbeat, hrequest, hw, hnext, hlt, huid⟩ := sampleRequest_requested
  refine ⟨p, hp, (failsOver_iff_firstAccepts _ _ _ _ _ _ _ _ _ (by simp [twoServers]) hbeat
    hrequest hw).2 ⟨⟨1, _, rfl, by decide, rfl⟩, ⟨1, ⟨0, stopsAt_twoServers, rfl⟩, rfl⟩, 2,
    hnext, hlt, ?_⟩⟩
  rw [huid]
  decide

/-- The first web server accepts, but the second one has its turn. -/
theorem not_failsOver_twoServers :
    ∃ p ∈ sampleRequest, checkHeartbeat oneClient p.2.1 = some false ∧
      Requested p.1 p.2.1 p.2.2 ∧ AcceptingServer (fun i => i == 0) twoServers ∧
      ¬ FailsOver oneClient sampleSurroundings (fun i => i == 0) 8 p.2.1 p.2.2 (.wrote 24)
        twoServers p.1 := by
  obtain ⟨p, hp, hbeat, hrequest, -⟩ := sampleRequest_requested
  have hserver : AcceptingServer (fun i => i == 0) twoServers :=
    ⟨0, _, rfl, by decide, rfl⟩
  refine ⟨p, hp, hbeat, hrequest, hserver, ?_⟩
  rintro ⟨fuel, lb', handling, hrun, hforward, -⟩
  obtain ⟨i, hpicks, hcase⟩ := handleBalanced_eq_some (by simp [twoServers]) hbeat hrun
  have hi : i = 1 := hpicks.unique ⟨0, stopsAt_twoServers, rfl⟩
  obtain ⟨j, host, t, -, -, ht, -⟩ := hforward hserver
  rcases hcase with ⟨haccepts, -⟩ | ⟨-, hnull⟩
  · rw [hi] at haccepts
    cases haccepts
  · rw [hnull] at ht
    cases ht

end Unixtar.ReverseProxy
