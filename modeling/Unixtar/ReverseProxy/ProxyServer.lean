import Unixtar.NetworkModel.Uids

/-!
# The reverse proxy: `reverseproxy/proxyserver.cc`

One `ReverseProxyServer::NetThread`.  A request from a client opens a
connection to a web server, and `conn_map_` remembers under its uid for whom;
the response is sent back through the return packet found there.

The load balancer is shared by all network threads, so which web server it
selects, and whether the connection succeeds, is an argument.  A connection
that fails ends the run: the log line behind it follows the null pointer.
The heartbeat message is read by generated code, which is a parameter.  What
a heartbeat does to the load balancer stands in `ReverseProxy/Heartbeat.lean`.

`opened` lists what `HandleHttpRequest` wrote for each connection to a web
server, and `responses` what `HandleHttpResponse` found and did.  No code
looks at these two.
-/

namespace Unixtar.ReverseProxy

open Unixtar.Http

/-! ## The state -/

/-- A web server of the configuration. -/
structure WebServerProfile where
  ip : Bytes
  port : Nat

/-- `NetSceneSvrHeartbeatReq`. -/
structure HeartbeatReq where
  port : Option UInt32
  requestBacklog : Option UInt32

/-- The configuration, the vector of the connection pool, and what
`ParseFromArray` makes of some bytes and their length. -/
structure Config where
  vector : VectorImpl
  maxConnections : Nat
  webservers : List WebServerProfile
  parseFromArray : Bytes → Int → HeartbeatReq

/-- A pair in `conn_map_`: the client's uid and its return packet. -/
structure Entry where
  clientUid : Nat
  returnPacket : Option CtxId
deriving DecidableEq

/-- The pair that `operator[]` makes. -/
def Entry.default : Entry := ⟨0, none⟩

/-- Whose request was forwarded, and the entry written for it. -/
structure Opened where
  client : ConnId
  entry : Entry
deriving DecidableEq

/-- What `HandleHttpResponse` did. -/
inductive Answer
  /-- an assertion failed, or there was no return packet -/
  | aborted
  /-- the client's slot was empty -/
  | clientGone
  /-- `TrySendAndMarkPendingIfUndone` found an invalid return packet -/
  | skipped
  /-- it sent the return packet to this connection's socket -/
  | sent (x : CtxId) (socket : ConnId)
deriving DecidableEq

/-- One call of `HandleHttpResponse`: on which connection, what it found,
whether the client whose request was forwarded was live, and what it did. -/
structure Routed where
  webserver : ConnId
  found : Entry
  clientLive : Bool
  answer : Answer
deriving DecidableEq

/-- The network thread with its `conn_map_`. -/
structure State where
  net : NetState
  connMap : Nat → Option Entry
  opened : ConnId → Option Opened
  responses : List Routed
  aborted : Bool

/-- What becomes of a request that is to be forwarded. -/
inductive Forward
  /-- the load balancer knows no web server -/
  | noServer
  /-- `MakeConnection` returns a null pointer -/
  | connectFailed
  | connected (fd : Nat) (ip : Bytes) (port : Nat)

/-- The events.  `forward` is used if a request is complete; `w` is the
outcome of the write that handling a packet issues. -/
inductive Event
  | accept (fd : Nat) (ip : Bytes) (port : Nat)
  | readEvent (id : ConnId) (outs : List ReadOutcome) (forward : Forward) (w : WriteOutcome)
  | writeEvent (id : ConnId) (ws : List WriteOutcome)
  | errEvent (id : ConnId)
  | clearTimeout
  /-- time passes -/
  | tick (ms : Nat)

/-! ## The application layer -/

/-- `ConfigApplicationLayer`. -/
def configApplicationLayer (c : ConnectionProfile) : ConnectionProfile :=
  match c.type with
  | .kAcceptFrom => c.config (.request Request.Parser.fresh)
  | .kConnectTo => c.config (.response Response.Parser.fresh)

/-- `UpgradeApplicationProtocol` of the base class. -/
def upgradeApplicationProtocol (c : ConnectionProfile) (_ : ApplicationPacket) :
    ConnectionProfile := c

/-- `HttpRequest::Body`, a null pointer for a GET request; no other packet is
an `HttpRequest`. -/
def requestBody : ApplicationPacket → Option Bytes
  | .request line _ body => if line.method = .kGET then none else some body
  | _ => none

/-- `port` and `request_backlog` of `CheckHeartbeat`: those read before, or
what the body says.  The result is `none` for a null pointer. -/
def readHeartbeat (parse : Bytes → Int → HeartbeatReq) (body : Option Bytes) :
    Option (UInt16 × UInt32) → Option (Option (UInt16 × UInt32))
  | some parsed => some (some parsed)
  | none =>
      body.map fun bytes =>
        let req := parse bytes (Str.toInt bytes.length)
        req.port.map fun port => (port.toUInt16, req.requestBacklog.getD 0)

/-- The loop of `CheckHeartbeat` from the `i`-th web server on: the place of
the web server that the heartbeat is from, and its backlog. -/
def checkHeartbeatLoop (parse : Bytes → Int → HeartbeatReq) (ip : Bytes) (body : Option Bytes) :
    Nat → Option (UInt16 × UInt32) → List WebServerProfile → Option (Option (Nat × UInt32))
  | _, _, [] => some none
  | i, parsed, webserver :: rest =>
      if webserver.ip ≠ ip then checkHeartbeatLoop parse ip body (i + 1) parsed rest
      else
        match readHeartbeat parse body parsed with
        | none => none
        | some none => some none
        | some (some (port, backlog)) =>
            if webserver.port = port.toNat then some (some (i, backlog))
            else checkHeartbeatLoop parse ip body (i + 1) (some (port, backlog)) rest

/-- The web server that `CheckHeartbeat` finds. -/
def findHeartbeat (cfg : Config) (ctx : RecvContext) : Option (Option (Nat × UInt32)) :=
  checkHeartbeatLoop cfg.parseFromArray ctx.fromIp (requestBody ctx.applicationPacket) 0 none
    cfg.webservers

/-- The result of `CheckHeartbeat`. -/
def checkHeartbeat (cfg : Config) (ctx : RecvContext) : Option Bool :=
  (findHeartbeat cfg ctx).map Option.isSome

/-- `GetConnection(uid)->TcpByteArray()`: whose array it is, and its bytes. -/
def tcpByteArray (net : NetState) (uid : Nat) : Option (ConnId × Bytes) :=
  match net.mgr.getConnection uid with
  | some (some id) => (net.mgr.conns id).map fun c => (id, c.tcpByteArr)
  | _ => none

/-- Another buffer for a send context. -/
def setBuffer (x : CtxId) (k : SendContext) (buffer : AutoBuffer) (net : NetState) : NetState :=
  { net with ctxs := Function.update net.ctxs x (some { k with buffer }) }

/-- The deep copy of what has not been sent: `Reset` and `Write`. -/
def deepCopyRest (x : CtxId) (httpPacket : Bytes) (net : NetState) : NetState :=
  match net.ctxs x with
  | none => net
  | some k => setBuffer x k (AutoBuffer.empty.write (httpPacket.drop k.buffer.pos)) net

namespace State

/-- A thread before its first connection. -/
def init (cfg : Config) : State :=
  { net := NetState.init cfg.vector, connMap := fun _ => none, opened := fun _ => none,
    responses := [], aborted := false }

/-- `conn_map_[uid]`, as it is read. -/
def lookup (s : State) (uid : Nat) : Entry := (s.connMap uid).getD Entry.default

/-- Whether the client whose request was forwarded on the connection is
live. -/
def isClientLive (s : State) (webserver : ConnId) : Bool :=
  match s.opened webserver with
  | some o => s.net.isLive o.client
  | none => false

/-! ## Requests -/

/-- `HandleForwardFailed`. -/
def handleForwardFailed (ctx : RecvContext) (w : WriteOutcome) (s : State) : Option State :=
  match ctx.returnPacket with
  | none => none
  | some x =>
      match s.net.ctxs x with
      | none => none
      | some k =>
          let buffer := AutoBuffer.empty.write (Response.pack .kHTTP_1_1 500
            StatusLine.kStatusDescOk [] (some (lit "Internal Server Error: Reverse Proxy Error")))
          ((setBuffer x k buffer s.net).trySendAndMarkPendingIfUndone x w).map fun r =>
            { s with net := r.1 }

/-- The part of `HandleHttpRequest` behind its loop, with the connection to
the web server. -/
def forwardTo (ctx : RecvContext) (id : ConnId) (w : WriteOutcome) (s : State) :
    Option State :=
  match s.net.mgr.conns id, tcpByteArray s.net ctx.tcpConnectionUid with
  | some c, some (client, httpPacket) =>
      let x := s.net.nextCtx
      let (c', k) := c.makeSendContext id x
      let entry : Entry := ⟨ctx.tcpConnectionUid, ctx.returnPacket⟩
      let sendCtx := { k with buffer := k.buffer.shallowCopyFrom client httpPacket }
      (((s.net.setConn id c').allocCtx (some sendCtx)).trySendAndMarkPendingIfUndone x w).map
        fun r =>
          { s with
            net := r.1
            connMap := Function.update s.connMap c.uid (some entry)
            opened := Function.update s.opened id (some ⟨ctx.conn, entry⟩) }
  | _, _ => none

/-- `HandleHttpRequest`. -/
def handleHttpRequest (cfg : Config) (ctx : RecvContext) (forward : Forward)
    (w : WriteOutcome) (s : State) : Option State :=
  match checkHeartbeat cfg ctx with
  | none => none
  | some true => (s.net.delConnection ctx.tcpConnectionUid).map fun net => { s with net }
  | some false =>
      match forward with
      | .noServer => s.handleForwardFailed ctx w
      | .connectFailed => none
      | .connected fd ip port =>
          match s.net.makeConnection cfg.vector configApplicationLayer fd ip port with
          | none => none
          | some (net, id) => forwardTo ctx id w { s with net }

/-! ## Responses -/

/-- The thread stops. -/
def abort (r : Routed) (s : State) : State :=
  { s with responses := s.responses ++ [r], aborted := true }

/-- The end of `HandleHttpResponse`: `conn_map_.erase(client_uid)` and
`DelConnection(webserver_uid)`. -/
def finish (webserverUid : Nat) (r : Routed) (s : State) : State :=
  match s.net.delConnection webserverUid with
  | none => s.abort r
  | some net =>
      { s with net, connMap := Function.update s.connMap r.found.clientUid none,
               responses := s.responses ++ [r] }

/-- `HandleHttpResponse`. -/
def handleHttpResponse (ctx : RecvContext) (w : WriteOutcome) (s : State) : Option State :=
  let webserverUid := ctx.tcpConnectionUid
  let found := s.lookup webserverUid
  let routed (answer : Answer) : Routed :=
    ⟨ctx.conn, found, s.isClientLive ctx.conn, answer⟩
  -- `operator[]` leaves the pair it has found or made
  let s := { s with connMap := Function.update s.connMap webserverUid (some found) }
  match s.net.mgr.getConnection found.clientUid with
  | none => some (s.abort (routed .aborted))
  | some none => some (s.finish webserverUid (routed .clientGone))
  | some (some _) =>
      match found.returnPacket, tcpByteArray s.net webserverUid with
      | some x, some (webserver, httpPacket) =>
          match s.net.ctxs x with
          | none => some (s.abort (routed .aborted))
          | some k =>
              let copied := setBuffer x k (k.buffer.shallowCopyFrom webserver httpPacket) s.net
              let answer := if k.isTcpConnValid then .sent x k.socket else .skipped
              (copied.trySendAndMarkPendingIfUndone x w).map fun r =>
                let net := if r.2 then r.1 else deepCopyRest x httpPacket r.1
                finish webserverUid (routed answer) { s with net }
      | _, _ => some (s.abort (routed .aborted))

/-! ## Steps -/

/-- `HandleApplicationPacket` and `HandleHttpPacket`. -/
def handleApplicationPacket (cfg : Config) (ctx : RecvContext) (forward : Forward)
    (w : WriteOutcome) (s : State) : Option State :=
  match ctx.applicationPacket.protocol with
  | .kHttp1_1 =>
      match ctx.type with
      | .kAcceptFrom => s.handleHttpRequest cfg ctx forward w
      | .kConnectTo => s.handleHttpResponse ctx w
  | .kWebSocket => some s
  | _ => (s.net.delConnection ctx.tcpConnectionUid).map fun net => { s with net }

/-- `__OnReadEvent`. -/
def onReadEvent (cfg : Config) (id : ConnId) (outs : List ReadOutcome) (forward : Forward)
    (w : WriteOutcome) (s : State) : Option State :=
  match s.net.onReadEvent upgradeApplicationProtocol id outs with
  | some (net, .dispatched ctx) => handleApplicationPacket cfg ctx forward w { s with net }
  | some (net, .deleted) => some { s with net }
  | some (net, .idle) => some { s with net }
  | some (_, .crashed) => none
  | none => none

/-- One event of a thread that has not stopped. -/
def step (cfg : Config) (s : State) (e : Event) : Option State :=
  if s.aborted then none
  else
    match e with
    | .accept fd ip port =>
        (s.net.registerConnection cfg.vector cfg.maxConnections configApplicationLayer fd ip
          port).map fun net => { s with net }
    | .readEvent id outs forward w => s.onReadEvent cfg id outs forward w
    | .writeEvent id ws => (s.net.trySendPendingPackets id ws).map fun net => { s with net }
    | .errEvent id => (s.net.onErrEvent id).map fun net => { s with net }
    | .clearTimeout => some { s with net := s.net.clearTimeout }
    | .tick ms => some { s with net := { s.net with now := s.net.now + ms } }

end State

end Unixtar.ReverseProxy
