import Unixtar.NetworkModel.NetThread
import Unixtar.Utils.MessageQueue

/-!
# The web server: `webserver.cc` and `netscene/netscenedispatcher.cc`

One `WebServer::NetThread` with any number of `NetSceneWorker`s.  The
network thread puts parsed packets on `recv_queue_`; a worker takes one,
asks `IsWorkerOverload`, handles the packet, and puts its return packet on
`send_queue_`; `HandleSend` sends it.  A worker's four actions are separate
events, so every order in which the threads can take turns is a run.
`HandleSend` empties the queue in a loop; here each round is an event.

`queued` and `handled` list the packets that `recv_queue_` has accepted and
what the workers did with them.  No code looks at these two.

A net scene is an application's own code, so the response to an HTTP request
is an argument, and so is the text of a serialised message.

## Main results

* `dispatch_accepted` — what a connection from a client passes on.
* `onReadEvent_cases` — what a read event can do.
-/

namespace Unixtar.WebServer

open Unixtar.Http

/-! ## The state -/

/-- The configuration, the vector of the connection pool, and the digest of
the handshake. -/
structure Config where
  vector : VectorImpl
  maxBacklog : Nat
  maxConnections : Nat
  digest : Bytes → Bytes

/-- How far a worker is with the packet it has taken. -/
inductive Stage
  | taken
  | decided (overload : Bool)
  | handled
deriving DecidableEq

/-- A worker with a packet. -/
structure Task where
  ctx : RecvContext
  stage : Stage
deriving DecidableEq

/-- What a worker made of a packet. -/
inductive Handling
  /-- `HandleHttp` -/
  | http
  /-- `HandleOverload` -/
  | overload
  /-- `HandleWebSocket` with the result of `DoHandShake` -/
  | handshake (success : Bool)
  /-- `HandleWebSocket` behind the `IsHandShaken` branch -/
  | data
deriving DecidableEq

/-- The network thread, its two queues and its workers. -/
structure State where
  net : NetState
  recvQueue : List RecvContext
  workers : List Task
  sendQueue : List CtxId
  visit : Nat
  queued : List RecvContext
  handled : List (RecvContext × Handling)

/-- `ThreadSafeDeque`'s `max_size_`. -/
def kMaxQueueSize : Nat := 10240

/-- `push_back`: a queue that is too long refuses. -/
def pushBack {α : Type} (queue : List α) (v : α) : List α :=
  if queue.length > kMaxQueueSize then queue else queue ++ [v]

inductive Event
  /-- the listener hands over a descriptor -/
  | accept (fd : Nat) (ip : Bytes) (port : Nat)
  | readEvent (id : ConnId) (outs : List ReadOutcome)
  | writeEvent (id : ConnId) (ws : List WriteOutcome)
  | errEvent (id : ConnId)
  | clearTimeout
  /-- time passes -/
  | tick (ms : Nat)
  /-- a worker takes the first packet -/
  | take
  /-- the worker asks whether the workers are overloaded -/
  | check (i : Nat)
  /-- the worker handles its packet -/
  | handle (i : Nat) (resp : Bytes)
  /-- the worker puts its return packet on the send queue -/
  | giveBack (i : Nat)
  /-- one round of `HandleSend` -/
  | handleSend (w : WriteOutcome)

/-! ## The network thread -/

/-- `ConfigApplicationLayer`. -/
def configApplicationLayer (c : ConnectionProfile) : ConnectionProfile :=
  if c.type = .kAcceptFrom then c.config (.request Request.Parser.fresh) else c

/-- `UpgradeApplicationProtocol`, called when the request parser asks for an
upgrade to WebSocket. -/
def upgradeApplicationProtocol (c : ConnectionProfile) (packet : ApplicationPacket) :
    ConnectionProfile :=
  match packet with
  | .request _ headers _ =>
      if c.type = .kAcceptFrom then
        c.configUpgrade (.webSocket (Ws.WebSocketParser.init headers))
      else c
  | _ => c

/-- What the network thread passes on, and the parser it keeps: an upgrade
request becomes the packet of the handshake, a frame leaves a new packet
behind, and any other packet stays with its parser. -/
inductive Passes : ApplicationProtocolParser → ApplicationPacket →
    ApplicationProtocolParser → Prop
  | upgrade (q : Request.Parser) : q.isUpgradeToWs = true →
      Passes (.request q) (.webSocket { Ws.WebSocketPacket.init with handshakeReq := q.headers })
        (.webSocket Ws.WebSocketParser.fresh)
  | frame (q : Ws.WebSocketParser) :
      Passes (.webSocket q) (.webSocket q.packet) (.webSocket Ws.WebSocketParser.fresh)
  | request (q : Request.Parser) : q.isUpgradeToWs = false →
      Passes (.request q) (ApplicationProtocolParser.request q).packet (.request q)
  | response (q : Response.Parser) :
      Passes (.response q) (ApplicationProtocolParser.response q).packet (.response q)

/-- A long link stays one. -/
theorem Passes.isLongLink {p parser : ApplicationProtocolParser} {packet : ApplicationPacket}
    (h : Passes p packet parser) (hlong : p.isLongLink = true) : parser.isLongLink = true := by
  cases h with
  | upgrade q hup => rfl
  | frame q => rfl
  | request q hup => exact hlong
  | response q => exact hlong

/-- **What a connection from a client passes on.** -/
theorem dispatch_accepted (id : ConnId) (x : CtxId) {p : ApplicationProtocolParser}
    {c : ConnectionProfile} (hp : c.parser = some p) (htype : c.type = .kAcceptFrom) :
    ∃ parser tcpByteArr nextNo packet packetNo,
      ConnectionProfile.dispatch upgradeApplicationProtocol id x p c =
        ⟨behindDispatch x parser tcpByteArr nextNo c,
          .dispatched (passedContext id x packet packetNo c), some (madeContext id c)⟩ ∧
      Passes p packet parser ∧ (parser.isLongLink = true → tcpByteArr = []) := by
  cases p with
  | request q =>
      cases hup : q.isUpgradeToWs with
      | true =>
          refine ⟨_, [], c.packetNo + 2, _, c.packetNo + 1, ?_, Passes.upgrade q hup,
            fun _ => rfl⟩
          simp [ConnectionProfile.dispatch, ApplicationProtocolParser.isUpgradeProtocol, hup,
            ConnectionProfile.makeRecvContext, ConnectionProfile.recycleParser, hp,
            upgradeApplicationProtocol, ApplicationProtocolParser.packet, htype,
            ConnectionProfile.configUpgrade, ConnectionProfile.makeSendContext,
            behindDispatch, madeContext, passedContext, Ws.WebSocketParser.init]
      | false =>
          refine ⟨_, c.tcpByteArr, c.packetNo, _, c.packetNo, ?_, Passes.request q hup, ?_⟩
          · simp [ConnectionProfile.dispatch, ApplicationProtocolParser.isUpgradeProtocol, hup,
              ConnectionProfile.makeRecvContext, ConnectionProfile.recycleParser, hp, htype,
              ConnectionProfile.makeSendContext, behindDispatch, madeContext, passedContext]
          · intro hlong
            cases hlong
  | response q =>
      refine ⟨_, c.tcpByteArr, c.packetNo, _, c.packetNo, ?_, Passes.response q, ?_⟩
      · simp [ConnectionProfile.dispatch, ApplicationProtocolParser.isUpgradeProtocol,
          ConnectionProfile.makeRecvContext, ConnectionProfile.recycleParser, hp, htype,
          ConnectionProfile.makeSendContext, behindDispatch, madeContext, passedContext]
      · intro hlong
        cases hlong
  | webSocket q =>
      refine ⟨_, [], c.packetNo + 1, _, c.packetNo, ?_, Passes.frame q, fun _ => rfl⟩
      simp [ConnectionProfile.dispatch, ApplicationProtocolParser.isUpgradeProtocol,
        ConnectionProfile.makeRecvContext, ConnectionProfile.recycleParser, hp, htype,
        ConnectionProfile.makeSendContext, behindDispatch, madeContext, passedContext,
        ApplicationProtocolParser.packet]

/-- A connection that `ConfigApplicationLayer` has seen: it comes from a client,
or has no parser. -/
def Configured (c : ConnectionProfile) : Prop := c.type = .kAcceptFrom ∨ c.parser = none

theorem Configured.receive {c : ConnectionProfile} {outs : List ReadOutcome}
    {r : ConnectionProfile.Received} (h : Configured c) (hr : c.receive outs = some r) :
    Configured r.conn := by
  rcases h with htype | hparser
  · exact Or.inl ((ConnectionProfile.receive_kept hr).2.1.trans htype)
  · exact Or.inr (ConnectionProfile.receive_unparsed hparser hr)

theorem Configured.accepted {c : ConnectionProfile} {p : ApplicationProtocolParser}
    (h : Configured c) (hp : c.parser = some p) : c.type = .kAcceptFrom := by
  rcases h with htype | hparser
  · exact htype
  · rw [hp] at hparser
    cases hparser

/-- What a read event on the connection `c` can do to a network thread; `r` is
the connection behind `Receive`. -/
inductive ReadResult (id : ConnId) (c : ConnectionProfile) (outs : List ReadOutcome)
    (s : NetState) : NetState → ConnectionProfile.ReadEnd → Prop
  | deleted (r : ConnectionProfile.Received) (t : NetState) : c.receive outs = some r →
      (s.setConn id r.conn).delConnection c.uid = some t → ReadResult id c outs s t .deleted
  | idle (r : ConnectionProfile.Received) : c.receive outs = some r →
      ReadResult id c outs s (s.setConn id r.conn) .idle
  | crashed (r : ConnectionProfile.Received) : c.receive outs = some r →
      ReadResult id c outs s (s.setConn id r.conn) .crashed
  | dispatched (r : ConnectionProfile.Received) (p parser : ApplicationProtocolParser)
      (tcpByteArr : Bytes) (nextNo : Nat) (packet : ApplicationPacket) (packetNo : Nat) :
      c.receive outs = some r → r.conn.parser = some p → Passes p packet parser →
      ReadResult id c outs s
        ((s.setConn id (behindDispatch s.nextCtx parser tcpByteArr nextNo r.conn)).allocCtx
          (some (madeContext id r.conn)))
        (.dispatched (passedContext id s.nextCtx packet packetNo r.conn))

/-- **A read event.**  Only a connection from a client passes anything on. -/
theorem onReadEvent_cases {id : ConnId} {c : ConnectionProfile} {outs : List ReadOutcome}
    {s t : NetState} {stop : ConnectionProfile.ReadEnd} (hc : s.mgr.conns id = some c)
    (hconfigured : Configured c)
    (h : s.onReadEvent upgradeApplicationProtocol id outs = some (t, stop)) :
    ReadResult id c outs s t stop := by
  cases NetState.onReadEvent_cases hc h with
  | deleted r t hr hdel => exact ReadResult.deleted r t hr hdel
  | idle r hr => exact ReadResult.idle r hr
  | crashed r hr => exact ReadResult.crashed r hr
  | dispatched r p hr hp =>
      have htype := (hconfigured.receive hr).accepted hp
      obtain ⟨parser, tcpByteArr, nextNo, packet, packetNo, hdispatch, hpasses, -⟩ :=
        dispatch_accepted id s.nextCtx hp htype
      rw [hdispatch]
      exact ReadResult.dispatched r p parser tcpByteArr nextNo packet packetNo hr hp hpasses

namespace State

/-- A server before its first connection. -/
def init (cfg : Config) : State :=
  { net := NetState.init cfg.vector, recvQueue := [], workers := [], sendQueue := [],
    visit := 0, queued := [], handled := [] }

/-- `IsWorkerOverload`. -/
def isWorkerOverload (cfg : Config) (s : State) : Bool :=
  s.recvQueue.length > cfg.maxBacklog * 9 / 10

/-- `IsWorkerFullyLoad`. -/
def isWorkerFullyLoad (cfg : Config) (s : State) : Bool := s.recvQueue.length ≥ cfg.maxBacklog

/-- Whether `HandleApplicationPacket` deletes the connection: the workers
are fully loaded, or the packet is a WebSocket close. -/
def refuses (fullyLoad : Bool) (packet : ApplicationPacket) : Bool :=
  if fullyLoad then true
  else
    match packet with
    | .webSocket p => p.opCode = Ws.WebSocketPacket.kOpcodeConnectionClose
    | _ => false

/-- `HandleApplicationPacket`. -/
def handleApplicationPacket (cfg : Config) (ctx : RecvContext) (s : State) : Option State :=
  if refuses (s.isWorkerFullyLoad cfg) ctx.applicationPacket then
    (s.net.delConnection ctx.tcpConnectionUid).map fun net => { s with net }
  else
    let queued := if s.recvQueue.length > kMaxQueueSize then s.queued else s.queued ++ [ctx]
    some { s with recvQueue := pushBack s.recvQueue ctx, queued }

/-- `__OnReadEvent`. -/
def onReadEvent (cfg : Config) (id : ConnId) (outs : List ReadOutcome) (s : State) :
    Option State :=
  match s.net.onReadEvent upgradeApplicationProtocol id outs with
  | some (net, .dispatched ctx) => handleApplicationPacket cfg ctx { s with net }
  | some (net, .deleted) => some { s with net }
  | some (net, .idle) => some { s with net }
  | some (_, .crashed) => none
  | none => none

/-- The read event of the network thread, and its connection. -/
theorem onReadEvent_net {cfg : Config} {s t : State} {id : ConnId} {outs : List ReadOutcome}
    (hstep : s.onReadEvent cfg id outs = some t) :
    ∃ net stop c, s.net.onReadEvent upgradeApplicationProtocol id outs = some (net, stop) ∧
      s.net.mgr.conns id = some c := by
  cases hevent : s.net.onReadEvent upgradeApplicationProtocol id outs with
  | none => simp [onReadEvent, hevent] at hstep
  | some ev =>
      obtain ⟨c, hc⟩ := NetState.exists_conn_of_onReadEvent hevent
      exact ⟨ev.1, ev.2, c, rfl, hc⟩

/-! ## The workers -/

/-- The text of `WriteFakeWsResp`. -/
def fakeWsResp (visit : Nat) : Bytes :=
  lit "\x7b\"msg\":\"This is " ++ decimal visit ++ lit " visits to Unixtar\"\x7d"

/-- What the worker does to the buffer of the return packet. -/
inductive Output
  /-- `http::response::Pack`, which resets the buffer -/
  | replace (bytes : Bytes)
  /-- `ws::Pack`, which does not -/
  | append (bytes : Bytes)

/-- The buffer behind it. -/
def Output.fill (b : AutoBuffer) : Output → AutoBuffer
  | replace bytes => AutoBuffer.empty.write bytes
  | append bytes => b.write bytes

/-- `HandleWebSocket`, the number of the visit included. -/
def handleWebSocket (cfg : Config) (visit : Nat) (p : Ws.WebSocketPacket) :
    Handling × Output × Nat :=
  if p.isHandShaken then
    let visit := (visit + 1) % 2 ^ 64
    (.data, .append (Ws.pack (fakeWsResp visit)), visit)
  else
    let (p, success) := p.doHandShake cfg.digest
    (.handshake success,
      .replace (Response.pack .kHTTP_1_1 (if success then 101 else 404)
        StatusLine.kStatusDescSwitchProtocol p.handshakeResp.entries none),
      visit)

/-- `HandleOverload` or `HandleImpl`. -/
def handlePacket (cfg : Config) (overload : Bool) (resp : Bytes) (visit : Nat)
    (packet : ApplicationPacket) : Handling × Output × Nat :=
  match packet, overload with
  | .webSocket _, true => (.overload, .append (Ws.pack resp), visit)
  | _, true => (.overload, .replace resp, visit)
  | .webSocket p, false => handleWebSocket cfg visit p
  | _, false => (.http, .replace resp, visit)

/-- A WebSocket packet that counts as handshaken. -/
def isData : ApplicationPacket → Bool
  | .webSocket p => p.isHandShaken
  | _ => false

/-- A WebSocket packet that does not: the one `UpgradeApplicationProtocol`
makes. -/
def isUpgrade : ApplicationPacket → Bool
  | .webSocket p => !p.isHandShaken
  | _ => false

/-- What a worker that is not overloaded makes of a packet. -/
def expected : ApplicationPacket → Handling
  | .webSocket p =>
      if p.isHandShaken then .data
      else .handshake (HeaderField.get p.handshakeReq HeaderField.kSecWebSocketKey).isSome
  | _ => .http

theorem handlePacket_fst (cfg : Config) (overload : Bool) (resp : Bytes) (visit : Nat)
    (packet : ApplicationPacket) :
    (handlePacket cfg overload resp visit packet).1 =
      if overload then .overload else expected packet := by
  cases packet with
  | request line headers body => cases overload <;> rfl
  | response line headers body => cases overload <;> rfl
  | webSocket p =>
      cases overload with
      | true => rfl
      | false =>
          show (handleWebSocket cfg visit p).1 = if p.isHandShaken then .data else _
          unfold handleWebSocket
          cases hshaken : p.isHandShaken with
          | true => rfl
          | false =>
              show Handling.handshake (p.doHandShake cfg.digest).2 = _
              rw [Ws.WebSocketPacket.doHandShake_snd]
              rfl

/-- The worker's packet is handled. -/
def handleTask (cfg : Config) (i : Nat) (resp : Bytes) (s : State) : Option State :=
  match s.workers[i]? with
  | some ⟨ctx, .decided overload⟩ =>
      match ctx.returnPacket with
      | none => none
      | some x =>
          match s.net.ctxs x with
          | none => none
          | some k =>
              let (how, output, visit) :=
                handlePacket cfg overload resp s.visit ctx.applicationPacket
              let ctxs :=
                Function.update s.net.ctxs x (some { k with buffer := output.fill k.buffer })
              some
                { s with
                  net := { s.net with ctxs }
                  workers := s.workers.set i ⟨ctx, .handled⟩
                  visit
                  handled := s.handled ++ [(ctx, how)] }
  | _ => none

/-- `IsWorkerOverload`, asked by a worker that has taken a packet. -/
def checkTask (cfg : Config) (i : Nat) (s : State) : Option State :=
  match s.workers[i]? with
  | some ⟨ctx, .taken⟩ =>
      some { s with workers := s.workers.set i ⟨ctx, .decided (s.isWorkerOverload cfg)⟩ }
  | _ => none

/-- The return packet goes to `send_queue_`. -/
def giveBackTask (i : Nat) (s : State) : Option State :=
  match s.workers[i]? with
  | some ⟨ctx, .handled⟩ =>
      match ctx.returnPacket with
      | none => none
      | some x =>
          some { s with workers := s.workers.eraseIdx i, sendQueue := pushBack s.sendQueue x }
  | _ => none

/-- `pop_front_to` of a worker. -/
def takeTask (s : State) : Option State :=
  match s.recvQueue with
  | [] => none
  | ctx :: rest => some { s with recvQueue := rest, workers := s.workers ++ [⟨ctx, .taken⟩] }

/-- One round of `HandleSend`. -/
def handleSend (w : WriteOutcome) (s : State) : Option State :=
  match s.sendQueue with
  | [] => none
  | x :: rest =>
      (s.net.trySendAndMarkPendingIfUndone x w).map fun r =>
        { s with net := r.1, sendQueue := rest }

/-! ## Steps -/

/-- One event. -/
def step (cfg : Config) (s : State) : Event → Option State
  | .accept fd ip port =>
      (s.net.registerConnection cfg.vector cfg.maxConnections configApplicationLayer fd ip
        port).map fun net => { s with net }
  | .readEvent id outs => s.onReadEvent cfg id outs
  | .writeEvent id ws => (s.net.trySendPendingPackets id ws).map fun net => { s with net }
  | .errEvent id => (s.net.onErrEvent id).map fun net => { s with net }
  | .clearTimeout => some { s with net := s.net.clearTimeout }
  | .tick ms => some { s with net := { s.net with now := s.net.now + ms } }
  | .take => s.takeTask
  | .check i => s.checkTask cfg i
  | .handle i resp => s.handleTask cfg i resp
  | .giveBack i => s.giveBackTask i
  | .handleSend w => s.handleSend w

end State

end Unixtar.WebServer
