import Unixtar.Http.HttpRequest
import Unixtar.Http.HttpResponse
import Unixtar.LongLink.WebSocketPacket
import Unixtar.Socket.UnixSocket

/-!
# Connections: `networkmodel/tcpconnection.cc`

A `ConnectionProfile` is one connection object; `ConnId` names the object
itself (its address), which is never reused, in contrast to uids and
descriptors.  Send contexts are shared between the network thread and the
workers, so they live in a heap of their own and are named by a `CtxId`.

`Receive` takes the outcomes of the reads it makes as a list and is defined
when it uses up exactly this list.  It also returns the rounds of its loop,
which no code looks at: they say what happened to each read.

`packetNo` counts the packet objects the connection has allocated, so that
the current packet has an identity beside its contents.
-/

namespace Unixtar

open Unixtar.Http

abbrev ConnId := Nat
abbrev CtxId := Nat

/-! ## Packets and parsers -/

/-- `ApplicationPacket` and its subclasses. -/
inductive ApplicationPacket
  | request (line : RequestLine) (headers : HeaderField) (body : Bytes)
  | response (line : StatusLine) (headers : HeaderField) (body : Bytes)
  | webSocket (packet : Ws.WebSocketPacket)
deriving DecidableEq

/-- `Protocol`. -/
def ApplicationPacket.protocol : ApplicationPacket → TApplicationProtocol
  | request _ _ _ => .kHttp1_1
  | response _ _ _ => .kHttp1_1
  | webSocket _ => .kWebSocket

/-- `ApplicationProtocolParser` and its subclasses, each with the packet it
parses into. -/
inductive ApplicationProtocolParser
  | request (p : Request.Parser)
  | response (p : Response.Parser)
  | webSocket (p : Ws.WebSocketParser)
deriving DecidableEq

namespace ApplicationProtocolParser

/-- `DoParse`. -/
def doParse (buf : Bytes) : ApplicationProtocolParser → ApplicationProtocolParser × ParseRet
  | request p => ((request (Request.Parser.doParse buf p).1), (Request.Parser.doParse buf p).2)
  | response p =>
      ((response (Response.Parser.doParse buf p).1), (Response.Parser.doParse buf p).2)
  | webSocket p =>
      ((webSocket (Ws.WebSocketParser.doParse buf p).1), (Ws.WebSocketParser.doParse buf p).2)

/-- `IsEnd`. -/
def isEnd : ApplicationProtocolParser → Bool
  | request p => p.isEnd
  | response p => p.isEnd
  | webSocket p => p.isEnd

/-- `IsErr`. -/
def isErr : ApplicationProtocolParser → Bool
  | request p => p.isErr
  | response p => p.isErr
  | webSocket p => p.isErr

/-- `IsUpgradeProtocol`; only the request parser overrides it. -/
def isUpgradeProtocol : ApplicationProtocolParser → Bool
  | request p => p.isUpgradeToWs
  | response _ => false
  | webSocket _ => false

/-- The packet the parser fills. -/
def packet : ApplicationProtocolParser → ApplicationPacket
  | request p => .request p.firstLine p.headers p.body
  | response p => .response p.firstLine p.headers p.body
  | webSocket p => .webSocket p.packet

/-- `IsLongLink` of the packet. -/
def isLongLink : ApplicationProtocolParser → Bool
  | webSocket _ => true
  | _ => false

end ApplicationProtocolParser

/-! ## Contexts -/

/-- `TConnectionType` of an object. -/
inductive TConnectionType
  | kAcceptFrom
  | kConnectTo
deriving DecidableEq, Repr

/-- `SendContext`.  `owner` is the connection whose `MakeSendContext` made
it, the `this` of its two callbacks; `socket` is the connection whose
`socket_` the pointer leads to. -/
structure SendContext where
  seq : Nat
  tcpConnectionUid : Nat
  owner : ConnId
  socket : ConnId
  buffer : AutoBuffer
  isTcpConnValid : Bool
deriving DecidableEq

/-- `RecvContext`.  `conn` is the connection it came from; `packetNo` is
the identity of the packet object. -/
structure RecvContext where
  conn : ConnId
  tcpConnectionUid : Nat
  fd : Nat
  fromIp : Bytes
  fromPort : Nat
  type : TConnectionType
  applicationPacket : ApplicationPacket
  packetNo : Nat
  returnPacket : Option CtxId
deriving DecidableEq

/-! ## Connections -/

/-- `ConnectionProfile`. -/
structure ConnectionProfile where
  uid : Nat
  type : TConnectionType
  remoteIp : Bytes
  remotePort : Nat
  fd : Nat
  isEagain : Bool
  hasReceivedFin : Bool
  timeoutTs : Nat
  tcpByteArr : Bytes
  parser : Option ApplicationProtocolParser
  packetNo : Nat
  sendCtxSeq : Nat
  sendContexts : List CtxId
  pendingSendCtx : List CtxId
deriving DecidableEq

/-- How a call of `Receive` ends. -/
inductive ReceiveRet
  | returned (code : Int)
  | crashed
deriving DecidableEq, Repr

/-- One round of the loop of `Receive`: what the read returned, the buffer
behind it, and whether `ParseProtocol` ran on this buffer. -/
structure Round where
  outcome : ReadOutcome
  buffer : Bytes
  parsed : Bool
deriving DecidableEq

namespace ConnectionProfile

/-- `kDefaultTimeout`. -/
def kDefaultTimeout : Nat := 10 * 1000

/-- The constructor, with the descriptor of the connected socket. -/
def init (type : TConnectionType) (fd : Nat) (remoteIp : Bytes) (remotePort : Nat)
    (now : Nat) : ConnectionProfile :=
  { uid := 0, type, remoteIp, remotePort, fd, isEagain := false, hasReceivedFin := false,
    timeoutTs := now + kDefaultTimeout, tcpByteArr := [], parser := none, packetNo := 0,
    sendCtxSeq := 0, sendContexts := [], pendingSendCtx := [] }

/-- `IsLongLinkApplicationProtocol`. -/
def isLongLink (c : ConnectionProfile) : Bool :=
  match c.parser with
  | some p => p.isLongLink
  | none => false

/-- `IsParseDone` behind its assertion. -/
def isParseDone (c : ConnectionProfile) : Bool :=
  match c.parser with
  | some p => p.isEnd
  | none => false

/-- `IsUpgradeApplicationProtocol`. -/
def isUpgradeApplicationProtocol (c : ConnectionProfile) : Bool :=
  match c.parser with
  | some p => p.isUpgradeProtocol
  | none => false

/-- `IsTimeout`, at a clock that is not 0. -/
def isTimeout (c : ConnectionProfile) (now : Nat) : Bool :=
  if c.isLongLink then false
  else if c.pendingSendCtx ≠ [] then false
  else decide (now > c.timeoutTs)

/-- `ConfigApplicationLayer<HttpRequest, request::Parser>` and its siblings
on a connection that has no parser yet. -/
def config (c : ConnectionProfile) (p : ApplicationProtocolParser) : ConnectionProfile :=
  { c with parser := some p }

/-- A connection accepted from a client, behind `AddConnection` and
`ConfigApplicationLayer`. -/
def accepted (uid fd : Nat) (remoteIp : Bytes) (remotePort now : Nat) : ConnectionProfile :=
  { init .kAcceptFrom fd remoteIp remotePort now with
    uid, parser := some (.request Request.Parser.fresh) }

/-- `ConfigApplicationLayer` as an upgrade: a new packet object, and the old
bytes are cleared. -/
def configUpgrade (c : ConnectionProfile) (p : ApplicationProtocolParser) :
    ConnectionProfile :=
  { c with parser := some p, packetNo := c.packetNo + 1, tcpByteArr := [] }

/-! ### Receiving -/

/-- What a call of `Receive` leaves behind. -/
structure Received where
  conn : ConnectionProfile
  ret : ReceiveRet
  rounds : List Round
deriving DecidableEq

/-- `Socket::Receive` on the connection's buffer. -/
def read (c : ConnectionProfile) (o : ReadOutcome) : ConnectionProfile :=
  { c with tcpByteArr := c.tcpByteArr ++ o.bytes, isEagain := o.eagainFlag c.isEagain }

/-- `ParseProtocol`: the connection behind it and how the call ends. -/
def parseProtocol (c : ConnectionProfile) : ConnectionProfile × ReceiveRet :=
  match c.parser with
  | none => (c, .returned (-1))
  | some p =>
      match p.doParse c.tcpByteArr with
      | (p, .crashed) => ({ c with parser := some p }, .crashed)
      | (p, .returned _) =>
          ({ c with parser := some p }, .returned (if p.isErr then -2 else 0))

/-- One round of the loop of `Receive`; `none` as result means that the
loop goes on. -/
def receiveRound (c : ConnectionProfile) (o : ReadOutcome) :
    ConnectionProfile × Option ReceiveRet × Bool :=
  let c := c.read o
  if c.isEagain then (c, some (.returned 0), false)
  else
    match o with
    | .eagain => (c, some (.returned 0), false)
    | .error => (c, some (.returned (-1)), false)
    | .fin => ({ c with hasReceivedFin := true }, some (.returned 0), false)
    | .data _ =>
        match c.parseProtocol with
        | (c, .crashed) => (c, some .crashed, true)
        | (c, .returned code) =>
            if code ≠ 0 then (c, some (.returned (-1)), true)
            else if c.isParseDone ∨ ¬ o.isBufferFull then (c, some (.returned 0), true)
            else (c, none, true)

/-- `Receive`, whose reads return the outcomes `outs` one after another. -/
def receive : ConnectionProfile → List ReadOutcome → Option Received
  | _, [] => none
  | c, o :: outs =>
      let round (parsed : Bool) : Round :=
        { outcome := o, buffer := c.tcpByteArr ++ o.bytes, parsed }
      match c.receiveRound o with
      | (c, some ret, parsed) => if outs = [] then some ⟨c, ret, [round parsed]⟩ else none
      | (c, none, parsed) =>
          (receive c outs).map fun r => { r with rounds := round parsed :: r.rounds }

/-! ### Contexts -/

/-- `MakeSendContext`: `x` names the new object. -/
def makeSendContext (id : ConnId) (x : CtxId) (c : ConnectionProfile) :
    ConnectionProfile × SendContext :=
  let seq := (c.sendCtxSeq + 1) % 2 ^ 32
  ({ c with sendCtxSeq := seq, sendContexts := c.sendContexts ++ [x] },
   { seq, tcpConnectionUid := c.uid, owner := id, socket := id, buffer := .empty,
     isTcpConnValid := true })

/-- What `MakeRecvContext` does to a parser that is used again: `Reset`,
`AllocNewPacket` and `SetPacketToParse`. -/
def recycleParser (c : ConnectionProfile) : ConnectionProfile :=
  match c.parser with
  | some (.webSocket _) =>
      { c with parser := some (.webSocket Ws.WebSocketParser.fresh), tcpByteArr := [],
               packetNo := c.packetNo + 1 }
  | _ => c

/-- `MakeRecvContext(false)` on a connection whose parser is `p`. -/
def makeRecvContext (id : ConnId) (p : ApplicationProtocolParser) (c : ConnectionProfile) :
    ConnectionProfile × RecvContext :=
  (c.recycleParser,
   { conn := id, tcpConnectionUid := c.uid, fd := c.fd, fromIp := c.remoteIp,
     fromPort := c.remotePort, type := c.type, applicationPacket := p.packet,
     packetNo := c.packetNo, returnPacket := none })

/-! ### Read events -/

/-- How `__OnReadEvent` goes on behind the connection itself. -/
inductive ReadEnd
  /-- `DelConnection(uid)` -/
  | deleted
  /-- `HandleApplicationPacket(recv_ctx)` -/
  | dispatched (ctx : RecvContext)
  /-- nothing to do yet -/
  | idle
  | crashed
deriving DecidableEq

/-- What `__OnReadEvent` makes of the connection; `made` is the send context
it allocated. -/
structure ReadEvent where
  conn : ConnectionProfile
  stop : ReadEnd
  made : Option SendContext
deriving DecidableEq

variable (upgrade : ConnectionProfile → ApplicationPacket → ConnectionProfile)

/-- The part of `__OnReadEvent` behind a parsed packet.  `upgrade` is the
virtual `UpgradeApplicationProtocol`. -/
def dispatch (id : ConnId) (x : CtxId) (p : ApplicationProtocolParser)
    (c : ConnectionProfile) : ReadEvent :=
  if p.isUpgradeProtocol then
    let (c, ctx) := c.makeRecvContext id p
    let c := upgrade c ctx.applicationPacket
    match c.parser with
    | none => ⟨c, .crashed, none⟩
    | some q =>
        let (c, ctx) := c.makeRecvContext id q
        let (c, made) := c.makeSendContext id x
        ⟨c, .dispatched { ctx with returnPacket := some x }, some made⟩
  else
    let (c, ctx) := c.makeRecvContext id p
    match c.type with
    | .kAcceptFrom =>
        let (c, made) := c.makeSendContext id x
        ⟨c, .dispatched { ctx with returnPacket := some x }, some made⟩
    | .kConnectTo => ⟨c, .dispatched ctx, none⟩

/-- `__OnReadEvent` behind a `Receive` that returned. -/
def afterReceive (id : ConnId) (x : CtxId) (ret : ReceiveRet) (c : ConnectionProfile) :
    ReadEvent :=
  match ret with
  | .crashed => ⟨c, .crashed, none⟩
  | .returned code =>
      if code < 0 then ⟨c, .deleted, none⟩
      else if c.hasReceivedFin then ⟨c, .deleted, none⟩
      else
        match c.parser with
        | none => ⟨c, .crashed, none⟩
        | some p => if p.isEnd then dispatch upgrade id x p c else ⟨c, .idle, none⟩

/-- `__OnReadEvent` up to `DelConnection` or `HandleApplicationPacket`. -/
def onReadEvent (id : ConnId) (x : CtxId) (outs : List ReadOutcome)
    (c : ConnectionProfile) : Option ReadEvent :=
  (c.receive outs).map fun r => afterReceive upgrade id x r.ret r.conn

/-! ### Sending -/

/-- `SendContextSendDoneCallback`; `seqOf` reads the heap of contexts. -/
def sendContextSendDoneCallback (now seq : Nat) (seqOf : CtxId → Nat)
    (c : ConnectionProfile) : ConnectionProfile :=
  let timeoutTs :=
    if c.isLongLink then c.timeoutTs
    else if c.type = .kConnectTo then now + kDefaultTimeout + kDefaultTimeout
    else now + kDefaultTimeout
  { c with timeoutTs, sendContexts := c.sendContexts.filter fun x => seqOf x ≠ seq }

/-- `AddPendingPacketToSend`. -/
def addPendingPacketToSend (x : CtxId) (c : ConnectionProfile) : ConnectionProfile :=
  { c with pendingSendCtx := c.pendingSendCtx ++ [x] }

end ConnectionProfile

end Unixtar
