import Unixtar.WebServer.Handshake

/-!
# Packets as objects

A packet is an object that several parts of the server refer to: the connection
(`curr_application_packet_`), its parser (`application_packet_`, and the pointer of
the subclass through which `DoParse` writes), and every `RecvContext` that
`MakeRecvContext` has made.  Elsewhere in this development a parser carries the
contents of its packet, and a `RecvContext` a copy of them.  Here the objects are
in a heap, `DoParse` reads and writes the one that the parser refers to, and the
workers see what is in the heap.

## Main results

* `onReadEvent_spec` — with the references in step, a read event does what it does
  to a parser that carries its packet.
* `sharing_step` — they stay in step, whatever the events are.
* `neverTouched` — a WebSocket packet that is parsed into is handshaken and in no
  `RecvContext`; one that is in a `RecvContext` keeps its opcode and its payload.
-/

namespace Unixtar.WebServer

open Unixtar.Lib

abbrev PacketId := Nat

/-- The parser with the contents of a packet of its kind. -/
def withPacket : ApplicationPacket → ApplicationProtocolParser → ApplicationProtocolParser
  | .request line headers body, .request p => .request { p with firstLine := line, headers, body }
  | .response line headers body, .response p =>
      .response { p with firstLine := line, headers, body }
  | .webSocket packet, .webSocket p => .webSocket { p with packet }
  | _, p => p

/-- The opcode and the payload of a WebSocket packet. -/
def frameOf : ApplicationPacket → Option (UInt8 × Bytes)
  | .webSocket p => some (p.opCode, p.payload)
  | _ => none

/-- A packet that `MakeRecvContext` has put into a `RecvContext`, and its contents at
that time. -/
structure Placed where
  object : PacketId
  packet : ApplicationPacket
deriving DecidableEq

/-- A call of `WebSocketParser::DoParse`: the packet that it parses into, whether this
is handshaken, and the packets in the `RecvContext`s made before. -/
structure Call where
  object : PacketId
  isHandShaken : Bool
  placed : List PacketId
deriving DecidableEq

/-- A connection with the packet objects.  The parser in `conn` has a copy of its
packet, which is read from the object before each call of `DoParse`. -/
structure Shared where
  conn : ConnectionProfile
  objects : PacketId → Option ApplicationPacket
  next : PacketId
  /-- `curr_application_packet_` -/
  curr : PacketId
  /-- the parser's `application_packet_` -/
  toParse : PacketId
  /-- the parser's `ws_packet_`, or its pointer to an HTTP packet -/
  resolving : PacketId
  placed : List Placed
  calls : List Call
  live : Bool

namespace Shared

/-- A connection that has just been accepted, behind `ConfigApplicationLayer`. -/
def accepted (uid fd : Nat) (remoteIp : Bytes) (remotePort now : Nat) : Shared :=
  { conn := ConnectionProfile.accepted uid fd remoteIp remotePort now
    objects := Function.update (fun _ => none) 0
      (some (ApplicationProtocolParser.request Http.Request.Parser.fresh).packet)
    next := 1, curr := 0, toParse := 0, resolving := 0, placed := [], calls := [], live := true }

/-! ## Receiving -/

/-- The connection as `DoParse` finds it. -/
def loaded (s : Shared) : ConnectionProfile :=
  match s.conn.parser, s.objects s.resolving with
  | some p, some packet => { s.conn with parser := some (withPacket packet p) }
  | _, _ => s.conn

/-- What `DoParse` has written. -/
def stored (c : ConnectionProfile) (s : Shared) : Shared :=
  match c.parser with
  | some p => { s with conn := c, objects := Function.update s.objects s.resolving (some p.packet) }
  | none => { s with conn := c }

/-- `IsHandShaken` of an object. -/
def isHandShaken (s : Shared) (object : PacketId) : Bool :=
  match s.objects object with
  | some (.webSocket packet) => packet.isHandShaken
  | _ => false

/-- The calls behind one of `DoParse`, which is listed if the parser is a
`WebSocketParser`. -/
def callsBehind (s : Shared) : List Call :=
  if s.conn.isLongLink then
    s.calls ++ [⟨s.resolving, s.isHandShaken s.resolving, s.placed.map (·.object)⟩]
  else s.calls

/-- One round of the loop of `Receive`. -/
def receiveRound (o : ReadOutcome) (s : Shared) : Shared × Option ReceiveRet :=
  match s.loaded.receiveRound o with
  | (c, ret, true) => ({ s with calls := s.callsBehind }.stored c, ret)
  | (c, ret, false) => ({ s with conn := c }, ret)

/-- `Receive`. -/
def receive : List ReadOutcome → Shared → Option (Shared × ReceiveRet)
  | [], _ => none
  | o :: outs, s =>
      match s.receiveRound o with
      | (s, some ret) => if outs = [] then some (s, ret) else none
      | (s, none) => receive outs s

/-! ## Packets are passed on -/

/-- The longlink branch of `MakeRecvContext`: `Reset`, `AllocNewPacket` and
`SetPacketToParse`, which calls `OnApplicationPacketChanged`. -/
def renew (s : Shared) : Shared :=
  { s with
    conn := s.conn.recycleParser
    objects := Function.update s.objects s.next
      (some (.webSocket Ws.WebSocketPacket.allocNewPacket))
    next := s.next + 1, curr := s.next, toParse := s.next, resolving := s.next }

/-- The `RecvContext` with this packet in it. -/
def recvContext (id : ConnId) (packet : ApplicationPacket) (s : Shared) : RecvContext :=
  { conn := id, tcpConnectionUid := s.conn.uid, fd := s.conn.fd, fromIp := s.conn.remoteIp,
    fromPort := s.conn.remotePort, type := s.conn.type, applicationPacket := packet,
    packetNo := s.curr, returnPacket := none }

/-- A `RecvContext` refers to the current packet. -/
def place (packet : ApplicationPacket) (s : Shared) : Shared :=
  { s with placed := s.placed ++ [⟨s.curr, packet⟩] }

/-- `MakeRecvContext(false)`; a null pointer in place of the packet ends the run. -/
def makeRecvContext (id : ConnId) (s : Shared) : Option (Shared × RecvContext) :=
  (s.objects s.curr).map fun packet =>
    (if s.conn.isLongLink then (s.place packet).renew else s.place packet,
      s.recvContext id packet)

/-- `UpgradeApplicationProtocol` of the web server: `ConfigApplicationLayer` makes a
packet and a parser, whose constructor gives the packet the headers of the request. -/
def upgrade (packet : ApplicationPacket) (s : Shared) : Shared :=
  match packet with
  | .request _ headers _ =>
      if s.conn.type = .kAcceptFrom then
        { s with
          conn := upgradeApplicationProtocol s.conn packet
          objects := Function.update s.objects s.next
            (some (.webSocket { Ws.WebSocketPacket.init with handshakeReq := headers }))
          next := s.next + 1, curr := s.next, toParse := s.next, resolving := s.next }
      else s
  | _ => s

/-- What `__OnReadEvent` leaves, how it goes on, and the send context it has made. -/
abbrev Outcome := Shared × ConnectionProfile.ReadEnd × Option SendContext

/-- The end of `__OnReadEvent`, with a return packet. -/
def withReturnPacket (id : ConnId) (x : CtxId) (ctx : RecvContext) (s : Shared) : Outcome :=
  let (c, made) := s.conn.makeSendContext id x
  ({ s with conn := c }, .dispatched { ctx with returnPacket := some x }, some made)

/-- The part of `__OnReadEvent` behind a parsed packet. -/
def dispatch (id : ConnId) (x : CtxId) (s : Shared) : Option Outcome :=
  if s.conn.isUpgradeApplicationProtocol then
    (s.makeRecvContext id).bind fun r =>
      ((r.1.upgrade r.2.applicationPacket).makeRecvContext id).map fun r =>
        r.1.withReturnPacket id x r.2
  else
    (s.makeRecvContext id).map fun r =>
      match r.1.conn.type with
      | .kAcceptFrom => r.1.withReturnPacket id x r.2
      | .kConnectTo => (r.1, .dispatched r.2, none)

/-- `__OnReadEvent` behind `Receive`. -/
def afterReceive (id : ConnId) (x : CtxId) (ret : ReceiveRet) (s : Shared) : Option Outcome :=
  match ret with
  | .crashed => some (s, .crashed, none)
  | .returned code =>
      if code < 0 then some (s, .deleted, none)
      else if s.conn.hasReceivedFin then some (s, .deleted, none)
      else
        match s.conn.parser with
        | none => some (s, .crashed, none)
        | some p => if p.isEnd then s.dispatch id x else some (s, .idle, none)

/-- `__OnReadEvent`. -/
def onReadEvent (id : ConnId) (x : CtxId) (outs : List ReadOutcome) (s : Shared) :
    Option Outcome :=
  (s.receive outs).bind fun r => r.1.afterReceive id x r.2

end Shared

/-! ## Runs -/

/-- A read event, whose send context would be `x`, or a worker that has a packet
and finds it not handshaken. -/
inductive ObjectEvent
  | read (x : CtxId) (outs : List ReadOutcome)
  | handShake (object : PacketId)

namespace Shared

/-- `DoHandShake` by a worker that has the packet. -/
def handShake (digest : Bytes → Bytes) (object : PacketId) (s : Shared) : Option Shared :=
  match s.objects object with
  | some (.webSocket packet) =>
      if packet.isHandShaken = false ∧ object ∈ s.placed.map (·.object) then
        some
          { s with
            objects := Function.update s.objects object
              (some (.webSocket (packet.doHandShake digest).1)) }
      else none
  | _ => none

/-- Whether the connection is live behind `__OnReadEvent`. -/
def isLiveBehind : ConnectionProfile.ReadEnd → Bool
  | .dispatched _ => true
  | .idle => true
  | .deleted => false
  | .crashed => false

/-- One event; a connection that is deleted reads no more. -/
def step (digest : Bytes → Bytes) (id : ConnId) (s : Shared) : ObjectEvent → Option Shared
  | .read x outs =>
      if s.live then
        (s.onReadEvent id x outs).map fun r => { r.1 with live := isLiveBehind r.2.1 }
      else none
  | .handShake object => s.handShake digest object

/-- The packet is handshaken and in no `RecvContext`. -/
def CallsRight (s : Shared) : Prop :=
  ∀ call ∈ s.calls, call.isHandShaken = true ∧ call.object ∉ call.placed

/-- WebSocket packets in `RecvContext`s have the opcode and the payload that they had
when they were put there. -/
def Untouched (s : Shared) : Prop :=
  ∀ d ∈ s.placed, ∀ frame, frameOf d.packet = some frame →
    ∃ packet, s.objects d.object = some packet ∧ frameOf packet = some frame

end Shared

/-! ## References in step -/

theorem withPacket_packet (p : ApplicationProtocolParser) : withPacket p.packet p = p := by
  cases p <;> rfl

namespace Shared

/-- The connection and its parser refer to one object, the last one that has been
made, and the parser's copy is right. -/
structure InStep (s : Shared) : Prop where
  curr : s.curr = s.conn.packetNo
  toParse : s.toParse = s.curr
  resolving : s.resolving = s.curr
  next : s.next = s.curr + 1
  packet : ∃ p, s.conn.parser = some p ∧ s.objects s.curr = some p.packet

theorem inStep_accepted (uid fd : Nat) (remoteIp : Bytes) (remotePort now : Nat) :
    (accepted uid fd remoteIp remotePort now).InStep :=
  ⟨rfl, rfl, rfl, rfl, .request Http.Request.Parser.fresh, rfl, rfl⟩

/-- Then `DoParse` finds what the parser's copy says. -/
theorem InStep.loaded_eq {s : Shared} (h : s.InStep) : s.loaded = s.conn := by
  obtain ⟨p, hp, hobject⟩ := h.packet
  unfold loaded
  rw [h.resolving]
  simp only [hp, hobject]
  rw [withPacket_packet, ← hp]

/-- A round that does not call `ParseProtocol` leaves the parser alone. -/
theorem parser_of_receiveRound {c c' : ConnectionProfile} {o : ReadOutcome}
    {ret : Option ReceiveRet} (h : c.receiveRound o = (c', ret, false)) : c'.parser = c.parser := by
  unfold ConnectionProfile.receiveRound at h
  dsimp only at h
  split at h
  · cases h
    rfl
  · cases o with
    | data seg =>
        dsimp only at h
        split at h
        · cases h
        · split_ifs at h <;> cases h
    | eagain =>
        cases h
        rfl
    | error =>
        cases h
        rfl
    | fin =>
        cases h
        rfl

/-- The packet that the parser fills counts as handshaken, if it is a WebSocket
packet. -/
def Marked (s : Shared) : Prop := ∀ p ∈ s.conn.parser, State.marked p = true

/-- What rounds change: the connection, the object that is parsed into, and the
list of calls. -/
structure Rounds (s t : Shared) : Prop where
  inStep : t.InStep
  marked : t.Marked
  longLink : t.conn.isLongLink = s.conn.isLongLink
  type : t.conn.type = s.conn.type
  curr : t.curr = s.curr
  next : t.next = s.next
  placed : t.placed = s.placed
  objects : ∀ y, y ≠ s.curr → t.objects y = s.objects y
  calls : ∀ call ∈ t.calls, call ∈ s.calls ∨ (s.conn.isLongLink = true ∧
    call.isHandShaken = true ∧ call.object = s.curr ∧ call.placed = s.placed.map (·.object))

theorem Rounds.trans {s t u : Shared} (h : Rounds s t) (h' : Rounds t u) : Rounds s u where
  inStep := h'.inStep
  marked := h'.marked
  longLink := h'.longLink.trans h.longLink
  type := h'.type.trans h.type
  curr := h'.curr.trans h.curr
  next := h'.next.trans h.next
  placed := h'.placed.trans h.placed
  objects := by
    intro y hy
    rw [h'.objects y (by rw [h.curr]; exact hy), h.objects y hy]
  calls := by
    intro call hcall
    rcases h'.calls call hcall with hcall | hnew
    · exact h.calls call hcall
    · rw [h.longLink, h.curr, h.placed] at hnew
      exact Or.inr hnew

/-- The parser behind a round is of the same kind. -/
theorem isLongLink_receiveRound {c c' : ConnectionProfile} {o : ReadOutcome}
    {ret : Option ReceiveRet} {parsed : Bool} (h : c.receiveRound o = (c', ret, parsed))
    {p : ApplicationProtocolParser} (hp : c.parser = some p) :
    ∃ q, c'.parser = some q ∧ q.isLongLink = p.isLongLink := by
  obtain ⟨_, _, parser, hc', hsome⟩ := ConnectionProfile.receiveRound_frame h
  have hparser : c'.parser.isSome := by
    rw [hc']
    exact hsome (by rw [hp]; rfl)
  obtain ⟨q, hq⟩ := Option.isSome_iff_exists.1 hparser
  refine ⟨q, hq, ?_⟩
  have hkeeps := ConnectionProfile.receiveRound_keeps (P := fun q => q.isLongLink = p.isLongLink)
    (fun q buf hq => (State.isLongLink_doParse q buf).trans hq) h
  apply hkeeps ?_ q hq
  intro p' hp'
  rw [hp] at hp'
  cases hp'
  rfl

/-- **One round of `Receive`.** -/
theorem receiveRound_spec {s : Shared} (h : s.InStep) (hmarked : s.Marked) (o : ReadOutcome) :
    (s.receiveRound o).1.conn = (s.conn.receiveRound o).1 ∧
      (s.receiveRound o).2 = (s.conn.receiveRound o).2.1 ∧ Rounds s (s.receiveRound o).1 := by
  obtain ⟨p, hp, hobject⟩ := h.packet
  generalize hround : s.conn.receiveRound o = round
  obtain ⟨c, ret, parsed⟩ := round
  obtain ⟨_, _, parser, hc, -⟩ := ConnectionProfile.receiveRound_frame hround
  obtain ⟨q, hq, hlong⟩ := isLongLink_receiveRound hround hp
  have hno : c.packetNo = s.conn.packetNo := by rw [hc]
  have htype : c.type = s.conn.type := by rw [hc]
  have hlink : c.isLongLink = s.conn.isLongLink := by
    unfold ConnectionProfile.isLongLink
    rw [hq, hp]
    exact hlong
  have hmarked' : ∀ q ∈ c.parser, State.marked q = true :=
    ConnectionProfile.receiveRound_keeps State.marked_doParse hround hmarked
  unfold receiveRound
  rw [h.loaded_eq, hround]
  cases parsed with
  | false =>
      refine ⟨rfl, rfl, ?_⟩
      refine ⟨⟨?_, h.toParse, h.resolving, h.next, ?_⟩, hmarked', hlink, htype, rfl, rfl, rfl,
        fun _ _ => rfl, fun _ hcall => Or.inl hcall⟩
      · show s.curr = c.packetNo
        rw [hno]
        exact h.curr
      · exact ⟨p, (parser_of_receiveRound hround).trans hp, hobject⟩
  | true =>
      have hstored : stored c { s with calls := s.callsBehind } =
          { s with conn := c, calls := s.callsBehind,
                   objects := Function.update s.objects s.resolving (some q.packet) } := by
        unfold stored
        rw [hq]
      dsimp only
      rw [hstored]
      refine ⟨rfl, rfl, ?_⟩
      refine ⟨⟨?_, h.toParse, h.resolving, h.next, q, hq, ?_⟩, hmarked', hlink, htype, rfl, rfl,
        rfl, ?_, ?_⟩
      · show s.curr = c.packetNo
        rw [hno]
        exact h.curr
      · show Function.update s.objects s.resolving _ s.curr = _
        rw [h.resolving, Function.update_self]
      · intro y hy
        show Function.update s.objects s.resolving _ y = _
        rw [h.resolving, Function.update_of_ne hy]
      · intro call hcall
        replace hcall : call ∈ s.callsBehind := hcall
        unfold callsBehind at hcall
        split at hcall
        · rename_i hlong'
          rcases List.mem_append.1 hcall with hcall | hcall
          · exact Or.inl hcall
          · rw [List.mem_singleton.1 hcall]
            refine Or.inr ⟨hlong', ?_, h.resolving, rfl⟩
            show s.isHandShaken s.resolving = true
            unfold isHandShaken
            rw [h.resolving, hobject]
            have hshaken := hmarked p hp
            unfold ConnectionProfile.isLongLink at hlong'
            rw [hp] at hlong'
            cases p with
            | request r => cases hlong'
            | response r => cases hlong'
            | webSocket r => exact hshaken
        · exact Or.inl hcall

/-- **`Receive`**, by induction on its rounds. -/
theorem receive_spec {s : Shared} (h : s.InStep) (hmarked : s.Marked) (outs : List ReadOutcome) :
    (s.receive outs).map (fun r => (r.1.conn, r.2)) =
        (s.conn.receive outs).map (fun r => (r.conn, r.ret)) ∧
      ∀ r ∈ s.receive outs, Rounds s r.1 := by
  induction outs generalizing s with
  | nil =>
      refine ⟨rfl, ?_⟩
      intro r hr
      cases hr
  | cons o outs ih =>
      obtain ⟨hconn, hret, hround⟩ := receiveRound_spec h hmarked o
      unfold receive ConnectionProfile.receive
      generalize s.receiveRound o = t at hconn hret hround
      generalize s.conn.receiveRound o = c at hconn hret
      obtain ⟨t, ret⟩ := t
      obtain ⟨c, ret', parsed⟩ := c
      cases hconn
      cases hret
      cases ret with
      | some ret =>
          dsimp only
          split
          · refine ⟨rfl, ?_⟩
            intro r hr
            cases hr
            exact hround
          · refine ⟨rfl, ?_⟩
            intro r hr
            cases hr
      | none =>
          obtain ⟨heq, hrest⟩ := ih hround.inStep hround.marked
          dsimp only
          refine ⟨?_, ?_⟩
          · rw [heq, Option.map_map]
            rfl
          · intro r hr
            exact hround.trans (hrest r hr)

/-! ## What is in `RecvContext`s -/

/-- The references are in step, and what is in a `RecvContext` is not parsed into: not
by a `WebSocketParser`, and not if it is a WebSocket packet. -/
structure Sharing (s : Shared) : Prop where
  inStep : s.InStep
  placed_lt : ∀ d ∈ s.placed, d.object < s.next
  apart : ∀ d ∈ s.placed, s.conn.isLongLink = true ∨ (frameOf d.packet).isSome = true →
    d.object ≠ s.curr
  untouched : s.Untouched
  callsRight : s.CallsRight

theorem sharing_accepted (uid fd : Nat) (remoteIp : Bytes) (remotePort now : Nat) :
    (accepted uid fd remoteIp remotePort now).Sharing where
  inStep := inStep_accepted uid fd remoteIp remotePort now
  placed_lt d hd := by cases hd
  apart d hd := by cases hd
  untouched d hd := by cases hd
  callsRight call hcall := by cases hcall

/-- Rounds of `Receive`. -/
theorem Sharing.rounds {s t : Shared} (h : s.Sharing) (hrounds : Rounds s t) : t.Sharing where
  inStep := hrounds.inStep
  placed_lt := by
    rw [hrounds.placed, hrounds.next]
    exact h.placed_lt
  apart := by
    rw [hrounds.placed, hrounds.longLink, hrounds.curr]
    exact h.apart
  untouched := by
    intro d hd frame hframe
    rw [hrounds.placed] at hd
    have hne : d.object ≠ s.curr := h.apart d hd (Or.inr (by rw [hframe]; rfl))
    rw [hrounds.objects d.object hne]
    exact h.untouched d hd frame hframe
  callsRight := by
    intro call hcall
    rcases hrounds.calls call hcall with hcall | ⟨hlong, hshaken, hobject, hplaced⟩
    · exact h.callsRight call hcall
    · refine ⟨hshaken, ?_⟩
      rw [hobject, hplaced]
      intro hmem
      obtain ⟨d, hd, hcurr⟩ := List.mem_map.1 hmem
      exact h.apart d hd (Or.inl hlong) hcurr

/-- The connection changes in other ways. -/
theorem Sharing.setConn {s : Shared} {c : ConnectionProfile} (h : s.Sharing)
    (hno : c.packetNo = s.conn.packetNo) (hparser : c.parser = s.conn.parser) :
    ({ s with conn := c } : Shared).Sharing where
  inStep := by
    obtain ⟨p, hp, hobject⟩ := h.inStep.packet
    exact ⟨h.inStep.curr.trans hno.symm, h.inStep.toParse, h.inStep.resolving, h.inStep.next, p,
      hparser.trans hp, hobject⟩
  placed_lt := h.placed_lt
  apart := by
    have hlong : c.isLongLink = s.conn.isLongLink := by
      unfold ConnectionProfile.isLongLink
      rw [hparser]
    show ∀ d ∈ s.placed, c.isLongLink = true ∨ _ → _
    rw [hlong]
    exact h.apart
  untouched := h.untouched
  callsRight := h.callsRight

/-- The current packet is put into a `RecvContext`. -/
theorem Sharing.place {s : Shared} {packet : ApplicationPacket} (h : s.Sharing)
    (hobject : s.objects s.curr = some packet) :
    (∀ d ∈ (s.place packet).placed, d.object < s.next) ∧ (s.place packet).Untouched := by
  constructor
  · intro d hd
    rcases List.mem_append.1 hd with hd | hd
    · exact h.placed_lt d hd
    · rw [List.mem_singleton.1 hd, h.inStep.next]
      exact Nat.lt_succ_self _
  · intro d hd frame hframe
    rcases List.mem_append.1 hd with hd | hd
    · exact h.untouched d hd frame hframe
    · rw [List.mem_singleton.1 hd] at hframe ⊢
      exact ⟨packet, hobject, hframe⟩

/-- The connection turns to a new object, whatever is in `RecvContext`s. -/
theorem sharing_turn {s : Shared} {c : ConnectionProfile} {p : ApplicationProtocolParser}
    (hinStep : s.InStep) (hplaced : ∀ d ∈ s.placed, d.object < s.next) (hkept : s.Untouched)
    (hcalls : s.CallsRight) (hno : c.packetNo = s.conn.packetNo + 1) (hp : c.parser = some p) :
    ({ s with
        conn := c
        objects := Function.update s.objects s.next (some p.packet)
        next := s.next + 1, curr := s.next, toParse := s.next, resolving := s.next } :
      Shared).Sharing where
  inStep := by
    refine ⟨?_, rfl, rfl, rfl, p, hp, Function.update_self _ _ _⟩
    show s.next = c.packetNo
    rw [hno, hinStep.next, hinStep.curr]
  placed_lt d hd := Nat.lt_succ_of_lt (hplaced d hd)
  apart d hd _ := Nat.ne_of_lt (hplaced d hd)
  untouched := by
    intro d hd frame hframe
    show ∃ packet, Function.update s.objects s.next _ d.object = some packet ∧ _
    rw [Function.update_of_ne (Nat.ne_of_lt (hplaced d hd))]
    exact hkept d hd frame hframe
  callsRight := hcalls

/-- The longlink branch of `MakeRecvContext`. -/
theorem renew_spec {s : Shared} {q : Ws.WebSocketParser} (hinStep : s.InStep)
    (hplaced : ∀ d ∈ s.placed, d.object < s.next) (hkept : s.Untouched)
    (hcalls : s.CallsRight) (hq : s.conn.parser = some (.webSocket q)) :
    s.renew.Sharing ∧ s.renew.Marked := by
  have hrecycle : s.conn.recycleParser =
      { s.conn with parser := some (.webSocket Ws.WebSocketParser.fresh), tcpByteArr := [],
                    packetNo := s.conn.packetNo + 1 } := by
    unfold ConnectionProfile.recycleParser
    rw [hq]
  have hparser : s.conn.recycleParser.parser = some (.webSocket Ws.WebSocketParser.fresh) := by
    rw [hrecycle]
  constructor
  · refine sharing_turn hinStep hplaced hkept hcalls ?_ hparser
    rw [hrecycle]
  · intro p hp
    replace hp : s.conn.recycleParser.parser = some p := hp
    rw [hparser] at hp
    cases hp
    rfl

/-- A packet of a connection that reads no frames. -/
theorem place_spec {s : Shared} {p : ApplicationProtocolParser} (h : s.Sharing)
    (hp : s.conn.parser = some p) (hobject : s.objects s.curr = some p.packet)
    (hshort : p.isLongLink = false) :
    (s.place p.packet).Sharing ∧ (s.place p.packet).Marked ∧ s.conn.recycleParser = s.conn := by
  obtain ⟨hplaced, hkept⟩ := h.place hobject
  have hframe : frameOf p.packet = none := by
    cases p with
    | request q => rfl
    | response q => rfl
    | webSocket q => cases hshort
  refine ⟨⟨?_, hplaced, ?_, hkept, h.callsRight⟩, ?_, ?_⟩
  · exact ⟨h.inStep.curr, h.inStep.toParse, h.inStep.resolving, h.inStep.next, p, hp, hobject⟩
  · intro d hd hreads
    rcases List.mem_append.1 hd with hd | hd
    · exact h.apart d hd hreads
    · rw [List.mem_singleton.1 hd] at hreads
      have hlong : s.conn.isLongLink = false := by
        unfold ConnectionProfile.isLongLink
        rw [hp]
        exact hshort
      simp [Shared.place, hlong, hframe] at hreads
  · intro q hq
    replace hq : s.conn.parser = some q := hq
    rw [hp] at hq
    cases hq
    cases p with
    | request q => rfl
    | response q => rfl
    | webSocket q => cases hshort
  · unfold ConnectionProfile.recycleParser
    rw [hp]
    cases p with
    | request q => rfl
    | response q => rfl
    | webSocket q => cases hshort

/-- **`MakeRecvContext`** leaves a packet that counts as handshaken, if the connection
reads frames. -/
theorem makeRecvContext_spec {s : Shared} (h : s.Sharing) (id : ConnId)
    {p : ApplicationProtocolParser} (hp : s.conn.parser = some p) :
    ∃ t, s.makeRecvContext id = some (t, (s.conn.makeRecvContext id p).2) ∧
      t.conn = (s.conn.makeRecvContext id p).1 ∧ t.Sharing ∧ t.Marked := by
  have hobject : s.objects s.curr = some p.packet := by
    obtain ⟨p', hp', hobject⟩ := h.inStep.packet
    rw [hp] at hp'
    cases hp'
    exact hobject
  obtain ⟨hplaced, hkept⟩ := h.place hobject
  have hinStep : (s.place p.packet).InStep :=
    ⟨h.inStep.curr, h.inStep.toParse, h.inStep.resolving, h.inStep.next, p, hp, hobject⟩
  have hctx : s.recvContext id p.packet = (s.conn.makeRecvContext id p).2 := by
    unfold recvContext
    rw [h.inStep.curr]
    rfl
  have hlong : s.conn.isLongLink = p.isLongLink := by
    unfold ConnectionProfile.isLongLink
    rw [hp]
  unfold makeRecvContext
  rw [hobject, Option.map_some, hctx, hlong]
  cases hkind : p.isLongLink with
  | true =>
      rw [if_pos rfl]
      cases p with
      | request q => cases hkind
      | response q => cases hkind
      | webSocket q => exact ⟨_, rfl, rfl, renew_spec hinStep hplaced hkept h.callsRight hp⟩
  | false =>
      obtain ⟨hsharing, hmarked, hrecycle⟩ := place_spec h hp hobject hkind
      rw [if_neg (by simp)]
      refine ⟨_, rfl, ?_, hsharing, hmarked⟩
      exact hrecycle.symm

/-! ## Upgrades and whole read events -/

/-- **`UpgradeApplicationProtocol`** turns the connection to the packet of the
handshake. -/
theorem upgrade_spec {s : Shared} (h : s.Sharing) (packet : ApplicationPacket) :
    (s.upgrade packet).Sharing ∧
      (s.upgrade packet).conn = upgradeApplicationProtocol s.conn packet := by
  cases packet with
  | request line headers body =>
      by_cases htype : s.conn.type = .kAcceptFrom
      · have hconn : upgradeApplicationProtocol s.conn (.request line headers body) =
            s.conn.configUpgrade (.webSocket (Ws.WebSocketParser.init headers)) := if_pos htype
        have hturn := sharing_turn
          (c := s.conn.configUpgrade (.webSocket (Ws.WebSocketParser.init headers)))
          (p := .webSocket (Ws.WebSocketParser.init headers)) h.inStep h.placed_lt h.untouched
          h.callsRight rfl rfl
        have hupgrade : s.upgrade (.request line headers body) =
            { s with
              conn := upgradeApplicationProtocol s.conn (.request line headers body)
              objects := Function.update s.objects s.next
                (some (.webSocket { Ws.WebSocketPacket.init with handshakeReq := headers }))
              next := s.next + 1, curr := s.next, toParse := s.next, resolving := s.next } :=
          if_pos htype
        rw [hupgrade, hconn]
        exact ⟨hturn, rfl⟩
      · have hconn : upgradeApplicationProtocol s.conn (.request line headers body) = s.conn :=
          if_neg htype
        have hupgrade : s.upgrade (.request line headers body) = s := if_neg htype
        rw [hupgrade, hconn]
        exact ⟨h, rfl⟩
  | response line headers body => exact ⟨h, rfl⟩
  | webSocket p => exact ⟨h, rfl⟩

theorem sharing_withReturnPacket {s : Shared} (h : s.Sharing) (hmarked : s.Marked) (id : ConnId)
    (x : CtxId) (ctx : RecvContext) :
    (s.withReturnPacket id x ctx).1.Sharing ∧ (s.withReturnPacket id x ctx).1.Marked :=
  ⟨h.setConn rfl rfl, hmarked⟩

/-- **A packet is passed on** as it is from a parser that carries its packet. -/
theorem dispatch_spec {s : Shared} (h : s.Sharing) (id : ConnId) (x : CtxId)
    {p : ApplicationProtocolParser} (hp : s.conn.parser = some p) :
    ∃ r : Outcome, s.dispatch id x = some r ∧ r.1.Sharing ∧ r.1.Marked ∧
      ConnectionProfile.dispatch upgradeApplicationProtocol id x p s.conn =
        ⟨r.1.conn, r.2.1, r.2.2⟩ := by
  obtain ⟨t, ht, hconn, hsharing, hmarked⟩ := makeRecvContext_spec h id hp
  have hup : s.conn.isUpgradeApplicationProtocol = p.isUpgradeProtocol := by
    unfold ConnectionProfile.isUpgradeApplicationProtocol
    rw [hp]
  generalize hctx : (s.conn.makeRecvContext id p).2 = ctx at ht
  cases hupgrade : p.isUpgradeProtocol with
  | true =>
      obtain ⟨hsharing', hconn'⟩ := upgrade_spec hsharing ctx.applicationPacket
      obtain ⟨q, hq, -⟩ := hsharing'.inStep.packet
      obtain ⟨u, hu, huconn, husharing, humarked⟩ := makeRecvContext_spec hsharing' id hq
      generalize hctx' : ((t.upgrade ctx.applicationPacket).conn.makeRecvContext id q).2 = ctx'
        at hu
      obtain ⟨hreturn, hreturn'⟩ := sharing_withReturnPacket husharing humarked id x ctx'
      refine ⟨u.withReturnPacket id x ctx', ?_, hreturn, hreturn', ?_⟩
      · unfold dispatch
        rw [if_pos (hup.trans hupgrade), ht, Option.bind_some, hu, Option.map_some]
      · unfold ConnectionProfile.dispatch
        rw [if_pos hupgrade]
        dsimp only
        rw [hctx, ← hconn, ← hconn']
        simp only [hq]
        unfold withReturnPacket
        rw [huconn, ← hctx']
  | false =>
      obtain ⟨hreturn, hreturn'⟩ := sharing_withReturnPacket hsharing hmarked id x ctx
      have hread : s.dispatch id x = some (match t.conn.type with
          | .kAcceptFrom => t.withReturnPacket id x ctx
          | .kConnectTo => (t, .dispatched ctx, none)) := by
        unfold dispatch
        rw [if_neg (by rw [hup, hupgrade]; simp), ht, Option.map_some]
      rw [hread]
      unfold ConnectionProfile.dispatch
      rw [if_neg (by rw [hupgrade]; simp)]
      dsimp only
      rw [hctx, ← hconn]
      cases t.conn.type with
      | kAcceptFrom => exact ⟨_, rfl, hreturn, hreturn', rfl⟩
      | kConnectTo => exact ⟨_, rfl, hsharing, hmarked, rfl⟩

/-- What `__OnReadEvent` does behind `Receive`. -/
theorem afterReceive_spec {s : Shared} (h : s.Sharing) (hmarked : s.Marked) (id : ConnId)
    (x : CtxId) (ret : ReceiveRet) :
    ∃ r : Outcome, s.afterReceive id x ret = some r ∧ r.1.Sharing ∧ r.1.Marked ∧
      s.conn.afterReceive upgradeApplicationProtocol id x ret = ⟨r.1.conn, r.2.1, r.2.2⟩ := by
  obtain ⟨p, hp, -⟩ := h.inStep.packet
  cases ret with
  | crashed => exact ⟨_, rfl, h, hmarked, rfl⟩
  | returned code =>
      unfold afterReceive ConnectionProfile.afterReceive
      by_cases hcode : code < 0
      · simp only [hcode, if_true]
        exact ⟨_, rfl, h, hmarked, rfl⟩
      · simp only [hcode, if_false]
        by_cases hfin : s.conn.hasReceivedFin = true
        · simp only [hfin, if_true]
          exact ⟨_, rfl, h, hmarked, rfl⟩
        · simp only [hfin, Bool.false_eq_true, if_false, hp]
          by_cases hend : p.isEnd = true
          · simp only [hend, if_true]
            exact dispatch_spec h id x hp
          · simp only [hend, Bool.false_eq_true, if_false]
            exact ⟨_, rfl, h, hmarked, rfl⟩

/-- **A read event** does what it does to a parser that carries its packet, and keeps
the references in step. -/
theorem onReadEvent_spec {s : Shared} (h : s.Sharing) (hmarked : s.Marked) (id : ConnId)
    (x : CtxId) (outs : List ReadOutcome) :
    (s.onReadEvent id x outs).map (fun r => (⟨r.1.conn, r.2.1, r.2.2⟩ :
        ConnectionProfile.ReadEvent)) =
        s.conn.onReadEvent upgradeApplicationProtocol id x outs ∧
      ∀ r ∈ s.onReadEvent id x outs, r.1.Sharing ∧ r.1.Marked := by
  obtain ⟨heq, hrounds⟩ := receive_spec h.inStep hmarked outs
  unfold onReadEvent ConnectionProfile.onReadEvent
  cases hreceive : s.receive outs with
  | none =>
      rw [hreceive] at heq
      cases hvalue : s.conn.receive outs with
      | none =>
          refine ⟨rfl, ?_⟩
          intro r hr
          cases hr
      | some r =>
          rw [hvalue] at heq
          cases heq
  | some r =>
      obtain ⟨t, ret⟩ := r
      have hround := hrounds (t, ret) hreceive
      rw [hreceive] at heq
      cases hvalue : s.conn.receive outs with
      | none =>
          rw [hvalue] at heq
          cases heq
      | some r =>
          rw [hvalue] at heq
          obtain ⟨hconn, hret⟩ := Prod.mk.inj (Option.some.inj heq)
          obtain ⟨outcome, hafter, hsharing, hmarked', hsame⟩ :=
            afterReceive_spec (h.rounds hround) hround.marked id x ret
          rw [Option.bind_some, Option.map_some]
          dsimp only at hconn hret ⊢
          rw [hafter, Option.map_some, ← hconn, ← hret, hsame]
          refine ⟨rfl, ?_⟩
          intro r hr
          cases hr
          exact ⟨hsharing, hmarked'⟩

/-! ## Workers and whole runs -/

/-- `DoHandShake` touches neither opcode nor payload. -/
theorem frameOf_doHandShake (digest : Bytes → Bytes) (packet : Ws.WebSocketPacket) :
    frameOf (.webSocket (packet.doHandShake digest).1) = frameOf (.webSocket packet) := by
  unfold Ws.WebSocketPacket.doHandShake
  split <;> rfl

/-- **A worker** has a packet that the parser does not refer to. -/
theorem handShake_spec {digest : Bytes → Bytes} {object : PacketId} {s t : Shared}
    (h : s.Sharing) (hstep : s.handShake digest object = some t) :
    t.Sharing ∧ t.conn = s.conn := by
  unfold handShake at hstep
  split at hstep
  · rename_i packet hobject
    split at hstep
    · rename_i hworker
      cases hstep
      obtain ⟨d, hd, hdobject⟩ := List.mem_map.1 hworker.2
      have hne : s.curr ≠ object := by
        rintro rfl
        obtain ⟨p, hp, hcurr⟩ := h.inStep.packet
        rw [hobject] at hcurr
        have hlong : s.conn.isLongLink = true := by
          unfold ConnectionProfile.isLongLink
          rw [hp]
          cases p with
          | request q => cases hcurr
          | response q => cases hcurr
          | webSocket q => rfl
        exact h.apart d hd (Or.inl hlong) hdobject
      refine ⟨⟨⟨h.inStep.curr, h.inStep.toParse, h.inStep.resolving, h.inStep.next, ?_⟩,
        h.placed_lt, h.apart, ?_, h.callsRight⟩, rfl⟩
      · obtain ⟨p, hp, hcurr⟩ := h.inStep.packet
        refine ⟨p, hp, ?_⟩
        show Function.update s.objects object _ s.curr = _
        rw [Function.update_of_ne hne]
        exact hcurr
      · intro d hd frame hframe
        obtain ⟨found, hfound, hkept⟩ := h.untouched d hd frame hframe
        show ∃ packet, Function.update s.objects object _ d.object = some packet ∧ _
        by_cases hsame : d.object = object
        · rw [hsame, hobject] at hfound
          cases hfound
          rw [hsame, Function.update_self]
          exact ⟨_, rfl, (frameOf_doHandShake digest packet).trans hkept⟩
        · rw [Function.update_of_ne hsame]
          exact ⟨found, hfound, hkept⟩
    · cases hstep
  · cases hstep

/-- **Every event** keeps the references in step. -/
theorem sharing_step {digest : Bytes → Bytes} {id : ConnId} {s t : Shared} {e : ObjectEvent}
    (h : s.Sharing ∧ s.Marked) (hstep : step digest id s e = some t) : t.Sharing ∧ t.Marked := by
  cases e with
  | read x outs =>
      replace hstep : (if s.live then _ else none) = some t := hstep
      split at hstep
      · obtain ⟨r, hr, rfl⟩ := Option.map_eq_some_iff.1 hstep
        obtain ⟨hsharing, hmarked⟩ := (onReadEvent_spec h.1 h.2 id x outs).2 r hr
        exact ⟨⟨⟨hsharing.inStep.curr, hsharing.inStep.toParse, hsharing.inStep.resolving,
          hsharing.inStep.next, hsharing.inStep.packet⟩, hsharing.placed_lt, hsharing.apart,
          hsharing.untouched, hsharing.callsRight⟩, hmarked⟩
      · cases hstep
  | handShake object =>
      obtain ⟨hsharing, hconn⟩ := handShake_spec h.1 hstep
      refine ⟨hsharing, ?_⟩
      unfold Marked
      rw [hconn]
      exact h.2

/-- **A packet that a worker has is never touched by the parser**: in every state of
every run, `WebSocketParser::DoParse` has been called for handshaken packets only, none
of which was in a `RecvContext`, and the WebSocket packets in `RecvContext`s have kept
their opcode and payload. -/
theorem neverTouched (digest : Bytes → Bytes) (id : ConnId) (uid fd : Nat) (remoteIp : Bytes)
    (remotePort now : Nat) (events : List ObjectEvent) :
    ∀ s ∈ trace (step digest id) (accepted uid fd remoteIp remotePort now) events,
      s.CallsRight ∧ s.Untouched := by
  intro s hs
  have hmarked : (accepted uid fd remoteIp remotePort now).Marked := by
    intro p hp
    cases hp
    rfl
  have hinv : s.Sharing ∧ s.Marked := trace_invariant_of_forall
    (fun _ _ _ hinv hstep => sharing_step hinv hstep)
    ⟨sharing_accepted uid fd remoteIp remotePort now, hmarked⟩ s hs
  exact ⟨hinv.1.callsRight, hinv.1.untouched⟩

/-- An upgrade, a handshake by a worker, and a frame in two segments. -/
def upgradedRun : List ObjectEvent :=
  [.read 0 [ConnectionProfile.upgradeRequest],
    .read 1 [.data ⟨[0x81, 0x82, 1], by decide, by decide⟩],
    .handShake 1,
    .read 1 [.data ⟨[2, 3, 4, 5, 6], by decide, by decide⟩]]

/-- The request, the packet of the handshake and that of the frame are three objects,
and both calls of `DoParse` were for the third. -/
theorem neverTouched_upgradedRun :
    ∃ s, run (step (fun _ => []) 0) (accepted 1 7 (lit "10.0.0.1") 4000 0) upgradedRun = some s ∧
      s.placed.map (·.object) = [0, 1, 2] ∧ s.calls.map (·.object) = [2, 2] ∧
      s.objects 2 = s.placed.getLast?.map (·.packet) ∧ s.curr = 3 ∧
      s.CallsRight ∧ s.Untouched := by
  have hends : ∃ s ∈ run (step (fun _ => []) 0) (accepted 1 7 (lit "10.0.0.1") 4000 0)
      upgradedRun,
      s.placed.map (·.object) = [0, 1, 2] ∧ s.calls.map (·.object) = [2, 2] ∧
        s.objects 2 = s.placed.getLast?.map (·.packet) ∧ s.curr = 3 := by
    decide +kernel
  obtain ⟨s, hs, hplaced, hcalls, hobject, hcurr⟩ := hends
  exact ⟨s, hs, hplaced, hcalls, hobject, hcurr,
    neverTouched _ _ _ _ _ _ _ _ s (run_mem_trace hs)⟩

end Shared

end Unixtar.WebServer
