import Unixtar.LongLink.Segmentation
import Unixtar.WebServer.WebServer

/-!
# Frames behind each other on an upgraded connection

`_ResolvePayload` takes everything that is left in the buffer for payload,
and calls a payload that gets too long an error.  So a read that brings the
beginning of the next frame as well ends the connection.

## Main results

* `parseWhole_bytes` — a frame, followed by anything, is parsed to its end
  exactly when nothing follows it.
* `onReadEvent_group` — what a read event makes of a group of whole frames.
* `delivered_iff` — all frames are delivered exactly when every read brings
  one frame and the workers are never fully loaded.
-/

namespace Unixtar.Ws

/-! ## Frames -/

/-- A masked data frame with a seven-bit length. -/
structure Frame where
  first : UInt8
  key : MaskingKey
  payload : Bytes
  isData : first &&& 0x08 = 0
  nonempty : 0 < payload.length
  short : payload.length ≤ 125

namespace Frame

/-- The frame as it is sent. -/
def bytes (f : Frame) : Bytes :=
  [f.first, 0x80 + UInt8.ofNat f.payload.length, f.key.key0, f.key.key1, f.key.key2,
    f.key.key3] ++ decodeFrom true f.key 0 f.payload

end Frame

section Layout

variable (f : Frame) (more : Bytes)

theorem Frame.length_bytes : f.bytes.length = 6 + f.payload.length := by
  unfold Frame.bytes
  rw [List.length_append, decodeFrom_length]
  rfl

/-- The second byte carries the mask bit and the length. -/
theorem lenByte_spec {n : Nat} (h : n ≤ 125) :
    (0x80 + UInt8.ofNat n) &&& 0x7f = UInt8.ofNat n ∧
      (0x80 + UInt8.ofNat n) &&& 0x80 ≠ (0 : UInt8) := by
  have hall : ∀ m : Fin 126, (0x80 + UInt8.ofNat m) &&& 0x7f = UInt8.ofNat m ∧
      (0x80 + UInt8.ofNat m) &&& 0x80 ≠ (0 : UInt8) := by decide
  exact hall ⟨n, Nat.lt_succ_of_le h⟩

theorem toNat_lenCode_bytes : (lenCode (f.bytes ++ more)).toNat = f.payload.length := by
  have hcode : lenCode (f.bytes ++ more) = UInt8.ofNat f.payload.length :=
    (lenByte_spec f.short).1
  have hshort := f.short
  rw [hcode, UInt8.toNat_ofNat', Nat.mod_eq_of_lt (by omega)]

theorem isMasked_bytes : isMasked (f.bytes ++ more) = true :=
  decide_eq_true (lenByte_spec f.short).2

theorem keyOffset_bytes : keyOffset (f.bytes ++ more) = 2 := by
  have hlen := toNat_lenCode_bytes f more
  have hshort := f.short
  unfold keyOffset extendedWidth
  rw [if_neg, if_neg]
  · intro h
    rw [h] at hlen
    have h127 : (127 : UInt8).toNat = 127 := rfl
    omega
  · intro h
    rw [h] at hlen
    have h126 : (126 : UInt8).toNat = 126 := rfl
    omega

theorem headerLen_bytes : headerLen (f.bytes ++ more) = 6 := by
  rw [keyOffset_eq_of_masked (isMasked_bytes f more), keyOffset_bytes]

theorem maskingKey_bytes : maskingKey (f.bytes ++ more) = f.key := by
  unfold maskingKey
  rw [keyOffset_bytes]
  rfl

/-- What follows the frame is decoded with it. -/
theorem payloadOf_bytes :
    payloadOf (f.bytes ++ more) =
      f.payload ++ decodeFrom true f.key f.payload.length more := by
  unfold payloadOf
  rw [isMasked_bytes, maskingKey_bytes, headerLen_bytes]
  show decodeFrom true f.key 0 (decodeFrom true f.key 0 f.payload ++ more) = _
  rw [decodeFrom_append, decodeFrom_decodeFrom, decodeFrom_length, Nat.zero_add]

/-- The packet of a frame is handshaken and is no close. -/
theorem keyPacket_bytes :
    (keyPacket (f.bytes ++ more)).opCode ≠ WebSocketPacket.kOpcodeConnectionClose := by
  have hop : (keyPacket (f.bytes ++ more)).opCode = f.first &&& 0x0f := by
    unfold keyPacket
    rw [if_pos (isMasked_bytes f more)]
    rfl
  rw [hop]
  intro h
  have hbit := congrArg (fun b => b &&& (0x08 : UInt8)) h
  simp only [UInt8.and_assoc] at hbit
  have hzero : f.first &&& 0x08 = 0x08 := hbit
  rw [f.isData] at hzero
  exact absurd hzero (by decide)

/-- A frame, followed by anything: the whole rest of the buffer becomes
payload. -/
theorem parseWhole_bytes :
    parseWhole (f.bytes ++ more) =
      ⟨{ keyPacket (f.bytes ++ more) with payload := payloadOf (f.bytes ++ more) },
        if more = [] then .kEnd else .kError, (f.bytes ++ more).length⟩ := by
  have hlength : (f.bytes ++ more).length = 6 + f.payload.length + more.length := by
    rw [List.length_append, Frame.length_bytes]
  have hnonempty := f.nonempty
  have hkey := keyOffset_bytes f more
  have hheader := headerLen_bytes f more
  have hlen := toNat_lenCode_bytes f more
  rw [parseWhole_eq, frameState_payload _ (by omega)]
  unfold afterPayload payloadPosition
  rw [payloadOf_length, hlen, hheader, hlength]
  by_cases hmore : more = []
  · subst hmore
    rw [if_pos (by simp), if_pos rfl]
  · have hpos := List.length_pos_iff.2 hmore
    rw [if_neg (by omega), if_pos (by omega), if_neg hmore]

end Layout

/-! ## `DoParse` does not crash on a handshaken packet -/

theorem WebSocketParser.loop_returned (buf : Bytes) (fuel : Nat) (p : WebSocketParser) :
    ∃ code, (WebSocketParser.loop buf fuel p).2 = .returned code := by
  induction fuel generalizing p with
  | zero => exact ⟨0, rfl⟩
  | succ fuel ih =>
      unfold WebSocketParser.loop
      dsimp only
      split
      · exact ⟨0, rfl⟩
      · split
        · exact ⟨-1, rfl⟩
        · split
          · exact ⟨0, rfl⟩
          · exact ih _

theorem WebSocketParser.doParse_returned {p : WebSocketParser} (buf : Bytes)
    (h : p.packet.isHandShaken = true) :
    ∃ code, WebSocketParser.doParse buf p = (WebSocketParser.parsed buf p, .returned code) := by
  have hret : ∃ code, (WebSocketParser.doParse buf p).2 = .returned code := by
    unfold WebSocketParser.doParse
    rw [if_neg (by simp [h])]
    split
    · exact ⟨0, rfl⟩
    · exact WebSocketParser.loop_returned buf 6 p
  obtain ⟨code, hcode⟩ := hret
  exact ⟨code, Prod.ext rfl hcode⟩

end Unixtar.Ws

namespace Unixtar.WebServer

open Unixtar.Lib Unixtar.Ws ConnectionProfile

/-! ## An upgraded connection -/

/-- A connection behind its upgrade, between two frames. -/
structure Upgraded (c : ConnectionProfile) : Prop where
  type : c.type = .kAcceptFrom
  parser : c.parser = some (.webSocket WebSocketParser.fresh)
  buffer : c.tcpByteArr = []
  unflagged : c.isEagain = false
  running : c.hasReceivedFin = false

instance (c : ConnectionProfile) : Decidable (Upgraded c) :=
  decidable_of_iff (c.type = .kAcceptFrom ∧ c.parser = some (.webSocket WebSocketParser.fresh) ∧
    c.tcpByteArr = [] ∧ c.isEagain = false ∧ c.hasReceivedFin = false)
    ⟨fun h => ⟨h.1, h.2.1, h.2.2.1, h.2.2.2.1, h.2.2.2.2⟩,
     fun h => ⟨h.type, h.parser, h.buffer, h.unflagged, h.running⟩⟩

/-- A read of some whole frames. -/
structure Group where
  head : Frame
  tail : List Frame
  fits : (head.bytes ++ tail.flatMap Frame.bytes).length < kBufferSize

namespace Group

def frames (g : Group) : List Frame := g.head :: g.tail

def bytes (g : Group) : Bytes := g.head.bytes ++ g.tail.flatMap Frame.bytes

theorem length_bytes_pos (g : Group) : 0 < g.bytes.length := by
  unfold bytes
  rw [List.length_append, Frame.length_bytes]
  omega

def outcome (g : Group) : ReadOutcome :=
  .data ⟨g.bytes, g.length_bytes_pos, Nat.le_of_lt g.fits⟩

end Group

theorem flatMap_bytes_eq_nil_iff (fs : List Frame) :
    fs.flatMap Frame.bytes = [] ↔ fs = [] := by
  constructor
  · intro h
    cases fs with
    | nil => rfl
    | cons f fs =>
        have hlength := congrArg List.length h
        rw [List.flatMap_cons, List.length_append, Frame.length_bytes, List.length_nil] at hlength
        omega
  · rintro rfl
    rfl

/-- `ParseProtocol` on the bytes of a group. -/
theorem parseProtocol_group {c : ConnectionProfile} (g : Group)
    (hparser : c.parser = some (.webSocket WebSocketParser.fresh))
    (hbuffer : c.tcpByteArr = g.bytes) :
    c.parseProtocol =
      ({ c with parser := some (.webSocket (parseWhole g.bytes)) },
        .returned (if g.tail = [] then 0 else -2)) := by
  obtain ⟨code, hparse⟩ := WebSocketParser.doParse_returned (p := WebSocketParser.fresh)
    g.bytes rfl
  have herr : (parseWhole g.bytes).isErr = decide (g.tail ≠ []) := by
    unfold WebSocketParser.isErr Group.bytes
    rw [parseWhole_bytes]
    show decide ((if _ then TPosition.kEnd else TPosition.kError) = _) = _
    simp only [flatMap_bytes_eq_nil_iff]
    by_cases htail : g.tail = [] <;> simp [htail]
  unfold parseProtocol
  simp only [hparser, hbuffer, ApplicationProtocolParser.doParse, hparse]
  show _ = (_, ReceiveRet.returned _)
  rw [show WebSocketParser.parsed g.bytes WebSocketParser.fresh = parseWhole g.bytes from rfl]
  simp only [ApplicationProtocolParser.isErr, herr]
  by_cases htail : g.tail = [] <;> simp [htail]

/-- `Receive` on a group: one round, which ends the call. -/
theorem receive_group {c : ConnectionProfile} (g : Group) (hc : Upgraded c) :
    ∃ rounds, c.receive [g.outcome] =
      some ⟨{ c with tcpByteArr := g.bytes, parser := some (.webSocket (parseWhole g.bytes)) },
        .returned (if g.tail = [] then 0 else -1), rounds⟩ := by
  have hread : c.read g.outcome = { c with tcpByteArr := g.bytes } := by
    unfold ConnectionProfile.read
    rw [hc.buffer]
    rfl
  have hfull : g.outcome.isBufferFull = false := decide_eq_false (Nat.ne_of_lt g.fits)
  have hround : c.receiveRound g.outcome =
      ({ c with tcpByteArr := g.bytes, parser := some (.webSocket (parseWhole g.bytes)) },
        some (.returned (if g.tail = [] then 0 else -1)), true) := by
    have hparse := parseProtocol_group (c := { c with tcpByteArr := g.bytes }) g hc.parser rfl
    have hflag : ({ c with tcpByteArr := g.bytes } : ConnectionProfile).isEagain ≠ true := by
      show c.isEagain ≠ true
      rw [hc.unflagged]
      decide
    unfold receiveRound
    dsimp only
    rw [hread, if_neg hflag, hfull, hparse]
    by_cases htail : g.tail = [] <;> simp [Group.outcome, htail]
  unfold receive
  simp only [hround]
  exact ⟨_, rfl⟩

/-- **One frame** is passed on and leaves the connection ready for the next. -/
theorem onReadEvent_single {c : ConnectionProfile} (g : Group) (hc : Upgraded c) (id : ConnId)
    (x : CtxId) (htail : g.tail = []) :
    ∃ nextNo packetNo packet, c.onReadEvent upgradeApplicationProtocol id x [g.outcome] =
        some ⟨behindDispatch x (.webSocket WebSocketParser.fresh) [] nextNo c,
          .dispatched (passedContext id x (.webSocket packet) packetNo c),
          some (madeContext id c)⟩ ∧
      packet.isHandShaken = true ∧ packet.payload = g.head.payload ∧
      packet.opCode ≠ WebSocketPacket.kOpcodeConnectionClose := by
  obtain ⟨rounds, hreceive⟩ := receive_group g hc
  have hbytes : g.bytes = g.head.bytes ++ [] := by
    unfold Group.bytes
    rw [htail]
    rfl
  have hend : (ApplicationProtocolParser.webSocket (parseWhole g.bytes)).isEnd = true := by
    rw [hbytes, parseWhole_bytes]
    rfl
  have hpacket : (parseWhole g.bytes).packet.isHandShaken = true ∧
      (parseWhole g.bytes).packet.payload = g.head.payload ∧
      (parseWhole g.bytes).packet.opCode ≠ WebSocketPacket.kOpcodeConnectionClose := by
    rw [hbytes, parseWhole_bytes]
    refine ⟨keyPacket_isHandShaken _, ?_, keyPacket_bytes g.head []⟩
    show payloadOf _ = _
    rw [payloadOf_bytes]
    exact List.append_nil _
  unfold onReadEvent
  rw [hreceive]
  generalize hd : ({ c with
    tcpByteArr := g.bytes, parser := some (.webSocket (parseWhole g.bytes)) } :
    ConnectionProfile) = d
  have hparser : d.parser = some (.webSocket (parseWhole g.bytes)) := by rw [← hd]
  have htype : d.type = .kAcceptFrom := by rw [← hd]; exact hc.type
  have hfin : d.hasReceivedFin = false := by rw [← hd]; exact hc.running
  obtain ⟨parser, tcpByteArr, nextNo, packet, packetNo, hdispatch, hpasses, hlong⟩ :=
    dispatch_accepted id x hparser htype
  have hafter : afterReceive upgradeApplicationProtocol id x
      (.returned (if g.tail = [] then 0 else -1)) d =
      dispatch upgradeApplicationProtocol id x (.webSocket (parseWhole g.bytes)) d := by
    simp [afterReceive, htail, hfin, hparser, hend]
  cases hpasses with
  | frame =>
      refine ⟨nextNo, packetNo, (parseWhole g.bytes).packet, ?_, hpacket⟩
      show some (afterReceive _ _ _ _ _) = _
      rw [hafter, hdispatch, hlong rfl, ← hd]
      rfl

/-- **A read event on an upgraded connection**: more than one frame ends the
connection. -/
theorem onReadEvent_group {c : ConnectionProfile} (g : Group) (hc : Upgraded c) (id : ConnId)
    (x : CtxId) :
    ∃ ev, c.onReadEvent upgradeApplicationProtocol id x [g.outcome] = some ev ∧
      (g.tail = [] → Upgraded ev.conn ∧ ∃ ctx p, ev.stop = .dispatched ctx ∧
        ctx.applicationPacket = .webSocket p ∧ p.payload = g.head.payload ∧
        p.opCode ≠ WebSocketPacket.kOpcodeConnectionClose) ∧
      (g.tail ≠ [] → ev.stop = .deleted) := by
  by_cases htail : g.tail = []
  · obtain ⟨nextNo, packetNo, packet, hevent, -, hpayload, hclose⟩ :=
      onReadEvent_single g hc id x htail
    refine ⟨_, hevent, ?_, fun h => absurd htail h⟩
    intro _
    exact ⟨⟨hc.type, rfl, rfl, hc.unflagged, hc.running⟩, _, packet, rfl, rfl, hpayload, hclose⟩
  · obtain ⟨rounds, hreceive⟩ := receive_group g hc
    unfold onReadEvent
    rw [hreceive, if_neg htail]
    exact ⟨_, rfl, fun h => absurd h htail, fun _ => rfl⟩

/-! ## Whole runs -/

/-- The connection, the packets passed to `HandleApplicationPacket`, and
whether the connection has been deleted. -/
structure FrameRun where
  conn : ConnectionProfile
  nextCtx : CtxId
  passed : List ApplicationPacket
  dropped : Bool

namespace FrameRun

/-- One read event, which finds `backlog` packets on `recv_queue_`.  Behind
a deletion there are no read events any more. -/
def read (maxBacklog : Nat) (id : ConnId) (r : FrameRun) (e : Group × Nat) : Option FrameRun :=
  if r.dropped then some r
  else
    match r.conn.onReadEvent upgradeApplicationProtocol id r.nextCtx [e.1.outcome] with
    | none => none
    | some ev =>
        match ev.stop with
        | .dispatched ctx =>
            some
              { conn := ev.conn, nextCtx := r.nextCtx + 1,
                passed := r.passed ++ [ctx.applicationPacket],
                dropped := State.refuses (e.2 ≥ maxBacklog) ctx.applicationPacket }
        | .deleted => some { r with conn := ev.conn, dropped := true }
        | .idle => some { r with conn := ev.conn }
        | .crashed => none

/-- The payload that a packet carries. -/
def carried : ApplicationPacket → Option Bytes
  | .webSocket p => some p.payload
  | _ => none

/-- The packets passed on carry the payloads of the frames, each once and in
order, and the connection is still there. -/
def Delivered (frames : List Frame) (r : FrameRun) : Prop :=
  r.passed.map carried = frames.map (fun f => some f.payload) ∧ r.dropped = false

/-- One frame in the read, and room on the queue. -/
def Single (maxBacklog : Nat) (e : Group × Nat) : Prop := e.1.tail = [] ∧ e.2 < maxBacklog

/-- A deleted connection stays deleted. -/
theorem run_dropped (maxBacklog : Nat) (id : ConnId) {r : FrameRun} (h : r.dropped = true)
    (reads : List (Group × Nat)) : run (read maxBacklog id) r reads = some r := by
  induction reads with
  | nil => rfl
  | cons e reads ih =>
      have hstep : read maxBacklog id r e = some r := if_pos h
      rw [run_cons_some hstep]
      exact ih

/-- One read event. -/
theorem read_spec (maxBacklog : Nat) (id : ConnId) {r : FrameRun} (e : Group × Nat)
    (hc : Upgraded r.conn) (hlive : r.dropped = false) :
    ∃ r', read maxBacklog id r e = some r' ∧
      (Single maxBacklog e → Upgraded r'.conn ∧ r'.dropped = false ∧
        r'.passed.map carried = r.passed.map carried ++ [some e.1.head.payload]) ∧
      (¬ Single maxBacklog e → r'.dropped = true) := by
  obtain ⟨ev, hev, hone, hmore⟩ := onReadEvent_group e.1 hc id r.nextCtx
  have hread : read maxBacklog id r e = match ev.stop with
      | .dispatched ctx =>
          some
            { conn := ev.conn, nextCtx := r.nextCtx + 1,
              passed := r.passed ++ [ctx.applicationPacket],
              dropped := State.refuses (e.2 ≥ maxBacklog) ctx.applicationPacket }
      | .deleted => some { r with conn := ev.conn, dropped := true }
      | .idle => some { r with conn := ev.conn }
      | .crashed => none := by
    unfold read
    rw [if_neg (by rw [hlive]; decide)]
    simp only [hev]
  by_cases htail : e.1.tail = []
  · obtain ⟨hup, ctx, p, hstop, hpacket, hpayload, hclose⟩ := hone htail
    rw [hread, hstop]
    refine ⟨_, rfl, ?_, ?_⟩
    · intro hsingle
      refine ⟨hup, ?_, ?_⟩
      · simp [State.refuses, hpacket, hsingle.2, hclose]
      · rw [List.map_append, hpacket]
        simp [carried, hpayload]
    · intro hsingle
      have hfull : e.2 ≥ maxBacklog := by
        by_contra hroom
        exact hsingle ⟨htail, Nat.lt_of_not_le hroom⟩
      simp [State.refuses, hfull]
  · rw [hread, hmore htail]
    refine ⟨_, rfl, ?_, fun _ => rfl⟩
    intro hsingle
    exact absurd hsingle.1 htail

/-- A whole run: either every read brings one frame, and all payloads arrive
behind those that have arrived already, or the connection is deleted. -/
theorem run_spec (maxBacklog : Nat) (id : ConnId) (reads : List (Group × Nat)) {r : FrameRun}
    (hc : Upgraded r.conn) (hlive : r.dropped = false) :
    ∃ r', run (read maxBacklog id) r reads = some r' ∧
      ((∀ e ∈ reads, Single maxBacklog e) → r'.dropped = false ∧
        r'.passed.map carried = r.passed.map carried ++
          (reads.flatMap fun e => e.1.frames).map fun f => some f.payload) ∧
      (¬ (∀ e ∈ reads, Single maxBacklog e) → r'.dropped = true) := by
  induction reads generalizing r with
  | nil => exact ⟨r, rfl, fun _ => ⟨hlive, by simp⟩, fun h => absurd (by simp) h⟩
  | cons e reads ih =>
      obtain ⟨r₁, hread, hgood, hbad⟩ := read_spec maxBacklog id e hc hlive
      rw [run_cons_some hread]
      by_cases hsingle : Single maxBacklog e
      · obtain ⟨hc₁, hlive₁, hpassed₁⟩ := hgood hsingle
        obtain ⟨r', hrun, hall, hany⟩ := ih hc₁ hlive₁
        refine ⟨r', hrun, ?_, ?_⟩
        · intro hreads
          obtain ⟨hlive', hpassed'⟩ := hall fun e' he' => hreads e' (List.mem_cons_of_mem _ he')
          refine ⟨hlive', ?_⟩
          have hframes : e.1.frames = [e.1.head] := by
            unfold Group.frames
            rw [hsingle.1]
          rw [hpassed', hpassed₁, List.flatMap_cons, hframes]
          simp
        · intro hreads
          apply hany
          intro hrest
          apply hreads
          intro e' he'
          rcases List.mem_cons.1 he' with rfl | he'
          · exact hsingle
          · exact hrest e' he'
      · refine ⟨r₁, run_dropped maxBacklog id (hbad hsingle) reads, ?_, fun _ => hbad hsingle⟩
        intro hreads
        exact absurd (hreads e List.mem_cons_self) hsingle

/-- **All frames are delivered** exactly when every read brings one frame
and never finds the workers fully loaded. -/
theorem delivered_iff (maxBacklog : Nat) (id : ConnId) (c : ConnectionProfile) (x : CtxId)
    (hc : Upgraded c) (reads : List (Group × Nat)) :
    ∃ r, run (read maxBacklog id) ⟨c, x, [], false⟩ reads = some r ∧
      (r.Delivered (reads.flatMap fun e => e.1.frames) ↔ ∀ e ∈ reads, Single maxBacklog e) := by
  obtain ⟨r, hrun, hall, hany⟩ := run_spec maxBacklog id reads (r := ⟨c, x, [], false⟩) hc rfl
  refine ⟨r, hrun, ?_, ?_⟩
  · rintro ⟨-, hlive⟩
    by_contra hbad
    rw [hany hbad] at hlive
    cases hlive
  · intro hsingle
    obtain ⟨hlive, hpassed⟩ := hall hsingle
    exact ⟨hpassed, hlive⟩

/-! ## Two frames -/

/-- A connection behind its upgrade. -/
def upgradedSample : ConnectionProfile :=
  { ConnectionProfile.sample with
    parser := some (.webSocket WebSocketParser.fresh), packetNo := 2, sendCtxSeq := 1,
    sendContexts := [0] }

/-- The text frames "hello" and "bye". -/
def hello : Frame := ⟨0x81, ⟨1, 2, 3, 4⟩, lit "hello", by decide, by decide, by decide⟩

def bye : Frame := ⟨0x81, ⟨5, 6, 7, 8⟩, lit "bye", by decide, by decide, by decide⟩

/-- The text frame "hello" in a read of its own. -/
def helloGroup : Group := ⟨hello, [], by decide⟩

theorem delivered_apart :
    ∃ r, run (read 1024 0) ⟨upgradedSample, 1, [], false⟩
        [(⟨hello, [], by decide⟩, 0), (⟨bye, [], by decide⟩, 1)] = some r ∧
      r.Delivered [hello, bye] := by
  obtain ⟨r, hrun, hiff⟩ := delivered_iff 1024 0 upgradedSample 1 ⟨rfl, rfl, rfl, rfl, rfl⟩
    [(⟨hello, [], by decide⟩, 0), (⟨bye, [], by decide⟩, 1)]
  refine ⟨r, hrun, hiff.2 ?_⟩
  intro e he
  simp only [List.mem_cons, List.not_mem_nil, or_false] at he
  rcases he with rfl | rfl
  · exact ⟨rfl, by decide⟩
  · exact ⟨rfl, by decide⟩

/-- Both frames in one read: none is delivered, and the connection is gone. -/
theorem not_delivered_together :
    ∃ r, run (read 1024 0) ⟨upgradedSample, 1, [], false⟩
        [(⟨hello, [bye], by decide⟩, 0)] = some r ∧
      r.passed = [] ∧ r.dropped = true ∧ ¬ r.Delivered [hello, bye] := by
  refine ⟨_, rfl, rfl, rfl, ?_⟩
  rintro ⟨hpassed, -⟩
  cases hpassed

end FrameRun

end Unixtar.WebServer
