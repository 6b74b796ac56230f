import Unixtar.LongLink.WireFormat
import Unixtar.WebServer.Frames

/-!
# WebSocket frames in pieces

A client sends frames on an upgraded connection, each in as many segments as
it takes, and no segment reaches from one frame into the next.

`__OnReadEvent` passes a packet on in the event that brings the last byte of a
frame, and in no other, wherever the frame is cut.  The packet carries the
payload of the frame only if every cut is in phase with the masking key:
`_ResolvePayload` starts at the first key byte in each call.

## Main results

* `Frame.runsToLast`, `Frame.isEnd_parseChunks` — one frame and its parser.
* `FrameRun.passedOnce` — all frames of a session.
-/

namespace Unixtar.Ws

open Unixtar.Lib

/-- The packet that is being read counts as handshaken. -/
theorem isHandShaken_parseChunks (chunks : List Bytes) :
    (parseChunks chunks).packet.isHandShaken = true := by
  have hfeed : ∀ (cs : List Bytes) (b : Bytes) (p : WebSocketParser),
      p.packet.isHandShaken = true →
        (feed WebSocketParser.parsed b p cs).packet.isHandShaken = true := by
    intro cs
    induction cs with
    | nil => exact fun _ _ hp => hp
    | cons c cs ih =>
        intro b p hp
        exact ih _ _ ((WebSocketParser.doParse_isHandShaken (b ++ c) p).trans hp)
  exact hfeed chunks [] WebSocketParser.fresh rfl

namespace Frame

variable (f : Frame)

/-- Nothing but the whole frame ends it. -/
theorem eq_of_stopped {b x : Bytes} (hb : b <+: f.bytes) (hx : Decoded b x)
    (h : Stopped (frameState b x)) : b = f.bytes := by
  obtain ⟨hlong, henough⟩ := le_of_stopped hx h
  have htwo := two_le_keyOffset b
  have hkey := keyOffset_le_headerLen b
  have hcode := toNat_lenCode_bytes f []
  have hhead := headerLen_bytes f []
  have hlen := f.length_bytes
  obtain ⟨rest, hrest⟩ := hb
  rw [List.append_nil, ← hrest, lenCode_append rest (by omega)] at hcode
  rw [List.append_nil, ← hrest, headerLen_append rest (by omega)] at hhead
  refine List.IsPrefix.eq_of_length ⟨rest, hrest⟩ ?_
  have hle := congrArg List.length hrest
  rw [List.length_append] at hle
  omega

variable {f} {chunks : List Bytes}

/-- No segment but the last of a frame brings the parser to its end. -/
theorem runsToLast (hne : ∀ c ∈ chunks, c ≠ []) (hpre : chunks.flatten <+: f.bytes) :
    RunsToLast chunks := by
  have hstop : ∀ b p, b <+: chunks.flatten → b ≠ chunks.flatten →
      (∃ x, Decoded b x ∧ p = frameState b x) → ¬ Stopped p := by
    rintro b p hb hproper ⟨x, hx, rfl⟩ h
    have hwhole := f.eq_of_stopped (hb.trans hpre) hx h
    apply hproper
    exact hb.eq_of_length (Nat.le_antisymm hb.length_le (hwhole ▸ hpre.length_le))
  have hstart : ∃ x, Decoded [] x ∧ WebSocketParser.fresh = frameState [] x := ⟨[], rfl, rfl⟩
  have hparse : ∀ b c p, c ≠ [] → b ++ c <+: chunks.flatten →
      (∃ x, Decoded b x ∧ p = frameState b x) →
      ∃ x, Decoded (b ++ c) x ∧ WebSocketParser.parsed (b ++ c) p = frameState (b ++ c) x := by
    rintro b c p hc hb ⟨x, hx, rfl⟩
    have hproper : b ≠ chunks.flatten := by
      rintro rfl
      have hle := hb.length_le
      have hpos := List.length_pos_of_ne_nil hc
      rw [List.length_append] at hle
      omega
    have hgoes := hstop b _ ((List.prefix_append b c).trans hb) hproper ⟨x, hx, rfl⟩
    obtain ⟨hparsed, hdecoded⟩ := parsed_frameState b c x hc hgoes hx
    exact ⟨_, hdecoded, hparsed⟩
  exact (feed_of_prefixes hparse hstop hstart hne (List.nil_append _)).1

/-- Behind a part of a frame the parser is at its end if the part is the
whole. -/
theorem isEnd_parseChunks (hne : ∀ c ∈ chunks, c ≠ []) (hpre : chunks.flatten <+: f.bytes) :
    (parseChunks chunks).isErr = false ∧
      ((parseChunks chunks).isEnd = true ↔ chunks.flatten = f.bytes) := by
  obtain ⟨hstate, hdecoded⟩ := parseChunks_eq hne (runsToLast hne hpre)
  by_cases hwhole : chunks.flatten = f.bytes
  · have hend : (parseChunks chunks).position = .kEnd := by
      have hcode := toNat_lenCode_bytes f []
      have hhead := headerLen_bytes f []
      have hlen := f.length_bytes
      have hpos := f.nonempty
      unfold Decoded at hdecoded
      rw [hwhole] at hstate hdecoded
      rw [List.append_nil] at hcode hhead
      rw [hstate, frameState_payload _ (by omega)]
      show payloadPosition _ _ = _
      rw [payloadPosition, if_pos (by omega)]
    refine ⟨?_, fun _ => hwhole, fun _ => decide_eq_true hend⟩
    unfold WebSocketParser.isErr
    rw [hend]
    rfl
  · have hgoes : ¬ Stopped (parseChunks chunks) := by
      intro h
      rw [hstate] at h
      exact hwhole (f.eq_of_stopped hpre hdecoded h)
    obtain ⟨hend, herr⟩ := not_or.1 hgoes
    refine ⟨decide_eq_false herr, fun h => absurd (of_decide_eq_true h) hend, ?_⟩
    exact fun h => absurd h hwhole

/-- The packet behind the last segment. -/
theorem packet_parseChunks (hne : ∀ c ∈ chunks, c ≠ []) (hwhole : chunks.flatten = f.bytes) :
    (parseChunks chunks).packet.payload = payloadOfChunks chunks ∧
      (parseChunks chunks).packet.opCode ≠ WebSocketPacket.kOpcodeConnectionClose := by
  obtain ⟨hstate, -⟩ := parseChunks_eq hne (runsToLast (f := f) hne (hwhole ▸ List.prefix_refl _))
  have hhead := headerLen_bytes f []
  have hclose := keyPacket_bytes f []
  have hlen := f.length_bytes
  have hpos := f.nonempty
  rw [List.append_nil] at hhead hclose
  rw [hwhole] at hstate
  rw [hstate, frameState_payload _ (by omega)]
  exact ⟨rfl, hclose⟩

/-- The payload is that of the frame, in phase. -/
theorem payloadOfChunks_iff (hwhole : chunks.flatten = f.bytes) :
    payloadOfChunks chunks = f.payload ↔ InPhase f.bytes 0 chunks := by
  have hpayload : payloadOf f.bytes = f.payload := by
    have h := payloadOf_bytes f []
    rwa [List.append_nil, show decodeFrom true f.key f.payload.length [] = [] from rfl,
      List.append_nil] at h
  rw [← hwhole, ← accumulate_payload_iff, hwhole, hpayload]

end Frame

end Unixtar.Ws

namespace Unixtar.WebServer

open Unixtar.Lib Unixtar.Ws ConnectionProfile

/-! ## One segment -/

/-- An upgraded connection behind the segments `chunks` of a frame. -/
structure Reading (chunks : List Bytes) (c : ConnectionProfile) : Prop where
  type : c.type = .kAcceptFrom
  parser : c.parser = some (.webSocket (parseChunks chunks))
  buffer : c.tcpByteArr = chunks.flatten
  unflagged : c.isEagain = false
  running : c.hasReceivedFin = false
  nonempty : ∀ d ∈ chunks, d ≠ []

theorem Upgraded.reading {c : ConnectionProfile} (h : Upgraded c) : Reading [] c :=
  ⟨h.type, h.parser, h.buffer, h.unflagged, h.running, by simp⟩

section Piece

variable {f : Frame} {c : ConnectionProfile} {chunks : List Bytes} {seg : Segment}

theorem Reading.snoc_ne_nil (hc : Reading chunks c) : ∀ d ∈ chunks ++ [seg.bytes], d ≠ [] := by
  intro d hd
  rcases List.mem_append.1 hd with hd | hd
  · exact hc.nonempty d hd
  · rw [List.mem_singleton.1 hd]
    exact List.length_pos_iff.1 seg.nonempty

/-- `Receive` on a segment of a frame: one round, which ends the call. -/
theorem receive_piece (hc : Reading chunks c)
    (hpre : (chunks ++ [seg.bytes]).flatten <+: f.bytes) :
    ∃ r, c.receive [.data seg] = some r ∧ r.ret = .returned 0 ∧
      Reading (chunks ++ [seg.bytes]) r.conn := by
  have hflat : (chunks ++ [seg.bytes]).flatten = c.tcpByteArr ++ seg.bytes := by
    rw [List.flatten_append, hc.buffer]
    simp
  have hsmall : (ReadOutcome.data seg).isBufferFull = false := by
    have hle := hpre.length_le
    have hshort := f.short
    rw [hflat, List.length_append, f.length_bytes] at hle
    refine decide_eq_false ?_
    unfold kBufferSize
    omega
  have hfeed : WebSocketParser.parsed (c.tcpByteArr ++ seg.bytes) (parseChunks chunks) =
      parseChunks (chunks ++ [seg.bytes]) := by
    unfold parseChunks
    rw [feed_concat, hc.buffer]
    rfl
  obtain ⟨code, hparse⟩ := WebSocketParser.doParse_returned (c.tcpByteArr ++ seg.bytes)
    (isHandShaken_parseChunks chunks)
  obtain ⟨herr, -⟩ := Frame.isEnd_parseChunks hc.snoc_ne_nil hpre
  have hprotocol : (c.read (.data seg)).parseProtocol =
      ({ c.read (.data seg) with
          parser := some (.webSocket (parseChunks (chunks ++ [seg.bytes]))) },
        .returned 0) := by
    have hparser : (c.read (.data seg)).parser = some (.webSocket (parseChunks chunks)) := hc.parser
    have hbuffer : (c.read (.data seg)).tcpByteArr = c.tcpByteArr ++ seg.bytes := rfl
    unfold parseProtocol
    rw [hparser]
    simp only [ApplicationProtocolParser.doParse, hbuffer, hparse, hfeed,
      ApplicationProtocolParser.isErr, herr, Bool.false_eq_true, if_false]
  have hround : c.receiveRound (.data seg) =
      ({ c.read (.data seg) with
          parser := some (.webSocket (parseChunks (chunks ++ [seg.bytes]))) },
        some (.returned 0), true) := by
    have hflag : (c.read (.data seg)).isEagain ≠ true := by
      show c.isEagain ≠ true
      rw [hc.unflagged]
      decide
    unfold receiveRound
    dsimp only
    rw [if_neg hflag, hprotocol]
    simp [hsmall]
  unfold receive
  simp only [hround]
  exact ⟨_, rfl, rfl, hc.type, rfl, hflat.symm, hc.unflagged, hc.running, hc.snoc_ne_nil⟩

/-- **One read event** inside a frame: the last segment passes the packet on
and leaves the connection ready for the next frame. -/
theorem onReadEvent_piece (hc : Reading chunks c)
    (hpre : (chunks ++ [seg.bytes]).flatten <+: f.bytes) (id : ConnId) (x : CtxId) :
    ∃ ev, c.onReadEvent upgradeApplicationProtocol id x [.data seg] = some ev ∧
      ((chunks ++ [seg.bytes]).flatten = f.bytes → Upgraded ev.conn ∧
        ∃ ctx p, ev.stop = .dispatched ctx ∧ ctx.applicationPacket = .webSocket p ∧
          p.payload = payloadOfChunks (chunks ++ [seg.bytes]) ∧
          p.opCode ≠ WebSocketPacket.kOpcodeConnectionClose) ∧
      ((chunks ++ [seg.bytes]).flatten ≠ f.bytes →
        Reading (chunks ++ [seg.bytes]) ev.conn ∧ ev.stop = .idle) := by
  obtain ⟨r, hreceive, hret, hr⟩ := receive_piece hc hpre
  obtain ⟨-, hend⟩ := Frame.isEnd_parseChunks hr.nonempty hpre
  have hafter : afterReceive upgradeApplicationProtocol id x r.ret r.conn =
      if (parseChunks (chunks ++ [seg.bytes])).isEnd then
        dispatch upgradeApplicationProtocol id x
          (.webSocket (parseChunks (chunks ++ [seg.bytes]))) r.conn
      else ⟨r.conn, .idle, none⟩ := by
    simp [afterReceive, hret, hr.running, hr.parser, ApplicationProtocolParser.isEnd]
    rfl
  unfold onReadEvent
  rw [hreceive, Option.map_some, hafter]
  refine ⟨_, rfl, ?_, ?_⟩
  · intro hwhole
    obtain ⟨hpayload, hclose⟩ := Frame.packet_parseChunks hr.nonempty hwhole
    obtain ⟨parser, tcpByteArr, nextNo, packet, packetNo, hdispatch, hpasses, hlong⟩ :=
      dispatch_accepted id x hr.parser hr.type
    rw [if_pos (hend.2 hwhole), hdispatch]
    cases hpasses with
    | frame =>
        exact ⟨⟨hr.type, rfl, hlong rfl, hr.unflagged, hr.running⟩, _, _, rfl, rfl, hpayload,
          hclose⟩
  · intro hpart
    rw [if_neg (mt hend.1 hpart)]
    exact ⟨hr, rfl⟩

end Piece

/-! ## A session -/

/-- A frame and the reads that bring it, each with the number of packets that
it finds on `recv_queue_`. -/
structure Pieces where
  frame : Frame
  reads : List (Segment × Nat)
  whole : (reads.map fun e => e.1.bytes).flatten = frame.bytes

def Pieces.chunks (p : Pieces) : List Bytes := p.reads.map fun e => e.1.bytes

namespace FrameRun

/-- One read event with one segment, which finds `backlog` packets on
`recv_queue_`. -/
def readPiece (maxBacklog : Nat) (id : ConnId) (r : FrameRun) (e : Segment × Nat) :
    Option FrameRun :=
  if r.dropped then some r
  else
    match r.conn.onReadEvent upgradeApplicationProtocol id r.nextCtx [.data e.1] with
    | none => none
    | some ev =>
        match ev.stop with
        | .dispatched ctx =>
            some
              { conn := ev.conn, nextCtx := r.nextCtx + 1,
                passed := r.passed ++ [ctx.applicationPacket],
                dropped := State.refuses (e.2 ≥ maxBacklog) ctx.applicationPacket }
        | .deleted => some { r with conn := ev.conn, dropped := true }
        | .idle => some { r with conn := ev.conn }
        | .crashed => none

section Session

variable {maxBacklog : Nat} (id : ConnId)

/-- One read event inside a frame, with room on the queue. -/
theorem readPiece_spec {f : Frame} {chunks : List Bytes} {r : FrameRun} {e : Segment × Nat}
    (hc : Reading chunks r.conn) (hlive : r.dropped = false)
    (hpre : (chunks ++ [e.1.bytes]).flatten <+: f.bytes) (hroom : e.2 < maxBacklog) :
    ∃ r', readPiece maxBacklog id r e = some r' ∧ r'.dropped = false ∧
      ((chunks ++ [e.1.bytes]).flatten = f.bytes → Upgraded r'.conn ∧
        r'.passed.map carried =
          r.passed.map carried ++ [some (payloadOfChunks (chunks ++ [e.1.bytes]))]) ∧
      ((chunks ++ [e.1.bytes]).flatten ≠ f.bytes →
        Reading (chunks ++ [e.1.bytes]) r'.conn ∧ r'.passed = r.passed) := by
  obtain ⟨ev, hev, hlast, hpart⟩ := onReadEvent_piece hc hpre id r.nextCtx
  unfold readPiece
  rw [if_neg (by rw [hlive]; decide), hev]
  by_cases hwhole : (chunks ++ [e.1.bytes]).flatten = f.bytes
  · obtain ⟨hup, ctx, p, hstop, hpacket, hpayload, hclose⟩ := hlast hwhole
    simp only [hstop]
    refine ⟨_, rfl, ?_, fun _ => ⟨hup, ?_⟩, fun h => absurd hwhole h⟩
    · simp [State.refuses, hpacket, hroom, hclose]
    · rw [List.map_append, hpacket]
      simp [carried, hpayload]
  · obtain ⟨hreading, hstop⟩ := hpart hwhole
    simp only [hstop]
    exact ⟨_, rfl, hlive, fun h => absurd h hwhole, fun _ => ⟨hreading, rfl⟩⟩

/-- **The rest of a frame.** -/
theorem run_rest {f : Frame} {chunks : List Bytes} {r : FrameRun} {reads : List (Segment × Nat)}
    (hc : Reading chunks r.conn) (hlive : r.dropped = false)
    (hwhole : (chunks ++ reads.map fun e => e.1.bytes).flatten = f.bytes) (hreads : reads ≠ [])
    (hroom : ∀ e ∈ reads, e.2 < maxBacklog) :
    ∃ r', run (readPiece maxBacklog id) r reads = some r' ∧ r'.dropped = false ∧
      Upgraded r'.conn ∧ r'.passed.map carried = r.passed.map carried ++
        [some (payloadOfChunks (chunks ++ reads.map fun e => e.1.bytes))] := by
  induction reads generalizing chunks r with
  | nil => exact absurd rfl hreads
  | cons e reads ih =>
      have hsplit : (chunks ++ (e :: reads).map fun e => e.1.bytes) =
          chunks ++ [e.1.bytes] ++ reads.map fun e => e.1.bytes := List.append_cons _ _ _
      rw [hsplit] at hwhole ⊢
      have hpre : (chunks ++ [e.1.bytes]).flatten <+: f.bytes := by
        rw [← hwhole]
        exact ⟨_, List.flatten_append.symm⟩
      obtain ⟨r₁, hread, hlive₁, hlast, hpart⟩ :=
        readPiece_spec id hc hlive hpre (hroom e List.mem_cons_self)
      rw [run_cons_some hread]
      cases reads with
      | nil =>
          rw [List.map_nil, List.append_nil] at hwhole ⊢
          obtain ⟨hup, hpassed⟩ := hlast hwhole
          exact ⟨r₁, rfl, hlive₁, hup, hpassed⟩
      | cons d reads =>
          have hmore : (chunks ++ [e.1.bytes]).flatten ≠ f.bytes := by
            intro h
            have hlen := congrArg List.length (h.trans hwhole.symm)
            have hpos := d.1.nonempty
            simp only [List.map_cons, List.flatten_append, List.flatten_cons,
              List.length_append] at hlen
            omega
          obtain ⟨hreading, hsame⟩ := hpart hmore
          rw [← hsame]
          exact ih hreading hlive₁ hwhole (by simp)
            (fun b hb => hroom b (List.mem_cons_of_mem e hb))

/-- All frames. -/
theorem run_pieces {pieces : List Pieces} {r : FrameRun} (hc : Upgraded r.conn)
    (hlive : r.dropped = false) (hroom : ∀ p ∈ pieces, ∀ e ∈ p.reads, e.2 < maxBacklog) :
    ∃ r', run (readPiece maxBacklog id) r (pieces.flatMap Pieces.reads) = some r' ∧
      r'.dropped = false ∧ Upgraded r'.conn ∧ r'.passed.map carried =
        r.passed.map carried ++ pieces.map fun p => some (payloadOfChunks p.chunks) := by
  induction pieces generalizing r with
  | nil => exact ⟨r, rfl, hlive, hc, by simp⟩
  | cons p pieces ih =>
      have hreads : p.reads ≠ [] := by
        intro hnil
        have hlen := congrArg List.length p.whole
        rw [hnil, p.frame.length_bytes, List.map_nil, List.flatten_nil, List.length_nil] at hlen
        omega
      obtain ⟨r₁, hrun₁, hlive₁, hc₁, hpassed₁⟩ :=
        run_rest id hc.reading hlive p.whole hreads (hroom p List.mem_cons_self)
      obtain ⟨r', hrun, hlive', hc', hpassed⟩ :=
        ih hc₁ hlive₁ (fun q hq => hroom q (List.mem_cons_of_mem p hq))
      refine ⟨r', ?_, hlive', hc', ?_⟩
      · rw [List.flatMap_cons]
        exact run_append_some hrun₁ hrun
      · rw [hpassed, hpassed₁, List.append_assoc]
        rfl

/-- **Every frame of a session is passed on once**, in order and behind its
last byte, and the connection stays; the payloads are those of the frames
exactly when every cut is in phase with its masking key. -/
theorem passedOnce {pieces : List Pieces} {c : ConnectionProfile} (hc : Upgraded c) (x : CtxId)
    (hroom : ∀ p ∈ pieces, ∀ e ∈ p.reads, e.2 < maxBacklog) :
    ∃ r, run (readPiece maxBacklog id) ⟨c, x, [], false⟩ (pieces.flatMap Pieces.reads) = some r ∧
      r.dropped = false ∧ Upgraded r.conn ∧ r.passed.length = pieces.length ∧
      (r.Delivered (pieces.map Pieces.frame) ↔
        ∀ p ∈ pieces, InPhase p.frame.bytes 0 p.chunks) := by
  obtain ⟨r, hrun, hlive, hup, hpassed⟩ := run_pieces id (r := ⟨c, x, [], false⟩) hc rfl hroom
  rw [List.map_nil, List.nil_append] at hpassed
  refine ⟨r, hrun, hlive, hup, ?_, ?_⟩
  · simpa using congrArg List.length hpassed
  · unfold Delivered
    rw [hpassed, List.map_map, and_iff_left hlive]
    constructor
    · intro h p hp
      have hpayload := List.map_inj_left.1 h p hp
      exact (Frame.payloadOfChunks_iff p.whole).1 (Option.some.inj hpayload)
    · intro h
      apply List.map_congr_left
      intro p hp
      exact congrArg some ((Frame.payloadOfChunks_iff p.whole).2 (h p hp))

end Session

/-- "hello", cut inside the key and behind the fourth byte of the payload, and
"bye" in one piece. -/
def helloPieces : Pieces :=
  { frame := hello
    reads := [(⟨hello.bytes.take 4, by decide, by decide⟩, 0),
      (⟨(hello.bytes.drop 4).take 6, by decide, by decide⟩, 0),
      (⟨hello.bytes.drop 10, by decide, by decide⟩, 0)]
    whole := by decide }

def byePieces : Pieces :=
  { frame := bye, reads := [(⟨bye.bytes, by decide, by decide⟩, 1)], whole := by decide }

theorem passedOnce_helloPieces :
    ∃ r, run (readPiece 1024 0) ⟨upgradedSample, 1, [], false⟩
        ([helloPieces, byePieces].flatMap Pieces.reads) = some r ∧
      r.Delivered [hello, bye] := by
  obtain ⟨r, hrun, -, -, -, hiff⟩ := passedOnce 0 (show Upgraded upgradedSample by decide) 1
    (show ∀ p ∈ [helloPieces, byePieces], ∀ e ∈ p.reads, e.2 < 1024 by decide)
  exact ⟨r, hrun, hiff.2 (by decide +kernel)⟩

end FrameRun

end Unixtar.WebServer
