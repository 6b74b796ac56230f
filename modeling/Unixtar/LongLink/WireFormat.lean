import Unixtar.Lib.Endian
import Unixtar.Utils.AutoBuffer
import Unixtar.LongLink.Segmentation

/-!
# The wire format of WebSocket frames

Frames as the comment above `WebSocketParser` lays them out, and what the
parser and `ws::Pack` make of that layout.

## Main results

* `parseWhole_frameLayout` — the state a reset parser reaches on a complete
  frame.
* `parseChunks_frameLayout` — the state it reaches on a frame with a seven-bit
  length, however TCP cuts it.
* `extendedPayloadLen_iff` — which extended lengths `_ResolveExtendedPayloadLen`
  puts together.
* `pack_eq_iff` — `ws::Pack` writes the layout up to the byte order of an
  extended length.
-/

namespace Unixtar.Ws

open Unixtar.Lib

/-! ## The layout -/

/-- The payload behind its masking key. -/
def xorKey (key : MaskingKey) (payload : Bytes) : Bytes :=
  payload.mapIdx fun i c => c ^^^ key.byte i

/-- The seven-bit length of a payload of `n` bytes. -/
def lengthCode (n : Nat) : Nat :=
  if n < 126 then n else if n ≤ 65535 then 126 else 127

/-- The extended length of a payload of `n` bytes, in network byte order. -/
def extendedField (n : Nat) : Bytes :=
  if n < 126 then [] else if n ≤ 65535 then beBytes 2 n else beBytes 8 n

/-- The mask bit and the seven-bit length. -/
def secondByte (mask : Bool) (n : Nat) : UInt8 :=
  (if mask then 0x80 else 0) + UInt8.ofNat (lengthCode n)

/-- The masking key, if there is one, and the payload. -/
def payloadField (mask : Bool) (key : MaskingKey) (payload : Bytes) : Bytes :=
  if mask then [key.key0, key.key1, key.key2, key.key3] ++ xorKey key payload else payload

/-- A frame as the comment above `WebSocketParser` lays it out. -/
def frameLayout (first : UInt8) (mask : Bool) (key : MaskingKey) (payload : Bytes) : Bytes :=
  first :: secondByte mask payload.length ::
    (extendedField payload.length ++ payloadField mask key payload)

theorem lengthCode_lt (n : Nat) : lengthCode n < 128 := by
  unfold lengthCode
  split
  · omega
  · split <;> omega

/-- The second byte is taken apart as it was put together. -/
theorem secondByte_spec (mask : Bool) (n : Nat) :
    (secondByte mask n &&& 0x7f).toNat = lengthCode n ∧
      (decide (secondByte mask n &&& 0x80 ≠ 0)) = mask := by
  have hall : ∀ m : Fin 128, ∀ bit : Bool,
      (((if bit then 0x80 else 0) + UInt8.ofNat m : UInt8) &&& 0x7f).toNat = m ∧
        (decide (((if bit then 0x80 else 0) + UInt8.ofNat m : UInt8) &&& 0x80 ≠ 0)) = bit := by
    decide
  exact hall ⟨lengthCode n, lengthCode_lt n⟩ mask

theorem byteAt_append_right (b c : Bytes) (i : Nat) :
    byteAt (b ++ c) (b.length + i) = byteAt c i := by
  simp only [byteAt, List.getD_eq_getElem?_getD]
  rw [List.getElem?_append_right (Nat.le_add_right _ _), Nat.add_sub_cancel_left]

theorem mapIdx_eq_decodeFrom (key : MaskingKey) (i : Nat) (raw : Bytes) :
    raw.mapIdx (fun j c => c ^^^ key.byte (i + j)) = decodeFrom true key i raw := by
  induction raw generalizing i with
  | nil => rfl
  | cons c rest ih =>
      rw [List.mapIdx_cons, decodeFrom, ← ih (i + 1)]
      simp only [if_true, Nat.add_zero, Nat.add_assoc, Nat.add_comm 1]

/-- Masking and unmasking are one loop. -/
theorem xorKey_eq (key : MaskingKey) (payload : Bytes) :
    xorKey key payload = decodeFrom true key 0 payload := by
  rw [← mapIdx_eq_decodeFrom]
  simp only [xorKey, Nat.zero_add]

theorem decodeFrom_false (key : MaskingKey) (i : Nat) (raw : Bytes) :
    decodeFrom false key i raw = raw := by
  induction raw generalizing i with
  | nil => rfl
  | cons c rest ih => rw [decodeFrom, ih, if_neg Bool.false_ne_true]

section Layout

variable (first : UInt8) (mask : Bool) (key : MaskingKey) (payload : Bytes)

theorem toNat_lenCode_frameLayout :
    (lenCode (frameLayout first mask key payload)).toNat = lengthCode payload.length :=
  (secondByte_spec mask payload.length).1

theorem isMasked_frameLayout : isMasked (frameLayout first mask key payload) = mask :=
  (secondByte_spec mask payload.length).2

theorem extendedWidth_frameLayout :
    extendedWidth (frameLayout first mask key payload) =
      (extendedField payload.length).length := by
  have hcode := toNat_lenCode_frameLayout first mask key payload
  have h126 : (126 : UInt8).toNat = 126 := rfl
  have h127 : (127 : UInt8).toNat = 127 := rfl
  unfold extendedWidth extendedField
  unfold lengthCode at hcode
  simp only [← UInt8.toNat_inj, hcode, h126, h127]
  by_cases hshort : payload.length < 126
  · simp only [if_pos hshort, if_neg (show ¬ payload.length = 126 by omega),
      if_neg (show ¬ payload.length = 127 by omega), List.length_nil]
  · by_cases hmedium : payload.length ≤ 65535
    · simp only [if_neg hshort, if_pos hmedium, if_true, length_beBytes]
    · simp only [if_neg hshort, if_neg hmedium, if_true, length_beBytes]
      rfl

/-- What stands in front of the payload. -/
def layoutHeader : Bytes :=
  first :: secondByte mask payload.length ::
    (extendedField payload.length ++
      if mask then [key.key0, key.key1, key.key2, key.key3] else [])

theorem frameLayout_eq :
    frameLayout first mask key payload =
      layoutHeader first mask key payload ++
        if mask then xorKey key payload else payload := by
  unfold frameLayout layoutHeader payloadField
  cases mask <;> simp

theorem headerLen_frameLayout :
    headerLen (frameLayout first mask key payload) =
      (layoutHeader first mask key payload).length := by
  rw [headerLen, keyOffset, extendedWidth_frameLayout, isMasked_frameLayout, layoutHeader]
  simp only [List.length_cons, List.length_append]
  cases mask with
  | true =>
      simp only [if_true, List.length_cons, List.length_nil]
      omega
  | false =>
      simp only [Bool.false_eq_true, if_false, List.length_nil]
      omega

theorem length_frameLayout :
    (frameLayout first mask key payload).length =
      headerLen (frameLayout first mask key payload) + payload.length := by
  rw [headerLen_frameLayout, frameLayout_eq, List.length_append]
  cases mask <;> simp [xorKey]

theorem maskingKey_frameLayout : maskingKey (frameLayout first true key payload) = key := by
  have hoff : keyOffset (frameLayout first true key payload) =
      (first :: secondByte true payload.length :: extendedField payload.length).length := by
    rw [keyOffset, extendedWidth_frameLayout]
    simp only [List.length_cons]
    omega
  have hbyte : ∀ i, byteAt (frameLayout first true key payload)
      (keyOffset (frameLayout first true key payload) + i) =
        byteAt (payloadField true key payload) i := by
    intro i
    rw [hoff]
    exact byteAt_append_right
      (first :: secondByte true payload.length :: extendedField payload.length)
      (payloadField true key payload) i
  unfold maskingKey keyAt
  rw [hbyte 1, hbyte 2, hbyte 3]
  show MaskingKey.mk (byteAt _ (keyOffset _ + 0)) _ _ _ = key
  rw [hbyte 0]
  rfl

/-- The payload is unmasked with the key it was masked with. -/
theorem payloadOf_frameLayout : payloadOf (frameLayout first mask key payload) = payload := by
  unfold payloadOf
  rw [isMasked_frameLayout, headerLen_frameLayout, frameLayout_eq, List.drop_left,
    ← frameLayout_eq]
  cases mask with
  | true =>
      rw [maskingKey_frameLayout, if_pos rfl, xorKey_eq]
      exact decodeFrom_decodeFrom key 0 payload
  | false =>
      rw [if_neg Bool.false_ne_true]
      exact decodeFrom_false _ 0 payload

/-- **A complete frame** that is there at once: everything behind the header
becomes payload, and its size is compared with the seven-bit length. -/
theorem parseWhole_frameLayout (hne : payload ≠ []) :
    parseWhole (frameLayout first mask key payload) =
      afterPayload (frameLayout first mask key payload) payload := by
  have hlen := length_frameLayout first mask key payload
  have hpos := List.length_pos_of_ne_nil hne
  rw [parseWhole_eq, payloadOf_frameLayout]
  exact frameState_payload payload (by omega)

end Layout

/-! ## Frames that are there at once -/

/-- The parser is at the end of a frame with this first byte and payload. -/
structure DecodesTo (first : UInt8) (payload : Bytes) (p : WebSocketParser) : Prop where
  isEnd : p.position = .kEnd
  payload : p.packet.payload = payload
  opCode : p.packet.opCode = first &&& 0x0f

instance (first : UInt8) (payload : Bytes) (p : WebSocketParser) :
    Decidable (DecodesTo first payload p) :=
  decidable_of_iff
    (p.position = .kEnd ∧ p.packet.payload = payload ∧ p.packet.opCode = first &&& 0x0f)
    ⟨fun ⟨hend, hpayload, hop⟩ => ⟨hend, hpayload, hop⟩,
      fun h => ⟨h.isEnd, h.payload, h.opCode⟩⟩

theorem keyPacket_opCode (s : Bytes) : (keyPacket s).opCode = byteAt s 0 &&& 0x0f := by
  unfold keyPacket
  split <;> rfl

/-- The size of the payload meets the seven-bit length up to 126 bytes, where
the code and the length happen to be equal. -/
theorem eq_lengthCode_iff (n : Nat) : n = lengthCode n ↔ n ≤ 126 := by
  unfold lengthCode
  by_cases hshort : n < 126
  · rw [if_pos hshort]
    omega
  · rw [if_neg hshort]
    split <;> omega

/-- **Frames of every size.**  A frame that is in the buffer as a whole is
decoded exactly when its payload has at most 126 bytes: `_ResolvePayload`
compares the size of the payload with the seven-bit length, also where that
is the code of an extended length. -/
theorem decodesTo_frameLayout_iff (first : UInt8) (mask : Bool) (key : MaskingKey)
    (payload : Bytes) (hne : payload ≠ []) :
    DecodesTo first payload (parseWhole (frameLayout first mask key payload)) ↔
      payload.length ≤ 126 := by
  have hcode := toNat_lenCode_frameLayout first mask key payload
  rw [parseWhole_frameLayout first mask key payload hne, ← eq_lengthCode_iff, ← hcode]
  constructor
  · intro h
    by_contra hlen
    have hend := h.isEnd
    simp only [afterPayload, payloadPosition, if_neg hlen] at hend
    split at hend <;> cases hend
  · intro hlen
    refine ⟨?_, rfl, ?_⟩
    · simp only [afterPayload, payloadPosition, if_pos hlen]
    · exact keyPacket_opCode (frameLayout first mask key payload)

/-- A masked text frame of three bytes. -/
theorem decodesTo_frameLayout_three :
    DecodesTo 0x81 [0x61, 0x62, 0x63]
      (parseWhole (frameLayout 0x81 true ⟨1, 2, 3, 4⟩ [0x61, 0x62, 0x63])) :=
  (decodesTo_frameLayout_iff 0x81 true ⟨1, 2, 3, 4⟩ [0x61, 0x62, 0x63] (by decide)).2
    (by decide)

/-- A masked text frame of 127 bytes, with a 16-bit length. -/
theorem not_decodesTo_frameLayout_127 :
    List.replicate 127 (0x61 : UInt8) ≠ [] ∧
      ¬ DecodesTo 0x81 (List.replicate 127 0x61)
        (parseWhole (frameLayout 0x81 true ⟨1, 2, 3, 4⟩ (List.replicate 127 0x61))) := by
  have hne : List.replicate 127 (0x61 : UInt8) ≠ [] := by decide
  refine ⟨hne, fun h => ?_⟩
  have hend := h.isEnd
  rw [parseWhole_frameLayout 0x81 true ⟨1, 2, 3, 4⟩ _ hne] at hend
  simp only [afterPayload, payloadPosition, toNat_lenCode_frameLayout,
    List.length_replicate] at hend
  exact absurd hend (by decide)

/-! ## Frames that arrive in pieces -/

/-- While the payload has not begun the parser is not stopped. -/
theorem not_stopped_header {b x : Bytes} (h : b.length ≤ headerLen b) :
    ¬ Stopped (frameState b x) := by
  unfold frameState
  split
  · simp [Stopped, WebSocketParser.fresh]
  · split
    · exact not_stopped_afterFirst b
    · split
      · exact not_stopped_afterLen b
      · split
        · exact not_stopped_afterExtended b
        · rw [if_pos (by omega)]
          simp [Stopped, afterKey]

theorem parsed_of_resolved {s : Bytes} {p : WebSocketParser} (h : s.length ≤ p.resolvedLen) :
    WebSocketParser.parsed s p = p := by
  have hnone : s.length - p.resolvedLen = 0 := by omega
  unfold WebSocketParser.parsed WebSocketParser.doParse
  rw [if_pos hnone]
  split <;> rfl

/-- Without new bytes `DoParse` changes nothing. -/
theorem parsed_frameState_self (b x : Bytes) :
    WebSocketParser.parsed b (frameState b x) = frameState b x := by
  have htwo := two_le_keyOffset b
  have hkey := keyOffset_le_headerLen b
  by_cases hempty : b.length = 0
  · exact parsed_of_resolved (by omega)
  by_cases hfirst : b.length < 2
  · rw [frameState, if_neg hempty, if_pos hfirst]
    exact parsed_of_resolved (show b.length ≤ 1 by omega)
  by_cases hlen : b.length < keyOffset b
  · have hstate : ∀ y, frameState b y = afterLen b := by
      intro y
      rw [frameState, if_neg hempty, if_neg hfirst, if_pos hlen]
    rw [hstate]
    by_cases hmore : 2 < b.length
    · rw [doParse_of_running rfl hmore, loop_afterLen 3 (by omega), hstate]
    · exact parsed_of_resolved (show b.length ≤ 2 by omega)
  by_cases hext : b.length < headerLen b
  · have hstate : ∀ y, frameState b y = afterExtended b := by
      intro y
      rw [frameState, if_neg hempty, if_neg hfirst, if_neg hlen, if_pos hext]
    rw [hstate]
    by_cases hmore : keyOffset b < b.length
    · rw [doParse_of_running rfl hmore, loop_afterExtended 4 (by omega), hstate]
    · exact parsed_of_resolved (show b.length ≤ keyOffset b by omega)
  by_cases hhead : b.length = headerLen b
  · rw [frameState, if_neg hempty, if_neg hfirst, if_neg hlen, if_neg hext, if_pos hhead]
    exact parsed_of_resolved (Nat.le_of_eq hhead)
  · rw [frameState_payload x (by omega)]
    exact parsed_of_resolved (Nat.le_refl b.length)

/-- A frame that no proper prefix ends goes through the states of its
prefixes, whatever its pieces are, empty ones included. -/
theorem feed_frameState {s : Bytes}
    (hs : ∀ b x, b <+: s → Decoded b x → Stopped (frameState b x) → b.length = s.length)
    {b x : Bytes} {chunks : List Bytes} (hb : b ++ chunks.flatten = s) (hx : Decoded b x) :
    ∃ y, Decoded s y ∧ feed WebSocketParser.parsed b (frameState b x) chunks = frameState s y := by
  induction chunks generalizing b x with
  | nil =>
      rw [List.flatten_nil, List.append_nil] at hb
      subst hb
      exact ⟨x, hx, rfl⟩
  | cons c chunks ih =>
      rw [List.flatten_cons, ← List.append_assoc] at hb
      rw [feed]
      by_cases hc : c = []
      · subst hc
        rw [List.append_nil] at hb ⊢
        rw [parsed_frameState_self]
        exact ih hb hx
      · have hrun : ¬ Stopped (frameState b x) := by
          intro hstopped
          have hpre : b <+: s := ⟨c ++ chunks.flatten, by rw [← List.append_assoc]; exact hb⟩
          have hwhole := hs b x hpre hx hstopped
          have hpos := List.length_pos_of_ne_nil hc
          rw [← hb, List.length_append, List.length_append] at hwhole
          omega
        obtain ⟨hparsed, hdecoded⟩ := parsed_frameState b c x hc hrun hx
        rw [hparsed]
        exact ih hb hdecoded

/-- A stopped parser has all the payload the seven-bit length calls for. -/
theorem le_of_stopped {b x : Bytes} (hx : Decoded b x) (h : Stopped (frameState b x)) :
    headerLen b < b.length ∧ headerLen b + (lenCode b).toNat ≤ b.length := by
  unfold Decoded at hx
  by_cases hlong : headerLen b < b.length
  · refine ⟨hlong, ?_⟩
    rw [frameState_payload x hlong] at h
    by_contra hshort
    have hposition : payloadPosition b x.length = .kPayload := by
      rw [payloadPosition, if_neg (by omega), if_neg (by omega)]
    rcases h with h | h <;> exact absurd (h.symm.trans hposition) (by decide)
  · exact absurd h (not_stopped_header (by omega))

section Short

variable (first : UInt8) (mask : Bool) (key : MaskingKey) {payload : Bytes}

/-- A frame with a seven-bit length ends with its last byte. -/
theorem stopped_frameLayout_whole (hshort : payload.length ≤ 125) {b x : Bytes}
    (hb : b <+: frameLayout first mask key payload) (hx : Decoded b x)
    (h : Stopped (frameState b x)) :
    b.length = (frameLayout first mask key payload).length := by
  obtain ⟨hlong, henough⟩ := le_of_stopped hx h
  have htwo := two_le_keyOffset b
  have hkey := keyOffset_le_headerLen b
  have hcode := toNat_lenCode_frameLayout first mask key payload
  have hlen := length_frameLayout first mask key payload
  have hle := hb.length_le
  obtain ⟨rest, hrest⟩ := hb
  rw [← hrest, lenCode_append rest (by omega), lengthCode, if_pos (by omega)] at hcode
  rw [← hrest, headerLen_append rest (by omega), hrest] at hlen
  omega

/-- **A frame in pieces.**  The state after the last byte of a frame with a
seven-bit length. -/
theorem parseChunks_frameLayout (hshort : payload.length ≤ 125) {chunks : List Bytes}
    (hchunks : chunks.flatten = frameLayout first mask key payload) :
    ∃ y, Decoded (frameLayout first mask key payload) y ∧
      parseChunks chunks = frameState (frameLayout first mask key payload) y :=
  feed_frameState (fun _ _ hb hx h => stopped_frameLayout_whole first mask key hshort hb hx h)
    (b := []) (x := []) hchunks rfl

end Short

/-- **Complete frames.**  After the last byte of a frame with a seven-bit
length the parser is at its end, or has met an error, exactly when the frame
has a payload: with the header complete and nothing behind it
`_ResolvePayload` returns before it looks at the length. -/
theorem stopped_parseChunks_iff (first : UInt8) (mask : Bool) (key : MaskingKey)
    (payload : Bytes) (hshort : payload.length ≤ 125) (chunks : List Bytes)
    (hchunks : chunks.flatten = frameLayout first mask key payload) :
    Stopped (parseChunks chunks) ↔ payload ≠ [] := by
  obtain ⟨y, hy, hstate⟩ := parseChunks_frameLayout first mask key hshort hchunks
  have hlen := length_frameLayout first mask key payload
  have hcode := toNat_lenCode_frameLayout first mask key payload
  rw [lengthCode, if_pos (by omega)] at hcode
  rw [hstate]
  unfold Decoded at hy
  constructor
  · intro h hnil
    have hzero : payload.length = 0 := by rw [hnil]; rfl
    exact not_stopped_header (by omega) h
  · intro hne
    have hpos := List.length_pos_of_ne_nil hne
    rw [frameState_payload y (by omega)]
    refine Or.inl ?_
    show payloadPosition _ y.length = .kEnd
    rw [payloadPosition, if_pos (by omega)]

/-- A masked frame of three bytes, cut inside the key and inside the
payload. -/
theorem stopped_parseChunks_three :
    Stopped (parseChunks [[0x81, 0x83, 1, 2], [3, 4, 0x60], [], [0x60, 0x60]]) :=
  (stopped_parseChunks_iff 0x81 true ⟨1, 2, 3, 4⟩ [0x61, 0x62, 0x63] (by decide)
    [[0x81, 0x83, 1, 2], [3, 4, 0x60], [], [0x60, 0x60]] (by decide)).2 (by decide)

/-- A bare close frame leaves the parser in `kPayload`. -/
theorem not_stopped_bareClose :
    [[0x88, 0x00]].flatten = frameLayout 0x88 false ⟨0, 0, 0, 0⟩ [] ∧
      ¬ Stopped (parseChunks [[0x88, 0x00]]) :=
  ⟨by decide, by decide⟩

/-! ## Extended lengths -/

/-- The counts of the shifts that `_ResolveExtendedPayloadLen` evaluates
behind a length code: one behind 126, and `c << shift` and `0xff << shift` in
each of the eight rounds behind 127. -/
def shiftCounts (code : UInt8) : List Nat :=
  if code = 126 then [8]
  else if code = 127 then (List.range 8).flatMap fun i => [(7 - i) * 8, (7 - i) * 8]
  else []

/-- The bytes of the extended length that starts at `off`. -/
def fieldAt (buf : Bytes) (off : Nat) (code : UInt8) : Bytes :=
  (buf.drop off).take (if code = 126 then 2 else 8)

/-- The bytes that the extended length needs are in the buffer. -/
def FieldPresent (buf : Bytes) (p : WebSocketParser) : Prop :=
  (p.packet.payloadLen = 126 ∧ p.resolvedLen + 2 ≤ buf.length) ∨
    (p.packet.payloadLen = 127 ∧ p.resolvedLen + 8 ≤ buf.length)

/-- An undefined sum stays undefined. -/
theorem extendedLenLoop_none (buf : Bytes) (off left i : Nat) :
    extendedLenLoop buf off left i none = none := by
  induction left generalizing i with
  | zero => rfl
  | succ left ih => exact ih (i + 1)

/-- The very first shift, by 56, is undefined. -/
theorem extendedLenLoop_eight (buf : Bytes) (off : Nat) :
    extendedLenLoop buf off 8 0 (some 0) = none :=
  extendedLenLoop_none buf off 7 1

theorem byteAt_eq_getElem {buf : Bytes} {i : Nat} (h : i < buf.length) :
    byteAt buf i = buf[i] := by
  rw [byteAt, List.getD_eq_getElem?_getD, List.getElem?_eq_getElem h, Option.getD_some]

theorem beValue_fieldAt {buf : Bytes} {off : Nat} (h : off + 2 ≤ buf.length) :
    beValue (fieldAt buf off 126) = extendedLen16 buf off := by
  have hfirst : off < buf.length := by omega
  have hsecond : off + 1 < buf.length := by omega
  have hfield : fieldAt buf off 126 = [buf[off], buf[off + 1]] := by
    unfold fieldAt
    rw [if_pos rfl, List.drop_eq_getElem_cons hfirst, List.drop_eq_getElem_cons hsecond]
    rfl
  rw [hfield, extendedLen16, byteAt_eq_getElem hfirst, byteAt_eq_getElem hsecond]
  simp only [beValue, List.foldl_cons, List.foldl_nil]
  omega

/-- **The extended length.**  With the bytes of the field in the buffer, the
value that `_ResolveExtendedPayloadLen` stores is the big-endian value of the
field, and every shift on the way is defined, exactly behind the length code
126: behind 127 an `int` is shifted by up to 56 places. -/
theorem extendedPayloadLen_iff (buf : Bytes) (p : WebSocketParser) (hfield : FieldPresent buf p) :
    ((WebSocketParser.resolveExtendedPayloadLen buf p).1.packet.extendedPayloadLen =
        some (beValue (fieldAt buf p.resolvedLen p.packet.payloadLen)) ∧
      ∀ count ∈ shiftCounts p.packet.payloadLen, count < 32) ↔
      p.packet.payloadLen = 126 := by
  unfold WebSocketParser.resolveExtendedPayloadLen
  rcases hfield with ⟨hcode, hlen⟩ | ⟨hcode, hlen⟩
  · have henough : ¬ buf.length - p.resolvedLen < 2 := by omega
    rw [hcode]
    simp only [if_true, if_neg henough, WebSocketParser.takeExtendedLen]
    refine iff_of_true ⟨?_, by decide⟩ trivial
    rw [beValue_fieldAt hlen]
  · have henough : ¬ buf.length - p.resolvedLen < 8 := by omega
    have hne : ¬ (127 : UInt8) = 126 := by decide
    rw [hcode]
    simp only [if_neg hne, if_true, if_neg henough, WebSocketParser.takeExtendedLen,
      extendedLenLoop_eight]
    refine iff_of_false (fun h => ?_) hne
    cases h.1

/-- A parser behind the two bytes `0x81 0xfe`, and the field `0x01 0x00`. -/
theorem extendedPayloadLen_256 :
    ((WebSocketParser.resolveExtendedPayloadLen [0x81, 0xfe, 1, 0]
        (afterLen [0x81, 0xfe])).1.packet.extendedPayloadLen = some 256) :=
  ((extendedPayloadLen_iff [0x81, 0xfe, 1, 0] (afterLen [0x81, 0xfe])
    (Or.inl (by decide))).2 (by decide)).1

/-- Behind 127, with the length 65536. -/
theorem extendedPayloadLen_65536 :
    FieldPresent [0x81, 0xff, 0, 0, 0, 0, 0, 1, 0, 0] (afterLen [0x81, 0xff]) ∧
      beValue (fieldAt [0x81, 0xff, 0, 0, 0, 0, 0, 1, 0, 0] 2 127) = 65536 ∧
      (WebSocketParser.resolveExtendedPayloadLen [0x81, 0xff, 0, 0, 0, 0, 0, 1, 0, 0]
        (afterLen [0x81, 0xff])).1.packet.extendedPayloadLen ≠ some 65536 ∧
      ∃ count ∈ shiftCounts 127, ¬ count < 32 :=
  ⟨Or.inr (by decide), by decide, by decide, 56, by decide, by decide⟩

/-! ## `ws::Pack` -/

/-- `ws::Pack`, one `Write` after the other. -/
def packTo (content : Bytes) (out : AutoBuffer) : AutoBuffer :=
  let out := out.write [0x80 + WebSocketPacket.kOpcodeText]
  let out :=
    if content.length < 126 then out.write [UInt8.ofNat content.length]
    else if content.length ≤ 0xffff then
      (out.write [126]).write (leBytes 2 content.length)
    else (out.write [127]).write (leBytes 8 content.length)
  out.write content

theorem write_write (out : AutoBuffer) (b c : Bytes) :
    (out.write b).write c = out.write (b ++ c) := by
  simp only [AutoBuffer.write, List.append_assoc]

/-- `ws::Pack` appends. -/
theorem packTo_eq (content : Bytes) (out : AutoBuffer) :
    packTo content out = out.write (pack content) := by
  unfold packTo pack
  dsimp only
  split
  · rw [write_write, write_write]
    rfl
  · split
    · rw [write_write, write_write, write_write]
      rfl
    · rw [write_write, write_write, write_write]
      rfl

theorem length_leBytes (width n : Nat) : (leBytes width n).length = width := by
  induction width generalizing n with
  | zero => rfl
  | succ width ih => rw [leBytes, List.length_cons, ih]

theorem getElem?_leBytes {width i : Nat} (n : Nat) (hi : i < width) :
    (leBytes width n)[i]? = some (UInt8.ofNat (n / 256 ^ i % 256)) := by
  induction width generalizing n i with
  | zero => omega
  | succ width ih =>
      rw [leBytes]
      cases i with
      | zero => rw [List.getElem?_cons_zero, Nat.pow_zero, Nat.div_one]
      | succ i =>
          rw [List.getElem?_cons_succ, ih (n / 256) (by omega), Nat.div_div_eq_div_mul,
            Nat.pow_succ, Nat.mul_comm]

theorem leBytes_eq_beBytes_iff (width n : Nat) :
    leBytes width n = beBytes width n ↔ Palindromic width n :=
  eq_beBytes_iff (length_leBytes width n) fun _ hi => getElem?_leBytes n hi

/-- A length whose field reads the same in both byte orders. -/
def OrderFree (n : Nat) : Prop :=
  n < 126 ∨ (n ≤ 65535 ∧ Palindromic 2 n) ∨ (65535 < n ∧ Palindromic 8 n)

instance (n : Nat) : Decidable (OrderFree n) := inferInstanceAs (Decidable (_ ∨ _))

/-- The frame is right when its length field is. -/
theorem pack_eq_iff (content : Bytes) :
    pack content = frameLayout 0x81 false ⟨0, 0, 0, 0⟩ content ↔ OrderFree content.length := by
  have hfirst : (0x80 + WebSocketPacket.kOpcodeText : UInt8) = 0x81 := by decide
  have hcodes : (0 : UInt8) + UInt8.ofNat 126 = 126 ∧ (0 : UInt8) + UInt8.ofNat 127 = 127 := by
    decide
  unfold pack frameLayout payloadField secondByte lengthCode extendedField OrderFree
  rw [hfirst]
  simp only [Bool.false_eq_true, if_false]
  by_cases hshort : content.length < 126
  · simp only [if_pos hshort, UInt8.zero_add, List.nil_append]
    exact iff_of_true rfl (Or.inl hshort)
  · by_cases hmedium : content.length ≤ 65535
    · simp only [if_neg hshort, if_pos hmedium, hcodes.1, List.cons_append, List.cons.injEq,
        true_and, List.append_cancel_right_eq, leBytes_eq_beBytes_iff]
      constructor
      · intro h
        exact Or.inr (Or.inl ⟨hmedium, h⟩)
      · rintro (h | h | h)
        · exact absurd h hshort
        · exact h.2
        · omega
    · simp only [if_neg hshort, if_neg hmedium, hcodes.2, List.cons_append, List.cons.injEq,
        true_and, List.append_cancel_right_eq, leBytes_eq_beBytes_iff]
      constructor
      · intro h
        exact Or.inr (Or.inr ⟨by omega, h⟩)
      · rintro (h | h | h)
        · exact absurd h hshort
        · omega
        · exact h.2

/-- **Server frames.**  `ws::Pack` appends the unmasked final text frame of
the content exactly when the length needs no extended field, or one that
reads the same in both byte orders: the field is copied from memory, where a
little-endian host has the least significant byte first. -/
theorem packTo_eq_frameLayout_iff (content : Bytes) (out : AutoBuffer) :
    packTo content out = out.write (frameLayout 0x81 false ⟨0, 0, 0, 0⟩ content) ↔
      OrderFree content.length := by
  rw [packTo_eq, ← pack_eq_iff]
  constructor
  · intro h
    exact List.append_cancel_left (congrArg AutoBuffer.bytes h)
  · intro h
    rw [h]

/-- 126 bytes of content: the length is sent as `7e 00`. -/
theorem packTo_ne_frameLayout_126 :
    packTo (List.replicate 126 0x61) AutoBuffer.empty ≠
      AutoBuffer.empty.write
        (frameLayout 0x81 false ⟨0, 0, 0, 0⟩ (List.replicate 126 0x61)) := by
  intro h
  rw [packTo_eq] at h
  have hfree := (pack_eq_iff _).1 (List.append_cancel_left (congrArg AutoBuffer.bytes h))
  rw [List.length_replicate] at hfree
  exact absurd hfree (by decide)

end Unixtar.Ws
