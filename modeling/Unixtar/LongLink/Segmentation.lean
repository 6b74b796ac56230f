import Unixtar.Lib.Chunks
import Unixtar.LongLink.WebSocketPacket
import Mathlib.Tactic.SplitIfs

/-!
# WebSocket frames and TCP segmentation

How the result of parsing a frame depends on where TCP cuts it.  The state
after a prefix is `frameState`, a function of the prefix and of the payload
decoded so far; a cut can change the payload only, because `_ResolvePayload`
starts the masking index at 0 whenever it is entered.

## Main results

* `parsed_frameState` — one more chunk leads from `frameState` of the prefix
  to `frameState` of the longer prefix.
* `accumulate_payload_iff` — the payload put together from the chunks is the
  payload decoded at once exactly when every chunk that starts inside the
  payload finds the masking key in phase.
-/

namespace Unixtar.Ws

open Unixtar.Lib

/-! ## The layout of a frame -/

/-- The seven-bit length. -/
def lenCode (s : Bytes) : UInt8 := byteAt s 1 &&& 0x7f

/-- The mask bit. -/
def isMasked (s : Bytes) : Bool := byteAt s 1 &&& 0x80 ≠ 0

/-- The number of bytes of the extended length. -/
def extendedWidth (s : Bytes) : Nat :=
  if lenCode s = 126 then 2 else if lenCode s = 127 then 8 else 0

/-- Where the masking key starts. -/
def keyOffset (s : Bytes) : Nat := 2 + extendedWidth s

/-- Where the payload starts. -/
def headerLen (s : Bytes) : Nat := keyOffset s + if isMasked s then 4 else 0

/-- The masking key of a masked frame. -/
def maskingKey (s : Bytes) : MaskingKey := keyAt s (keyOffset s)

/-- The payload, unmasked from its first byte on. -/
def payloadOf (s : Bytes) : Bytes :=
  decodeFrom (isMasked s) (maskingKey s) 0 (s.drop (headerLen s))

theorem two_le_keyOffset (s : Bytes) : 2 ≤ keyOffset s := by
  unfold keyOffset
  omega

theorem keyOffset_le_headerLen (s : Bytes) : keyOffset s ≤ headerLen s := by
  unfold headerLen
  omega

theorem keyOffset_eq_of_masked {s : Bytes} (h : isMasked s = true) :
    headerLen s = keyOffset s + 4 := by
  simp [headerLen, h]

theorem headerLen_eq_of_unmasked {s : Bytes} (h : isMasked s = false) :
    headerLen s = keyOffset s := by
  simp [headerLen, h]

theorem lenCode_toNat_lt (s : Bytes) : (lenCode s).toNat < 128 := by
  unfold lenCode
  rw [UInt8.toNat_and]
  exact Nat.lt_of_le_of_lt Nat.and_le_right (by decide)

/-- What stands in the first bytes is already known from the prefix. -/
theorem byteAt_append {b : Bytes} {i : Nat} (c : Bytes) (h : i < b.length) :
    byteAt (b ++ c) i = byteAt b i := by
  simp only [byteAt, List.getD_eq_getElem?_getD, List.getElem?_append_left h]

section Prefix

variable {b : Bytes} (c : Bytes)

theorem lenCode_append (h : 2 ≤ b.length) : lenCode (b ++ c) = lenCode b := by
  unfold lenCode
  rw [byteAt_append c (by omega)]

theorem isMasked_append (h : 2 ≤ b.length) : isMasked (b ++ c) = isMasked b := by
  unfold isMasked
  rw [byteAt_append c (by omega)]

theorem keyOffset_append (h : 2 ≤ b.length) : keyOffset (b ++ c) = keyOffset b := by
  unfold keyOffset extendedWidth
  rw [lenCode_append c h]

theorem headerLen_append (h : 2 ≤ b.length) : headerLen (b ++ c) = headerLen b := by
  unfold headerLen
  rw [keyOffset_append c h, isMasked_append c h]

end Prefix

/-! ## The state after a prefix -/

/-- The packet once the first byte is there. -/
def firstPacket (s : Bytes) : WebSocketPacket :=
  WebSocketPacket.allocNewPacket.setFirstByte (byteAt s 0)

/-- The packet once the mask bit and the seven-bit length are there. -/
def lenPacket (s : Bytes) : WebSocketPacket :=
  { firstPacket s with mask := isMasked s, payloadLen := lenCode s }

/-- The value `_ResolveExtendedPayloadLen` stores. -/
def extendedLen (s : Bytes) : Option Nat :=
  if lenCode s = 126 then some (extendedLen16 s 2)
  else if lenCode s = 127 then extendedLenLoop s 2 8 0 (some 0)
  else some 0

/-- The packet once the extended length is there. -/
def extendedPacket (s : Bytes) : WebSocketPacket :=
  { lenPacket s with extendedPayloadLen := extendedLen s }

/-- The packet once the masking key is there. -/
def keyPacket (s : Bytes) : WebSocketPacket :=
  if isMasked s then { extendedPacket s with maskingKey := maskingKey s }
  else extendedPacket s

def afterFirst (s : Bytes) : WebSocketParser := ⟨firstPacket s, .kPayloadLen, 1⟩

def afterLen (s : Bytes) : WebSocketParser :=
  ⟨lenPacket s,
    if extendedWidth s = 0 then if isMasked s then .kMaskingKey else .kPayload
    else .kExtendedPayloadLen, 2⟩

def afterExtended (s : Bytes) : WebSocketParser :=
  ⟨extendedPacket s, if isMasked s then .kMaskingKey else .kPayload, keyOffset s⟩

def afterKey (s : Bytes) : WebSocketParser := ⟨keyPacket s, .kPayload, headerLen s⟩

/-- The position once the payload has `n` bytes. -/
def payloadPosition (s : Bytes) (n : Nat) : TPosition :=
  if n = (lenCode s).toNat then .kEnd
  else if n > (lenCode s).toNat then .kError
  else .kPayload

def afterPayload (s payload : Bytes) : WebSocketParser :=
  ⟨{ keyPacket s with payload }, payloadPosition s payload.length, s.length⟩

/-- The parser after the prefix `s`, of whose payload `payload` was decoded. -/
def frameState (s payload : Bytes) : WebSocketParser :=
  if s.length = 0 then WebSocketParser.fresh
  else if s.length < 2 then afterFirst s
  else if s.length < keyOffset s then afterLen s
  else if s.length < headerLen s then afterExtended s
  else if s.length = headerLen s then afterKey s
  else afterPayload s payload

/-- Behind the header the state is the one of the payload. -/
theorem frameState_payload {s : Bytes} (x : Bytes) (h : headerLen s < s.length) :
    frameState s x = afterPayload s x := by
  have htwo := two_le_keyOffset s
  have hkey := keyOffset_le_headerLen s
  rw [frameState, if_neg (by omega), if_neg (by omega), if_neg (by omega),
    if_neg (by omega), if_neg (by omega)]

/-! ## One call of `DoParse` -/

/-- A terminal position: `kEnd` or `kError`. -/
def Stopped (p : WebSocketParser) : Prop := p.position = .kEnd ∨ p.position = .kError

instance : DecidablePred Stopped := fun p =>
  inferInstanceAs (Decidable (p.position = .kEnd ∨ p.position = .kError))

theorem not_stopped_afterFirst (s : Bytes) : ¬ Stopped (afterFirst s) := by
  simp [Stopped, afterFirst]

theorem not_stopped_afterLen (s : Bytes) : ¬ Stopped (afterLen s) := by
  unfold Stopped afterLen
  split
  · split <;> simp
  · simp

theorem not_stopped_afterExtended (s : Bytes) : ¬ Stopped (afterExtended s) := by
  unfold Stopped afterExtended
  split <;> simp

theorem keyPacket_isHandShaken (s : Bytes) : (keyPacket s).isHandShaken = true := by
  unfold keyPacket
  split <;> rfl

theorem keyPacket_payload (s : Bytes) : (keyPacket s).payload = [] := by
  unfold keyPacket
  split <;> rfl

theorem keyPacket_payloadLen (s : Bytes) : (keyPacket s).payloadLen = lenCode s := by
  unfold keyPacket
  split <;> rfl

theorem keyPacket_mask (s : Bytes) : (keyPacket s).mask = isMasked s := by
  unfold keyPacket
  split <;> rfl

/-- Without a mask the key is not looked at. -/
theorem decodeFrom_keyPacket (s : Bytes) (i : Nat) (raw : Bytes) :
    decodeFrom (keyPacket s).mask (keyPacket s).maskingKey i raw =
      decodeFrom (isMasked s) (maskingKey s) i raw := by
  rw [keyPacket_mask]
  cases h : isMasked s with
  | true => simp [keyPacket, h]
  | false =>
      induction raw generalizing i with
      | nil => rfl
      | cons r rest ih => simp [decodeFrom, ih]

theorem decodeFrom_length (mask : Bool) (key : MaskingKey) (i : Nat) (raw : Bytes) :
    (decodeFrom mask key i raw).length = raw.length := by
  induction raw generalizing i with
  | nil => rfl
  | cons r rest ih => simp [decodeFrom, ih]

/-- Masking twice gives the payload back. -/
theorem decodeFrom_decodeFrom (key : MaskingKey) (i : Nat) (raw : Bytes) :
    decodeFrom true key i (decodeFrom true key i raw) = raw := by
  induction raw generalizing i with
  | nil => rfl
  | cons b raw ih =>
      show ((b ^^^ key.byte i) ^^^ key.byte i) :: _ = b :: raw
      rw [ih, UInt8.xor_assoc, UInt8.xor_self, UInt8.xor_zero]

theorem payloadOf_length (s : Bytes) : (payloadOf s).length = s.length - headerLen s := by
  simp [payloadOf, decodeFrom_length]

/-- A round that goes on. -/
theorem loop_goes_on {s : Bytes} {p q : WebSocketParser} (fuel : Nat)
    (h : WebSocketParser.resolve s p = (q, true)) (hrun : ¬ Stopped q) :
    WebSocketParser.loop s (fuel + 1) p = WebSocketParser.loop s fuel q := by
  obtain ⟨hend, herr⟩ := not_or.1 hrun
  simp [WebSocketParser.loop, h, hend, herr]

/-- A round that has to wait for more bytes. -/
theorem loop_waits {s : Bytes} {p q : WebSocketParser} (fuel : Nat)
    (h : WebSocketParser.resolve s p = (q, false)) (hrun : ¬ Stopped q) :
    WebSocketParser.loop s (fuel + 1) p = (q, .returned 0) := by
  obtain ⟨hend, herr⟩ := not_or.1 hrun
  simp [WebSocketParser.loop, h, hend, herr]

/-- The round in `kPayload`, with `payload` decoded and bytes behind `off`
to be decoded. -/
theorem loop_payload {s payload : Bytes} {off : Nat} (fuel : Nat) (hoff : off < s.length) :
    (WebSocketParser.loop s (fuel + 1)
        ⟨{ keyPacket s with payload }, .kPayload, off⟩).1 =
      afterPayload s
        (payload ++ decodeFrom (isMasked s) (maskingKey s) 0 (s.drop off)) := by
  have hne : s.length - off ≠ 0 := by omega
  have hdecode := decodeFrom_keyPacket s 0 (s.drop off)
  have hlen := keyPacket_payloadLen s
  simp only [WebSocketParser.loop, WebSocketParser.resolve, WebSocketParser.resolvePayload,
    if_neg hne, hdecode, hlen, afterPayload, payloadPosition]
  split
  · simp
  · split <;> simp

theorem loop_afterKey {s : Bytes} (fuel : Nat) (h : headerLen s ≤ s.length) :
    (WebSocketParser.loop s (fuel + 1) (afterKey s)).1 = frameState s (payloadOf s) := by
  have hkey := keyOffset_le_headerLen s
  have htwo := two_le_keyOffset s
  rw [frameState, if_neg (by omega), if_neg (by omega), if_neg (by omega), if_neg (by omega)]
  by_cases heq : s.length = headerLen s
  · have hzero : s.length - headerLen s = 0 := by omega
    rw [if_pos heq]
    simp [WebSocketParser.loop, WebSocketParser.resolve, WebSocketParser.resolvePayload,
      afterKey, hzero]
  · have hstate : afterKey s =
        ⟨{ keyPacket s with payload := [] }, .kPayload, headerLen s⟩ := by
      have hpayload := keyPacket_payload s
      unfold afterKey
      generalize keyPacket s = packet at hpayload
      rw [← hpayload]
    rw [if_neg heq, hstate, loop_payload fuel (by omega), List.nil_append, payloadOf]

theorem loop_afterExtended {s : Bytes} (fuel : Nat) (h : keyOffset s ≤ s.length) :
    (WebSocketParser.loop s (fuel + 2) (afterExtended s)).1 =
      frameState s (payloadOf s) := by
  have htwo := two_le_keyOffset s
  cases hmask : isMasked s with
  | false =>
      have heq : afterExtended s = afterKey s := by
        simp [afterExtended, afterKey, keyPacket, hmask, headerLen_eq_of_unmasked hmask]
      rw [heq, loop_afterKey _ (by rw [headerLen_eq_of_unmasked hmask]; exact h)]
  | true =>
      have hlen := keyOffset_eq_of_masked hmask
      by_cases hshort : s.length < headerLen s
      · have hwait : s.length - keyOffset s < 4 := by omega
        rw [frameState, if_neg (by omega), if_neg (by omega), if_neg (by omega),
          if_pos hshort]
        simp [WebSocketParser.loop, WebSocketParser.resolve,
          WebSocketParser.resolveMaskingKey, afterExtended, hmask, hwait]
      · have hfull : ¬ s.length - keyOffset s < 4 := by omega
        have hpm : (extendedPacket s).mask = true := hmask
        rw [← loop_afterKey fuel (by omega)]
        rw [WebSocketParser.loop]
        simp [WebSocketParser.resolve, WebSocketParser.resolveMaskingKey, afterExtended,
          hmask, hfull, hpm, afterKey, keyPacket, maskingKey, hlen]

/-- A frame without an extended length is behind it at once. -/
theorem afterLen_eq_afterExtended {s : Bytes} (h : extendedWidth s = 0) :
    afterLen s = afterExtended s := by
  have hoff : keyOffset s = 2 := by simp [keyOffset, h]
  have hlen : extendedLen s = some 0 := by
    unfold extendedWidth at h
    unfold extendedLen
    split at h
    · cases h
    · rename_i h126
      split at h
      · cases h
      · rename_i h127
        rw [if_neg h126, if_neg h127]
  simp only [afterLen, afterExtended, extendedPacket, h, hoff, hlen, if_pos]
  rfl

theorem takeExtendedLen_afterLen {s : Bytes} {w : Nat} (hw : extendedWidth s = w) :
    WebSocketParser.takeExtendedLen (extendedLen s) w (afterLen s) =
      (afterExtended s, true) := by
  subst hw
  rfl

theorem resolveExtendedPayloadLen_afterLen {s : Bytes} (h : extendedWidth s ≠ 0) :
    WebSocketParser.resolveExtendedPayloadLen s (afterLen s) =
      if s.length < keyOffset s then (afterLen s, false) else (afterExtended s, true) := by
  have hpl : (afterLen s).packet.payloadLen = lenCode s := rfl
  have hres : (afterLen s).resolvedLen = 2 := rfl
  unfold WebSocketParser.resolveExtendedPayloadLen
  rw [hpl, hres]
  by_cases h126 : lenCode s = 126
  · have hw : extendedWidth s = 2 := by simp [extendedWidth, h126]
    have hlen : extendedLen s = some (extendedLen16 s 2) := by simp [extendedLen, h126]
    rw [if_pos h126, ← hlen, takeExtendedLen_afterLen hw, keyOffset, hw]
    congr 1
    simp only [eq_iff_iff]
    omega
  · by_cases h127 : lenCode s = 127
    · have hw : extendedWidth s = 8 := by simp [extendedWidth, h127]
      have hlen : extendedLen s = extendedLenLoop s 2 8 0 (some 0) := by
        simp [extendedLen, h127]
      rw [if_neg h126, if_pos h127, ← hlen, takeExtendedLen_afterLen hw, keyOffset, hw]
      congr 1
      simp only [eq_iff_iff]
      omega
    · exact absurd (by simp [extendedWidth, h126, h127]) h

theorem loop_afterLen {s : Bytes} (fuel : Nat) (h : 2 ≤ s.length) :
    (WebSocketParser.loop s (fuel + 3) (afterLen s)).1 = frameState s (payloadOf s) := by
  by_cases hzero : extendedWidth s = 0
  · have hoff : keyOffset s = 2 := by simp [keyOffset, hzero]
    rw [afterLen_eq_afterExtended hzero]
    exact loop_afterExtended (fuel + 1) (by omega)
  · have hpos : (afterLen s).position = .kExtendedPayloadLen := by simp [afterLen, hzero]
    have hround : WebSocketParser.resolve s (afterLen s) =
        if s.length < keyOffset s then (afterLen s, false) else (afterExtended s, true) := by
      rw [← resolveExtendedPayloadLen_afterLen hzero, WebSocketParser.resolve, hpos]
    by_cases hshort : s.length < keyOffset s
    · rw [if_pos hshort] at hround
      rw [loop_waits _ hround (not_stopped_afterLen s)]
      rw [frameState, if_neg (by omega), if_neg (by omega), if_pos hshort]
    · rw [if_neg hshort] at hround
      rw [loop_goes_on _ hround (not_stopped_afterExtended s),
        loop_afterExtended fuel (by omega)]

theorem resolvePayloadLen_afterFirst {s : Bytes} (h : 2 ≤ s.length) :
    WebSocketParser.resolvePayloadLen s (afterFirst s) = (afterLen s, true) := by
  have hfull : ¬ s.length - (afterFirst s).resolvedLen < 1 := by
    have hres : (afterFirst s).resolvedLen = 1 := rfl
    omega
  unfold WebSocketParser.resolvePayloadLen
  rw [if_neg hfull]
  by_cases hext : byteAt s 1 &&& 0x7f = 126 ∨ byteAt s 1 &&& 0x7f = 127
  · have hw : extendedWidth s ≠ 0 := by
      rcases hext with h126 | h127
      · simp [extendedWidth, lenCode, h126]
      · simp [extendedWidth, lenCode, h127]
    simp only [if_pos hext, afterLen, if_neg hw]
    rfl
  · have h126 : lenCode s ≠ 126 := fun h => hext (Or.inl h)
    have h127 : lenCode s ≠ 127 := fun h => hext (Or.inr h)
    have hw : extendedWidth s = 0 := by simp [extendedWidth, h126, h127]
    have hlt : byteAt s 1 &&& 0x7f < 126 := by
      have hbound := lenCode_toNat_lt s
      have hne126 : (lenCode s).toNat ≠ 126 := fun h => h126 (UInt8.toNat_inj.1 h)
      have hne127 : (lenCode s).toNat ≠ 127 := fun h => h127 (UInt8.toNat_inj.1 h)
      have hlt : (lenCode s).toNat < 126 := by omega
      exact UInt8.lt_iff_toNat_lt.2 hlt
    simp only [if_neg hext, if_pos hlt, afterLen, if_pos hw]
    rfl

theorem loop_afterFirst {s : Bytes} (fuel : Nat) (h : 1 ≤ s.length) :
    (WebSocketParser.loop s (fuel + 4) (afterFirst s)).1 = frameState s (payloadOf s) := by
  have hround : WebSocketParser.resolve s (afterFirst s) =
      WebSocketParser.resolvePayloadLen s (afterFirst s) := rfl
  by_cases hshort : s.length < 2
  · have hwait : WebSocketParser.resolvePayloadLen s (afterFirst s) =
        (afterFirst s, false) := by
      have hres : (afterFirst s).resolvedLen = 1 := rfl
      unfold WebSocketParser.resolvePayloadLen
      rw [if_pos (by omega)]
    rw [loop_waits _ (hround.trans hwait) (not_stopped_afterFirst s)]
    rw [frameState, if_neg (by omega), if_pos hshort]
  · have hnext := hround.trans (resolvePayloadLen_afterFirst (by omega))
    rw [loop_goes_on _ hnext (not_stopped_afterLen s), loop_afterLen fuel (by omega)]

theorem loop_fresh {s : Bytes} (fuel : Nat) (h : 1 ≤ s.length) :
    (WebSocketParser.loop s (fuel + 5) WebSocketParser.fresh).1 =
      frameState s (payloadOf s) := by
  have hround : WebSocketParser.resolve s WebSocketParser.fresh = (afterFirst s, true) := rfl
  rw [loop_goes_on _ hround (not_stopped_afterFirst s), loop_afterFirst fuel h]

/-! ## From one prefix to the next -/

/-- What the chunk `c` behind the prefix `b` makes of the decoded payload. -/
def decodeChunk (b c payload : Bytes) : Bytes :=
  if (b ++ c).length ≤ headerLen (b ++ c) then []
  else payload ++ decodeFrom (isMasked (b ++ c)) (maskingKey (b ++ c)) 0
    ((b ++ c).drop (max (headerLen (b ++ c)) b.length))

/-- Every byte behind the header has been decoded. -/
def Decoded (b payload : Bytes) : Prop := payload.length = b.length - headerLen b

section Resume

variable {b : Bytes} (c : Bytes)

theorem afterFirst_append (h : 1 ≤ b.length) : afterFirst (b ++ c) = afterFirst b := by
  unfold afterFirst firstPacket
  rw [byteAt_append c (by omega)]

theorem lenPacket_append (h : 2 ≤ b.length) : lenPacket (b ++ c) = lenPacket b := by
  unfold lenPacket firstPacket
  rw [byteAt_append c (by omega), isMasked_append c h, lenCode_append c h]

theorem afterLen_append (h : 2 ≤ b.length) : afterLen (b ++ c) = afterLen b := by
  unfold afterLen extendedWidth
  rw [lenPacket_append c h, isMasked_append c h, lenCode_append c h]

theorem extendedLenLoop_append {off n i : Nat} {acc : Option Nat}
    (h : off + i + n ≤ b.length) :
    extendedLenLoop (b ++ c) off n i acc = extendedLenLoop b off n i acc := by
  induction n generalizing i acc with
  | zero => rfl
  | succ n ih =>
      simp only [extendedLenLoop]
      rw [byteAt_append c (by omega), ih (by omega)]

theorem extendedLen_append (h : keyOffset b ≤ b.length) :
    extendedLen (b ++ c) = extendedLen b := by
  have htwo := two_le_keyOffset b
  unfold extendedLen
  rw [lenCode_append c (by omega)]
  split
  · rename_i h126
    have hw : keyOffset b = 4 := by simp [keyOffset, extendedWidth, h126]
    simp only [extendedLen16]
    rw [byteAt_append c (by omega), byteAt_append c (by omega)]
  · split
    · rename_i h127
      have hw : keyOffset b = 10 := by simp [keyOffset, extendedWidth, h127]
      exact extendedLenLoop_append c (by omega)
    · rfl

theorem extendedPacket_append (h : keyOffset b ≤ b.length) :
    extendedPacket (b ++ c) = extendedPacket b := by
  have htwo := two_le_keyOffset b
  unfold extendedPacket
  rw [lenPacket_append c (by omega), extendedLen_append c h]

theorem afterExtended_append (h : keyOffset b ≤ b.length) :
    afterExtended (b ++ c) = afterExtended b := by
  have htwo := two_le_keyOffset b
  unfold afterExtended
  rw [extendedPacket_append c h, isMasked_append c (by omega), keyOffset_append c (by omega)]

theorem maskingKey_append (h : headerLen b ≤ b.length) (hmask : isMasked b = true) :
    maskingKey (b ++ c) = maskingKey b := by
  have htwo := two_le_keyOffset b
  have hlen := keyOffset_eq_of_masked hmask
  unfold maskingKey keyAt
  rw [keyOffset_append c (by omega), byteAt_append c (by omega), byteAt_append c (by omega),
    byteAt_append c (by omega), byteAt_append c (by omega)]

theorem keyPacket_append (h : headerLen b ≤ b.length) :
    keyPacket (b ++ c) = keyPacket b := by
  have htwo := two_le_keyOffset b
  have hkey := keyOffset_le_headerLen b
  unfold keyPacket
  rw [isMasked_append c (by omega), extendedPacket_append c (by omega)]
  split
  · rename_i hmask
    rw [maskingKey_append c h hmask]
  · rfl

theorem afterKey_append (h : headerLen b ≤ b.length) : afterKey (b ++ c) = afterKey b := by
  have htwo := two_le_keyOffset b
  have hkey := keyOffset_le_headerLen b
  unfold afterKey
  rw [keyPacket_append c h, headerLen_append c (by omega)]

end Resume

/-- While the header is incomplete or just complete, a chunk starts the
payload. -/
theorem decodeChunk_header {b c : Bytes} (h : b.length ≤ headerLen (b ++ c)) :
    frameState (b ++ c) (decodeChunk b c []) =
      frameState (b ++ c) (payloadOf (b ++ c)) := by
  unfold decodeChunk
  split
  · rename_i hshort
    have hnil : payloadOf (b ++ c) = [] := by
      rw [← List.length_eq_zero_iff, payloadOf_length]
      omega
    rw [hnil]
  · rw [Nat.max_eq_left h, List.nil_append, payloadOf]

theorem doParse_of_running {s : Bytes} {p : WebSocketParser}
    (hshaken : p.packet.isHandShaken = true) (hmore : p.resolvedLen < s.length) :
    WebSocketParser.parsed s p = (WebSocketParser.loop s 6 p).1 := by
  have hne : s.length - p.resolvedLen ≠ 0 := by omega
  simp [WebSocketParser.parsed, WebSocketParser.doParse, hshaken, hne]

theorem sub_headerLen_append (b c : Bytes) :
    b.length - headerLen (b ++ c) = b.length - headerLen b := by
  by_cases h : 2 ≤ b.length
  · rw [headerLen_append c h]
  · have htwo := two_le_keyOffset b
    have hkey := keyOffset_le_headerLen b
    have htwo' := two_le_keyOffset (b ++ c)
    have hkey' := keyOffset_le_headerLen (b ++ c)
    omega

theorem decoded_decodeChunk {b c x : Bytes} (hx : Decoded b x) :
    Decoded (b ++ c) (decodeChunk b c x) := by
  have hsub := sub_headerLen_append b c
  have hlen : (b ++ c).length = b.length + c.length := List.length_append
  unfold Decoded at hx ⊢
  unfold decodeChunk
  split
  · simp only [List.length_nil]
    omega
  · rw [List.length_append, decodeFrom_length, List.length_drop]
    omega

/-- The resumed parser while the header is being read. -/
theorem parsed_frameState_header {b c : Bytes} (hc : c ≠ [])
    (h : b.length ≤ headerLen (b ++ c)) :
    WebSocketParser.parsed (b ++ c) (frameState b []) =
      frameState (b ++ c) (payloadOf (b ++ c)) := by
  have hlen : (b ++ c).length = b.length + c.length := List.length_append
  have hpos : 0 < c.length := List.length_pos_iff.2 hc
  have htwo := two_le_keyOffset b
  have hkey := keyOffset_le_headerLen b
  unfold frameState
  split
  · rw [doParse_of_running rfl (by change 0 < _; omega), loop_fresh 1 (by omega), frameState]
  · split
    · rw [← afterFirst_append c (by omega),
        doParse_of_running rfl (by change 1 < _; omega), loop_afterFirst 2 (by omega),
        frameState]
    · have hhead := headerLen_append c (b := b) (by omega)
      split
      · rw [← afterLen_append c (by omega),
          doParse_of_running rfl (by change 2 < _; omega), loop_afterLen 3 (by omega),
          frameState]
      · have hoff := keyOffset_append c (b := b) (by omega)
        split
        · rw [← afterExtended_append c (by omega),
            doParse_of_running rfl (by change keyOffset _ < _; omega),
            loop_afterExtended 4 (by omega), frameState]
        · rw [if_pos (by omega), ← afterKey_append c (by omega),
            doParse_of_running (keyPacket_isHandShaken _) (by change headerLen _ < _; omega),
            loop_afterKey 5 (by omega), frameState]

/-- The resumed parser inside the payload. -/
theorem parsed_frameState_payload {b c x : Bytes} (hc : c ≠ [])
    (hrun : ¬ Stopped (frameState b x)) (h : headerLen (b ++ c) < b.length) :
    WebSocketParser.parsed (b ++ c) (frameState b x) =
      frameState (b ++ c) (decodeChunk b c x) := by
  have hlen : (b ++ c).length = b.length + c.length := List.length_append
  have hpos : 0 < c.length := List.length_pos_iff.2 hc
  have htwo := two_le_keyOffset (b ++ c)
  have hkey := keyOffset_le_headerLen (b ++ c)
  have hhead := headerLen_append c (b := b) (by omega)
  have hb : frameState b x = afterPayload b x := frameState_payload x (by omega)
  have hs : ∀ y, frameState (b ++ c) y = afterPayload (b ++ c) y := fun y =>
    frameState_payload y (by omega)
  have hposition : payloadPosition b x.length = .kPayload := by
    rw [hb] at hrun
    obtain ⟨hend, herr⟩ := not_or.1 hrun
    simp only [afterPayload, payloadPosition] at hend herr ⊢
    split_ifs at hend herr ⊢ <;> simp_all
  have hstate : afterPayload b x =
      ⟨{ keyPacket (b ++ c) with payload := x }, .kPayload, b.length⟩ := by
    rw [keyPacket_append c (by omega), afterPayload, hposition]
  rw [hs, hb, hstate, doParse_of_running (keyPacket_isHandShaken _) (by change b.length < _; omega),
    loop_payload 5 (by omega), decodeChunk, if_neg (by omega), Nat.max_eq_right (by omega)]

/-- **One chunk.**  `DoParse` on a longer prefix resumes where the shorter
one stopped. -/
theorem parsed_frameState (b c x : Bytes) (hc : c ≠ []) (hrun : ¬ Stopped (frameState b x))
    (hx : Decoded b x) :
    WebSocketParser.parsed (b ++ c) (frameState b x) =
        frameState (b ++ c) (decodeChunk b c x) ∧
      Decoded (b ++ c) (decodeChunk b c x) := by
  refine ⟨?_, decoded_decodeChunk hx⟩
  by_cases h : b.length ≤ headerLen (b ++ c)
  · have hnil : x = [] := by
      have hsub := sub_headerLen_append b c
      unfold Decoded at hx
      exact List.length_eq_zero_iff.1 (by omega)
    subst hnil
    rw [decodeChunk_header h, parsed_frameState_header hc h]
  · exact parsed_frameState_payload hc hrun (by omega)

/-! ## Chunked and whole -/

/-- Append the chunks one by one, with `DoParse` after each. -/
def parseChunks (chunks : List Bytes) : WebSocketParser :=
  feed WebSocketParser.parsed [] WebSocketParser.fresh chunks

/-- Append everything and call `DoParse` once. -/
def parseWhole (s : Bytes) : WebSocketParser :=
  WebSocketParser.parsed s WebSocketParser.fresh

/-- No chunk but the last brings the parser to `kEnd` or `kError`. -/
def RunsToLast (chunks : List Bytes) : Prop :=
  Unstopped WebSocketParser.parsed Stopped [] WebSocketParser.fresh chunks

instance (chunks : List Bytes) : Decidable (RunsToLast chunks) :=
  inferInstanceAs (Decidable (Unstopped _ _ _ _ _))

/-- What is compared at the end. -/
structure Observed where
  position : TPosition
  opCode : UInt8
  mask : Bool
  maskingKey : MaskingKey
  payloadLen : UInt8
  extendedPayloadLen : Option Nat
  payload : Bytes
deriving DecidableEq

def observed (p : WebSocketParser) : Observed :=
  { position := p.position, opCode := p.packet.opCode, mask := p.packet.mask,
    maskingKey := p.packet.maskingKey, payloadLen := p.packet.payloadLen,
    extendedPayloadLen := p.packet.extendedPayloadLen, payload := p.packet.payload }

/-- The payload put together from the chunks. -/
def payloadOfChunks (chunks : List Bytes) : Bytes := accumulate decodeChunk [] [] chunks

theorem parseChunks_eq {chunks : List Bytes} (hne : ∀ c ∈ chunks, c ≠ [])
    (hrun : RunsToLast chunks) :
    parseChunks chunks = frameState chunks.flatten (payloadOfChunks chunks) ∧
      Decoded chunks.flatten (payloadOfChunks chunks) :=
  feed_eq_of_simulation frameState decodeChunk Decoded parsed_frameState
    (b := []) (x := []) rfl hne hrun

theorem parseWhole_eq (s : Bytes) : parseWhole s = frameState s (payloadOf s) := by
  by_cases hs : s = []
  · subst hs
    rfl
  · exact parsed_frameState_header (b := []) hs (Nat.zero_le _)

/-- Beside the payload itself everything observed depends on its length
only. -/
theorem observed_frameState_iff {s x y : Bytes} (hx : Decoded s x) (hy : Decoded s y) :
    observed (frameState s x) = observed (frameState s y) ↔ x = y := by
  constructor
  · intro h
    unfold Decoded at hx hy
    by_cases hs : s.length ≤ headerLen s
    · rw [List.length_eq_zero_iff.1 (show x.length = 0 by omega),
        List.length_eq_zero_iff.1 (show y.length = 0 by omega)]
    · rw [frameState_payload x (by omega), frameState_payload y (by omega)] at h
      exact congrArg Observed.payload h
  · intro h
    rw [h]

/-! ## The phase of the masking key -/

/-- Every chunk that starts inside the payload of a masked frame finds the
key bytes it is decoded with, those from index 0 on, equal to the key bytes
its place in the payload calls for. -/
def InPhase (s : Bytes) : Nat → List Bytes → Prop
  | _, [] => True
  | off, c :: cs =>
      (isMasked s = true → headerLen s < off → ∀ i < c.length,
        (maskingKey s).byte i = (maskingKey s).byte (off - headerLen s + i)) ∧
      InPhase s (off + c.length) cs

instance InPhase.decidable (s : Bytes) : ∀ off cs, Decidable (InPhase s off cs)
  | _, [] => isTrue trivial
  | off, c :: cs =>
      have := InPhase.decidable s (off + c.length) cs
      inferInstanceAs (Decidable ((_ → _ → _) ∧ _))

theorem decodeFrom_append (mask : Bool) (key : MaskingKey) (i : Nat) (l₁ l₂ : Bytes) :
    decodeFrom mask key i (l₁ ++ l₂) =
      decodeFrom mask key i l₁ ++ decodeFrom mask key (i + l₁.length) l₂ := by
  induction l₁ generalizing i with
  | nil => rfl
  | cons r rest ih =>
      simp only [List.cons_append, decodeFrom, ih, List.length_cons]
      rw [show i + 1 + rest.length = i + (rest.length + 1) by omega]

/-- Two decodings agree exactly when the key bytes do. -/
theorem decodeFrom_eq_iff (mask : Bool) (key : MaskingKey) (i j : Nat) (raw : Bytes) :
    decodeFrom mask key i raw = decodeFrom mask key j raw ↔
      (mask = true → ∀ k < raw.length, key.byte (i + k) = key.byte (j + k)) := by
  induction raw generalizing i j with
  | nil => simp [decodeFrom]
  | cons r rest ih =>
      simp only [decodeFrom, List.cons.injEq, ih, List.length_cons]
      cases mask with
      | false => simp
      | true =>
          simp only [if_true, forall_const, UInt8.xor_right_inj]
          constructor
          · rintro ⟨hhead, htail⟩ k hk
            cases k with
            | zero => exact hhead
            | succ k =>
                have := htail k (by omega)
                rwa [Nat.add_assoc, Nat.add_assoc, Nat.add_comm 1 k] at this
          · intro h
            refine ⟨h 0 (by omega), fun k hk => ?_⟩
            have := h (k + 1) (by omega)
            rwa [Nat.add_comm k 1, ← Nat.add_assoc, ← Nat.add_assoc] at this

/-- The payload bytes of the prefix `b` of the frame `s`, decoded in phase. -/
def payloadSoFar (s b : Bytes) : Bytes :=
  decodeFrom (isMasked s) (maskingKey s) 0 (b.drop (headerLen s))

/-- The layout of the frame as the prefix `b` shows it, once it reaches into
the payload. -/
theorem layout_of_prefix {s b rest : Bytes} (hs : b ++ rest = s)
    (h : headerLen s ≤ b.length) :
    headerLen b = headerLen s ∧ isMasked b = isMasked s ∧
      (isMasked s = true → maskingKey b = maskingKey s) := by
  subst hs
  have htwo := two_le_keyOffset (b ++ rest)
  have hkey := keyOffset_le_headerLen (b ++ rest)
  have hhead := headerLen_append rest (b := b) (by omega)
  have hmask := isMasked_append rest (b := b) (by omega)
  refine ⟨hhead.symm, hmask.symm, fun hm => ?_⟩
  exact (maskingKey_append rest (by omega) (hmask ▸ hm)).symm

/-- A key that is not looked at may be any key. -/
theorem decodeFrom_key {mask : Bool} {key key' : MaskingKey}
    (h : mask = true → key = key') (i : Nat) (raw : Bytes) :
    decodeFrom mask key i raw = decodeFrom mask key' i raw := by
  cases mask with
  | true => rw [h rfl]
  | false =>
      induction raw generalizing i with
      | nil => rfl
      | cons r rest ih => simp [decodeFrom, ih]

/-- One chunk keeps the payload right exactly when the payload was right and
the chunk is in phase. -/
theorem decodeChunk_eq_iff {s b c x rest : Bytes} (hs : b ++ c ++ rest = s)
    (hx : Decoded b x) :
    decodeChunk b c x = payloadSoFar s (b ++ c) ↔
      x = payloadSoFar s b ∧
        (isMasked s = true → headerLen s < b.length → ∀ i < c.length,
          (maskingKey s).byte i = (maskingKey s).byte (b.length - headerLen s + i)) := by
  have hlen : (b ++ c).length = b.length + c.length := List.length_append
  have hsub : b.length - headerLen s = b.length - headerLen b := by
    rw [← hs, List.append_assoc, sub_headerLen_append]
  have hsub' : (b ++ c).length - headerLen s = (b ++ c).length - headerLen (b ++ c) := by
    rw [← hs, sub_headerLen_append]
  unfold Decoded at hx
  by_cases hin : headerLen s < b.length
  · -- the chunk lies inside the payload as a whole
    obtain ⟨hhead, hmask, hkey⟩ := layout_of_prefix hs (by omega)
    have hdrop : (b ++ c).drop (headerLen s) = b.drop (headerLen s) ++ c :=
      List.drop_append_of_le_length (by omega)
    have hdropc : (b ++ c).drop b.length = c := List.drop_left
    have hchunk : decodeChunk b c x =
        x ++ decodeFrom (isMasked s) (maskingKey s) 0 c := by
      rw [decodeChunk, if_neg (by omega), hhead, hmask, Nat.max_eq_right (by omega), hdropc,
        decodeFrom_key hkey]
    have hxlen : x.length = (payloadSoFar s b).length := by
      rw [payloadSoFar, decodeFrom_length, List.length_drop]
      omega
    have hwhole : payloadSoFar s (b ++ c) = payloadSoFar s b ++
        decodeFrom (isMasked s) (maskingKey s) (b.length - headerLen s) c := by
      rw [payloadSoFar, hdrop, decodeFrom_append, payloadSoFar, List.length_drop,
        Nat.zero_add]
    have hphase := decodeFrom_eq_iff (isMasked s) (maskingKey s) 0
      (b.length - headerLen s) c
    simp only [Nat.zero_add] at hphase
    rw [hchunk, hwhole]
    constructor
    · intro h
      obtain ⟨hold, hnew⟩ := List.append_inj h hxlen
      exact ⟨hold, fun hm _ => hphase.1 hnew hm⟩
    · rintro ⟨hold, hnew⟩
      rw [hold, hphase.2 fun hm => hnew hm hin]
  · -- the payload starts inside the chunk or behind it
    have hxnil : x = [] := List.length_eq_zero_iff.1 (by omega)
    have hbnil : payloadSoFar s b = [] := by
      rw [payloadSoFar, List.drop_eq_nil_of_le (by omega), decodeFrom]
    subst hxnil
    rw [hbnil]
    simp only [true_and]
    refine iff_of_true ?_ (fun _ hlt => absurd hlt hin)
    by_cases hshort : (b ++ c).length ≤ headerLen s
    · rw [decodeChunk, if_pos (by omega), payloadSoFar, List.drop_eq_nil_of_le hshort,
        decodeFrom]
    · obtain ⟨hhead, hmask, hkey⟩ := layout_of_prefix hs (by omega)
      rw [decodeChunk, if_neg (by omega), hhead, hmask, Nat.max_eq_left (by omega),
        List.nil_append, payloadSoFar, decodeFrom_key hkey]

theorem accumulate_eq_iff {s b x : Bytes} {chunks : List Bytes}
    (hs : b ++ chunks.flatten = s) (hx : Decoded b x) :
    accumulate decodeChunk b x chunks = payloadOf s ↔
      x = payloadSoFar s b ∧ InPhase s b.length chunks := by
  induction chunks generalizing b x with
  | nil =>
      simp only [List.flatten_nil, List.append_nil] at hs
      subst hs
      simp [accumulate, InPhase, payloadSoFar, payloadOf]
  | cons c chunks ih =>
      rw [List.flatten_cons, ← List.append_assoc] at hs
      rw [accumulate, ih hs (decoded_decodeChunk hx), decodeChunk_eq_iff hs hx, InPhase,
        List.length_append, and_assoc]

/-- **The payload of the chunks.** -/
theorem accumulate_payload_iff (chunks : List Bytes) :
    payloadOfChunks chunks = payloadOf chunks.flatten ↔
      InPhase chunks.flatten 0 chunks := by
  have h : accumulate decodeChunk [] [] chunks = payloadOf chunks.flatten ↔
      [] = payloadSoFar chunks.flatten [] ∧ InPhase chunks.flatten [].length chunks :=
    accumulate_eq_iff rfl rfl
  simpa [payloadOfChunks, payloadSoFar, decodeFrom] using h

/-- **Segmentation.**  Feeding a frame in chunks and feeding it at once give
the same position, packet fields and payload exactly when every chunk is in
phase with the masking key. -/
theorem observed_parseChunks_iff_inPhase (chunks : List Bytes)
    (hne : ∀ c ∈ chunks, c ≠ []) (hrun : RunsToLast chunks) :
    observed (parseChunks chunks) = observed (parseWhole chunks.flatten) ↔
      InPhase chunks.flatten 0 chunks := by
  obtain ⟨hchunks, hdecoded⟩ := parseChunks_eq hne hrun
  rw [hchunks, parseWhole_eq, observed_frameState_iff hdecoded (payloadOf_length _)]
  exact accumulate_payload_iff chunks

/-- A masked text frame with the payload `Hello`, up to the cut and behind
it. -/
def helloFrame (cut : Nat) : List Bytes :=
  let frame : Bytes := [0x81, 0x85, 1, 2, 3, 4, 0x49, 0x67, 0x6f, 0x68, 0x6e]
  [frame.take cut, frame.drop cut]

/-- Cut behind the fourth byte of the payload, the frame stays in phase. -/
theorem observed_helloFrame_ten :
    observed (parseChunks (helloFrame 10)) =
      observed (parseWhole (helloFrame 10).flatten) :=
  (observed_parseChunks_iff_inPhase (helloFrame 10) (by decide) (by decide)).2 (by decide)

/-- Cut behind the first byte of the payload, the second byte is decoded with
the first byte of the key. -/
theorem observed_helloFrame_seven :
    (∀ c ∈ helloFrame 7, c ≠ []) ∧ RunsToLast (helloFrame 7) ∧
      observed (parseChunks (helloFrame 7)) ≠
        observed (parseWhole (helloFrame 7).flatten) :=
  ⟨by decide, by decide, by decide⟩

end Unixtar.Ws
