import Unixtar.Http.HeaderField
import Unixtar.NetworkModel.ApplicationLayer

/-!
# WebSocket packets and their parser: `longlink/websocketpacket.cc`

A value of `WebSocketParser` is the parser together with the packet it
parses into; the buffer is an argument, the first `Length()` bytes of
`tcp_byte_arr_`.  `byteAt` is `*buffer_->Ptr(i)`.

`_ResolvePayload` compares the size of the payload with the seven-bit
length, also behind an extended length.  Its loop index is an `int`; here
it is a natural number.
-/

namespace Unixtar.Ws

open Unixtar.Http

/-! ## Packets -/

/-- `uint8_t masking_key_[4]`. -/
structure MaskingKey where
  key0 : UInt8
  key1 : UInt8
  key2 : UInt8
  key3 : UInt8
deriving DecidableEq, Repr

/-- `masking_key[i % 4]`. -/
def MaskingKey.byte (key : MaskingKey) (i : Nat) : UInt8 :=
  match i % 4 with
  | 0 => key.key0
  | 1 => key.key1
  | 2 => key.key2
  | _ => key.key3

/-- `WebSocketPacket`.  `extendedPayloadLen` is `none` when its value was
computed with an undefined shift. -/
structure WebSocketPacket where
  isHandShaken : Bool
  handshakeReq : HeaderField
  handshakeResp : HeaderField
  firstByte : UInt8
  fin : Bool
  rsv0 : Bool
  rsv1 : Bool
  rsv2 : Bool
  opCode : UInt8
  mask : Bool
  payloadLen : UInt8
  extendedPayloadLen : Option Nat
  maskingKey : MaskingKey
  payload : Bytes
deriving DecidableEq

namespace WebSocketPacket

def kOpcodeText : UInt8 := 0b0001
def kOpcodeConnectionClose : UInt8 := 0b1000

def kHandShakeMagicKey : Bytes := lit "258EAFA5-E914-47DA-95CA-C5AB0DC85B11"

/-- The constructor. -/
def init : WebSocketPacket :=
  { isHandShaken := false, handshakeReq := Lib.OrdMap.empty,
    handshakeResp := Lib.OrdMap.empty, firstByte := 0x81, fin := false, rsv0 := false,
    rsv1 := false, rsv2 := false, opCode := 0, mask := false, payloadLen := 0,
    extendedPayloadLen := some 0, maskingKey := ⟨0, 0, 0, 0⟩, payload := [] }

/-- `AllocNewPacket`: the new packet counts as handshaken, whatever the
fate of the handshake. -/
def allocNewPacket : WebSocketPacket := { init with isHandShaken := true }

/-- `SetFirstByte`. -/
def setFirstByte (first : UInt8) (p : WebSocketPacket) : WebSocketPacket :=
  { p with firstByte := first, fin := first &&& 0x80 ≠ 0, rsv0 := first &&& 0x40 ≠ 0,
           rsv1 := first &&& 0x20 ≠ 0, rsv2 := first &&& 0x10 ≠ 0,
           opCode := first &&& 0x0f }

/-- The three header fields of a successful handshake. -/
def handshakeFields (accept : Bytes) : HeaderField :=
  HeaderField.insertOrUpdate
    (HeaderField.insertOrUpdate
      (HeaderField.insertOrUpdate Lib.OrdMap.empty HeaderField.kSecWebSocketAccept accept)
      HeaderField.kConnection HeaderField.kUpgrade)
    HeaderField.kUpgrade HeaderField.kWebSocket

/-- `DoHandShake` behind its assertion; `digest` is the Base64 text of the
SHA-1 digest. -/
def doHandShake (digest : Bytes → Bytes) (p : WebSocketPacket) : WebSocketPacket × Bool :=
  match HeaderField.get p.handshakeReq HeaderField.kSecWebSocketKey with
  | none => ({ p with handshakeResp := Lib.OrdMap.empty }, false)
  | some secKey =>
      ({ p with handshakeResp := handshakeFields (digest (secKey ++ kHandShakeMagicKey)),
                isHandShaken := true }, true)

theorem doHandShake_snd (digest : Bytes → Bytes) (p : WebSocketPacket) :
    (doHandShake digest p).2 =
      (HeaderField.get p.handshakeReq HeaderField.kSecWebSocketKey).isSome := by
  unfold doHandShake
  cases HeaderField.get p.handshakeReq HeaderField.kSecWebSocketKey <;> rfl

end WebSocketPacket

/-- The bytes of a `uint16_t` or `uint64_t` in memory, on a little-endian
host. -/
def leBytes : Nat → Nat → Bytes
  | 0, _ => []
  | width + 1, n => UInt8.ofNat (n % 256) :: leBytes width (n / 256)

/-- `ws::Pack`. -/
def pack (content : Bytes) : Bytes :=
  let length :=
    if content.length < 126 then [UInt8.ofNat content.length]
    else if content.length ≤ 0xffff then 126 :: leBytes 2 content.length
    else 127 :: leBytes 8 content.length
  (0x80 + WebSocketPacket.kOpcodeText) :: (length ++ content)

theorem pack_ne_nil (content : Bytes) : pack content ≠ [] := by
  simp [pack]

/-! ## The parser -/

/-- `WebSocketParser::TPosition`. -/
inductive TPosition
  | kNone
  | kFirstByte
  | kPayloadLen
  | kExtendedPayloadLen
  | kMaskingKey
  | kPayload
  | kEnd
  | kError
deriving DecidableEq, Repr

/-- `*buffer_->Ptr(i)`. -/
def byteAt (buf : Bytes) (i : Nat) : UInt8 := buf.getD i 0

/-- `(c << shift) & (0xff << shift)` on 32-bit `int`s, converted to
`size_t`; a shift by 32 or more is undefined. -/
def shiftedByte (c : UInt8) (shift : Nat) : Option Nat :=
  if shift < 32 then some (Str.toSizeT (Str.toInt (c.toNat <<< shift))) else none

/-- The loop of `_ResolveExtendedPayloadLen` behind the code 127: `i` is
the loop index, `acc` the sum so far, modulo 2⁶⁴. -/
def extendedLenLoop (buf : Bytes) (off : Nat) : Nat → Nat → Option Nat → Option Nat
  | 0, _, acc => acc
  | left + 1, i, acc =>
      let shifted := shiftedByte (byteAt buf (off + i)) ((7 - i) * 8)
      extendedLenLoop buf off left (i + 1)
        (acc.bind fun sum => shifted.map fun s => (sum + s) % 2 ^ 64)

/-- `((*Ptr(off) << 8) & 0xff00) + (*Ptr(off + 1) & 0xff)`. -/
def extendedLen16 (buf : Bytes) (off : Nat) : Nat :=
  (byteAt buf off).toNat * 256 + (byteAt buf (off + 1)).toNat

/-- The four bytes at `off`. -/
def keyAt (buf : Bytes) (off : Nat) : MaskingKey :=
  ⟨byteAt buf off, byteAt buf (off + 1), byteAt buf (off + 2), byteAt buf (off + 3)⟩

/-- The loop of `_ResolvePayload` from the index `i` on.  The `int` index is not
bounded here; it is in `LongLink/Safety.lean`. -/
def decodeFrom (mask : Bool) (key : MaskingKey) : Nat → Bytes → Bytes
  | _, [] => []
  | i, raw :: rest =>
      (if mask then raw ^^^ key.byte i else raw) :: decodeFrom mask key (i + 1) rest

/-- The parser and the packet it fills. -/
structure WebSocketParser where
  packet : WebSocketPacket
  position : TPosition
  resolvedLen : Nat
deriving DecidableEq

namespace WebSocketParser

/-- The constructor; the packet gets the headers of the upgrade request. -/
def init (handshakeReq : HeaderField) : WebSocketParser :=
  { packet := { WebSocketPacket.init with handshakeReq }, position := .kNone,
    resolvedLen := 0 }

/-- `Reset`, then `SetPacketToParse` on a newly allocated packet, as
`MakeRecvContext` does. -/
def fresh : WebSocketParser :=
  { packet := WebSocketPacket.allocNewPacket, position := .kNone, resolvedLen := 0 }

/-- `IsEnd`. -/
def isEnd (p : WebSocketParser) : Bool := p.position = .kEnd

/-- `IsErr`. -/
def isErr (p : WebSocketParser) : Bool := p.position = .kError

/-- `_ResolveFirstByte`. -/
def resolveFirstByte (buf : Bytes) (p : WebSocketParser) : WebSocketParser × Bool :=
  ({ packet := p.packet.setFirstByte (byteAt buf 0), position := .kPayloadLen,
     resolvedLen := p.resolvedLen + 1 }, true)

/-- `_ResolvePayloadLen`. -/
def resolvePayloadLen (buf : Bytes) (p : WebSocketParser) : WebSocketParser × Bool :=
  if buf.length - p.resolvedLen < 1 then (p, false)
  else
    let isMask : Bool := byteAt buf 1 &&& 0x80 ≠ 0
    let payloadLen := byteAt buf 1 &&& 0x7f
    let masked := { p.packet with mask := isMask }
    if payloadLen = 126 ∨ payloadLen = 127 then
      ({ packet := { masked with payloadLen }, position := .kExtendedPayloadLen,
         resolvedLen := p.resolvedLen + 1 }, true)
    else if payloadLen < 126 then
      ({ packet := { masked with payloadLen },
         position := if isMask then .kMaskingKey else .kPayload,
         resolvedLen := p.resolvedLen + 1 }, true)
    else ({ p with packet := masked, position := .kError }, false)

/-- The end of `_ResolveExtendedPayloadLen`, with `width` bytes read. -/
def takeExtendedLen (len : Option Nat) (width : Nat) (p : WebSocketParser) :
    WebSocketParser × Bool :=
  ({ packet := { p.packet with extendedPayloadLen := len },
     position := if p.packet.mask then .kMaskingKey else .kPayload,
     resolvedLen := p.resolvedLen + width }, true)

/-- `_ResolveExtendedPayloadLen`. -/
def resolveExtendedPayloadLen (buf : Bytes) (p : WebSocketParser) :
    WebSocketParser × Bool :=
  let unresolvedLen := buf.length - p.resolvedLen
  if p.packet.payloadLen = 126 then
    if unresolvedLen < 2 then (p, false)
    else takeExtendedLen (some (extendedLen16 buf p.resolvedLen)) 2 p
  else if p.packet.payloadLen = 127 then
    if unresolvedLen < 8 then (p, false)
    else takeExtendedLen (extendedLenLoop buf p.resolvedLen 8 0 (some 0)) 8 p
  else ({ p with position := .kError }, false)

/-- `_ResolveMaskingKey`. -/
def resolveMaskingKey (buf : Bytes) (p : WebSocketParser) : WebSocketParser × Bool :=
  if buf.length - p.resolvedLen < 4 then (p, false)
  else if p.packet.mask then
    ({ packet := { p.packet with maskingKey := keyAt buf p.resolvedLen },
       position := .kPayload, resolvedLen := p.resolvedLen + 4 }, true)
  else (p, true)

/-- `_ResolvePayload`: the masking index starts at 0 in every call.  It would
overflow behind `2^31 - 1` bytes of one call. -/
def resolvePayload (buf : Bytes) (p : WebSocketParser) : WebSocketParser × Bool :=
  if buf.length - p.resolvedLen = 0 then (p, false)
  else
    let payload := p.packet.payload ++
      decodeFrom p.packet.mask p.packet.maskingKey 0 (buf.drop p.resolvedLen)
    let p := { p with packet := { p.packet with payload }, resolvedLen := buf.length }
    if payload.length = p.packet.payloadLen.toNat then ({ p with position := .kEnd }, true)
    else if payload.length > p.packet.payloadLen.toNat then
      ({ p with position := .kError }, false)
    else (p, false)

/-- The branch of the loop of `DoParse` that the position selects. -/
def resolve (buf : Bytes) (p : WebSocketParser) : WebSocketParser × Bool :=
  match p.position with
  | .kNone => resolveFirstByte buf { p with resolvedLen := 0, position := .kFirstByte }
  | .kFirstByte => resolveFirstByte buf p
  | .kPayloadLen => resolvePayloadLen buf p
  | .kExtendedPayloadLen => resolveExtendedPayloadLen buf p
  | .kMaskingKey => resolveMaskingKey buf p
  | .kPayload => resolvePayload buf p
  | .kEnd => (p, false)
  | .kError => (p, false)

/-- The loop of `DoParse`.  Every round but the last moves the position
forward, so six rounds are enough from any position. -/
def loop (buf : Bytes) : Nat → WebSocketParser → WebSocketParser × ParseRet
  | 0, p => (p, .returned 0)
  | fuel + 1, p =>
      let (p, success) := resolve buf p
      if p.position = .kEnd then (p, .returned 0)
      else if p.position = .kError then (p, .returned (-1))
      else if success = false then (p, .returned 0)
      else loop buf fuel p

/-- `DoParse`; the assertion stands in front of everything. -/
def doParse (buf : Bytes) (p : WebSocketParser) : WebSocketParser × ParseRet :=
  if p.packet.isHandShaken = false then (p, .crashed)
  else if buf.length - p.resolvedLen = 0 then (p, .returned 0)
  else loop buf 6 p

/-- The parser after `DoParse`. -/
def parsed (buf : Bytes) (p : WebSocketParser) : WebSocketParser := (doParse buf p).1

/-! ### The handshake flag is not touched by parsing -/

theorem resolvePayload_isHandShaken (buf : Bytes) (p : WebSocketParser) :
    (resolvePayload buf p).1.packet.isHandShaken = p.packet.isHandShaken := by
  unfold resolvePayload
  dsimp only
  split
  · rfl
  · split
    · rfl
    · split <;> rfl

theorem resolvePayloadLen_isHandShaken (buf : Bytes) (p : WebSocketParser) :
    (resolvePayloadLen buf p).1.packet.isHandShaken = p.packet.isHandShaken := by
  unfold resolvePayloadLen
  dsimp only
  split
  · rfl
  · split
    · rfl
    · split <;> rfl

theorem resolveExtendedPayloadLen_isHandShaken (buf : Bytes) (p : WebSocketParser) :
    (resolveExtendedPayloadLen buf p).1.packet.isHandShaken = p.packet.isHandShaken := by
  unfold resolveExtendedPayloadLen
  dsimp only
  split
  · split <;> rfl
  · split
    · split <;> rfl
    · rfl

theorem resolveMaskingKey_isHandShaken (buf : Bytes) (p : WebSocketParser) :
    (resolveMaskingKey buf p).1.packet.isHandShaken = p.packet.isHandShaken := by
  unfold resolveMaskingKey
  split
  · rfl
  · split <;> rfl

theorem resolve_isHandShaken (buf : Bytes) (p : WebSocketParser) :
    (resolve buf p).1.packet.isHandShaken = p.packet.isHandShaken := by
  unfold resolve
  split
  · rfl
  · rfl
  · exact resolvePayloadLen_isHandShaken buf p
  · exact resolveExtendedPayloadLen_isHandShaken buf p
  · exact resolveMaskingKey_isHandShaken buf p
  · exact resolvePayload_isHandShaken buf p
  · rfl
  · rfl

theorem loop_isHandShaken (buf : Bytes) (fuel : Nat) (p : WebSocketParser) :
    (loop buf fuel p).1.packet.isHandShaken = p.packet.isHandShaken := by
  induction fuel generalizing p with
  | zero => rfl
  | succ fuel ih =>
      have hresolve := resolve_isHandShaken buf p
      unfold loop
      dsimp only
      split
      · exact hresolve
      · split
        · exact hresolve
        · split
          · exact hresolve
          · exact (ih _).trans hresolve

theorem doParse_isHandShaken (buf : Bytes) (p : WebSocketParser) :
    (doParse buf p).1.packet.isHandShaken = p.packet.isHandShaken := by
  unfold doParse
  split
  · rfl
  · split
    · rfl
    · exact loop_isHandShaken buf 6 p

end WebSocketParser

end Unixtar.Ws
