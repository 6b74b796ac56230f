import Unixtar.Utils.StrUtil

/-!
# Base64: `utils/base64.cc`

Both functions are loops over the input with a phase (`where`) and the last
byte.  What is written through `_res[curr++]` is a list, so the counter is its
length.  `char` is signed: a byte above 127 is a negative index into
`decode_table`.
-/

namespace Unixtar.Base64

def padding : UInt8 := 61

def encodeTable : Bytes :=
  lit "ABCDEFGHIJKLMNOPQRSTUVWXYZabcdefghijklmnopqrstuvwxyz0123456789+/"

/-- 255 indicates error. -/
def decodeTable : Bytes :=
  [ 255, 255, 255, 255, 255, 255, 255, 255,
    255, 255, 255, 255, 255, 255, 255, 255,
    255, 255, 255, 255, 255, 255, 255, 255,
    255, 255, 255, 255, 255, 255, 255, 255,
    255, 255, 255, 255, 255, 255, 255, 255,
    255, 255, 255, 62, 255, 255, 255, 63,
    52, 53, 54, 55, 56, 57, 58, 59,
    60, 61, 255, 255, 255, 255, 255, 255,
    255, 0, 1, 2, 3, 4, 5, 6,
    7, 8, 9, 10, 11, 12, 13, 14,
    15, 16, 17, 18, 19, 20, 21, 22,
    23, 24, 25, 255, 255, 255, 255, 255,
    255, 26, 27, 28, 29, 30, 31, 32,
    33, 34, 35, 36, 37, 38, 39, 40,
    41, 42, 43, 44, 45, 46, 47, 48,
    49, 50, 51, 255, 255, 255, 255, 255 ]

/-! ## `Encode` -/

/-- `encode_table[i]`. -/
def symbol (i : UInt8) : UInt8 := encodeTable.getD i.toNat 0

/-- The variables of `Encode`; `phase` is `where`. -/
structure Encoder where
  res : Bytes
  last : UInt8
  phase : Nat

/-- One round of the loop of `Encode`. -/
def encodeRound (s : Encoder) (curr : UInt8) : Encoder :=
  if s.phase = 0 then
    ⟨s.res ++ [symbol ((curr >>> 2) &&& 0x3f)], curr, 1⟩
  else if s.phase = 1 then
    ⟨s.res ++ [symbol (((s.last &&& 0x3) <<< 4) ||| ((curr >>> 4) &&& 0xf))], curr, 2⟩
  else
    ⟨s.res ++
        [symbol (((s.last &&& 0xf) <<< 2) ||| ((curr >>> 6) &&& 0x3)), symbol (curr &&& 0x3f)],
      curr, 0⟩

/-- What `Encode` writes behind its loop, up to the NUL. -/
def encodeRest (s : Encoder) : Bytes :=
  if s.phase = 1 then s.res ++ [symbol ((s.last &&& 0x3) <<< 4), padding, padding]
  else if s.phase = 2 then s.res ++ [symbol ((s.last &&& 0xf) <<< 2), padding]
  else s.res

/-- `Encode`: no text where the `int` of the loop overflows or the assertion
fails. -/
def encode (input : Bytes) : Option Bytes :=
  if input.length > 2147483647 then none
  else
    let res := encodeRest (input.foldl encodeRound ⟨[], 0, 0⟩)
    if Str.strlen (res ++ [0]) &&& 3 ≠ 0 then none else some res

/-! ## `Decode` -/

/-- How `Decode` ends; `outside` is an index outside `decode_table`. -/
inductive DecodeResult
  | returned (res : Bytes)
  | illegalBase64Length (len : Nat)
  | base64Decode
  | outside (index : Int)
deriving DecidableEq

/-- `decode_table[_in[i]]`. -/
def lookup (c : UInt8) : Except Int UInt8 :=
  let index : Int := c.toBitVec.toInt
  if 0 ≤ index ∧ index < decodeTable.length then .ok (decodeTable.getD index.toNat 0)
  else .error index

/-- The variables of `Decode`. -/
structure Decoder where
  res : Bytes
  last : UInt8
  phase : Nat

/-- One round of the loop of `Decode`, behind the table. -/
def decodeRound (s : Decoder) (curr : UInt8) : Decoder :=
  if s.phase = 0 then ⟨s.res, curr, 1⟩
  else if s.phase = 1 then
    let byte : UInt8 := ((s.last <<< 2) &&& (0xff : UInt8)) + ((curr >>> 4) &&& 0x3)
    ⟨s.res ++ [byte], curr, 2⟩
  else if s.phase = 2 then
    let byte : UInt8 := ((s.last &&& 0xf) <<< 4) + ((curr >>> 2) &&& 0xf)
    ⟨s.res ++ [byte], curr, 3⟩
  else
    let byte : UInt8 := ((s.last &&& 0x3) <<< 6) + (curr &&& 0x3f)
    ⟨s.res ++ [byte], curr, 0⟩

/-- The loop of `Decode`. -/
def decodeLoop : Decoder → Bytes → DecodeResult
  | s, [] => .returned s.res
  | s, c :: input =>
      if c = padding then .returned s.res
      else
        match lookup c with
        | .error index => .outside index
        | .ok curr => if curr = 255 then .base64Decode else decodeLoop (decodeRound s curr) input

/-- `Decode`. -/
def decode (input : Bytes) : DecodeResult :=
  if input.length &&& 3 ≠ 0 then .illegalBase64Length input.length
  else decodeLoop ⟨[], 255, 0⟩ input

end Unixtar.Base64
