import Unixtar.Lib.Sha1
import Unixtar.Utils.StrUtil

/-!
# Message digests: `utils/messagedigest.cc`

`Sha1Transform` casts its `const` buffer to a union of 64 bytes and 16 words,
on a little-endian host, and expands the message schedule inside it.  So a
call returns the new state and leaves other bytes where the block was: in the
caller's message for whole blocks, in a local array for the rest.
-/

namespace Unixtar.Md

open Unixtar.Lib.Sha1 (Word)

/-- `rol`. -/
def rol (value : Word) (bits : Nat) : Word := (value <<< bits) ||| (value >>> (32 - bits))

/-! ## The union -/

/-- `block->l[i]` of a little-endian host: the first byte is the lowest. -/
def wordAt (buf : Bytes) (i : Nat) : Word :=
  (buf.getD (4 * i + 3) 0).toBitVec ++ (buf.getD (4 * i + 2) 0).toBitVec ++
    (buf.getD (4 * i + 1) 0).toBitVec ++ (buf.getD (4 * i) 0).toBitVec

/-- The words of the union. -/
def toWords (buf : Bytes) : List Word := (List.range 16).map (wordAt buf)

/-- The bytes of the union. -/
def toChars (l : List Word) : Bytes :=
  l.flatMap fun x =>
    [UInt8.ofBitVec (x.extractLsb' 0 8), UInt8.ofBitVec (x.extractLsb' 8 8),
      UInt8.ofBitVec (x.extractLsb' 16 8), UInt8.ofBitVec (x.extractLsb' 24 8)]

/-! ## The round macros -/

/-- The local variables of `Sha1Transform`. -/
inductive Reg
  | a
  | b
  | c
  | d
  | e
deriving DecidableEq

/-- The variables and the block. -/
structure Work where
  regs : Reg → Word
  l : List Word

/-- `block->l[i]`. -/
def Work.at (s : Work) (i : Nat) : Word := s.l.getD i 0

/-- An assignment to `block->l[i]`, with its value. -/
def Work.assign (s : Work) (i : Nat) (x : Word) : Work × Word := ({ s with l := s.l.set i x }, x)

/-- An assignment to a variable. -/
def Work.setReg (s : Work) (r : Reg) (x : Word) : Work :=
  { s with regs := fun q => if q = r then x else s.regs q }

/-- The other byte order, as `blk0` computes it. -/
def swapBytes (x : Word) : Word := (rol x 24 &&& 0xFF00FF00) ||| (rol x 8 &&& 0x00FF00FF)

/-- `blk0`. -/
def blk0 (i : Nat) (s : Work) : Work × Word := s.assign i (swapBytes (s.at i))

/-- `blk`. -/
def blk (i : Nat) (s : Work) : Work × Word :=
  s.assign (i &&& 15)
    (rol (s.at ((i + 13) &&& 15) ^^^ s.at ((i + 8) &&& 15) ^^^ s.at ((i + 2) &&& 15) ^^^
      s.at (i &&& 15)) 1)

/-- What the five round macros have in common. -/
def roundWith (mix : Word → Word → Word → Word) (blk : Nat → Work → Work × Word) (k : Word)
    (v w x y z : Reg) (i : Nat) (s : Work) : Work :=
  let mixed := mix (s.regs w) (s.regs x) (s.regs y)
  let (s, expanded) := blk i s
  let s := s.setReg z (s.regs z + (mixed + expanded + k + rol (s.regs v) 5))
  s.setReg w (rol (s.regs w) 30)

def R0 : Reg → Reg → Reg → Reg → Reg → Nat → Work → Work :=
  roundWith (fun w x y => (w &&& (x ^^^ y)) ^^^ y) blk0 0x5A827999

def R1 : Reg → Reg → Reg → Reg → Reg → Nat → Work → Work :=
  roundWith (fun w x y => (w &&& (x ^^^ y)) ^^^ y) blk 0x5A827999

def R2 : Reg → Reg → Reg → Reg → Reg → Nat → Work → Work :=
  roundWith (fun w x y => w ^^^ x ^^^ y) blk 0x6ED9EBA1

def R3 : Reg → Reg → Reg → Reg → Reg → Nat → Work → Work :=
  roundWith (fun w x y => ((w ||| x) &&& y) ||| (w &&& x)) blk 0x8F1BBCDC

def R4 : Reg → Reg → Reg → Reg → Reg → Nat → Work → Work :=
  roundWith (fun w x y => w ^^^ x ^^^ y) blk 0xCA62C1D6

/-- The lines of `Sha1Transform`. -/
def rounds : List (Work → Work) :=
  [ R0 .a .b .c .d .e 0, R0 .e .a .b .c .d 1, R0 .d .e .a .b .c 2, R0 .c .d .e .a .b 3,
    R0 .b .c .d .e .a 4, R0 .a .b .c .d .e 5, R0 .e .a .b .c .d 6, R0 .d .e .a .b .c 7,
    R0 .c .d .e .a .b 8, R0 .b .c .d .e .a 9, R0 .a .b .c .d .e 10, R0 .e .a .b .c .d 11,
    R0 .d .e .a .b .c 12, R0 .c .d .e .a .b 13, R0 .b .c .d .e .a 14, R0 .a .b .c .d .e 15,
    R1 .e .a .b .c .d 16, R1 .d .e .a .b .c 17, R1 .c .d .e .a .b 18, R1 .b .c .d .e .a 19,
    R2 .a .b .c .d .e 20, R2 .e .a .b .c .d 21, R2 .d .e .a .b .c 22, R2 .c .d .e .a .b 23,
    R2 .b .c .d .e .a 24, R2 .a .b .c .d .e 25, R2 .e .a .b .c .d 26, R2 .d .e .a .b .c 27,
    R2 .c .d .e .a .b 28, R2 .b .c .d .e .a 29, R2 .a .b .c .d .e 30, R2 .e .a .b .c .d 31,
    R2 .d .e .a .b .c 32, R2 .c .d .e .a .b 33, R2 .b .c .d .e .a 34, R2 .a .b .c .d .e 35,
    R2 .e .a .b .c .d 36, R2 .d .e .a .b .c 37, R2 .c .d .e .a .b 38, R2 .b .c .d .e .a 39,
    R3 .a .b .c .d .e 40, R3 .e .a .b .c .d 41, R3 .d .e .a .b .c 42, R3 .c .d .e .a .b 43,
    R3 .b .c .d .e .a 44, R3 .a .b .c .d .e 45, R3 .e .a .b .c .d 46, R3 .d .e .a .b .c 47,
    R3 .c .d .e .a .b 48, R3 .b .c .d .e .a 49, R3 .a .b .c .d .e 50, R3 .e .a .b .c .d 51,
    R3 .d .e .a .b .c 52, R3 .c .d .e .a .b 53, R3 .b .c .d .e .a 54, R3 .a .b .c .d .e 55,
    R3 .e .a .b .c .d 56, R3 .d .e .a .b .c 57, R3 .c .d .e .a .b 58, R3 .b .c .d .e .a 59,
    R4 .a .b .c .d .e 60, R4 .e .a .b .c .d 61, R4 .d .e .a .b .c 62, R4 .c .d .e .a .b 63,
    R4 .b .c .d .e .a 64, R4 .a .b .c .d .e 65, R4 .e .a .b .c .d 66, R4 .d .e .a .b .c 67,
    R4 .c .d .e .a .b 68, R4 .b .c .d .e .a 69, R4 .a .b .c .d .e 70, R4 .e .a .b .c .d 71,
    R4 .d .e .a .b .c 72, R4 .c .d .e .a .b 73, R4 .b .c .d .e .a 74, R4 .a .b .c .d .e 75,
    R4 .e .a .b .c .d 76, R4 .d .e .a .b .c 77, R4 .c .d .e .a .b 78, R4 .b .c .d .e .a 79]

/-! ## `Sha1Transform` and `Digest` -/

/-- `uint32_t[5]`. -/
structure States where
  s0 : Word
  s1 : Word
  s2 : Word
  s3 : Word
  s4 : Word

/-- The variables at the start of `Sha1Transform`. -/
def load (state : States) : Reg → Word
  | .a => state.s0
  | .b => state.s1
  | .c => state.s2
  | .d => state.s3
  | .e => state.s4

/-- `Sha1Transform`: the new state, and what is left in the buffer. -/
def sha1Transform (state : States) (buf : Bytes) : States × Bytes :=
  let s := rounds.foldl (fun s round => round s) ⟨load state, toWords buf⟩
  (⟨state.s0 + s.regs .a, state.s1 + s.regs .b, state.s2 + s.regs .c, state.s3 + s.regs .d,
    state.s4 + s.regs .e⟩, toChars s.l)

/-- `Sha1ContextInit`. -/
def sha1ContextInit : States := ⟨0x67452301, 0xEFCDAB89, 0x98BADCFE, 0x10325476, 0xC3D2E1F0⟩

/-- The buffer with `bytes` written at `off`. -/
def overwrite (buf : Bytes) (off : Nat) (bytes : Bytes) : Bytes :=
  buf.take off ++ bytes ++ buf.drop (off + bytes.length)

/-- The loop over the whole blocks of the message.  A message is a C++ object,
so `curr + 64` does not wrap. -/
def digestLoop : Nat → Nat → States → Bytes → States × Bytes
  | 0, _, states, msg => (states, msg)
  | fuel + 1, curr, states, msg =>
      if curr + 64 ≤ msg.length then
        let (states, block) := sha1Transform states ((msg.drop curr).take 64)
        digestLoop fuel (curr + 64) states (overwrite msg curr block)
      else (states, msg)

/-- The loop that writes the eight bytes of the bit length. -/
def storeLength (bits : Nat) (block : Bytes) : Bytes :=
  (List.range 8).foldl
    (fun block i => block.set (56 + i) (UInt8.ofNat ((bits >>> ((7 - i) * 8)) &&& 0xff))) block

/-- The bytes of one word of the result. -/
def resBytes (x : Word) : Bytes :=
  (List.range 4).map fun j => UInt8.ofBitVec (((x >>> ((3 - j) * 8)) &&& 0xff).setWidth 8)

/-- What a call of `Digest` leaves in its two buffers. -/
structure Digested where
  res : Bytes
  msg : Bytes

/-- `Sha1::Digest`. -/
def digest (msg : Bytes) : Digested :=
  let lastBlockLen := msg.length &&& 63
  let (states, msg) := digestLoop msg.length 0 sha1ContextInit msg
  let lastBlock := (msg.drop (msg.length - lastBlockLen)).take lastBlockLen ++
    List.replicate (64 - lastBlockLen) 0
  let bits := msg.length * 8 % 2 ^ 64
  let lastBlock := lastBlock.set lastBlockLen 0x80
  let lastBlock := if lastBlockLen < 56 then storeLength bits lastBlock else lastBlock
  let (states, _) := sha1Transform states lastBlock
  let states :=
    if lastBlockLen ≥ 56 then
      (sha1Transform states (storeLength bits (List.replicate 64 0))).1
    else states
  { res := resBytes states.s0 ++ resBytes states.s1 ++ resBytes states.s2 ++ resBytes states.s3 ++
      resBytes states.s4 ++ [0]
    msg }

end Unixtar.Md
