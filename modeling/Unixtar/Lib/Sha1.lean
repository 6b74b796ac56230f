import Mathlib.Data.List.Basic
import Unixtar.Lib.Endian

/-!
# SHA-1, as FIPS 180-4 defines it

The definition is the one of the standard, word by word: the message is padded
to blocks of sixteen words, the schedule of a block has eighty words, and
eighty steps on five working variables compress it into the hash value.
Messages are byte strings here, the standard has bits.

## Main results

* `schedule_of_lt`, `schedule_of_le` — the recurrence of the schedule.
* `foldl_blocks_append` — the hash of a whole number of blocks is continued by
  the blocks behind them.
-/

namespace Unixtar.Lib.Sha1

/-- A 32-bit word. -/
abbrev Word := BitVec 32

/-- `ROTL`. -/
def rotl (n : Nat) (x : Word) : Word := (x <<< n) ||| (x >>> (32 - n))

/-! ## Functions and constants -/

def ch (x y z : Word) : Word := (x &&& y) ^^^ (~~~x &&& z)

def parity (x y z : Word) : Word := x ^^^ y ^^^ z

def maj (x y z : Word) : Word := (x &&& y) ^^^ (x &&& z) ^^^ (y &&& z)

/-- The function of step `t`. -/
def f (t : Nat) : Word → Word → Word → Word :=
  if t < 20 then ch else if t < 40 then parity else if t < 60 then maj else parity

/-- The constant of step `t`. -/
def k (t : Nat) : Word :=
  if t < 20 then 0x5a827999 else if t < 40 then 0x6ed9eba1
  else if t < 60 then 0x8f1bbcdc else 0xca62c1d6

/-! ## Blocks -/

/-- The word of four bytes, the first one in front. -/
def word (b₀ b₁ b₂ b₃ : UInt8) : Word :=
  b₀.toBitVec ++ b₁.toBitVec ++ b₂.toBitVec ++ b₃.toBitVec

/-- The four bytes of a word. -/
def wordBytes (x : Word) : List UInt8 :=
  [UInt8.ofBitVec (x.extractLsb' 24 8), UInt8.ofBitVec (x.extractLsb' 16 8),
    UInt8.ofBitVec (x.extractLsb' 8 8), UInt8.ofBitVec (x.extractLsb' 0 8)]

/-- Word `t` of a block of 64 bytes. -/
def blockWord (block : List UInt8) (t : Nat) : Word :=
  word (block.getD (4 * t) 0) (block.getD (4 * t + 1) 0) (block.getD (4 * t + 2) 0)
    (block.getD (4 * t + 3) 0)

/-- The number of zero bytes that make whole blocks, with the byte `0x80` and
the eight bytes of the length. -/
def zeros (len : Nat) : Nat := (119 - len % 64) % 64

/-- The padded message. -/
def pad (msg : List UInt8) : List UInt8 :=
  msg ++ [0x80] ++ List.replicate (zeros msg.length) 0 ++ beBytes 8 (8 * msg.length)

/-- Block `n` of the padded message. -/
def block (padded : List UInt8) (n : Nat) : List UInt8 := (padded.drop (64 * n)).take 64

/-! ## The hash value -/

/-- The message schedule. -/
def schedule (m : Nat → Word) (t : Nat) : Word :=
  if t < 16 then m t
  else
    rotl 1 (schedule m (t - 3) ^^^ schedule m (t - 8) ^^^ schedule m (t - 14) ^^^
      schedule m (t - 16))
termination_by t
decreasing_by all_goals omega

/-- The five words of a hash value, or the five working variables. -/
@[ext]
structure Five where
  a : Word
  b : Word
  c : Word
  d : Word
  e : Word
deriving DecidableEq

/-- Step `t` of the compression of a block. -/
def step (w : Nat → Word) (v : Five) (t : Nat) : Five :=
  { a := rotl 5 v.a + f t v.b v.c v.d + v.e + k t + w t
    b := v.a
    c := rotl 30 v.b
    d := v.c
    e := v.d }

/-- The hash value behind one more block. -/
def compress (h : Five) (m : Nat → Word) : Five :=
  let v := (List.range 80).foldl (step (schedule m)) h
  ⟨h.a + v.a, h.b + v.b, h.c + v.c, h.d + v.d, h.e + v.e⟩

/-- The initial hash value. -/
def init : Five := ⟨0x67452301, 0xefcdab89, 0x98badcfe, 0x10325476, 0xc3d2e1f0⟩

/-- The hash value behind the blocks of a padded message. -/
def hash (padded : List UInt8) : Five :=
  (List.range (padded.length / 64)).foldl
    (fun h n => compress h (blockWord (block padded n))) init

/-- The bytes of a hash value. -/
def digestBytes (h : Five) : List UInt8 :=
  wordBytes h.a ++ wordBytes h.b ++ wordBytes h.c ++ wordBytes h.d ++ wordBytes h.e

/-- **SHA-1** of a message. -/
def sha1 (msg : List UInt8) : List UInt8 := digestBytes (hash (pad msg))

/-! ## The schedule -/

theorem schedule_of_lt (m : Nat → Word) {t : Nat} (ht : t < 16) : schedule m t = m t := by
  rw [schedule, if_pos ht]

theorem schedule_of_le (m : Nat → Word) (t : Nat) :
    schedule m (t + 16) =
      rotl 1 (schedule m (t + 13) ^^^ schedule m (t + 8) ^^^ schedule m (t + 2) ^^^
        schedule m t) := by
  rw [schedule, if_neg (by omega)]
  rw [show t + 16 - 3 = t + 13 by omega, show t + 16 - 8 = t + 8 by omega,
    show t + 16 - 14 = t + 2 by omega, show t + 16 - 16 = t by omega]

/-! ## Blocks of the padded message -/

/-- The blocks of two byte strings, the first of which has only whole ones. -/
theorem block_append {n k : Nat} {s t : List UInt8} (hs : s.length = 64 * n) :
    block (s ++ t) k = if k < n then block s k else block t (k - n) := by
  unfold block
  split
  · rename_i hk
    rw [List.drop_append_of_le_length (by omega),
      List.take_append_of_le_length (by rw [List.length_drop]; omega)]
  · rename_i hk
    rw [show 64 * k = s.length + 64 * (k - n) by omega, List.drop_length_add_append]

/-- The hash value behind whole blocks and what follows them. -/
theorem foldl_blocks_append {n m : Nat} {s t : List UInt8} (hs : s.length = 64 * n) (h : Five) :
    (List.range (n + m)).foldl (fun h i => compress h (blockWord (block (s ++ t) i))) h =
      (List.range m).foldl (fun h i => compress h (blockWord (block t i)))
        ((List.range n).foldl (fun h i => compress h (blockWord (block s i))) h) := by
  rw [List.range_add, List.foldl_append, List.foldl_map]
  have hfirst : (List.range n).foldl (fun h i => compress h (blockWord (block (s ++ t) i))) h =
      (List.range n).foldl (fun h i => compress h (blockWord (block s i))) h := by
    apply List.foldl_ext
    intro g i hi
    rw [block_append hs, if_pos (List.mem_range.1 hi)]
  rw [hfirst]
  apply List.foldl_ext
  intro g i _
  rw [block_append hs, if_neg (by omega), Nat.add_sub_cancel_left]

end Unixtar.Lib.Sha1
