import Mathlib.Algebra.Group.Nat.Defs
import Mathlib.Data.List.Basic

/-!
# Numbers in byte order

A fixed-width field of a wire format holds a number in network byte order,
the most significant byte first.  The same field written from memory on a
little-endian host is right exactly when its bytes read the same backwards.

## Main results

* `getElem?_beBytes` — byte `i` of a field of `width` bytes is the digit of
  weight `256 ^ (width - 1 - i)`.
* `eq_beBytes_iff` — a field written the other way round.
-/

namespace Unixtar.Lib

/-- The `width` low bytes of `n`, the most significant one first. -/
def beBytes : Nat → Nat → List UInt8
  | 0, _ => []
  | width + 1, n => UInt8.ofNat (n / 256 ^ width % 256) :: beBytes width n

/-- The number the bytes stand for, the most significant one first. -/
def beValue (bytes : List UInt8) : Nat := bytes.foldl (fun v c => v * 256 + c.toNat) 0

/-- The `width` low bytes of `n` are the same from both ends. -/
def Palindromic (width n : Nat) : Prop :=
  ∀ i < width, n / 256 ^ i % 256 = n / 256 ^ (width - 1 - i) % 256

instance (width n : Nat) : Decidable (Palindromic width n) :=
  inferInstanceAs (Decidable (∀ i < width, _))

@[simp] theorem length_beBytes (width n : Nat) : (beBytes width n).length = width := by
  induction width with
  | zero => rfl
  | succ width ih => rw [beBytes, List.length_cons, ih]

/-- Two digits are equal exactly when their bytes are. -/
theorem ofNat_digit_inj (m n : Nat) :
    UInt8.ofNat (m % 256) = UInt8.ofNat (n % 256) ↔ m % 256 = n % 256 := by
  rw [← UInt8.toNat_inj, UInt8.toNat_ofNat', UInt8.toNat_ofNat']
  omega

theorem getElem?_beBytes {width i : Nat} (n : Nat) (hi : i < width) :
    (beBytes width n)[i]? = some (UInt8.ofNat (n / 256 ^ (width - 1 - i) % 256)) := by
  induction width generalizing i with
  | zero => omega
  | succ width ih =>
      rw [beBytes]
      cases i with
      | zero => rw [List.getElem?_cons_zero, Nat.add_sub_cancel, Nat.sub_zero]
      | succ i =>
          rw [List.getElem?_cons_succ, ih (by omega)]
          rw [show width + 1 - 1 - (i + 1) = width - 1 - i by omega]

/-- A field whose byte `i` is the digit of weight `256 ^ i` is in network
byte order exactly when the number is palindromic in its width. -/
theorem eq_beBytes_iff {width n : Nat} {bytes : List UInt8} (hlen : bytes.length = width)
    (hbytes : ∀ i < width, bytes[i]? = some (UInt8.ofNat (n / 256 ^ i % 256))) :
    bytes = beBytes width n ↔ Palindromic width n := by
  constructor
  · intro h i hi
    have hbyte := hbytes i hi
    rw [h, getElem?_beBytes n hi, Option.some.injEq] at hbyte
    exact ((ofNat_digit_inj _ _).1 hbyte).symm
  · intro h
    apply List.ext_getElem?
    intro i
    by_cases hi : i < width
    · rw [hbytes i hi, getElem?_beBytes n hi, h i hi]
    · rw [List.getElem?_eq_none (by omega),
        List.getElem?_eq_none (by rw [length_beBytes]; omega)]

end Unixtar.Lib
