import Mathlib.Data.BitVec
import Mathlib.Logic.Function.Iterate

/-!
# Functions on words that respect exclusive or

Shifts, rotations, masks with a constant and exclusive ors of them are linear
over the field of two elements.  Two such functions are equal as soon as they
agree on the words with one bit, which a computation can check.

## Main result

* `XorLinear.ext_twoPow`
-/

namespace Unixtar.Lib

variable {w : Nat}

/-- The function respects exclusive or. -/
def XorLinear (f : BitVec w → BitVec w) : Prop := ∀ x y, f (x ^^^ y) = f x ^^^ f y

namespace XorLinear

variable {f g : BitVec w → BitVec w}

theorem zero (hf : XorLinear f) : f 0#w = 0#w := by
  have h := hf 0#w 0#w
  rw [BitVec.xor_self, BitVec.xor_self] at h
  exact h

theorem comp (hf : XorLinear f) (hg : XorLinear g) : XorLinear fun x => f (g x) := by
  intro x y
  show f (g (x ^^^ y)) = _
  rw [hg, hf]

theorem xor (hf : XorLinear f) (hg : XorLinear g) : XorLinear fun x => f x ^^^ g x := by
  intro x y
  show f (x ^^^ y) ^^^ g (x ^^^ y) = (f x ^^^ g x) ^^^ (f y ^^^ g y)
  rw [hf, hg]
  ac_rfl

theorem id : XorLinear fun x : BitVec w => x := fun _ _ => rfl

theorem and (hf : XorLinear f) (mask : BitVec w) : XorLinear fun x => f x &&& mask := by
  intro x y
  show f (x ^^^ y) &&& mask = (f x &&& mask) ^^^ (f y &&& mask)
  rw [hf]
  apply BitVec.eq_of_getLsbD_eq
  intro i _
  simp only [BitVec.getLsbD_and, BitVec.getLsbD_xor]
  cases (f x).getLsbD i <;> cases (f y).getLsbD i <;> simp

theorem shiftLeft (hf : XorLinear f) (n : Nat) : XorLinear fun x => f x <<< n := by
  intro x y
  show f (x ^^^ y) <<< n = _
  rw [hf, BitVec.shiftLeft_xor_distrib]

theorem iterate (hf : XorLinear f) (n : Nat) : XorLinear f^[n] := by
  induction n with
  | zero => exact id
  | succ n ih =>
      intro x y
      rw [Function.iterate_succ_apply, Function.iterate_succ_apply, Function.iterate_succ_apply,
        hf, ih]

/-- A word whose highest bit may be the one at `n`, without it. -/
theorem eq_of_bits_below (hf : XorLinear f) (hg : XorLinear g)
    (h : ∀ i < w, f (BitVec.twoPow w i) = g (BitVec.twoPow w i)) (n : Nat) (x : BitVec w)
    (hx : ∀ i, n ≤ i → x.getLsbD i = false) : f x = g x := by
  induction n generalizing x with
  | zero =>
      have hzero : x = 0#w := by
        apply BitVec.eq_of_getLsbD_eq
        intro i _
        rw [hx i (Nat.zero_le i), BitVec.getLsbD_zero]
      rw [hzero, hf.zero, hg.zero]
  | succ n ih =>
      cases hbit : x.getLsbD n with
      | false =>
          apply ih
          intro i hi
          by_cases heq : i = n
          · rw [heq, hbit]
          · exact hx i (by omega)
      | true =>
          have hn : n < w := BitVec.lt_of_getLsbD hbit
          have hsplit : x = (x ^^^ BitVec.twoPow w n) ^^^ BitVec.twoPow w n := by
            rw [BitVec.xor_assoc, BitVec.xor_self, BitVec.xor_zero]
          have hrest : f (x ^^^ BitVec.twoPow w n) = g (x ^^^ BitVec.twoPow w n) := by
            apply ih
            intro i hi
            rw [BitVec.getLsbD_xor, BitVec.getLsbD_twoPow]
            by_cases heq : i = n
            · rw [heq, hbit]
              simp [hn]
            · rw [hx i (by omega)]
              simp [Ne.symm heq]
          rw [hsplit, hf, hg, hrest, h n hn]

/-- **Linear functions** that agree on the words with one bit are equal. -/
theorem ext_twoPow (hf : XorLinear f) (hg : XorLinear g)
    (h : ∀ i < w, f (BitVec.twoPow w i) = g (BitVec.twoPow w i)) (x : BitVec w) : f x = g x :=
  eq_of_bits_below hf hg h w x fun i hi => BitVec.getLsbD_of_ge x i hi

end XorLinear

end Unixtar.Lib
