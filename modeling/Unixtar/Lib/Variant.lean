import Unixtar.Lib.Run

/-!
# Variants of partial step functions

A variant counts down with every step of a kind, and no other step raises it.
A run then takes no more steps of this kind than the variant is at its start.

## Main results

* `Variant.add_countP_le` — the variant at the end of a run and the steps
  counted on the way are the variant at the start, at most.
* `total_set` — how a variant that is the weight of a list changes with one of
  its elements.
-/

namespace Unixtar.Lib

universe u v

variable {σ : Type u} {ι : Type v}

/-- From states with `Inv`, a step that is counted takes one from the variant,
and any other step leaves it or lowers it. -/
def Variant (step : σ → ι → Option σ) (Inv : σ → Prop) (counted : ι → Bool)
    (variant : σ → Nat) : Prop :=
  ∀ s e s', Inv s → step s e = some s' →
    Inv s' ∧ variant s' + (if counted e then 1 else 0) ≤ variant s

/-- **Counting down.** -/
theorem Variant.add_countP_le {step : σ → ι → Option σ} {Inv : σ → Prop} {counted : ι → Bool}
    {variant : σ → Nat} (h : Variant step Inv counted variant) {s s' : σ} {es : List ι}
    (hs : Inv s) (hrun : run step s es = some s') :
    Inv s' ∧ variant s' + es.countP counted ≤ variant s := by
  induction es generalizing s with
  | nil =>
      cases hrun
      exact ⟨hs, Nat.le_refl _⟩
  | cons e es ih =>
      cases hstep : step s e with
      | none => simp [run, hstep] at hrun
      | some s₁ =>
          rw [run_cons_some hstep] at hrun
          obtain ⟨hs₁, hle⟩ := h s e s₁ hs hstep
          obtain ⟨hs', hle'⟩ := ih hs₁ hrun
          refine ⟨hs', ?_⟩
          rw [List.countP_cons]
          omega

/-! ## Weights of lists -/

variable {α : Type u}

/-- The weight of a list, which is that of its elements together. -/
def total (f : α → Nat) : List α → Nat
  | [] => 0
  | x :: xs => f x + total f xs

theorem total_le {f : α → Nat} {n : Nat} (h : ∀ x, f x ≤ n) (xs : List α) :
    total f xs ≤ n * xs.length := by
  induction xs with
  | nil => exact Nat.zero_le _
  | cons x xs ih =>
      have hx := h x
      rw [total, List.length_cons, Nat.mul_succ]
      omega

theorem total_set {f : α → Nat} {xs : List α} {i : Nat} {x y : α} (h : xs[i]? = some x) :
    total f (xs.set i y) + f x = total f xs + f y := by
  induction xs generalizing i with
  | nil => cases h
  | cons z zs ih =>
      cases i with
      | zero =>
          cases h
          rw [List.set_cons_zero, total, total]
          omega
      | succ i =>
          have hrest := ih (i := i) h
          rw [List.set_cons_succ, total, total]
          omega

theorem total_eraseIdx {f : α → Nat} {xs : List α} {i : Nat} {x : α} (h : xs[i]? = some x) :
    total f (xs.eraseIdx i) + f x = total f xs := by
  induction xs generalizing i with
  | nil => cases h
  | cons z zs ih =>
      cases i with
      | zero =>
          cases h
          rw [List.eraseIdx_cons_zero, total]
          omega
      | succ i =>
          have hrest := ih (i := i) h
          rw [List.eraseIdx_cons_succ, total, total]
          omega

end Unixtar.Lib
