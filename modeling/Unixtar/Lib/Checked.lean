import Mathlib.Algebra.Group.Int.Defs
import Mathlib.Algebra.Group.Nat.Defs
import Mathlib.Data.List.Basic

/-!
# Checked execution

Code that reads a buffer by index and subtracts unsigned lengths, run with
every access and every subtraction checked: a computation of `Checked` ends
with a value or with the first `Fault`.  `whileTrue` is a loop that only its
body leaves.

## Main results

* `whileTrue_of_measure` — a body that never faults, keeps an invariant and
  decreases a measure makes the loop return.
* `whileTrue_add`, `Returns.not_fault` — a loop that has returned has this
  result under every larger bound on its rounds, and faults under no bound.
-/

namespace Unixtar.Lib

universe u v

/-- What checked code stops at: a read behind the end of a buffer, a range
that does not lie inside it, an unsigned subtraction that wraps. -/
inductive Fault
  | read (index length : Nat)
  | range (off len length : Nat)
  | wrap (a b : Nat)
deriving DecidableEq, Repr

/-- A checked computation. -/
abbrev Checked (α : Type u) := Except Fault α

namespace Checked

variable {α β : Type u}

@[simp] theorem ok_bind (a : α) (f : α → Checked β) :
    ((Except.ok a : Checked α) >>= f) = f a := rfl

/-- The element at an index. -/
def readAt (buf : List α) (i : Nat) : Checked α :=
  match buf[i]? with
  | some a => .ok a
  | none => .error (.read i buf.length)

/-- The `len` elements from `off` on. -/
def slice (buf : List α) (off len : Nat) : Checked (List α) :=
  if off + len ≤ buf.length then .ok ((buf.drop off).take len)
  else .error (.range off len buf.length)

/-- `a - b` on unsigned numbers. -/
def sub (a b : Nat) : Checked Nat :=
  if b ≤ a then .ok (a - b) else .error (.wrap a b)

theorem readAt_of_lt {buf : List α} {i : Nat} (h : i < buf.length) :
    readAt buf i = .ok buf[i] := by
  unfold readAt
  rw [List.getElem?_eq_getElem h]

theorem slice_of_le {buf : List α} {off len : Nat} (h : off + len ≤ buf.length) :
    slice buf off len = .ok ((buf.drop off).take len) :=
  if_pos h

theorem sub_of_le {a b : Nat} (h : b ≤ a) : sub a b = .ok (a - b) :=
  if_pos h

end Checked

/-! ## Loops -/

/-- How a round of a loop ends: with the state of the next round, or with the
result of the loop. -/
inductive Round (σ : Type u) (ρ : Type u)
  | next (s : σ)
  | done (r : ρ)

section Loop

variable {σ ρ : Type u} (body : σ → Checked (Round σ ρ))

/-- `while (true)`, cut off after a number of rounds: the result is `none`
while the loop has not returned. -/
def whileTrue : Nat → σ → Checked (Option ρ)
  | 0, _ => .ok none
  | n + 1, s => do
      match ← body s with
      | .next s => whileTrue n s
      | .done r => .ok (some r)

/-- The loop returns `r`. -/
def Returns (s : σ) (r : ρ) : Prop := ∃ n, whileTrue body n s = .ok (some r)

variable {body}

theorem whileTrue_next {s s' : σ} (h : body s = .ok (.next s')) (n : Nat) :
    whileTrue body (n + 1) s = whileTrue body n s' := by
  rw [whileTrue, h]
  rfl

theorem whileTrue_done {s : σ} {r : ρ} (h : body s = .ok (.done r)) (n : Nat) :
    whileTrue body (n + 1) s = .ok (some r) := by
  rw [whileTrue, h]
  rfl

/-- What a loop has returned stays its result when it may run longer. -/
theorem whileTrue_add {n : Nat} {s : σ} {r : ρ} (h : whileTrue body n s = .ok (some r))
    (k : Nat) : whileTrue body (n + k) s = .ok (some r) := by
  induction n generalizing s with
  | zero => cases h
  | succ n ih =>
      rw [Nat.add_right_comm]
      cases hbody : body s with
      | error f =>
          rw [whileTrue, hbody] at h
          cases h
      | ok round =>
          cases round with
          | next s' =>
              rw [whileTrue_next hbody] at h ⊢
              exact ih h
          | done r' =>
              rw [whileTrue_done hbody] at h ⊢
              exact h

/-- A loop that returns does not fault before. -/
theorem Returns.not_fault {s : σ} {r : ρ} (h : Returns body s r) (n : Nat) (f : Fault) :
    whileTrue body n s ≠ .error f := by
  obtain ⟨k, hk⟩ := h
  induction n generalizing s k with
  | zero => simp [whileTrue]
  | succ n ih =>
      cases k with
      | zero => cases hk
      | succ k =>
          cases hbody : body s with
          | error g =>
              rw [whileTrue, hbody] at hk
              cases hk
          | ok round =>
              cases round with
              | next s' =>
                  rw [whileTrue_next hbody] at hk ⊢
                  exact ih k hk
              | done r' =>
                  rw [whileTrue_done hbody]
                  simp

/-- **Loops with a measure.**  If under an invariant every round either
returns a result that meets `Post`, or goes on with the invariant kept and the
measure decreased, then the loop returns such a result within a number of
rounds that the measure bounds. -/
theorem whileTrue_of_measure (Inv : σ → Prop) (Post : ρ → Prop) (measure : σ → Nat)
    (hround : ∀ s, Inv s →
      (∃ r, body s = .ok (.done r) ∧ Post r) ∨
        (∃ s', body s = .ok (.next s') ∧ Inv s' ∧ measure s' < measure s))
    {n : Nat} {s : σ} (hs : Inv s) (hn : measure s < n) :
    ∃ r, whileTrue body n s = .ok (some r) ∧ Post r := by
  induction n generalizing s with
  | zero => omega
  | succ n ih =>
      rcases hround s hs with ⟨r, hbody, hpost⟩ | ⟨s', hbody, hs', hless⟩
      · exact ⟨r, whileTrue_done hbody n, hpost⟩
      · rw [whileTrue_next hbody]
        exact ih hs' (by omega)

end Loop

/-! ## Counting with an `int` -/

/-- How often the body of `for (int i = 0; i < n; ++i)` runs for an unsigned
64-bit `n`.  From 2³¹ on the index overflows, which is undefined: an index
that wraps around is a huge number in the next comparison and ends the loop,
one that the compiler has widened goes on up to `n`. -/
structure IntLoop where
  rounds : Nat → Nat
  exact : ∀ n, n < 2 ^ 31 → rounds n = n
  atLeast : ∀ n, 2 ^ 31 ≤ n → 2 ^ 31 ≤ rounds n
  atMost : ∀ n, rounds n ≤ n

namespace IntLoop

/-- The widened index. -/
def widened : IntLoop where
  rounds n := n
  exact _ _ := rfl
  atLeast _ h := h
  atMost _ := Nat.le_refl _

/-- The index that wraps around. -/
def wrapping : IntLoop where
  rounds n := min n (2 ^ 31)
  exact n h := by omega
  atLeast n h := by omega
  atMost n := by omega

end IntLoop

end Unixtar.Lib
