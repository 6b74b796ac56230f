import Mathlib.Data.List.Basic
import Mathlib.Data.List.Nodup
import Mathlib.Data.List.Range

/-!
# Slot pools with a free list

A pool is a list of slots and a list of the indices that are free.  Slot 0
is never handed out.  `WellFormed` is the representation invariant: every
other slot is empty exactly when its index stands in the free list, and
stands there once.

## Main results

* `wellFormed_take`, `wellFormed_release`, `wellFormed_grow` — filling the
  slot at the head of the free list, emptying a slot and putting its index
  back, and appending empty slots when none is free keep the invariant.
-/

namespace Unixtar.Lib

universe u

/-- Slots and the free list. -/
structure SlotPool (α : Type u) where
  slots : List (Option α)
  free : List Nat

namespace SlotPool

variable {α : Type u} {p : SlotPool α} {i : Nat} {a : α}

/-- The representation invariant. -/
structure WellFormed (p : SlotPool α) : Prop where
  reserved : p.slots[0]? = some none
  nodup : p.free.Nodup
  inRange : ∀ i ∈ p.free, 0 < i ∧ i < p.slots.length
  empty_iff : ∀ i, 0 < i → i < p.slots.length → (p.slots[i]? = some none ↔ i ∈ p.free)

/-- A free slot is empty. -/
theorem WellFormed.empty_of_free (h : WellFormed p) (hi : i ∈ p.free) :
    p.slots[i]? = some none :=
  (h.empty_iff i (h.inRange i hi).1 (h.inRange i hi).2).2 hi

/-- A filled slot has a positive index inside the pool. -/
theorem WellFormed.filled (h : WellFormed p) (hi : p.slots[i]? = some (some a)) :
    0 < i ∧ i < p.slots.length ∧ i ∉ p.free := by
  have hlt : i < p.slots.length := (List.getElem?_eq_some_iff.1 hi).1
  have hpos : 0 < i := by
    apply Nat.pos_of_ne_zero
    intro h0
    rw [h0, h.reserved] at hi
    cases hi
  refine ⟨hpos, hlt, fun hfree => ?_⟩
  rw [h.empty_of_free hfree] at hi
  cases hi

/-- The pool before the first use: `n` free slots behind slot 0. -/
theorem wellFormed_init (n : Nat) :
    WellFormed (⟨List.replicate (n + 1) none, List.range' 1 n⟩ : SlotPool α) where
  reserved := by simp
  nodup := List.nodup_range'
  inRange i hi := by
    rw [List.mem_range'_1] at hi
    rw [List.length_replicate]
    omega
  empty_iff i hpos hlt := by
    rw [List.length_replicate] at hlt
    rw [List.getElem?_replicate, if_pos hlt, List.mem_range'_1]
    constructor
    · intro _
      omega
    · intro _
      rfl

/-- **Take.**  The slot at the head of the free list is filled. -/
theorem wellFormed_take {rest : List Nat} (h : WellFormed p) (hfree : p.free = i :: rest)
    (a : α) : WellFormed (⟨p.slots.set i (some a), rest⟩ : SlotPool α) := by
  have hnodup := h.nodup
  rw [hfree, List.nodup_cons] at hnodup
  have hi : i ∈ p.free := by rw [hfree]; exact List.mem_cons_self
  have hrange := h.inRange i hi
  constructor
  · show (p.slots.set i (some a))[0]? = some none
    rw [List.getElem?_set_ne (by omega)]
    exact h.reserved
  · exact hnodup.2
  · intro j hj
    show 0 < j ∧ j < (p.slots.set i (some a)).length
    rw [List.length_set]
    apply h.inRange
    rw [hfree]
    exact List.mem_cons_of_mem _ hj
  · intro j hpos hlt
    replace hlt : j < p.slots.length := by simpa using hlt
    show (p.slots.set i (some a))[j]? = some none ↔ j ∈ rest
    by_cases hij : i = j
    · subst hij
      rw [List.getElem?_set_self hlt]
      apply iff_of_false
      · intro hsome
        cases hsome
      · exact hnodup.1
    · rw [List.getElem?_set_ne hij, h.empty_iff j hpos hlt, hfree, List.mem_cons]
      apply or_iff_right
      intro hji
      exact hij hji.symm

/-- **Release.**  A filled slot is emptied and its index put back. -/
theorem wellFormed_release (h : WellFormed p) (hi : p.slots[i]? = some (some a)) :
    WellFormed (⟨p.slots.set i none, i :: p.free⟩ : SlotPool α) := by
  obtain ⟨hpos, hlt, hnot⟩ := h.filled hi
  constructor
  · show (p.slots.set i none)[0]? = some none
    rw [List.getElem?_set_ne (by omega)]
    exact h.reserved
  · exact List.nodup_cons.2 ⟨hnot, h.nodup⟩
  · intro j hj
    show 0 < j ∧ j < (p.slots.set i none).length
    rw [List.length_set]
    rcases List.mem_cons.1 hj with rfl | hj
    · exact ⟨hpos, hlt⟩
    · exact h.inRange j hj
  · intro j hjpos hjlt
    replace hjlt : j < p.slots.length := by simpa using hjlt
    show (p.slots.set i none)[j]? = some none ↔ j ∈ i :: p.free
    by_cases hij : i = j
    · subst hij
      rw [List.getElem?_set_self hjlt]
      apply iff_of_true rfl
      exact List.mem_cons_self
    · rw [List.getElem?_set_ne hij, h.empty_iff j hjpos hjlt, List.mem_cons]
      apply Iff.symm
      apply or_iff_right
      intro hji
      exact hij hji.symm

/-- **Grow.**  With no slot free, `n` empty slots are appended. -/
theorem wellFormed_grow (h : WellFormed p) (hfree : p.free = []) (n : Nat) :
    WellFormed (⟨p.slots ++ List.replicate n none, List.range' p.slots.length n⟩ :
      SlotPool α) := by
  have hzero : 0 < p.slots.length := by
    apply Nat.pos_of_ne_zero
    intro h0
    have hres := h.reserved
    rw [List.eq_nil_of_length_eq_zero h0] at hres
    cases hres
  constructor
  · show (p.slots ++ List.replicate n none)[0]? = some none
    rw [List.getElem?_append_left hzero]
    exact h.reserved
  · exact List.nodup_range'
  · intro j hj
    rw [List.mem_range'_1] at hj
    show 0 < j ∧ j < (p.slots ++ List.replicate n none).length
    rw [List.length_append, List.length_replicate]
    omega
  · intro j hpos hlt
    replace hlt : j < p.slots.length + n := by simpa using hlt
    show (p.slots ++ List.replicate n none)[j]? = some none ↔
      j ∈ List.range' p.slots.length n
    rw [List.mem_range'_1]
    by_cases hj : j < p.slots.length
    · -- no old slot is free, so every one is filled
      rw [List.getElem?_append_left hj, h.empty_iff j hpos hj, hfree]
      apply iff_of_false
      · exact List.not_mem_nil
      · omega
    · rw [List.getElem?_append_right (by omega), List.getElem?_replicate, if_pos (by omega)]
      apply iff_of_true rfl
      omega

end SlotPool

end Unixtar.Lib
