import Mathlib.Data.List.Basic

/-!
# Bounded double-ended queues

A deque that holds at most `cap` elements, and what can be done to it.  An
action carries the element that is got by it, so a run of actions says what
every reader has seen.  A push needs no condition of its own: without room
there is no deque for it to lead to.

## Main results

* `Replays.perm` — in every run the elements pushed are those that are there,
  were popped or were lost.
-/

namespace Unixtar.Lib

universe u

/-- A deque of at most `cap` elements. -/
structure BoundedDeque (α : Type u) (cap : Nat) where
  elems : List α
  bounded : elems.length ≤ cap

namespace BoundedDeque

variable {α : Type u} {cap : Nat}

/-- Nothing in it. -/
def empty : BoundedDeque α cap := ⟨[], Nat.zero_le cap⟩

/-- What is done to a deque, with what is got from it. -/
inductive Action (α : Type u)
  | pushFront (v : α)
  | pushBack (v : α)
  | popFront (got : Option α)
  | popBack (got : Option α)
  | front (got : Option α)
  | back (got : Option α)
  | get (pos : Nat) (got : Option α)
  | clear (lost : List α)

namespace Action

def pushed : Action α → List α
  | pushFront v | pushBack v => [v]
  | _ => []

def popped : Action α → List α
  | popFront got | popBack got => got.toList
  | _ => []

def lost : Action α → List α
  | clear xs => xs
  | _ => []

end Action

/-- One action. -/
inductive Step : BoundedDeque α cap → Action α → BoundedDeque α cap → Prop
  | pushFront {d e : BoundedDeque α cap} {v : α} (h : e.elems = v :: d.elems) :
      Step d (.pushFront v) e
  | pushBack {d e : BoundedDeque α cap} {v : α} (h : e.elems = d.elems ++ [v]) :
      Step d (.pushBack v) e
  | popFront {d e : BoundedDeque α cap} {v : α} (h : d.elems = v :: e.elems) :
      Step d (.popFront (some v)) e
  | popBack {d e : BoundedDeque α cap} {v : α} (h : d.elems = e.elems ++ [v]) :
      Step d (.popBack (some v)) e
  | front {d : BoundedDeque α cap} {v : α} (h : d.elems.head? = some v) :
      Step d (.front (some v)) d
  | back {d : BoundedDeque α cap} {v : α} (h : d.elems.getLast? = some v) :
      Step d (.back (some v)) d
  | get {d : BoundedDeque α cap} {pos : Nat} {v : α} (h : d.elems[pos]? = some v) :
      Step d (.get pos (some v)) d
  | clear {d : BoundedDeque α cap} : Step d (.clear d.elems) empty

/-! ## What can be done -/

section Can

variable {d : BoundedDeque α cap}

/-- A deque with these elements. -/
theorem exists_elems {xs : List α} (h : xs.length ≤ cap) :
    ∃ e : BoundedDeque α cap, e.elems = xs :=
  ⟨⟨xs, h⟩, rfl⟩

/-- With an element in it, there is one to pop at the front. -/
theorem exists_popFront (h : 0 < d.elems.length) :
    ∃ (v : α) (e : BoundedDeque α cap), d.elems.head? = some v ∧ e.elems = d.elems.tail ∧
      Step d (.popFront (some v)) e := by
  obtain ⟨v, rest, hd⟩ := List.exists_cons_of_length_pos h
  have hle := d.bounded
  rw [hd, List.length_cons] at hle
  obtain ⟨e, he⟩ := exists_elems (Nat.le_of_succ_le hle)
  refine ⟨v, e, ?_, ?_, Step.popFront ?_⟩
  · rw [hd]
    rfl
  · rw [hd, he]
    rfl
  · rw [hd, he]

/-- And at the back. -/
theorem exists_popBack (h : 0 < d.elems.length) :
    ∃ (v : α) (e : BoundedDeque α cap), d.elems.getLast? = some v ∧ e.elems = d.elems.dropLast ∧
      Step d (.popBack (some v)) e := by
  have hne : d.elems ≠ [] := List.ne_nil_of_length_pos h
  have hle : d.elems.dropLast.length ≤ cap := by
    rw [List.length_dropLast]
    exact Nat.le_trans (Nat.sub_le ..) d.bounded
  obtain ⟨e, he⟩ := exists_elems hle
  refine ⟨d.elems.getLast hne, e, List.getLast?_eq_getLast_of_ne_nil hne, he, Step.popBack ?_⟩
  rw [he, List.dropLast_concat_getLast]

end Can

/-! ## Runs -/

/-- A run of actions. -/
inductive Replays (d : BoundedDeque α cap) : List (Action α) → BoundedDeque α cap → Prop
  | nil : Replays d [] d
  | snoc {as : List (Action α)} {a : Action α} {e f : BoundedDeque α cap}
      (run : Replays d as e) (step : Step e a f) : Replays d (as ++ [a]) f

/-- Nothing is lost in a step but by `clear`. -/
theorem Step.perm {d e : BoundedDeque α cap} {a : Action α} (h : Step d a e) :
    (d.elems ++ a.pushed).Perm (e.elems ++ (a.popped ++ a.lost)) := by
  cases h with
  | pushFront h =>
      rw [h]
      simp [Action.pushed, Action.popped, Action.lost]
  | pushBack h => simp [Action.pushed, Action.popped, Action.lost, h]
  | popFront h =>
      rw [h]
      simpa [Action.pushed, Action.popped, Action.lost] using
        (List.perm_append_singleton _ _).symm
  | popBack h => simp [Action.pushed, Action.popped, Action.lost, h]
  | clear => simp [Action.pushed, Action.popped, Action.lost, empty]
  | _ => simp [Action.pushed, Action.popped, Action.lost]

/-- The order in which two actions popped and lost does not matter. -/
theorem perm_regroup (p l p' l' : List α) :
    (p' ++ l' ++ (p ++ l)).Perm (p ++ p' ++ (l ++ l')) := by
  have hfirst : (p' ++ (l' ++ (p ++ l))).Perm (p' ++ (p ++ (l' ++ l))) :=
    (List.perm_append_comm_assoc l' p l).append_left p'
  have hsecond : (p' ++ (p ++ (l' ++ l))).Perm (p ++ (p' ++ (l' ++ l))) :=
    List.perm_append_comm_assoc p' p (l' ++ l)
  have hthird : (p ++ (p' ++ (l' ++ l))).Perm (p ++ (p' ++ (l ++ l'))) :=
    (List.perm_append_comm.append_left p').append_left p
  rw [List.append_assoc, List.append_assoc]
  exact (hfirst.trans hsecond).trans hthird

/-- **Accounting**: the elements pushed are those that are there, were popped
or were lost. -/
theorem Replays.perm {d e : BoundedDeque α cap} {as : List (Action α)} (h : Replays d as e) :
    (d.elems ++ as.flatMap Action.pushed).Perm
      (e.elems ++ (as.flatMap Action.popped ++ as.flatMap Action.lost)) := by
  induction h with
  | nil => simp
  | @snoc as a e f run step ih =>
      have hpushed := ih.append_right a.pushed
      have hstep := step.perm.append_right (as.flatMap Action.popped ++ as.flatMap Action.lost)
      have hswap : (e.elems ++ (as.flatMap Action.popped ++ as.flatMap Action.lost ++
          a.pushed)).Perm
          (e.elems ++ (a.pushed ++ (as.flatMap Action.popped ++ as.flatMap Action.lost))) :=
        List.perm_append_comm.append_left e.elems
      have hregroup := (perm_regroup (as.flatMap Action.popped) (as.flatMap Action.lost) a.popped
        a.lost).append_left f.elems
      simp only [List.flatMap_append, List.flatMap_cons, List.flatMap_nil, List.append_nil,
        List.append_assoc] at hpushed hstep hswap hregroup ⊢
      exact ((hpushed.trans hswap).trans hstep).trans hregroup

end BoundedDeque

end Unixtar.Lib
