import Mathlib.Data.List.Count
import Mathlib.Data.List.Nodup
import Mathlib.Data.List.Rotate
import Mathlib.Data.Nat.ModEq

/-!
# Turns of a round robin

`n` places in a circle and a cursor `c`: the place that comes `k` turns behind
the cursor is `turn n c k`.  Where only some of the places take a turn, the
first of them behind the cursor is the one whose number among them is the
number of those up to the cursor, so that a cursor that is moved to it again
and again runs through them in a `cycle`.

## Main results

* `exists_turn` — every place comes up within `n` turns.
* `turn_add` — moving the cursor to the place of turn `j` brings every later
  turn forward by `j + 1`.
* `getElem?_taking_of_first` — the first turn that is taken.
* `take_drop_cycle` — a window of a cycle is a rotation.
-/

namespace Unixtar.Lib.RoundRobin

/-- The place `k` turns behind the cursor; the first turn is the place right
behind it. -/
def turn (n c k : Nat) : Nat := (c + 1 + k) % n

theorem turn_lt {n : Nat} (hn : 0 < n) (c k : Nat) : turn n c k < n := Nat.mod_lt _ hn

/-- The place behind the cursor, with the return to the first one. -/
theorem turn_zero {n c : Nat} (hc : c < n) :
    turn n c 0 = if c + 1 = n then 0 else c + 1 := by
  unfold turn
  split
  · rename_i hend
    rw [Nat.add_zero, hend, Nat.mod_self]
  · rw [Nat.add_zero, Nat.mod_eq_of_lt (by omega)]

theorem turn_add (n c j k : Nat) : turn n (turn n c j) k = turn n c (j + 1 + k) := by
  unfold turn
  have hsum : c + 1 + (j + 1 + k) = c + 1 + j + (1 + k) := by omega
  rw [hsum, Nat.add_assoc _ 1 k, Nat.mod_add_mod]

/-- A whole circle leads back to the cursor. -/
theorem exists_turn {n c i : Nat} (hc : c < n) (hi : i < n) : ∃ k, k < n ∧ turn n c k = i := by
  by_cases hle : c + 1 ≤ i
  · refine ⟨i - (c + 1), by omega, ?_⟩
    unfold turn
    rw [Nat.add_sub_cancel' hle, Nat.mod_eq_of_lt hi]
  · refine ⟨n + i - (c + 1), by omega, ?_⟩
    unfold turn
    rw [Nat.add_sub_cancel' (by omega), Nat.add_mod_left, Nat.mod_eq_of_lt hi]

theorem turn_add_self (n c k : Nat) : turn n c (k + n) = turn n c k := by
  unfold turn
  rw [← Nat.add_assoc, Nat.add_mod_right]

/-! ## Some places take no turn -/

/-- The places that take turns, in order. -/
def taking (p : Nat → Bool) (n : Nat) : List Nat := (List.range n).filter p

/-- How many places up to `c` take turns. -/
def rank (p : Nat → Bool) (c : Nat) : Nat := (taking p (c + 1)).length

variable {p : Nat → Bool}

theorem mem_taking {n i : Nat} : i ∈ taking p n ↔ i < n ∧ p i = true := by
  unfold taking
  rw [List.mem_filter, List.mem_range]

theorem nodup_taking (p : Nat → Bool) (n : Nat) : (taking p n).Nodup :=
  List.nodup_range.filter p

theorem taking_add (n k : Nat) (h : ∀ j, j < k → p (n + j) = false) :
    taking p (n + k) = taking p n := by
  have hnone : ((List.range k).map (n + ·)).filter p = [] := by
    apply List.filter_eq_nil_iff.2
    intro i hi
    obtain ⟨j, hj, rfl⟩ := List.mem_map.1 hi
    rw [h j (List.mem_range.1 hj)]
    exact Bool.false_ne_true
  unfold taking
  rw [List.range_add, List.filter_append, hnone, List.append_nil]

theorem taking_succ {i : Nat} (h : p i = true) : taking p (i + 1) = taking p i ++ [i] := by
  unfold taking
  rw [List.range_succ, List.filter_append, List.filter_cons_of_pos h, List.filter_nil]

theorem rank_eq {i : Nat} (h : p i = true) : rank p i = (taking p i).length + 1 := by
  unfold rank
  rw [taking_succ h, List.length_append, List.length_singleton]

theorem taking_prefix {m n : Nat} (h : m ≤ n) : taking p m <+: taking p n := by
  obtain ⟨k, rfl⟩ := Nat.exists_eq_add_of_le h
  unfold taking
  rw [List.range_add, List.filter_append]
  exact List.prefix_append _ _

/-- A place that takes turns stands behind all smaller ones. -/
theorem getElem?_taking {n i : Nat} (hi : i < n) (h : p i = true) :
    (taking p n)[(taking p i).length]? = some i := by
  obtain ⟨rest, hrest⟩ := taking_prefix (p := p) (Nat.succ_le_of_lt hi)
  rw [← hrest, taking_succ h, List.append_assoc, List.getElem?_append_right (Nat.le_refl _),
    Nat.sub_self]
  rfl

theorem rank_of_getElem? {n t i : Nat} (h : (taking p n)[t]? = some i) : rank p i = t + 1 := by
  obtain ⟨hi, hp⟩ := mem_taking.1 (List.mem_of_getElem? h)
  obtain ⟨ht, hget⟩ := List.getElem?_eq_some_iff.1 h
  obtain ⟨ht', hget'⟩ := List.getElem?_eq_some_iff.1 (getElem?_taking hi hp)
  have hsame : t = (taking p i).length :=
    (nodup_taking p n).getElem_inj_iff.1 (hget.trans hget'.symm)
  rw [rank_eq hp, hsame]

/-- **The first turn that is taken** belongs to the place behind those up to
the cursor, or to the first one if the cursor is behind all of them. -/
theorem getElem?_taking_of_first {n c k : Nat} (hc : c < n) (hk : k < n)
    (hat : p (turn n c k) = true) (hbefore : ∀ j, j < k → p (turn n c j) = false) :
    (taking p n)[rank p c % (taking p n).length]? = some (turn n c k) := by
  have hlt : turn n c k < n := turn_lt (by omega) c k
  have hfound := getElem?_taking hlt hat
  obtain ⟨hlen, -⟩ := List.getElem?_eq_some_iff.1 hfound
  by_cases hwrap : c + 1 + k < n
  · have hturn : ∀ j, j ≤ k → turn n c j = c + 1 + j := fun j hj =>
      Nat.mod_eq_of_lt (by omega)
    have hrank : rank p c = (taking p (turn n c k)).length := by
      rw [hturn k (Nat.le_refl k), taking_add]
      · rfl
      · intro j hj
        rw [← hturn j (Nat.le_of_lt hj)]
        exact hbefore j hj
    rw [hrank, Nat.mod_eq_of_lt hlen]
    exact hfound
  · -- the cursor is behind all places that take turns, and comes to the first
    have hall : taking p n = taking p (c + 1) := by
      rw [show n = c + 1 + (n - (c + 1)) by omega]
      apply taking_add
      intro j hj
      rw [show c + 1 + j = turn n c j from (Nat.mod_eq_of_lt (by omega)).symm]
      exact hbefore j (by omega)
    have hturn : ∀ j, n ≤ c + 1 + j → j ≤ k → turn n c j = c + 1 + j - n := by
      intro j hj hjk
      unfold turn
      rw [Nat.mod_eq_sub_mod hj, Nat.mod_eq_of_lt (by omega)]
    have hnone : taking p (turn n c k) = [] := by
      rw [hturn k (by omega) (Nat.le_refl k), show c + 1 + k - n = 0 + (c + 1 + k - n) by omega,
        taking_add]
      · rfl
      · intro j hj
        rw [show 0 + j = turn n c (n - (c + 1) + j) by rw [hturn] <;> omega]
        exact hbefore _ (by omega)
    rw [hnone] at hfound
    unfold rank
    rw [← hall, Nat.mod_self]
    exact hfound

/-! ## Cycles -/

section Cycle

variable {α : Type*}

/-- `len` places of the list in turn, from place `s` on. -/
def cycle (l : List α) (s len : Nat) : List (Option α) :=
  (List.range len).map fun j => l[(s + j) % l.length]?

@[simp] theorem length_cycle (l : List α) (s len : Nat) : (cycle l s len).length = len := by
  unfold cycle
  rw [List.length_map, List.length_range]

theorem cycle_succ (l : List α) (s len : Nat) :
    cycle l s (len + 1) = l[s % l.length]? :: cycle l (s % l.length + 1) len := by
  unfold cycle
  rw [List.range_succ_eq_map, List.map_cons, List.map_map]
  congr 1
  apply List.map_congr_left
  intro j _
  show l[(s + (j + 1)) % l.length]? = l[(s % l.length + 1 + j) % l.length]?
  rw [Nat.add_assoc (s % l.length) 1 j, Nat.mod_add_mod, Nat.add_comm 1 j]

/-- **A window** as long as the list is a rotation of it. -/
theorem take_drop_cycle {l : List α} {s len a : Nat} (h : a + l.length ≤ len) :
    ((cycle l s len).drop a).take l.length = (l.rotate (s + a)).map some := by
  apply List.ext_getElem?
  intro j
  by_cases hj : j < l.length
  · rw [List.getElem?_take_of_lt hj, List.getElem?_drop, List.getElem?_map,
      List.getElem?_rotate hj]
    unfold cycle
    rw [List.getElem?_map, List.getElem?_range (by omega), Option.map_some,
      show s + (a + j) = j + (s + a) by omega]
    rw [List.getElem?_eq_getElem (Nat.mod_lt _ (by omega)), Option.map_some]
  · rw [List.getElem?_eq_none (by rw [List.length_take]; omega),
      List.getElem?_eq_none (by rw [List.length_map, List.length_rotate]; omega)]

/-- In a window every element of a list without repetitions stands once. -/
theorem count_window [DecidableEq α] {l : List α} (hnodup : l.Nodup) {s len a : Nat}
    (h : a + l.length ≤ len) {x : α} (hx : x ∈ l) :
    (((cycle l s len).drop a).take l.length).count (some x) = 1 := by
  rw [take_drop_cycle h, List.count_map_of_injective _ _ (Option.some_injective α),
    (List.rotate_perm l (s + a)).count_eq]
  exact List.count_eq_one_of_mem hnodup hx

end Cycle

end Unixtar.Lib.RoundRobin
