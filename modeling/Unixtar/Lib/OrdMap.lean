import Mathlib.Data.List.Basic

/-!
# Ordered maps as sorted association lists

The contents of a `std::map`: entries in increasing order of their keys,
each key once.  The order is carried by the structure, so that two maps
with the same entries are equal and iteration is reading off `entries`.
-/

namespace Unixtar.Lib

universe u v

/-- A finite map whose entries stand in increasing key order. -/
structure OrdMap (K : Type u) (V : Type v) [LT K] where
  entries : List (K × V)
  sorted : entries.Pairwise fun a b => a.1 < b.1

namespace OrdMap

variable {K : Type u} {V : Type v} [LT K]

@[ext] theorem ext {m n : OrdMap K V} (h : m.entries = n.entries) : m = n := by
  cases m
  cases n
  simp only at h
  subst h
  rfl

instance [DecidableEq K] [DecidableEq V] : DecidableEq (OrdMap K V) :=
  fun m n => decidable_of_iff (m.entries = n.entries)
    ⟨OrdMap.ext, fun h => congrArg entries h⟩

/-- The map without entries. -/
def empty : OrdMap K V := ⟨[], List.Pairwise.nil⟩

variable [DecidableLT K] [DecidableEq K]

/-- Insert an entry before the first larger key, or replace the entry of an
equal one. -/
def insertEntry (k : K) (v : V) : List (K × V) → List (K × V)
  | [] => [(k, v)]
  | e :: es =>
      if k = e.1 then (k, v) :: es
      else if k < e.1 then (k, v) :: e :: es
      else e :: insertEntry k v es

theorem mem_insertEntry {k : K} {v : V} {es : List (K × V)} {e : K × V}
    (h : e ∈ insertEntry k v es) : e = (k, v) ∨ e ∈ es := by
  induction es with
  | nil => simpa [insertEntry] using h
  | cons d es ih =>
      simp only [insertEntry] at h
      split at h
      · rcases List.mem_cons.1 h with h | h
        · exact Or.inl h
        · exact Or.inr (List.mem_cons_of_mem _ h)
      · split at h
        · simpa using h
        · rcases List.mem_cons.1 h with h | h
          · exact Or.inr (h ▸ List.mem_cons_self)
          · exact (ih h).imp id (List.mem_cons_of_mem _)

/-- Every entry but a replaced one stays. -/
theorem mem_insertEntry_of_ne {k : K} {v : V} {es : List (K × V)} {e : K × V} (he : e ∈ es)
    (hne : e.1 ≠ k) : e ∈ insertEntry k v es := by
  induction es with
  | nil => exact absurd he List.not_mem_nil
  | cons d es ih =>
      simp only [insertEntry]
      split
      · rename_i heq
        rcases List.mem_cons.1 he with rfl | he
        · exact absurd heq.symm hne
        · exact List.mem_cons_of_mem _ he
      · split
        · exact List.mem_cons_of_mem _ he
        · rcases List.mem_cons.1 he with rfl | he
          · exact List.mem_cons_self
          · exact List.mem_cons_of_mem _ (ih he)

theorem mem_insertEntry_self (k : K) (v : V) (es : List (K × V)) :
    (k, v) ∈ insertEntry k v es := by
  induction es with
  | nil => exact List.mem_cons_self
  | cons d es ih =>
      simp only [insertEntry]
      split
      · exact List.mem_cons_self
      · split
        · exact List.mem_cons_self
        · exact List.mem_cons_of_mem _ ih

variable [Std.Trichotomous (α := K) (· < ·)]

/-- What was inserted is found, by any test that it passes and no entry with
a smaller key does. -/
theorem find?_insertEntry {k : K} {v : V} {test : K × V → Bool} {es : List (K × V)}
    (hk : test (k, v) = true) (hes : ∀ e ∈ es, e.1 < k → test e = false) :
    (insertEntry k v es).find? test = some (k, v) := by
  induction es with
  | nil => simp [insertEntry, hk]
  | cons e es ih =>
      simp only [insertEntry]
      split
      · rw [List.find?_cons_of_pos hk]
      · rename_i hne
        split
        · rw [List.find?_cons_of_pos hk]
        · rename_i hnlt
          have hlt : e.1 < k := by
            by_contra hngt
            exact hne (Std.Trichotomous.trichotomous k e.1 hnlt hngt)
          have he : test e = false := hes e List.mem_cons_self hlt
          rw [List.find?_cons_of_neg (by simp [he])]
          exact ih fun d hd => hes d (List.mem_cons_of_mem e hd)

variable [Trans (α := K) (β := K) (γ := K) (· < ·) (· < ·) (· < ·)]

theorem insertEntry_sorted (k : K) (v : V) {es : List (K × V)}
    (h : es.Pairwise fun a b => a.1 < b.1) :
    (insertEntry k v es).Pairwise fun a b => a.1 < b.1 := by
  induction es with
  | nil => simp [insertEntry]
  | cons e es ih =>
      obtain ⟨hhead, htail⟩ := List.pairwise_cons.1 h
      simp only [insertEntry]
      split
      next heq =>
        subst heq
        exact List.pairwise_cons.2 ⟨hhead, htail⟩
      next hne =>
        split
        next hlt =>
          refine List.pairwise_cons.2 ⟨?_, h⟩
          intro d hd
          rcases List.mem_cons.1 hd with rfl | hd
          · exact hlt
          · exact Trans.trans hlt (hhead d hd)
        next hnlt =>
          have hgt : e.1 < k := by
            by_contra hngt
            exact hne (Std.Trichotomous.trichotomous k e.1 hnlt hngt)
          refine List.pairwise_cons.2 ⟨?_, ih htail⟩
          intro d hd
          rcases mem_insertEntry hd with rfl | hd
          · exact hgt
          · exact hhead d hd

/-- `m[k] = v`. -/
def insert (m : OrdMap K V) (k : K) (v : V) : OrdMap K V :=
  ⟨insertEntry k v m.entries, insertEntry_sorted k v m.sorted⟩

variable [Std.Irrefl (α := K) (· < ·)]

omit [Std.Trichotomous (α := K) (· < ·)] in
/-- An entry behind all others is appended. -/
theorem insertEntry_of_lt {k : K} {v : V} {es : List (K × V)} (h : ∀ e ∈ es, e.1 < k) :
    insertEntry k v es = es ++ [(k, v)] := by
  induction es with
  | nil => rfl
  | cons e es ih =>
      have hlt : e.1 < k := h e List.mem_cons_self
      have hne : k ≠ e.1 := by
        intro heq
        rw [heq] at hlt
        exact Std.Irrefl.irrefl _ hlt
      have hnlt : ¬ k < e.1 := fun hgt => Std.Irrefl.irrefl _ (Trans.trans hlt hgt)
      rw [insertEntry, if_neg hne, if_neg hnlt, ih fun d hd => h d (List.mem_cons_of_mem e hd)]
      rfl

theorem foldl_insert_sorted (es : List (K × V)) (m : OrdMap K V)
    (hes : es.Pairwise fun a b => a.1 < b.1) (hm : ∀ d ∈ m.entries, ∀ e ∈ es, d.1 < e.1) :
    (es.foldl (fun m e => m.insert e.1 e.2) m).entries = m.entries ++ es := by
  induction es generalizing m with
  | nil => exact (List.append_nil _).symm
  | cons e es ih =>
      obtain ⟨hhead, htail⟩ := List.pairwise_cons.1 hes
      have hinsert : (m.insert e.1 e.2).entries = m.entries ++ [e] :=
        insertEntry_of_lt fun d hd => hm d hd e List.mem_cons_self
      rw [List.foldl_cons, ih _ htail, hinsert, List.append_assoc]
      · rfl
      · intro d hd a ha
        rw [hinsert] at hd
        rcases List.mem_append.1 hd with hd | hd
        · exact hm d hd a (List.mem_cons_of_mem e ha)
        · rw [List.mem_singleton.1 hd]
          exact hhead a ha

/-- A map is built again from its entries. -/
theorem foldl_insert_entries (m : OrdMap K V) :
    m.entries.foldl (fun acc e => acc.insert e.1 e.2) empty = m := by
  apply OrdMap.ext
  rw [foldl_insert_sorted m.entries empty m.sorted fun d hd => absurd hd List.not_mem_nil]
  rfl

end OrdMap

end Unixtar.Lib
