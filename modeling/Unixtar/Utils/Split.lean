import Unixtar.Utils.StrUtil

/-!
# What `str::split` makes of joined pieces

`split` is the inverse of joining with the separator for two or more pieces
that are not empty and that the separator does not occur in.  A single piece
needs the separator behind it: the text behind the last separator counts only
if one was found.

## Main results

* `find_eq_some_iff` — `std::string::find` returns the first occurrence.
* `split_join` — two or more pieces come back.
* `split_single` — a single one does not.
* `not_mem_of_mem_split` — no piece contains a separator of one byte.
-/

namespace Unixtar.Str

/-- `find` returns the first place at which the separator stands. -/
theorem find_eq_some_iff {sep : Bytes} (hsep : sep ≠ []) (s : Bytes) (i : Nat) :
    find sep s = some i ↔ sep <+: s.drop i ∧ ∀ k, k < i → ¬ sep <+: s.drop k := by
  induction s generalizing i with
  | nil =>
      unfold find
      rw [if_neg hsep]
      constructor
      · intro h
        cases h
      · rintro ⟨hat, -⟩
        rw [List.drop_nil] at hat
        exact absurd (List.prefix_nil.1 hat) hsep
  | cons c cs ih =>
      unfold find
      by_cases hhit : sep <+: c :: cs
      · rw [if_pos (List.isPrefixOf_iff_prefix.2 hhit)]
        constructor
        · intro h
          cases h
          exact ⟨hhit, fun k hk => absurd hk (Nat.not_lt_zero k)⟩
        · rintro ⟨-, hfirst⟩
          cases i with
          | zero => rfl
          | succ i => exact absurd hhit (hfirst 0 (Nat.zero_lt_succ i))
      · rw [if_neg (fun h => hhit (List.isPrefixOf_iff_prefix.1 h)), Option.map_eq_some_iff]
        constructor
        · rintro ⟨j, hj, rfl⟩
          obtain ⟨hat, hfirst⟩ := (ih j).1 hj
          refine ⟨hat, ?_⟩
          intro k hk
          cases k with
          | zero => exact hhit
          | succ k => exact hfirst k (by omega)
        · rintro ⟨hat, hfirst⟩
          cases i with
          | zero => exact absurd hat hhit
          | succ i =>
              refine ⟨i, (ih i).2 ⟨hat, ?_⟩, rfl⟩
              intro k hk
              exact hfirst (k + 1) (Nat.succ_lt_succ hk)

/-- What is found lies inside the text. -/
theorem find_add_le {sep : Bytes} (hsep : sep ≠ []) {s : Bytes} {i : Nat}
    (h : find sep s = some i) : i + sep.length ≤ s.length := by
  have hpos := List.length_pos_of_ne_nil hsep
  have hlen := ((find_eq_some_iff hsep s i).1 h).1.length_le
  rw [List.length_drop] at hlen
  omega

/-- A prefix that holds the first occurrence has the same one. -/
theorem find_prefix_iff {sep : Bytes} (hsep : sep ≠ []) {b s : Bytes} (hb : b <+: s) (i : Nat) :
    find sep b = some i ↔ find sep s = some i ∧ i + sep.length ≤ b.length := by
  obtain ⟨t, rfl⟩ := hb
  have hsame : ∀ k, k + sep.length ≤ b.length → (sep <+: (b ++ t).drop k ↔ sep <+: b.drop k) := by
    intro k hk
    rw [← occursAt_iff_startsWith, ← occursAt_iff_startsWith]
    exact occursAt_append hk t
  constructor
  · intro h
    have hlen := find_add_le hsep h
    obtain ⟨hat, hfirst⟩ := (find_eq_some_iff hsep b i).1 h
    refine ⟨(find_eq_some_iff hsep _ i).2 ⟨(hsame i hlen).2 hat, ?_⟩, hlen⟩
    intro k hk hocc
    exact hfirst k hk ((hsame k (by omega)).1 hocc)
  · rintro ⟨h, hlen⟩
    obtain ⟨hat, hfirst⟩ := (find_eq_some_iff hsep _ i).1 h
    refine (find_eq_some_iff hsep b i).2 ⟨(hsame i hlen).1 hat, ?_⟩
    intro k hk hocc
    exact hfirst k hk ((hsame k (by omega)).2 hocc)

/-- What `strnstr` finds is the first occurrence. -/
theorem find_of_strnstr {needle b : Bytes} (hlit : IsLiteral needle) {i : Nat}
    (h : strnstr b needle b.length = some i) : find needle b = some i := by
  obtain ⟨-, hat, hfirst⟩ := (strnstr_eq_some_iff hlit _ _ _).1 h
  refine (find_eq_some_iff hlit.nonempty b i).2 ⟨occursAt_iff_startsWith.1 hat, ?_⟩
  intro k hk hocc
  exact hfirst k hk (occursAt_iff_startsWith.2 hocc)

/-- `strnstr` finds the first occurrence if the `int` lets it. -/
theorem strnstr_of_find {needle b : Bytes} (hlit : IsLiteral needle) {i : Nat}
    (h : find needle b = some i) :
    strnstr b needle b.length =
      if Reaches (strlen b) (i + needle.length) then some i else none := by
  obtain ⟨hat, hfirst⟩ := (find_eq_some_iff hlit.nonempty b i).1 h
  exact strnstr_of_first hlit hat hfirst (find_add_le hlit.nonempty h)

/-- A scan of `b` sees as far as `a`: the bytes are there, and the `int` lets it. -/
def Shows (b : Bytes) (a : Nat) : Prop := a ≤ b.length ∧ Reaches (strlen b) a

instance (b : Bytes) (a : Nat) : Decidable (Shows b a) := inferInstanceAs (Decidable (_ ∧ _))

theorem shows_iff {b : Bytes} {a : Nat} : Shows b a ↔ a ≤ scanLen b b.length := by
  constructor
  · rintro ⟨hlen, hreach⟩
    exact (le_scanLen_iff hlen).2 hreach
  · intro h
    have hlen := Nat.le_trans h (scanLen_le b b.length)
    exact ⟨hlen, (le_scanLen_iff hlen).1 h⟩

/-- Below 2³² bytes more input hides nothing. -/
theorem Shows.mono {b s : Bytes} {a : Nat} (h : Shows b a) (hb : b <+: s)
    (hlen : s.length < 2 ^ 32) : Shows s a := by
  obtain ⟨t, rfl⟩ := hb
  exact shows_iff.2 (Nat.le_trans (shows_iff.1 h) (scanLen_mono hlen))

/-- What `strnstr` finds in a prefix of `s` is the first occurrence in `s`, if the
scan of the prefix sees it. -/
theorem strnstr_prefix_iff {needle : Bytes} (hlit : IsLiteral needle) {b s : Bytes}
    (hb : b <+: s) (i : Nat) :
    strnstr b needle b.length = some i ↔
      find needle s = some i ∧ Shows b (i + needle.length) := by
  constructor
  · intro h
    have hscan := ((strnstr_eq_some_iff hlit _ _ _).1 h).1
    exact ⟨((find_prefix_iff hlit.nonempty hb i).1 (find_of_strnstr hlit h)).1,
      shows_iff.2 hscan⟩
  · rintro ⟨hfind, hlen, hreach⟩
    have hprefix := (find_prefix_iff hlit.nonempty hb i).2 ⟨hfind, hlen⟩
    rw [strnstr_of_find hlit hprefix, if_pos hreach]

/-! ## Pieces -/

/-- The separator does not start inside the piece, neither when the text ends
with the piece nor when the separator follows it. -/
def Free (sep piece : Bytes) : Prop :=
  ∀ i, i < piece.length → ∀ t, t = [] ∨ sep <+: t → ¬ sep <+: (piece ++ t).drop i

theorem Free.find_append {sep piece : Bytes} (h : Free sep piece) (hsep : sep ≠ []) (t : Bytes) :
    find sep (piece ++ (sep ++ t)) = some piece.length := by
  refine (find_eq_some_iff hsep _ _).2 ⟨?_, ?_⟩
  · rw [List.drop_left]
    exact List.prefix_append sep t
  · intro k hk
    exact h k hk _ (Or.inr (List.prefix_append sep t))

theorem Free.find_eq_none {sep piece : Bytes} (h : Free sep piece) (hsep : sep ≠ []) :
    find sep piece = none := by
  cases hfind : find sep piece with
  | none => rfl
  | some i =>
      obtain ⟨hat, -⟩ := (find_eq_some_iff hsep _ _).1 hfind
      exfalso
      by_cases hi : i < piece.length
      · apply h i hi [] (Or.inl rfl)
        rw [List.append_nil]
        exact hat
      · rw [List.drop_eq_nil_of_le (Nat.le_of_not_lt hi)] at hat
        exact hsep (List.prefix_nil.1 hat)

/-- A separator whose first byte does not occur. -/
theorem free_of_not_mem {c : UInt8} {cs piece : Bytes} (h : c ∉ piece) :
    Free (c :: cs) piece := by
  intro i hi t _ hat
  apply h
  rw [List.drop_append_of_le_length (Nat.le_of_lt hi), List.drop_eq_getElem_cons hi] at hat
  have hhead : c = piece[i] := (List.cons_prefix_cons.1 hat).1
  rw [hhead]
  exact List.getElem_mem hi

theorem piece_of_not_mem {c : UInt8} {cs piece : Bytes} (hne : piece ≠ []) (h : c ∉ piece) :
    piece ≠ [] ∧ Free (c :: cs) piece :=
  ⟨hne, free_of_not_mem h⟩

/-- A separator of two bytes that does not occur; the first one may, also at
the end of the piece. -/
theorem free_of_not_infix {c d : UInt8} {piece : Bytes} (hcd : c ≠ d) (h : ¬ [c, d] <:+: piece) :
    Free [c, d] piece := by
  intro i hi t ht hat
  rw [List.drop_append_of_le_length (Nat.le_of_lt hi), List.drop_eq_getElem_cons hi] at hat
  obtain ⟨hhead, htail⟩ := List.cons_prefix_cons.1 hat
  by_cases hlast : i + 1 < piece.length
  · rw [List.drop_eq_getElem_cons hlast] at htail
    have hnext : d = piece[i + 1] := (List.cons_prefix_cons.1 htail).1
    apply h
    refine ⟨piece.take i, piece.drop (i + 2), ?_⟩
    have hcut : piece.drop i = [c, d] ++ piece.drop (i + 2) := by
      rw [List.drop_eq_getElem_cons hi, List.drop_eq_getElem_cons hlast, ← hhead, ← hnext]
      rfl
    rw [List.append_assoc, ← hcut, List.take_append_drop]
  · rw [List.drop_eq_nil_of_le (Nat.le_of_not_lt hlast)] at htail
    change [d] <+: t at htail
    rcases ht with ht | ht
    · rw [ht] at htail
      exact absurd (List.prefix_nil.1 htail) (List.cons_ne_nil d [])
    · obtain ⟨u, rfl⟩ := ht
      exact hcd (List.cons_prefix_cons.1 htail).1.symm

/-! ## The loop -/

/-- A round of the loop takes one piece. -/
theorem splitLoop_piece {sep piece : Bytes} (hsep : sep ≠ []) (hne : piece ≠ [])
    (hfree : Free sep piece) (fuel : Nat) (t : Bytes) (has : Bool) (res : List Bytes) :
    splitLoop sep (fuel + 1) (piece ++ (sep ++ t)) has res =
      splitLoop sep fuel t true (res ++ [piece]) := by
  obtain ⟨n, hn⟩ : ∃ n, piece.length = n + 1 :=
    Nat.exists_eq_succ_of_ne_zero (fun h0 => hne (List.eq_nil_of_length_eq_zero h0))
  have hfind := hfree.find_append hsep t
  rw [hn] at hfind
  have hdrop : (piece ++ (sep ++ t)).drop (n + 1 + sep.length) = t := by
    rw [← hn, ← List.append_assoc, ← List.length_append, List.drop_left]
  have htake : (piece ++ (sep ++ t)).take (n + 1) = piece := by
    rw [← hn, List.take_left]
  rw [splitLoop, hfind]
  simp only [hdrop, htake]

/-- The loop stops in front of the last piece. -/
theorem splitLoop_join {sep : Bytes} (hsep : sep ≠ []) (pieces : List Bytes) (last : Bytes)
    (hpieces : ∀ p ∈ pieces, p ≠ [] ∧ Free sep p) (hlast : Free sep last) {fuel : Nat}
    (hfuel : pieces.length < fuel) (has : Bool) (res : List Bytes) :
    splitLoop sep fuel (sep.intercalate (pieces ++ [last])) has res =
      (has || !pieces.isEmpty, res ++ pieces, last) := by
  induction pieces generalizing fuel has res with
  | nil =>
      obtain ⟨n, rfl⟩ : ∃ n, fuel = n + 1 := Nat.exists_eq_succ_of_ne_zero (by omega)
      rw [List.nil_append, List.intercalate_singleton, splitLoop, hlast.find_eq_none hsep]
      simp
  | cons p ps ih =>
      obtain ⟨n, rfl⟩ : ∃ n, fuel = n + 1 := Nat.exists_eq_succ_of_ne_zero (by omega)
      obtain ⟨hne, hfree⟩ := hpieces p List.mem_cons_self
      have hjoin : sep.intercalate (p :: ps ++ [last]) =
          p ++ (sep ++ sep.intercalate (ps ++ [last])) := by
        rw [List.cons_append, List.intercalate_cons_of_ne_nil (by simp), List.append_assoc]
      rw [hjoin, splitLoop_piece hsep hne hfree,
        ih (fun q hq => hpieces q (List.mem_cons_of_mem p hq))
          (Nat.lt_of_succ_lt_succ hfuel)]
      simp

theorem length_le_join (sep : Bytes) (pieces : List Bytes) (hpieces : ∀ p ∈ pieces, p ≠ []) :
    pieces.length ≤ (sep.intercalate pieces).length := by
  induction pieces with
  | nil => exact Nat.zero_le _
  | cons p ps ih =>
      have hpos := List.length_pos_of_ne_nil (hpieces p List.mem_cons_self)
      have htail := ih fun q hq => hpieces q (List.mem_cons_of_mem p hq)
      cases ps with
      | nil =>
          rw [List.intercalate_singleton]
          exact hpos
      | cons q qs =>
          rw [List.intercalate_cons_cons, List.length_append, List.length_append]
          simp only [List.length_cons] at htail ⊢
          omega

/-- **Two or more pieces come back.** -/
theorem split_join {sep : Bytes} (hsep : sep ≠ []) {pieces : List Bytes}
    (hpieces : ∀ p ∈ pieces, p ≠ [] ∧ Free sep p) (htwo : 2 ≤ pieces.length) :
    split (sep.intercalate pieces) sep = pieces := by
  have hne : pieces ≠ [] := List.ne_nil_of_length_pos (by omega)
  obtain ⟨init, last, rfl⟩ : ∃ init last, pieces = init ++ [last] :=
    ⟨pieces.dropLast, pieces.getLast hne, (List.dropLast_append_getLast hne).symm⟩
  obtain ⟨hlast, hfree⟩ := hpieces last (by simp)
  have hlen : (init ++ [last]).length = init.length + 1 := by simp
  have hjoin := length_le_join sep (init ++ [last]) fun p hp => (hpieces p hp).1
  have hinit : init ≠ [] := List.ne_nil_of_length_pos (by omega)
  unfold split
  rw [splitLoop_join hsep init last (fun p hp => hpieces p (by simp [hp])) hfree (by omega)]
  simp [hinit, hlast]

/-- Three pieces. -/
theorem split_three {sep p q r : Bytes} (hsep : sep ≠ []) (hp : p ≠ [] ∧ Free sep p)
    (hq : q ≠ [] ∧ Free sep q) (hr : r ≠ [] ∧ Free sep r) :
    split (p ++ (sep ++ (q ++ (sep ++ r)))) sep = [p, q, r] := by
  have hjoin : p ++ (sep ++ (q ++ (sep ++ r))) = sep.intercalate [p, q, r] := by
    rw [List.intercalate_cons_cons, List.intercalate_cons_cons, List.intercalate_singleton,
      List.append_assoc, List.append_assoc]
  rw [hjoin]
  apply split_join hsep
  · intro w hw
    simp only [List.mem_cons, List.not_mem_nil, or_false] at hw
    rcases hw with rfl | rfl | rfl
    · exact hp
    · exact hq
    · exact hr
  · exact Nat.le_succ 2

/-- A single piece with the separator behind it. -/
theorem split_trailing {sep piece : Bytes} (hsep : sep ≠ []) (hne : piece ≠ [])
    (hfree : Free sep piece) : split (piece ++ sep) sep = [piece] := by
  have hfuel : [piece].length < (piece ++ sep).length + 1 := by
    have hpos := List.length_pos_of_ne_nil hne
    rw [List.length_append, List.length_singleton]
    omega
  have hloop := splitLoop_join hsep [piece] [] (by simp [hne, hfree])
    (fun i hi => absurd hi (Nat.not_lt_zero i)) hfuel false []
  rw [List.singleton_append, List.intercalate_cons_cons, List.intercalate_singleton,
    List.append_nil] at hloop
  unfold split
  rw [hloop]
  rfl

/-- A single piece is lost. -/
theorem split_single {sep piece : Bytes} (hsep : sep ≠ []) (hfree : Free sep piece) :
    split piece sep = [] := by
  unfold split
  rw [splitLoop, hfree.find_eq_none hsep]
  rfl

/-! ## What can be a piece -/

theorem not_mem_of_find_eq_none {c : UInt8} {s : Bytes} (h : find [c] s = none) : c ∉ s := by
  intro hmem
  obtain ⟨before, after, hs, hbefore⟩ := List.eq_append_cons_of_mem hmem
  have hfound : find [c] s = some before.length := by
    rw [hs]
    exact (free_of_not_mem hbefore).find_append (List.cons_ne_nil c []) after
  rw [hfound] at h
  cases h

theorem not_mem_take_of_find {c : UInt8} {s : Bytes} {i : Nat} (h : find [c] s = some i) :
    c ∉ s.take i := by
  obtain ⟨-, hfirst⟩ := (find_eq_some_iff (List.cons_ne_nil c []) s i).1 h
  intro hmem
  obtain ⟨k, hk, hget⟩ := List.mem_iff_getElem.1 hmem
  rw [List.getElem_take] at hget
  rw [List.length_take] at hk
  have hlt : k < s.length := by omega
  apply hfirst k (by omega)
  rw [List.drop_eq_getElem_cons hlt, hget]
  exact List.prefix_append [c] _

/-- With enough fuel neither a piece nor the rest contains the separator. -/
theorem not_mem_splitLoop {c : UInt8} (fuel : Nat) (rest : Bytes) (hfuel : rest.length < fuel)
    (has : Bool) (res : List Bytes) (hres : ∀ p ∈ res, c ∉ p) :
    (∀ p ∈ (splitLoop [c] fuel rest has res).2.1, c ∉ p) ∧
      c ∉ (splitLoop [c] fuel rest has res).2.2 := by
  induction fuel generalizing rest has res with
  | zero => omega
  | succ fuel ih =>
      rw [splitLoop]
      cases hfind : find [c] rest with
      | none => exact ⟨hres, not_mem_of_find_eq_none hfind⟩
      | some i =>
          obtain ⟨hat, -⟩ := (find_eq_some_iff (List.cons_ne_nil c []) rest i).1 hfind
          have hlen := hat.length_le
          rw [List.length_drop, List.length_singleton] at hlen
          cases i with
          | zero =>
              apply ih
              · rw [List.length_drop, List.length_singleton]
                omega
              · exact hres
          | succ i =>
              apply ih
              · rw [List.length_drop, List.length_singleton]
                omega
              · intro p hp
                rcases List.mem_append.1 hp with hp | hp
                · exact hres p hp
                · rw [List.mem_singleton.1 hp]
                  exact not_mem_take_of_find hfind

/-- **No piece contains the separator.** -/
theorem not_mem_of_mem_split {c : UInt8} {s p : Bytes} (hp : p ∈ split s [c]) : c ∉ p := by
  obtain ⟨hpieces, hrest⟩ := not_mem_splitLoop (s.length + 1) s (Nat.lt_succ_self s.length) false
    [] (fun q hq => absurd hq List.not_mem_nil)
  unfold split at hp
  dsimp only at hp
  split at hp
  · rcases List.mem_append.1 hp with hp | hp
    · exact hpieces p hp
    · rw [List.mem_singleton.1 hp]
      exact hrest
  · exact hpieces p hp

/-- The loop keeps the pieces it has. -/
theorem prefix_splitLoop (sep : Bytes) (fuel : Nat) (rest : Bytes) (has : Bool)
    (res : List Bytes) : res <+: (splitLoop sep fuel rest has res).2.1 := by
  induction fuel generalizing rest has res with
  | zero => exact List.prefix_refl res
  | succ fuel ih =>
      rw [splitLoop]
      split
      · exact List.prefix_refl res
      · exact ih _ has res
      · exact (List.prefix_append res _).trans (ih _ true _)

/-- Pieces with the separator behind each of them are the first ones. -/
theorem prefix_split {sep p q : Bytes} (hsep : sep ≠ []) (hp : p ≠ [] ∧ Free sep p)
    (hq : q ≠ [] ∧ Free sep q) (t : Bytes) :
    [p, q] <+: split (p ++ (sep ++ (q ++ (sep ++ t)))) sep := by
  have hlen : 2 ≤ (p ++ (sep ++ (q ++ (sep ++ t)))).length := by
    have hp' := List.length_pos_of_ne_nil hp.1
    have hq' := List.length_pos_of_ne_nil hq.1
    simp only [List.length_append]
    omega
  obtain ⟨fuel, hfuel⟩ := Nat.exists_eq_add_of_le hlen
  have hkeeps := prefix_splitLoop sep (fuel + 1) t true [p, q]
  unfold split
  rw [hfuel, show 2 + fuel + 1 = fuel + 1 + 1 + 1 by omega, splitLoop_piece hsep hp.1 hp.2,
    splitLoop_piece hsep hq.1 hq.2]
  dsimp only
  split
  · exact hkeeps.trans (List.prefix_append _ _)
  · exact hkeeps

/-! ## More text without a separator -/

theorem find_append_of_not_mem {c : UInt8} {s t : Bytes} (ht : c ∉ t) :
    find [c] (s ++ t) = find [c] s := by
  cases hfind : find [c] s with
  | none =>
      apply (free_of_not_mem _).find_eq_none (List.cons_ne_nil c [])
      rw [List.mem_append, not_or]
      exact ⟨not_mem_of_find_eq_none hfind, ht⟩
  | some i =>
      exact ((find_prefix_iff (List.cons_ne_nil c []) (List.prefix_append s t) i).1 hfind).1

/-- The loop leaves the text behind what it would have left. -/
theorem splitLoop_append {c : UInt8} {t : Bytes} (ht : c ∉ t) {fuel fuel' : Nat} {s : Bytes}
    (hfuel : s.length < fuel) (hfuel' : s.length < fuel') (has : Bool) (res : List Bytes) :
    splitLoop [c] fuel' (s ++ t) has res =
      ((splitLoop [c] fuel s has res).1, (splitLoop [c] fuel s has res).2.1,
        (splitLoop [c] fuel s has res).2.2 ++ t) := by
  induction fuel generalizing fuel' s has res with
  | zero => omega
  | succ fuel ih =>
      obtain ⟨fuel', rfl⟩ : ∃ n, fuel' = n + 1 := ⟨fuel' - 1, by omega⟩
      rw [splitLoop, splitLoop, find_append_of_not_mem ht]
      cases hfind : find [c] s with
      | none => rfl
      | some i =>
          have hle := find_add_le (List.cons_ne_nil c []) hfind
          rw [List.length_singleton] at hle
          have hshort : (s.drop (i + 1)).length = s.length - (i + 1) := List.length_drop
          cases i with
          | zero =>
              rw [Nat.zero_add] at hshort
              simp only [List.length_singleton]
              rw [List.drop_append_of_le_length (by omega)]
              exact ih (by omega) (by omega) has res
          | succ i =>
              simp only [List.length_singleton]
              rw [List.drop_append_of_le_length (by omega),
                List.take_append_of_le_length (by omega)]
              exact ih (by omega) (by omega) true _

/-- Nothing is left behind a text that ends with the separator. -/
theorem splitLoop_rest_eq_nil {c : UInt8} {fuel : Nat} {s : Bytes} (hfuel : s.length < fuel)
    (has : Bool) (res : List Bytes) :
    (splitLoop [c] fuel s has res).2.2 = [] ↔ s = [] ∨ s.getLast? = some c := by
  induction fuel generalizing s has res with
  | zero => omega
  | succ fuel ih =>
      rw [splitLoop]
      cases hfind : find [c] s with
      | none =>
          have hmem := not_mem_of_find_eq_none hfind
          constructor
          · exact Or.inl
          · rintro (h | h)
            · exact h
            · exact absurd (List.mem_of_getLast? h) hmem
      | some i =>
          obtain ⟨hat, -⟩ := (find_eq_some_iff (List.cons_ne_nil c []) s i).1 hfind
          have hle := find_add_le (List.cons_ne_nil c []) hfind
          rw [List.length_singleton] at hle
          have hget : s.drop i = c :: s.drop (i + 1) := by
            obtain ⟨u, hu⟩ := hat
            rw [← List.drop_drop, ← hu]
            rfl
          have hlast : s = [] ∨ s.getLast? = some c ↔
              s.drop (i + 1) = [] ∨ (s.drop (i + 1)).getLast? = some c := by
            have hne : s ≠ [] := List.ne_nil_of_length_pos (by omega)
            have hs : s.getLast? = (c :: s.drop (i + 1)).getLast? := by
              conv_lhs => rw [← List.take_append_drop i s, hget]
              exact List.getLast?_append_of_ne_nil _ (List.cons_ne_nil _ _)
            rw [hs]
            cases hdrop : s.drop (i + 1) with
            | nil => simp [hne]
            | cons d ds =>
                rw [List.getLast?_cons_cons]
                simp [hne]
          have hshort : (s.drop (i + 1)).length < fuel := by
            rw [List.length_drop]
            omega
          cases i with
          | zero => exact (ih hshort has res).trans hlast.symm
          | succ i => exact (ih hshort true _).trans hlast.symm

/-- `has` says whether a piece was pushed. -/
theorem splitLoop_has (sep : Bytes) (fuel : Nat) (s : Bytes) {has : Bool} {res : List Bytes}
    (h : has = !res.isEmpty) :
    (splitLoop sep fuel s has res).1 = !(splitLoop sep fuel s has res).2.1.isEmpty := by
  induction fuel generalizing s has res with
  | zero => exact h
  | succ fuel ih =>
      rw [splitLoop]
      split
      · exact h
      · exact ih _ h
      · exact ih _ (by simp)

/-- A text that ends with the separator gets one more piece, if it has one. -/
theorem split_append_of_open {c : UInt8} {s t : Bytes} (hlast : s.getLast? = some c) (hne : t ≠ [])
    (ht : c ∉ t) : split (s ++ t) [c] = if split s [c] = [] then [] else split s [c] ++ [t] := by
  have hloop := splitLoop_append ht (Nat.lt_succ_self s.length)
    (show s.length < (s ++ t).length + 1 by rw [List.length_append]; omega) false []
  have hrest := (splitLoop_rest_eq_nil (Nat.lt_succ_self s.length) false []).2 (Or.inr hlast)
  have hhas := splitLoop_has [c] (s.length + 1) s (show false = !([] : List Bytes).isEmpty from rfl)
  unfold split
  rw [hloop]
  generalize splitLoop [c] (s.length + 1) s false [] = r at hrest hhas
  obtain ⟨has, res, rest⟩ := r
  dsimp only at hrest hhas ⊢
  subst hrest hhas
  cases res with
  | nil => rfl
  | cons p ps => simp [hne]

/-- In any other text the last piece gets longer, and there is another one
before it. -/
theorem split_append_of_closed {c : UInt8} {s : Bytes} (hs : s ≠ []) (hlast : s.getLast? ≠ some c)
    {t : Bytes} (ht : c ∉ t) :
    (split s [c] = [] ∧ split (s ++ t) [c] = []) ∨
      ∃ init last, init ≠ [] ∧ split s [c] = init ++ [last] ∧
        split (s ++ t) [c] = init ++ [last ++ t] := by
  have hloop := splitLoop_append ht (Nat.lt_succ_self s.length)
    (show s.length < (s ++ t).length + 1 by rw [List.length_append]; omega) false []
  have hrest : (splitLoop [c] (s.length + 1) s false []).2.2 ≠ [] := by
    intro h
    rcases (splitLoop_rest_eq_nil (Nat.lt_succ_self s.length) false []).1 h with h | h
    · exact hs h
    · exact hlast h
  have hhas := splitLoop_has [c] (s.length + 1) s (show false = !([] : List Bytes).isEmpty from rfl)
  unfold split
  rw [hloop]
  generalize splitLoop [c] (s.length + 1) s false [] = r at hrest hhas
  obtain ⟨has, res, rest⟩ := r
  dsimp only at hrest hhas ⊢
  subst hhas
  cases res with
  | nil => exact Or.inl ⟨rfl, rfl⟩
  | cons p ps =>
      right
      refine ⟨p :: ps, rest, List.cons_ne_nil p ps, ?_, ?_⟩
      · simp [hrest]
      · simp [hrest]

end Unixtar.Str
