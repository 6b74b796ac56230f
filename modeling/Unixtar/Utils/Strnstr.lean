import Unixtar.Lib.Checked
import Unixtar.Utils.StrUtil

/-!
# `str::strnstr` on its own

The function once more, on the readable bytes of the haystack, with every
read and the subtraction checked and with its `while` as a loop that may run
for ever.

`strlen` of the needle is cast to `int`.  A needle of 2³² bytes or more has
another length in the loop, and what is found is an occurrence of its first
bytes, or of none.

## Main results

* `runStrnstr_eq` — the loop ends, and reads the bytes up to the NUL only.
* `findsFirst_iff` — the offset is that of the first occurrence exactly when
  the needle is shorter than 2³² bytes, or its cut-off length finds nothing.
-/

namespace Unixtar.Str

open Unixtar.Lib

/-! ## The checked function -/

/-- `strnlen`: one byte after the other, up to the NUL. -/
def readStrnlen (hay : Bytes) (i : Nat) : Nat → Checked Nat
  | 0 => .ok i
  | n + 1 => do
      let c ← Checked.readAt hay i
      if c = 0 then .ok i else readStrnlen hay (i + 1) n

/-- One round of the loop, with the distance that `_haystack` has moved, and
`_len`. -/
def scanRound (hay needle : Bytes) (n : Nat) (s : Nat × Nat) :
    Checked (Lib.Round (Nat × Nat) (Option Nat)) :=
  if n ≤ s.2 then do
    let len ← Checked.sub s.2 1
    let window ← Checked.slice hay s.1 n
    let key ← Checked.slice needle 0 n
    if window = key then .ok (.done (some s.1)) else .ok (.next (s.1 + 1, len))
  else .ok (.done none)

/-- `str::strnstr`, with its loop cut off after a number of rounds. -/
def runStrnstr (hay needle : Bytes) (len rounds : Nat) : Checked (Option (Option Nat)) := do
  let len2 : Int := toInt (strlen needle)
  if len2 = 0 then .ok (some (some 0))
  else
    let count ← readStrnlen hay 0 len
    let len1 : Int := toInt count
    let len := if len > toSizeT len1 then toSizeT len1 else len
    whileTrue (scanRound hay needle (toSizeT len2)) rounds (0, len)

/-! ## What it should find -/

/-- How many bytes stand before the NUL, of `len` bytes. -/
def textLen (hay : Bytes) (len : Nat) : Nat := min len (hay.idxOf 0)

/-- These bytes, and the NUL if it is one of the `len`. -/
def readable (hay : Bytes) (len : Nat) : Bytes := hay.take (min len (textLen hay len + 1))

/-- The result is the first offset in `L` bytes at which the needle occurs. -/
def IsFirst (needle hay : Bytes) (L : Nat) : Option Nat → Prop
  | some i => i + needle.length ≤ L ∧ OccursAt needle needle.length hay i ∧
      ∀ k < i, ¬ OccursAt needle needle.length hay k
  | none => ∀ i, i + needle.length ≤ L → ¬ OccursAt needle needle.length hay i

/-- The scan ends, reads nothing but the text and its NUL, and finds the first
occurrence. -/
structure FindsFirst (hay needle : Bytes) (len : Nat) : Prop where
  runs : ∃ rounds, runStrnstr (readable hay len) needle len rounds =
    .ok (some (strnstr hay needle len))
  first : IsFirst needle hay (textLen hay len) (strnstr hay needle len)

/-! ## Reads -/

section Reads

variable {hay needle : Bytes} {len : Nat}

theorem textLen_le (hay : Bytes) (len : Nat) : textLen hay len ≤ len := Nat.min_le_left ..

theorem length_readable (hlen : len ≤ hay.length) :
    (readable hay len).length = min len (textLen hay len + 1) := by
  rw [readable, List.length_take]
  omega

theorem getElem?_readable {i : Nat} (h : i < min len (textLen hay len + 1)) :
    (readable hay len)[i]? = hay[i]? := by
  rw [readable, List.getElem?_take_of_lt h]

/-- Before the NUL there is another byte. -/
theorem readAt_of_lt_textLen (hlen : len ≤ hay.length) {i : Nat} (h : i < textLen hay len) :
    ∃ c, Checked.readAt (readable hay len) i = .ok c ∧ c ≠ 0 := by
  have hle := textLen_le hay len
  have hi : i < hay.length := by omega
  have hidx : i < hay.idxOf 0 := Nat.lt_of_lt_of_le h (Nat.min_le_right ..)
  refine ⟨hay[i], ?_, ?_⟩
  · rw [Checked.readAt, getElem?_readable (by omega), List.getElem?_eq_getElem hi]
  · simpa using List.not_of_lt_findIdx hidx

/-- Behind the text the NUL is read. -/
theorem readAt_textLen (hlen : len ≤ hay.length) (h : textLen hay len < len) :
    Checked.readAt (readable hay len) (textLen hay len) = .ok 0 := by
  have hidx : textLen hay len = hay.idxOf 0 := by
    unfold textLen at h ⊢
    omega
  have hlt : hay.idxOf 0 < hay.length := by omega
  rw [Checked.readAt, getElem?_readable (by omega), hidx, List.getElem?_eq_getElem hlt,
    List.getElem_idxOf hlt]

theorem readStrnlen_eq (hlen : len ≤ hay.length) (n i : Nat) (hi : i ≤ textLen hay len)
    (hn : i + n = len) :
    readStrnlen (readable hay len) i n = .ok (textLen hay len) := by
  induction n generalizing i with
  | zero =>
      have hle := textLen_le hay len
      rw [readStrnlen]
      congr 1
      omega
  | succ n ih =>
      rw [readStrnlen]
      by_cases hlt : i < textLen hay len
      · obtain ⟨c, hc, hne⟩ := readAt_of_lt_textLen hlen hlt
        rw [hc, Checked.ok_bind, if_neg hne]
        exact ih (i + 1) hlt (by omega)
      · have heq : i = textLen hay len := by omega
        subst heq
        rw [readAt_textLen hlen (by omega), Checked.ok_bind, if_pos rfl]

/-- What `memcmp` reads of the haystack. -/
theorem slice_readable (hlen : len ≤ hay.length) {off n : Nat} (h : off + n ≤ textLen hay len) :
    Checked.slice (readable hay len) off n = .ok ((hay.drop off).take n) := by
  have hle := textLen_le hay len
  have hmin : off + n ≤ min len (textLen hay len + 1) := by omega
  rw [Checked.slice_of_le (by rw [length_readable hlen]; exact hmin), readable, List.drop_take,
    List.take_take, Nat.min_eq_left (by omega)]

/-- A round that has bytes enough left. -/
theorem scanRound_of_le {n l off : Nat} (hlen : len ≤ hay.length) (hle : n ≤ l + 1)
    (hoff : off + n ≤ textLen hay len) (hneedle : n ≤ needle.length) :
    scanRound (readable hay len) needle n (off, l + 1) =
      if (hay.drop off).take n = needle.take n then .ok (.done (some off))
      else .ok (.next (off + 1, l)) := by
  have hkey : Checked.slice needle 0 n = .ok (needle.take n) := by
    rw [Checked.slice_of_le (by omega), List.drop_zero]
  have hsub : Checked.sub (l + 1) 1 = .ok l := Checked.sub_of_le (by omega)
  simp only [scanRound, if_pos hle, hsub, slice_readable hlen hoff, hkey, Checked.ok_bind]

/-- **The loop** ends with what the recursion returns, and `memcmp` stays in
the text. -/
theorem whileTrue_scanRound {n : Nat} (hlen : len ≤ hay.length) (hn : 0 < n)
    (hneedle : n ≤ textLen hay len → n ≤ needle.length) :
    whileTrue (scanRound (readable hay len) needle n) (textLen hay len + 1)
        (0, textLen hay len) =
      .ok (some (strnstrLoop needle n (textLen hay len) hay)) := by
  have hloop : ∃ r, whileTrue (scanRound (readable hay len) needle n) (textLen hay len + 1)
      (0, textLen hay len) = .ok (some r) ∧ r = strnstrLoop needle n (textLen hay len) hay := by
    -- the rest of the scan, from where the pointer stands, has the same result
    refine whileTrue_of_measure
      (fun s => s.1 + s.2 = textLen hay len ∧
        (strnstrLoop needle n s.2 (hay.drop s.1)).map (· + s.1) =
          strnstrLoop needle n (textLen hay len) hay)
      (fun r => r = strnstrLoop needle n (textLen hay len) hay) (fun s => s.2) ?_
      ⟨Nat.zero_add _, by simp⟩ (Nat.lt_succ_self _)
    rintro ⟨off, l⟩ ⟨hsum, hrest⟩
    simp only at hsum hrest
    by_cases hle : n ≤ l
    · obtain ⟨l, rfl⟩ : ∃ l', l = l' + 1 := ⟨l - 1, by omega⟩
      have hround := scanRound_of_le hlen hle (show off + n ≤ textLen hay len by omega)
        (hneedle (by omega))
      rw [strnstrLoop, if_pos hle] at hrest
      by_cases hhit : (hay.drop off).take n = needle.take n
      · refine Or.inl ⟨some off, hround.trans (if_pos hhit), ?_⟩
        rw [← hrest, if_pos hhit, Option.map_some, Nat.zero_add]
      · refine Or.inr ⟨_, hround.trans (if_neg hhit), ⟨by simp only; omega, ?_⟩, Nat.lt_succ_self l⟩
        rw [← hrest, if_neg hhit, List.tail_drop, Option.map_map]
        congr 1
        funext i
        simp only [Function.comp_apply]
        omega
    · refine Or.inl ⟨none, if_neg hle, ?_⟩
      rw [← hrest]
      cases l with
      | zero => rfl
      | succ l => rw [strnstrLoop, if_neg hle, Option.map_none]
  obtain ⟨r, hr, rfl⟩ := hloop
  exact hr

theorem strnlen_eq_textLen (hlen : len ≤ hay.length) : strnlen hay len = textLen hay len := by
  have hfind : (hay.take len).findIdx (fun c => !decide (c ≠ 0)) = textLen hay len := by
    rw [List.findIdx_take, textLen, List.idxOf]
    congr 2
    funext c
    rw [beq_eq_decide, decide_not, Bool.not_not]
  rw [strnlen, strlen, cstr, List.takeWhile_eq_take_findIdx_not, List.length_take, hfind,
    List.length_take]
  have hle := textLen_le hay len
  omega

theorem scanLen_eq_textLen (hlen : len ≤ hay.length) (hshort : len < 2 ^ 31) :
    scanLen hay len = textLen hay len := by
  have hle := strnlen_le hay len
  rw [scanLen_eq_strnlen (by omega), strnlen_eq_textLen hlen]

/-! ### The length of the needle -/

/-- The length that the loop has is cut off at 32 bits, or is huge. -/
theorem toSizeT_toInt_cases (n : Nat) :
    n % 2 ^ 32 < 2 ^ 31 ∧ toSizeT (toInt n) = n % 2 ^ 32 ∨
      2 ^ 31 ≤ n % 2 ^ 32 ∧ 2 ^ 31 ≤ toSizeT (toInt n) := by
  have hmod : toInt n = toInt (n % 2 ^ 32) := by
    have hmod : n % 2 ^ 32 % 4294967296 = n % 4294967296 := by omega
    unfold toInt
    rw [hmod]
  have hlt : n % 2 ^ 32 < 2 ^ 32 := Nat.mod_lt _ (by decide)
  rw [hmod]
  by_cases hsmall : n % 2 ^ 32 < 2 ^ 31
  · exact Or.inl ⟨hsmall, toSizeT_toInt_of_lt hsmall⟩
  · refine Or.inr ⟨by omega, ?_⟩
    rw [toSizeT_toInt_of_ge (by omega) hlt]
    omega

theorem toInt_eq_zero_iff (n : Nat) : toInt n = 0 ↔ n % 2 ^ 32 = 0 := by
  unfold toInt
  split_ifs <;> omega

/-- **The scan ends** and reads the text and its NUL only. -/
theorem runStrnstr_eq (hlen : len ≤ hay.length) (hshort : len < 2 ^ 31) (hnul : 0 ∉ needle) :
    ∃ rounds, runStrnstr (readable hay len) needle len rounds =
      .ok (some (strnstr hay needle len)) := by
  have hle := textLen_le hay len
  refine ⟨textLen hay len + 1, ?_⟩
  simp only [runStrnstr, strnstr, strlen_of_nulFree hnul, toInt_eq_zero_iff]
  by_cases hzero : needle.length % 2 ^ 32 = 0
  · rw [if_pos hzero, if_pos hzero]
  · have hcut : (if len > toSizeT (toInt (textLen hay len)) then
        toSizeT (toInt (textLen hay len)) else len) = textLen hay len := by
      rw [toSizeT_toInt_of_lt (by omega)]
      split_ifs <;> omega
    rw [if_neg hzero, if_neg hzero, readStrnlen_eq hlen len 0 (Nat.zero_le _) (Nat.zero_add _),
      Checked.ok_bind, hcut, scanLen_eq_textLen hlen hshort]
    rcases toSizeT_toInt_cases needle.length with ⟨-, hn⟩ | ⟨-, hn⟩
    · rw [hn]
      exact whileTrue_scanRound hlen (by omega) fun _ => Nat.mod_le _ _
    · exact whileTrue_scanRound hlen (by omega) fun h => by omega

end Reads

/-! ## The first occurrence -/

/-- What the scan returns, for a needle whose length is cut off to `n`. -/
theorem strnstr_eq {hay needle : Bytes} {len : Nat} (hlen : len ≤ hay.length)
    (hshort : len < 2 ^ 31) (hnul : 0 ∉ needle) (hn : needle.length % 2 ^ 32 ≠ 0) :
    strnstr hay needle len =
      strnstrLoop needle (toSizeT (toInt needle.length)) (textLen hay len) hay := by
  simp only [strnstr, strlen_of_nulFree hnul, toInt_eq_zero_iff]
  rw [if_neg hn, scanLen_eq_textLen hlen hshort]

theorem strnstrLoop_eq_none_iff {needle : Bytes} {n : Nat} (hn : 0 < n) (len : Nat)
    (hay : Bytes) :
    strnstrLoop needle n len hay = none ↔ ∀ i, i + n ≤ len → ¬ OccursAt needle n hay i := by
  constructor
  · intro hnone i
    -- an occurrence would have a first one before it, which is found
    induction i using Nat.strong_induction_on with
    | _ i ih =>
        intro hi hat
        have hsome := (strnstrLoop_eq_some_iff hn len hay i).2
          ⟨hi, hat, fun k hk => ih k hk (by omega)⟩
        rw [hnone] at hsome
        cases hsome
  · intro h
    cases hloop : strnstrLoop needle n len hay with
    | none => rfl
    | some i =>
        obtain ⟨hi, hat, -⟩ := (strnstrLoop_eq_some_iff hn len hay i).1 hloop
        exact absurd hat (h i hi)

theorem isFirst_strnstrLoop {needle : Bytes} (hne : needle ≠ []) (L : Nat) (hay : Bytes) :
    IsFirst needle hay L (strnstrLoop needle needle.length L hay) := by
  have hn := List.length_pos_iff.2 hne
  cases hloop : strnstrLoop needle needle.length L hay with
  | none => exact (strnstrLoop_eq_none_iff hn L hay).1 hloop
  | some i => exact (strnstrLoop_eq_some_iff hn L hay i).1 hloop

/-- A needle that is longer than the text does not occur. -/
theorem isFirst_iff_none {needle hay : Bytes} {L : Nat} {r : Option Nat}
    (hlong : L < needle.length) : IsFirst needle hay L r ↔ r = none := by
  cases r with
  | none => exact iff_of_true (fun i hi => by omega) rfl
  | some i =>
      refine iff_of_false ?_ (by simp)
      rintro ⟨hi, -⟩
      omega

/-- **`strnstr` finds the first occurrence** exactly when the needle is
shorter than 2³² bytes, or the length that the cast to `int` leaves is
negative, or it is positive and so many of its bytes do not occur. -/
theorem findsFirst_iff {hay needle : Bytes} {len : Nat} (hlen : len ≤ hay.length)
    (hshort : len < 2 ^ 31) (hne : needle ≠ []) (hnul : 0 ∉ needle) :
    FindsFirst hay needle len ↔
      needle.length < 2 ^ 32 ∨ 2 ^ 31 ≤ needle.length % 2 ^ 32 ∨
        needle.length % 2 ^ 32 ≠ 0 ∧ ∀ i, i + needle.length % 2 ^ 32 ≤ textLen hay len →
          ¬ OccursAt needle (needle.length % 2 ^ 32) hay i := by
  have hruns := runStrnstr_eq hlen hshort hnul
  have hle := textLen_le hay len
  have hpos := List.length_pos_iff.2 hne
  have hfirst : FindsFirst hay needle len ↔
      IsFirst needle hay (textLen hay len) (strnstr hay needle len) :=
    ⟨fun h => h.first, fun h => ⟨hruns, h⟩⟩
  rw [hfirst]
  by_cases hzero : needle.length % 2 ^ 32 = 0
  · -- the length is taken for 0, and the haystack is returned
    have hstart : strnstr hay needle len = some 0 := by
      simp only [strnstr, strlen_of_nulFree hnul, toInt_eq_zero_iff]
      rw [if_pos hzero]
    rw [isFirst_iff_none (by omega), hstart]
    refine iff_of_false (by simp) ?_
    rintro (h | h | h) <;> omega
  · rw [strnstr_eq hlen hshort hnul hzero]
    rcases toSizeT_toInt_cases needle.length with ⟨hsmall, hn⟩ | ⟨hbig, hn⟩
    · rw [hn]
      by_cases hshortNeedle : needle.length < 2 ^ 32
      · rw [Nat.mod_eq_of_lt hshortNeedle]
        exact iff_of_true (isFirst_strnstrLoop hne _ _) (Or.inl hshortNeedle)
      · rw [isFirst_iff_none (by omega), strnstrLoop_eq_none_iff (by omega)]
        constructor
        · intro h
          exact Or.inr (Or.inr ⟨hzero, h⟩)
        · rintro (h | h | ⟨-, h⟩)
          · exact absurd h hshortNeedle
          · omega
          · exact h
    · -- the length is huge, and so is the needle
      refine iff_of_true ?_ (Or.inr (Or.inl hbig))
      rw [isFirst_iff_none (by have := Nat.mod_le needle.length (2 ^ 32); omega),
        strnstrLoop_eq_none_iff (by omega)]
      intro i hi
      omega

theorem findsFirst_atEnd : FindsFirst (lit "ab\r\n") (lit "\r\n") 4 :=
  (findsFirst_iff (by decide) (by decide) (by decide) (by decide)).2 (Or.inl (by decide))

/-- A needle whose length is taken for 0 is found in an empty haystack. -/
theorem not_findsFirst_nil {needle : Bytes} (hlength : needle.length = 2 ^ 32)
    (hnul : 0 ∉ needle) : ¬ FindsFirst [] needle 0 := by
  have hstart : strnstr [] needle 0 = some 0 := by
    simp only [strnstr, strlen_of_nulFree hnul, toInt_eq_zero_iff]
    rw [if_pos (by omega)]
  rintro ⟨-, hfirst⟩
  rw [hstart, isFirst_iff_none (by rw [hlength]; decide)] at hfirst
  cases hfirst

/-- 2³² letters. -/
theorem not_findsFirst_longNeedle : ¬ FindsFirst [] (List.replicate (2 ^ 32) 97) 0 :=
  not_findsFirst_nil List.length_replicate fun h =>
    absurd (List.eq_of_mem_replicate h) (by decide)

end Unixtar.Str
