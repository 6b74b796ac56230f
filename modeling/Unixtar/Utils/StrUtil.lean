import Mathlib.Algebra.Group.Int.Defs
import Mathlib.Algebra.Group.Nat.Defs
import Mathlib.Data.List.Basic
import Mathlib.Data.List.Infix
import Mathlib.Data.List.TakeWhile
import Mathlib.Tactic.SplitIfs

/-!
# Byte strings: `utils/strutil.cc` and the C library calls around it

A buffer is the list of its bytes, a pointer into it the list of the bytes
from there on, so a returned pointer is an offset.  `char` is the byte it
is stored in.

The scan `strnstr` keeps the source's `int` variables: `strnlen` is cast to
a 32-bit `int` and compared with a `size_t`, so from 2³² NUL-free bytes on
the scan covers only a prefix (`scanLen`).

## Main results

* `strnstr_eq_some_iff` — the scan returns the first offset at which the
  needle occurs inside the scanned prefix.
* `strnstr_unique` — two scans of buffers with a common prefix that both
  find the needle there find it at the same offset.
* `scanLen_mono` — below 2³² NUL-free bytes more input never shortens the
  scanned prefix.
-/

namespace Unixtar

/-- The contents of a buffer or of a `std::string`. -/
abbrev Bytes := List UInt8

/-! `std::map` sorts its keys by `std::string`'s lexicographic order. -/

instance instTrichotomousBytes : Std.Trichotomous (α := Bytes) (· < ·) := inferInstance

instance instTransBytes : Trans (α := Bytes) (· < ·) (· < ·) (· < ·) := inferInstance

/-- The bytes of a string literal of the source (all of them ASCII). -/
def lit (s : String) : Bytes := s.toList.map fun c => UInt8.ofNat c.toNat

namespace Str

/-! ## Integer conversions of the x86-64 target -/

/-- Conversion of a `size_t` to a 32-bit `int`: the low 32 bits, in two's
complement. -/
def toInt (n : Nat) : Int :=
  if n % 4294967296 < 2147483648 then ((n % 4294967296 : Nat) : Int)
  else ((n % 4294967296 : Nat) : Int) - 4294967296

/-- Conversion of an `int` to a 64-bit `size_t`. -/
def toSizeT (i : Int) : Nat := (i % 18446744073709551616).toNat

/-- Below 2³¹ the round trip through `int` is the identity. -/
theorem toSizeT_toInt_of_lt {n : Nat} (h : n < 2 ^ 31) :
    toSizeT (toInt n) = n := by
  have hint : toInt n = (n : Int) := by
    unfold toInt
    split_ifs <;> omega
  rw [hint, toSizeT]
  omega

/-- From 2³¹ up to 2³² the `int` is negative, a huge `size_t`. -/
theorem toSizeT_toInt_of_ge {n : Nat} (h : 2 ^ 31 ≤ n) (h' : n < 2 ^ 32) :
    toSizeT (toInt n) = 2 ^ 64 - 2 ^ 32 + n := by
  have hint : toInt n = (n : Int) - 2 ^ 32 := by
    unfold toInt
    split_ifs <;> omega
  rw [hint, toSizeT]
  omega

/-! ## C strings -/

/-- What a function that takes a `const char *` sees of `s`. -/
def cstr (s : Bytes) : Bytes := s.takeWhile (· ≠ 0)

/-- `strlen`. -/
def strlen (s : Bytes) : Nat := (cstr s).length

/-- `strnlen`. -/
def strnlen (s : Bytes) (len : Nat) : Nat := strlen (s.take len)

/-- `isspace` in the C locale. -/
def isSpace (c : UInt8) : Bool := c = 32 || (9 ≤ c && c ≤ 13)

def isDigit (c : UInt8) : Bool := 48 ≤ c && c ≤ 57

/-- The value of a run of decimal digits. -/
def digitsValue (ds : Bytes) : Nat :=
  ds.foldl (fun v d => v * 10 + (d.toNat - 48)) 0

/-- `strtoul(s, nullptr, 10)` for a 64-bit `unsigned long`: blanks, an
optional sign, digits; an overflow gives `ULONG_MAX`, a minus sign negates
modulo 2⁶⁴, and what follows the digits is ignored. -/
def strtoul (s : Bytes) : Nat :=
  let s := (cstr s).dropWhile isSpace
  let (neg, s) : Bool × Bytes :=
    match s with
    | 45 :: rest => (true, rest)
    | 43 :: rest => (false, rest)
    | _ => (false, s)
  let v := digitsValue (s.takeWhile isDigit)
  if 2 ^ 64 ≤ v then 2 ^ 64 - 1
  else if neg then (2 ^ 64 - v) % 2 ^ 64
  else v

/-- `strtol(s, nullptr, 10)` for a 64-bit `long`: as `strtoul`, but what does
not fit gives `LONG_MAX` or `LONG_MIN`. -/
def strtol (s : Bytes) : Int :=
  let s := (cstr s).dropWhile isSpace
  let (neg, s) : Bool × Bytes :=
    match s with
    | 45 :: rest => (true, rest)
    | 43 :: rest => (false, rest)
    | _ => (false, s)
  let v : Int := digitsValue (s.takeWhile isDigit)
  if neg then max (-v) (-2 ^ 63) else min v (2 ^ 63 - 1)

/-! ## `str::strnstr` -/

/-- The loop of `strnstr`: `len` is the source's `_len`, `n` the number of
bytes `memcmp` compares. -/
def strnstrLoop (needle : Bytes) (n : Nat) : Nat → Bytes → Option Nat
  | 0, _ => none
  | len + 1, hay =>
      if n ≤ len + 1 then
        if hay.take n = needle.take n then some 0
        else (strnstrLoop needle n len hay.tail).map (· + 1)
      else none

/-- `_len` after `_len = _len > len1 ? len1 : _len`: how many bytes of the
haystack the scan covers. -/
def scanLen (hay : Bytes) (len : Nat) : Nat :=
  let len1 : Int := toInt (strnlen hay len)
  if len > toSizeT len1 then toSizeT len1 else len

/-- `str::strnstr` on non-null pointers; the result is the offset of the
returned pointer. -/
def strnstr (hay needle : Bytes) (len : Nat) : Option Nat :=
  let len2 : Int := toInt (strlen needle)
  if len2 = 0 then some 0
  else strnstrLoop needle (toSizeT len2) (scanLen hay len) hay

/-- The needle's first `n` bytes stand at offset `i`. -/
def OccursAt (needle : Bytes) (n : Nat) (hay : Bytes) (i : Nat) : Prop :=
  (hay.drop i).take n = needle.take n

theorem strnstrLoop_eq_some_iff {needle : Bytes} {n : Nat} (hn : 0 < n)
    (len : Nat) (hay : Bytes) (i : Nat) :
    strnstrLoop needle n len hay = some i ↔
      i + n ≤ len ∧ OccursAt needle n hay i ∧
        ∀ k < i, ¬ OccursAt needle n hay k := by
  induction len generalizing hay i with
  | zero =>
      simp only [strnstrLoop]
      constructor
      · intro h
        cases h
      · rintro ⟨h, _⟩
        omega
  | succ len ih =>
      have htail : ∀ k, OccursAt needle n hay.tail k ↔
          OccursAt needle n hay (k + 1) := by
        intro k
        simp [OccursAt, List.drop_tail]
      have hzero : OccursAt needle n hay 0 ↔ hay.take n = needle.take n := by
        simp [OccursAt]
      rw [strnstrLoop]
      by_cases hle : n ≤ len + 1
      · rw [if_pos hle]
        by_cases hhit : hay.take n = needle.take n
        · rw [if_pos hhit]
          constructor
          · intro h
            cases h
            exact ⟨by omega, hzero.2 hhit, by simp⟩
          · rintro ⟨_, _, hfirst⟩
            have hi : i = 0 := by
              by_contra hi
              exact hfirst 0 (by omega) (hzero.2 hhit)
            rw [hi]
        · rw [if_neg hhit, Option.map_eq_some_iff]
          constructor
          · rintro ⟨j, hj, rfl⟩
            obtain ⟨hlen, hat, hfirst⟩ := (ih hay.tail j).1 hj
            refine ⟨by omega, (htail j).1 hat, ?_⟩
            intro k hk
            cases k with
            | zero => rwa [hzero]
            | succ k => exact fun h => hfirst k (by omega) ((htail k).2 h)
          · rintro ⟨hlen, hat, hfirst⟩
            cases i with
            | zero => exact absurd (hzero.1 hat) hhit
            | succ j =>
                refine ⟨j, (ih hay.tail j).2 ⟨by omega, (htail j).2 hat, ?_⟩, rfl⟩
                intro k hk h
                exact hfirst (k + 1) (by omega) ((htail k).1 h)
      · rw [if_neg hle]
        constructor
        · intro h
          cases h
        · rintro ⟨h, _⟩
          omega

theorem scanLen_le (hay : Bytes) (len : Nat) : scanLen hay len ≤ len := by
  simp only [scanLen]
  split <;> omega

theorem strnlen_le (s : Bytes) (len : Nat) : strnlen s len ≤ len := by
  have h := (List.takeWhile_prefix (fun c : UInt8 => decide (c ≠ 0))
    (l := s.take len)).length_le
  rw [List.length_take] at h
  simp only [strnlen, strlen, cstr]
  omega

/-- Below 2³¹ bytes the scan covers exactly the NUL-free prefix. -/
theorem scanLen_eq_strnlen {hay : Bytes} {len : Nat}
    (h : strnlen hay len < 2 ^ 31) : scanLen hay len = strnlen hay len := by
  have hle := strnlen_le hay len
  simp only [scanLen, toSizeT_toInt_of_lt h]
  split <;> omega

theorem strnlen_append_le (b c : Bytes) :
    strnlen b b.length ≤ strnlen (b ++ c) (b ++ c).length := by
  simp only [strnlen, strlen, cstr, List.take_length]
  rw [List.takeWhile_append]
  split
  · rw [List.length_append]
    omega
  · exact Nat.le_refl _

/-- Below 2³² bytes, appending input never shortens the scan. -/
theorem scanLen_mono {b c : Bytes} (h : (b ++ c).length < 2 ^ 32) :
    scanLen b b.length ≤ scanLen (b ++ c) (b ++ c).length := by
  have hmono := strnlen_append_le b c
  have hle := strnlen_le (b ++ c) (b ++ c).length
  by_cases hsmall : strnlen (b ++ c) (b ++ c).length < 2 ^ 31
  · rw [scanLen_eq_strnlen hsmall, scanLen_eq_strnlen (by omega)]
    exact hmono
  · -- the cast is negative, so the comparison keeps the whole length
    have hwhole : scanLen (b ++ c) (b ++ c).length = (b ++ c).length := by
      simp only [scanLen,
        toSizeT_toInt_of_ge (Nat.le_of_not_lt hsmall) (Nat.lt_of_le_of_lt hle h)]
      split <;> omega
    have hb := scanLen_le b b.length
    have hbc : b.length ≤ (b ++ c).length := by simp
    omega

/-- A literal needle: non-empty, NUL-free and shorter than 2³¹. -/
structure IsLiteral (needle : Bytes) : Prop where
  nonempty : needle ≠ []
  nulFree : 0 ∉ needle
  short : needle.length < 2 ^ 31

theorem cstr_of_nulFree {s : Bytes} (h : 0 ∉ s) : cstr s = s := by
  unfold cstr
  rw [List.takeWhile_eq_self_iff]
  intro c hc
  have hc0 : c ≠ 0 := fun h0 => h (h0 ▸ hc)
  simpa using hc0

theorem strlen_of_nulFree {s : Bytes} (h : 0 ∉ s) : strlen s = s.length := by
  rw [strlen, cstr_of_nulFree h]

theorem IsLiteral.strlen_eq {needle : Bytes} (h : IsLiteral needle) :
    strlen needle = needle.length :=
  strlen_of_nulFree h.nulFree

/-- On a literal needle the scan returns the first offset at which the
needle stands inside the scanned prefix. -/
theorem strnstr_eq_some_iff {needle : Bytes} (h : IsLiteral needle)
    (hay : Bytes) (len i : Nat) :
    strnstr hay needle len = some i ↔
      i + needle.length ≤ scanLen hay len ∧
        OccursAt needle needle.length hay i ∧
        ∀ k < i, ¬ OccursAt needle needle.length hay k := by
  have hpos : 0 < needle.length := List.length_pos_iff.2 h.nonempty
  have hsize := toSizeT_toInt_of_lt h.short
  have hint : toInt needle.length ≠ 0 := by
    intro h0
    rw [h0] at hsize
    have h00 : toSizeT 0 = 0 := by decide
    omega
  simp only [strnstr, h.strlen_eq, if_neg hint, hsize]
  exact strnstrLoop_eq_some_iff hpos _ _ _

/-- An occurrence that ends inside `b` is one of `b ++ c`, and conversely. -/
theorem occursAt_append {needle b : Bytes} {n i : Nat} (h : i + n ≤ b.length)
    (c : Bytes) : OccursAt needle n (b ++ c) i ↔ OccursAt needle n b i := by
  have hdrop : ((b ++ c).drop i).take n = (b.drop i).take n := by
    rw [List.drop_append_of_le_length (by omega),
      List.take_append_of_le_length (by rw [List.length_drop]; omega)]
  rw [OccursAt, OccursAt, hdrop]

/-- If the scan of `b` and the scan of `b ++ c` both find the needle, they
find it at the same offset. -/
theorem strnstr_unique {needle b c : Bytes} (h : IsLiteral needle) {i j : Nat}
    (hb : strnstr b needle b.length = some i)
    (hbc : strnstr (b ++ c) needle (b ++ c).length = some j) : i = j := by
  obtain ⟨hi, hati, hfirsti⟩ := (strnstr_eq_some_iff h _ _ _).1 hb
  obtain ⟨_, hatj, hfirstj⟩ := (strnstr_eq_some_iff h _ _ _).1 hbc
  have hib : i + needle.length ≤ b.length :=
    Nat.le_trans hi (scanLen_le b b.length)
  have hji : ¬ i < j := fun hlt =>
    hfirstj i hlt ((occursAt_append hib c).2 hati)
  have hij : ¬ j < i := fun hlt =>
    hfirsti j hlt ((occursAt_append (by omega) c).1 hatj)
  omega

/-- Below 2³² bytes a needle found in a prefix is found in the whole. -/
theorem strnstr_append {needle b c : Bytes} (h : IsLiteral needle) {i : Nat}
    (hlen : (b ++ c).length < 2 ^ 32)
    (hb : strnstr b needle b.length = some i) :
    strnstr (b ++ c) needle (b ++ c).length = some i := by
  obtain ⟨hi, hat, hfirst⟩ := (strnstr_eq_some_iff h _ _ _).1 hb
  have hib : i + needle.length ≤ b.length :=
    Nat.le_trans hi (scanLen_le b b.length)
  refine (strnstr_eq_some_iff h _ _ _).2
    ⟨Nat.le_trans hi (scanLen_mono hlen), (occursAt_append hib c).2 hat, ?_⟩
  intro k hk hocc
  exact hfirst k hk ((occursAt_append (by omega) c).1 hocc)

/-- What the scan returns lies inside the buffer. -/
theorem strnstr_add_le {needle hay : Bytes} (h : IsLiteral needle) {len i : Nat}
    (hs : strnstr hay needle len = some i) : i + needle.length ≤ len :=
  Nat.le_trans ((strnstr_eq_some_iff h _ _ _).1 hs).1 (scanLen_le hay len)

/-! ### Where the scan ends -/

/-- A scan over `n` bytes up to the first NUL reaches the first `a` of them:
`n` goes through an `int`. -/
def Reaches (n a : Nat) : Prop := a ≤ toSizeT (toInt n)

instance (n a : Nat) : Decidable (Reaches n a) := inferInstanceAs (Decidable (_ ≤ _))

/-- Below 2³² bytes every part is reached. -/
theorem reaches_of_lt {n a : Nat} (hn : n < 2 ^ 32) (ha : a ≤ n) : Reaches n a := by
  unfold Reaches
  by_cases hsmall : n < 2 ^ 31
  · rw [toSizeT_toInt_of_lt hsmall]
    exact ha
  · rw [toSizeT_toInt_of_ge (Nat.le_of_not_lt hsmall) hn]
    omega

theorem le_scanLen_iff {hay : Bytes} {a : Nat} (ha : a ≤ hay.length) :
    a ≤ scanLen hay hay.length ↔ Reaches (strlen hay) a := by
  have hnlen : strnlen hay hay.length = strlen hay := by
    rw [strnlen, List.take_length]
  simp only [scanLen, hnlen, Reaches]
  split <;> omega

theorem strlen_append {s t : Bytes} (h : 0 ∉ s) : strlen (s ++ t) = s.length + strlen t := by
  unfold strlen cstr
  rw [List.takeWhile_append_of_pos, List.length_append]
  intro c hc
  have hc0 : c ≠ 0 := fun h0 => h (h0 ▸ hc)
  simpa using hc0

theorem occursAt_iff_startsWith {needle hay : Bytes} {i : Nat} :
    OccursAt needle needle.length hay i ↔ needle <+: hay.drop i := by
  rw [OccursAt, List.take_length]
  constructor
  · intro h
    rw [← h]
    exact List.take_prefix _ _
  · rintro ⟨t, ht⟩
    rw [← ht, List.take_left]

/-- A scan for a needle whose first occurrence is known. -/
theorem strnstr_of_first {needle hay : Bytes} (h : IsLiteral needle) {i : Nat}
    (hat : needle <+: hay.drop i) (hfirst : ∀ k, k < i → ¬ needle <+: hay.drop k)
    (hi : i + needle.length ≤ hay.length) :
    strnstr hay needle hay.length =
      if Reaches (strlen hay) (i + needle.length) then some i else none := by
  split
  · rename_i hreach
    refine (strnstr_eq_some_iff h _ _ _).2 ⟨(le_scanLen_iff hi).2 hreach, ?_, ?_⟩
    · exact occursAt_iff_startsWith.2 hat
    · intro k hk hocc
      exact hfirst k hk (occursAt_iff_startsWith.1 hocc)
  · rename_i hreach
    cases hscan : strnstr hay needle hay.length with
    | none => rfl
    | some j =>
        obtain ⟨hlen, hocc, hfirstj⟩ := (strnstr_eq_some_iff h _ _ _).1 hscan
        have hji : ¬ j < i := fun hlt => hfirst j hlt (occursAt_iff_startsWith.1 hocc)
        have hij : ¬ i < j := fun hlt => hfirstj i hlt (occursAt_iff_startsWith.2 hat)
        have heq : j = i := by omega
        rw [heq] at hlen
        exact absurd ((le_scanLen_iff hi).1 hlen) hreach

/-! ## `str::split` -/

/-- `std::string::find` of a non-empty separator, from the start of `s`. -/
def find (sep : Bytes) : Bytes → Option Nat
  | [] => if sep = [] then some 0 else none
  | c :: cs =>
      if sep.isPrefixOf (c :: cs) then some 0 else (find sep cs).map (· + 1)

/-- The loop of `split`: `rest` is the source from `last` on, and the result
is `has`, the pieces pushed so far and what is left behind `last`.  Every
round consumes a separator, so the length of the source is enough fuel for
a non-empty one. -/
def splitLoop (sep : Bytes) : Nat → Bytes → Bool → List Bytes → Bool × List Bytes × Bytes
  | 0, rest, has, res => (has, res, rest)
  | fuel + 1, rest, has, res =>
      match find sep rest with
      | none => (has, res, rest)
      | some 0 => splitLoop sep fuel (rest.drop sep.length) has res
      | some (curr + 1) =>
          splitLoop sep fuel (rest.drop (curr + 1 + sep.length)) true
            (res ++ [rest.take (curr + 1)])

/-- `str::split` for a non-empty separator.  Empty pieces are skipped, and
the text behind the last separator counts only if a piece was pushed
before it. -/
def split (src sep : Bytes) : List Bytes :=
  let (has, res, rest) := splitLoop sep (src.length + 1) src false []
  if has && !rest.isEmpty then res ++ [rest] else res

example : split (lit "GET / HTTP/1.1") (lit " ") =
    [lit "GET", lit "/", lit "HTTP/1.1"] := by decide

end Str

end Unixtar
