import Unixtar.Lib.XorLinear
import Unixtar.Utils.Sha1Refinement

/-!
# What `Digest` does to the message

A whole block of the message is overwritten with the last sixteen words of its
schedule.  It stays what it was only if these words are the first sixteen in
the other byte order, and then it is zero: expansion and byte order are linear
over the field of two elements, and a word goes through the powers of
`x ↦ rotl 1 x + x`, which is nilpotent.  The byte order changes a word only
below the power the word is at, so each power in turn gives a schedule that
comes back after 64 words, and such a schedule is zero.

## Main results

* `eq_zero_of_periodic` — a schedule of period 64 is zero.
* `eq_zero_of_swapped` — a block that survives its expansion is zero.
* `unchanged_iff`
-/

namespace Unixtar.Md

open Unixtar.Lib
open Unixtar.Lib.Sha1 (Word rotl schedule blockWord)

/-! ## Words as vectors -/

theorem getLsbD_rotl {n i : Nat} (x : Word) (hn : n ≤ 32) (hi : i < 32) :
    (rotl n x).getLsbD i = if i < n then x.getLsbD (32 - n + i) else x.getLsbD (i - n) := by
  unfold rotl
  simp only [BitVec.getLsbD_or, BitVec.getLsbD_shiftLeft, BitVec.getLsbD_ushiftRight, hi,
    decide_true, Bool.true_and]
  split
  · rename_i hlt
    simp [hlt]
  · rename_i hge
    rw [BitVec.getLsbD_of_ge x (32 - n + i) (by omega)]
    simp [hge]

theorem xorLinear_rotl {n : Nat} (hn : n ≤ 32) : XorLinear (rotl n) := by
  intro x y
  apply BitVec.eq_of_getLsbD_eq
  intro i hi
  rw [BitVec.getLsbD_xor, getLsbD_rotl _ hn hi, getLsbD_rotl _ hn hi, getLsbD_rotl _ hn hi]
  split
  · rw [BitVec.getLsbD_xor]
  · rw [BitVec.getLsbD_xor]

theorem xorLinear_swapBytes : XorLinear swapBytes := by
  have hswap : swapBytes = fun x => (rotl 24 x &&& 0xFF00FF00) ^^^ (rotl 8 x &&& 0x00FF00FF) := by
    funext x
    show (rotl 24 x &&& 0xFF00FF00) ||| (rotl 8 x &&& 0x00FF00FF) = _
    apply BitVec.eq_of_getLsbD_eq
    intro i hi
    simp only [BitVec.getLsbD_or, BitVec.getLsbD_xor, BitVec.getLsbD_and]
    interval_cases i <;> simp
  rw [hswap]
  exact ((xorLinear_rotl (by omega)).and _).xor ((xorLinear_rotl (by omega)).and _)

/-- `x ↦ rotl 1 x + x`. -/
def diff (x : Word) : Word := rotl 1 x ^^^ x

/-- The sums of the bits of a word up to each of them. -/
def sums (x : Word) : Word :=
  let x := x ^^^ (x <<< 1)
  let x := x ^^^ (x <<< 2)
  let x := x ^^^ (x <<< 4)
  let x := x ^^^ (x <<< 8)
  x ^^^ (x <<< 16)

theorem xorLinear_diff : XorLinear diff := (xorLinear_rotl (by omega)).xor XorLinear.id

theorem xorLinear_sums : XorLinear sums := by
  have hadd : ∀ n, XorLinear fun x : Word => x ^^^ (x <<< n) := fun n =>
    XorLinear.id.xor (XorLinear.id.shiftLeft n)
  exact (hadd 16).comp ((hadd 8).comp ((hadd 4).comp ((hadd 2).comp (hadd 1))))

/-- `diff` is nilpotent. -/
theorem iterate_diff_last (x : Word) : diff^[32] x = 0 := by
  have hzero : XorLinear fun _ : Word => (0 : Word) := fun _ _ => (BitVec.xor_self).symm
  exact (xorLinear_diff.iterate 32).ext_twoPow hzero (by decide +kernel) x

/-- A word with an even number of ones is a difference. -/
theorem diff_sums {x : Word} (h : diff^[31] x = 0) : diff (sums x) = x := by
  have hlinear : ∀ x, diff (sums x) = x ^^^ (diff^[31] x &&& 1) :=
    (xorLinear_diff.comp xorLinear_sums).ext_twoPow
      (XorLinear.id.xor ((xorLinear_diff.iterate 31).and 1)) (by decide +kernel)
  have hmasked : (0 : Word) &&& 1 = 0#32 := rfl
  rw [hlinear, h, hmasked, BitVec.xor_zero]

/-- The byte order does not matter in the top power of a word. -/
theorem iterate_diff_swapBytes {j : Nat} (hj : j < 32) (x : Word) :
    diff^[31 - j] (swapBytes (diff^[j] x)) = diff^[31] x := by
  have hcheck : ∀ j < 32, ∀ i < 32,
      diff^[31 - j] (swapBytes (diff^[j] (BitVec.twoPow 32 i))) =
        diff^[31] (BitVec.twoPow 32 i) := by decide +kernel
  exact ((xorLinear_diff.iterate (31 - j)).comp
    (xorLinear_swapBytes.comp (xorLinear_diff.iterate j))).ext_twoPow (xorLinear_diff.iterate 31)
      (hcheck j hj) x

/-! ## Schedules -/

/-- The recurrence of a schedule. -/
def IsSchedule (s : Nat → Word) : Prop :=
  ∀ t, s (t + 16) = rotl 1 (s (t + 13) ^^^ s (t + 8) ^^^ s (t + 2) ^^^ s t)

theorem isSchedule_schedule (m : Nat → Word) : IsSchedule (schedule m) := Sha1.schedule_of_le m

/-- Sixteen words determine a schedule. -/
theorem IsSchedule.ext {s u : Nat → Word} (hs : IsSchedule s) (hu : IsSchedule u)
    (h : ∀ t, t < 16 → s t = u t) (t : Nat) : s t = u t := by
  induction t using Nat.strong_induction_on with
  | _ t ih =>
      by_cases ht : t < 16
      · exact h t ht
      · obtain ⟨r, rfl⟩ : ∃ r, t = r + 16 := ⟨t - 16, by omega⟩
        rw [hs r, hu r, ih (r + 13) (by omega), ih (r + 8) (by omega), ih (r + 2) (by omega),
          ih r (by omega)]

theorem IsSchedule.shift {s : Nat → Word} (hs : IsSchedule s) (n : Nat) :
    IsSchedule fun t => s (t + n) := by
  intro t
  show s (t + 16 + n) = rotl 1 (s (t + 13 + n) ^^^ s (t + 8 + n) ^^^ s (t + 2 + n) ^^^ s (t + n))
  rw [show t + 16 + n = t + n + 16 by omega, show t + 13 + n = t + n + 13 by omega,
    show t + 8 + n = t + n + 8 by omega, show t + 2 + n = t + n + 2 by omega, hs (t + n)]

theorem IsSchedule.xor {s u : Nat → Word} (hs : IsSchedule s) (hu : IsSchedule u) :
    IsSchedule fun t => s t ^^^ u t := by
  intro t
  show s (t + 16) ^^^ u (t + 16) = _
  rw [hs t, hu t, ← xorLinear_rotl (by omega)]
  congr 1
  dsimp only
  ac_rfl

theorem isSchedule_diff {s : Nat → Word} (hs : IsSchedule s) : IsSchedule fun t => diff (s t) := by
  have hrotl : IsSchedule fun t => rotl 1 (s t) := by
    intro t
    have hlinear := xorLinear_rotl (n := 1) (by omega)
    show rotl 1 (s (t + 16)) =
      rotl 1 (rotl 1 (s (t + 13)) ^^^ rotl 1 (s (t + 8)) ^^^ rotl 1 (s (t + 2)) ^^^ rotl 1 (s t))
    rw [hs t, ← hlinear, ← hlinear, ← hlinear]
  exact hrotl.xor hs

theorem isSchedule_iterate_diff {s : Nat → Word} (hs : IsSchedule s) (n : Nat) :
    IsSchedule fun t => diff^[n] (s t) := by
  induction n with
  | zero => exact hs
  | succ n ih =>
      have hdiff := isSchedule_diff ih
      simp only [← Function.iterate_succ_apply'] at hdiff
      exact hdiff

/-- Words that come back after `n` places are zero. -/
def OnlyZero (n : Nat) : Prop := ∀ s, IsSchedule s → (∀ t, s (t + n) = s t) → ∀ t, s t = 0

theorem onlyZero_one : OnlyZero 1 := by
  intro s hs hperiod t
  have hconst : ∀ n, s (t + n) = s t := by
    intro n
    induction n with
    | zero => rfl
    | succ n ih =>
        rw [← Nat.add_assoc, hperiod, ih]
  have hrec := hs t
  rw [hconst, hconst, hconst, hconst, BitVec.xor_self, BitVec.zero_xor, BitVec.xor_self] at hrec
  rw [hrec]
  rfl

/-- In a field of two elements `(s² + 1) = (s + 1)²`. -/
theorem OnlyZero.double {n : Nat} (h : OnlyZero n) : OnlyZero (n + n) := by
  intro s hs hperiod
  have hdiff : ∀ t, s (t + n) ^^^ s t = 0 := by
    apply h _ ((hs.shift n).xor hs)
    intro t
    show s (t + n + n) ^^^ s (t + n) = _
    rw [Nat.add_assoc, hperiod, BitVec.xor_comm]
  apply h s hs
  intro t
  exact BitVec.xor_eq_zero_iff.1 (hdiff t)

/-- A schedule of period 64 is zero. -/
theorem eq_zero_of_periodic {s : Nat → Word} (hs : IsSchedule s) (hperiod : ∀ t, s (t + 64) = s t)
    (t : Nat) : s t = 0 :=
  onlyZero_one.double.double.double.double.double.double s hs hperiod t

/-! ## Blocks that survive -/

/-- The words of a block are differences of higher and higher order. -/
theorem exists_iterate_diff {m : Nat → Word} (h : ∀ i < 16, schedule m (64 + i) = swapBytes (m i))
    {j : Nat} (hj : j ≤ 32) : ∃ u : Nat → Word, ∀ i < 16, m i = diff^[j] (u i) := by
  induction j with
  | zero => exact ⟨m, fun _ _ => rfl⟩
  | succ j ih =>
      obtain ⟨u, hu⟩ := ih (by omega)
      have hpower : ∀ t, schedule m t = diff^[j] (schedule u t) := by
        apply (isSchedule_schedule m).ext (isSchedule_iterate_diff (isSchedule_schedule u) j)
        intro t ht
        rw [Sha1.schedule_of_lt m ht, Sha1.schedule_of_lt u ht]
        exact hu t ht
      -- in the top power the block comes back after 64 words
      have hback : ∀ i, i < 16 → diff^[31] (schedule u (i + 64)) = diff^[31] (schedule u i) := by
        intro i hi
        have hword := h i hi
        rw [hu i hi, Nat.add_comm, hpower] at hword
        have htop := iterate_diff_swapBytes (by omega : j < 32) (u i)
        rw [← hword, ← Function.iterate_add_apply, Nat.sub_add_cancel (by omega)] at htop
        rw [htop, Sha1.schedule_of_lt u hi]
      have htop := isSchedule_iterate_diff (isSchedule_schedule u) 31
      have hzero := eq_zero_of_periodic htop fun t => (htop.shift 64).ext htop hback t
      refine ⟨fun i => sums (u i), fun i hi => ?_⟩
      have hlast := hzero i
      rw [Sha1.schedule_of_lt u hi] at hlast
      rw [Function.iterate_succ_apply, diff_sums hlast, hu i hi]

/-- **A block that survives its expansion** is zero. -/
theorem eq_zero_of_swapped {m : Nat → Word}
    (h : ∀ i < 16, schedule m (64 + i) = swapBytes (m i)) {i : Nat} (hi : i < 16) : m i = 0 := by
  obtain ⟨u, hu⟩ := exists_iterate_diff h (Nat.le_refl 32)
  rw [hu i hi, iterate_diff_last]

theorem wordAt_toChars {l : List Word} {i : Nat} (hi : i < l.length) :
    wordAt (toChars l) i = l[i] := by
  induction l generalizing i with
  | nil => exact absurd hi (Nat.not_lt_zero i)
  | cons x l ih =>
      have hcons : toChars (x :: l) = [UInt8.ofBitVec (x.extractLsb' 0 8),
          UInt8.ofBitVec (x.extractLsb' 8 8), UInt8.ofBitVec (x.extractLsb' 16 8),
          UInt8.ofBitVec (x.extractLsb' 24 8)] ++ toChars l := List.flatMap_cons
      rw [hcons]
      cases i with
      | zero =>
          show x.extractLsb' 24 8 ++ x.extractLsb' 16 8 ++ x.extractLsb' 8 8 ++
            x.extractLsb' 0 8 = x
          apply BitVec.eq_of_getLsbD_eq
          intro i hi
          simp only [BitVec.getLsbD_append, BitVec.getLsbD_extractLsb']
          interval_cases i <;> simp
      | succ i =>
          rw [List.getElem_cons_succ, ← ih (Nat.lt_of_succ_lt_succ hi)]
          rfl

theorem swapBytes_blockWord (buf : Bytes) (i : Nat) : swapBytes (blockWord buf i) = wordAt buf i :=
  swapBytes_append _ _ _ _

/-- A block of zeros stays one. -/
theorem toChars_lastWords_of_zero {m : Nat → Word} (h : ∀ i < 16, m i = 0) :
    toChars (lastWords m) = List.replicate 64 0 := by
  have hzero : IsSchedule fun _ => (0 : Word) := fun _ => by
    show (0 : Word) = rotl 1 (0 ^^^ 0 ^^^ 0 ^^^ 0)
    decide
  have hall : ∀ t, schedule m t = 0 := by
    apply (isSchedule_schedule m).ext hzero
    intro t ht
    rw [Sha1.schedule_of_lt m ht, h t ht]
  unfold lastWords
  simp only [hall]
  rfl

theorem expand_eq_self_iff (b : Bytes) :
    toChars (lastWords (blockWord b)) = b ↔ b = List.replicate 64 0 := by
  constructor
  · intro h
    have hlen : (lastWords (blockWord b)).length = 16 := by simp [lastWords]
    have hswapped : ∀ i < 16, schedule (blockWord b) (64 + i) = swapBytes (blockWord b i) := by
      intro i hi
      have hword := wordAt_toChars (l := lastWords (blockWord b)) (i := i) (by omega)
      rw [h] at hword
      rw [swapBytes_blockWord, hword]
      simp [lastWords]
    rw [← h]
    exact toChars_lastWords_of_zero fun i hi => eq_zero_of_swapped hswapped hi
  · intro h
    rw [h]
    apply toChars_lastWords_of_zero
    decide

theorem expandBlocks_eq_self_iff {n : Nat} {body : Bytes} (hbody : body.length = 64 * n) :
    expandBlocks body n = body ↔ ∀ c ∈ body, c = 0 := by
  induction n generalizing body with
  | zero =>
      have hnil : body = [] := List.length_eq_zero_iff.1 (by omega)
      rw [hnil]
      exact ⟨fun _ c hc => absurd hc List.not_mem_nil, fun _ => rfl⟩
  | succ n ih =>
      obtain ⟨b, rest, rfl, hb, hrest⟩ := exists_firstBlock hbody
      have hlen : (toChars (lastWords (blockWord b))).length = b.length := by
        rw [length_toChars_lastWords, hb]
      rw [expandBlocks_cons hb]
      constructor
      · intro h
        obtain ⟨hhead, htail⟩ := List.append_inj h hlen
        intro c hc
        rcases List.mem_append.1 hc with hc | hc
        · rw [(expand_eq_self_iff b).1 hhead] at hc
          exact List.eq_of_mem_replicate hc
        · exact (ih hrest).1 htail c hc
      · intro h
        have hzeros : b = List.replicate 64 0 :=
          List.eq_replicate_iff.2 ⟨hb, fun c hc => h c (List.mem_append_left _ hc)⟩
        rw [(expand_eq_self_iff b).2 hzeros,
          (ih hrest).2 fun c hc => h c (List.mem_append_right _ hc)]

/-! ## Main theorem -/

/-- The whole blocks of the message have only zero bytes. -/
def WholeBlocksZero (msg : Bytes) : Prop := ∀ c ∈ msg.take (64 * (msg.length / 64)), c = 0

/-- `Digest` leaves the message as it was, and gives the same result again. -/
structure Unchanged (msg : Bytes) : Prop where
  same : (digest msg).msg = msg
  again : (digest (digest msg).msg).res = (digest msg).res

theorem digest_msg_eq_iff (msg : Bytes) : (digest msg).msg = msg ↔ WholeBlocksZero msg := by
  obtain ⟨n, body, tail, rfl, hbody, htail⟩ := exists_blocks msg
  obtain ⟨states, -, hdigest⟩ := digest_eq hbody htail
  have hwhole : 64 * ((body ++ tail).length / 64) = body.length := by
    rw [List.length_append]
    omega
  rw [hdigest, WholeBlocksZero, hwhole, List.take_left, ← expandBlocks_eq_self_iff hbody]
  exact List.append_left_inj tail

/-- **The message** is left unchanged exactly when its whole blocks are zero:
every other block is overwritten with its schedule. -/
theorem unchanged_iff (msg : Bytes) : Unchanged msg ↔ WholeBlocksZero msg := by
  constructor
  · intro h
    exact (digest_msg_eq_iff msg).1 h.same
  · intro h
    have hmsg := (digest_msg_eq_iff msg).2 h
    exact ⟨hmsg, by rw [hmsg]⟩

/-- A message of one block. -/
def oneBlock : Bytes := List.replicate 64 97

theorem not_unchanged_oneBlock :
    ¬ Unchanged oneBlock ∧ (digest oneBlock).msg ≠ oneBlock ∧
      (digest (digest oneBlock).msg).res ≠ (digest oneBlock).res := by
  have hagain : (digest (digest oneBlock).msg).res ≠ (digest oneBlock).res := by decide +kernel
  refine ⟨fun h => hagain h.again, ?_, hagain⟩
  intro h
  rw [h] at hagain
  exact hagain rfl

end Unixtar.Md
