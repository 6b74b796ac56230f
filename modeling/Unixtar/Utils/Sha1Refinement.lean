import Mathlib.Tactic.IntervalCases
import Unixtar.Utils.MessageDigest

/-!
# `md::Sha1` computes SHA-1

The eighty lines of `Sha1Transform` differ in the macro and in which variable
plays which role.  Line `t` gives the variables the roles of line 0, moved on
by `t` places, so that what the standard calls `a` at step `t` is in the
variable of role `v`.  The block holds the sixteen latest words of the
schedule, word `i` in place `i % 16`.

## Main results

* `simulates_step` — a line of `Sha1Transform` is a step of the standard.
* `sha1Transform_fst`, `sha1Transform_snd` — the new state, and the words left
  in the buffer.
* `digest_res`
-/

namespace Unixtar.Md

open Unixtar.Lib
open Unixtar.Lib.Sha1 (Word Five rotl ch maj parity schedule compress blockWord)

/-! ## Words -/

theorem swapBytes_append (b₀ b₁ b₂ b₃ : BitVec 8) :
    swapBytes (b₃ ++ b₂ ++ b₁ ++ b₀) = b₀ ++ b₁ ++ b₂ ++ b₃ := by
  apply BitVec.eq_of_getLsbD_eq
  intro i hi
  unfold swapBytes rol
  simp only [BitVec.getLsbD_or, BitVec.getLsbD_and, BitVec.getLsbD_shiftLeft,
    BitVec.getLsbD_ushiftRight, BitVec.getLsbD_append]
  interval_cases i <;> simp

/-- `blk0` reads the word that the standard reads. -/
theorem swapBytes_wordAt (buf : Bytes) (i : Nat) : swapBytes (wordAt buf i) = blockWord buf i :=
  swapBytes_append _ _ _ _

theorem mix_ch (w x y : Word) : (w &&& (x ^^^ y)) ^^^ y = ch w x y := by
  unfold ch
  apply BitVec.eq_of_getLsbD_eq
  intro i hi
  simp only [BitVec.getLsbD_xor, BitVec.getLsbD_and, BitVec.getLsbD_not, hi, decide_true,
    Bool.true_and]
  cases w.getLsbD i <;> simp

theorem mix_maj (w x y : Word) : ((w ||| x) &&& y) ||| (w &&& x) = maj w x y := by
  unfold maj
  apply BitVec.eq_of_getLsbD_eq
  intro i hi
  simp only [BitVec.getLsbD_xor, BitVec.getLsbD_and, BitVec.getLsbD_or]
  cases w.getLsbD i <;> cases x.getLsbD i <;> simp

theorem and_fifteen (i : Nat) : i &&& 15 = i % 16 := Nat.and_two_pow_sub_one_eq_mod i 4

/-! ## The lines -/

/-- The variables in the five roles of a round macro. -/
structure Roles where
  v : Reg
  w : Reg
  x : Reg
  y : Reg
  z : Reg

/-- The roles in the next line. -/
def Roles.next (r : Roles) : Roles := ⟨r.z, r.v, r.w, r.x, r.y⟩

def rolesAt : Nat → Roles
  | 0 => ⟨.a, .b, .c, .d, .e⟩
  | t + 1 => (rolesAt t).next

/-- Every variable has one role. -/
def Roles.Distinct (r : Roles) : Prop := [r.v, r.w, r.x, r.y, r.z].Nodup

/-- How line `t` gets its word of the schedule. -/
def blkAt (t : Nat) : Nat → Work → Work × Word := if t < 16 then blk0 else blk

/-- Line `t`. -/
def roundAt (t : Nat) : Work → Work :=
  let r := rolesAt t
  (if t < 16 then R0 else if t < 20 then R1 else if t < 40 then R2 else if t < 60 then R3 else R4)
    r.v r.w r.x r.y r.z t

set_option maxRecDepth 4000 in
theorem rounds_eq : rounds = (List.range 80).map roundAt := rfl

theorem distinct_rolesAt (t : Nat) : (rolesAt t).Distinct := by
  induction t with
  | zero =>
      show [Reg.a, .b, .c, .d, .e].Nodup
      decide
  | succ t ih =>
      have hperm : ([(rolesAt t).z] ++ [(rolesAt t).v, (rolesAt t).w, (rolesAt t).x,
          (rolesAt t).y]).Perm ([(rolesAt t).v, (rolesAt t).w, (rolesAt t).x, (rolesAt t).y] ++
          [(rolesAt t).z]) := List.perm_append_comm
      exact hperm.nodup_iff.2 ih

/-- A line in the words of the standard. -/
theorem roundAt_eq (t : Nat) :
    roundAt t = roundWith (Sha1.f t) (blkAt t) (Sha1.k t) (rolesAt t).v (rolesAt t).w (rolesAt t).x
      (rolesAt t).y (rolesAt t).z t := by
  have hch : (fun w x y : Word => (w &&& (x ^^^ y)) ^^^ y) = ch := by
    funext w x y
    exact mix_ch w x y
  have hmaj : (fun w x y : Word => ((w ||| x) &&& y) ||| (w &&& x)) = maj := by
    funext w x y
    exact mix_maj w x y
  unfold roundAt blkAt Sha1.f Sha1.k R0 R1 R2 R3 R4
  rw [hch, hmaj]
  by_cases h₁ : t < 16
  · simp only [h₁, if_true, show t < 20 by omega]
  · by_cases h₂ : t < 20
    · simp only [h₁, h₂, if_true, if_false]
    · by_cases h₃ : t < 40
      · simp only [h₁, h₂, h₃, if_true, if_false]
        rfl
      · by_cases h₄ : t < 60
        · simp only [h₁, h₂, h₃, h₄, if_true, if_false]
        · simp only [h₁, h₂, h₃, h₄, if_false]
          rfl

/-! ## The simulation -/

/-- The working variables of the standard before step `t`. -/
def varsAt (m : Nat → Word) (h : Five) (t : Nat) : Five :=
  (List.range t).foldl (Sha1.step (schedule m)) h

/-- The variables in their roles hold the working variables. -/
structure Holds (regs : Reg → Word) (r : Roles) (v : Five) : Prop where
  a : regs r.v = v.a
  b : regs r.w = v.b
  c : regs r.x = v.c
  d : regs r.y = v.d
  e : regs r.z = v.e

/-- The block before line `t`: the latest words of the schedule, and the words
that have not been read yet. -/
structure Window (m : Nat → Word) (t : Nat) (s : Work) : Prop where
  length : s.l.length = 16
  expanded : ∀ i, i < t → t ≤ i + 16 → s.at (i % 16) = schedule m i
  unread : ∀ i, t ≤ i → i < 16 → swapBytes (s.at i) = m i

/-- `Sha1Transform` before line `t`. -/
structure Simulates (m : Nat → Word) (h : Five) (t : Nat) (s : Work) : Prop where
  regs : Holds s.regs (rolesAt t) (varsAt m h t)
  window : Window m t s

/-- The assignment that every line makes to the block. -/
theorem Window.blkAt_eq {m : Nat → Word} {t : Nat} {s : Work} (h : Window m t s) :
    blkAt t t s = s.assign (t % 16) (schedule m t) := by
  unfold blkAt
  split
  · rename_i ht
    rw [blk0, h.unread t (Nat.le_refl t) ht, Nat.mod_eq_of_lt ht, Sha1.schedule_of_lt m ht]
  · rename_i ht
    obtain ⟨u, rfl⟩ : ∃ u, t = u + 16 := ⟨t - 16, by omega⟩
    have hword : ∀ i, i < 16 → s.at ((u + i) % 16) = schedule m (u + i) :=
      fun i hi => h.expanded (u + i) (by omega) (by omega)
    rw [blk, and_fifteen, and_fifteen, and_fifteen, and_fifteen,
      show (u + 16 + 13) % 16 = (u + 13) % 16 by omega,
      show (u + 16 + 8) % 16 = (u + 8) % 16 by omega,
      show (u + 16 + 2) % 16 = (u + 2) % 16 by omega,
      show (u + 16) % 16 = (u + 0) % 16 by omega,
      hword 13 (by omega), hword 8 (by omega), hword 2 (by omega), hword 0 (by omega),
      Sha1.schedule_of_le]
    rfl

theorem Window.assign {m : Nat → Word} {t : Nat} {s : Work} (h : Window m t s) :
    Window m (t + 1) (s.assign (t % 16) (schedule m t)).1 := by
  have hlen := h.length
  have hget : ∀ i, i < 16 → (s.assign (t % 16) (schedule m t)).1.at i =
      if t % 16 = i then schedule m t else s.at i := by
    intro i hi
    show (s.l.set (t % 16) (schedule m t)).getD i 0 = _
    simp only [List.getD_eq_getElem?_getD, List.getElem?_set, Work.at]
    split
    · rw [if_pos (by omega)]
      rfl
    · rfl
  refine ⟨?_, ?_, ?_⟩
  · show (s.l.set (t % 16) (schedule m t)).length = 16
    rw [List.length_set, hlen]
  · intro i hi hrecent
    rw [hget _ (Nat.mod_lt _ (by omega))]
    by_cases heq : i = t
    · rw [heq, if_pos rfl]
    · rw [if_neg (by omega)]
      exact h.expanded i (by omega) (by omega)
  · intro i hi hlt
    rw [hget i hlt, if_neg (by omega)]
    exact h.unread i (by omega) hlt

theorem varsAt_succ (m : Nat → Word) (h : Five) (t : Nat) :
    varsAt m h (t + 1) = Sha1.step (schedule m) (varsAt m h t) t := by
  unfold varsAt
  rw [List.range_succ, List.foldl_append]
  rfl

/-- The two assignments of a line give every working variable its next
role. -/
theorem Holds.step {s : Work} {r : Roles} {v : Five} (h : Holds s.regs r v) (hr : r.Distinct)
    (t : Nat) (w : Nat → Word) :
    Holds ((s.setReg r.z (s.regs r.z + (Sha1.f t (s.regs r.w) (s.regs r.x) (s.regs r.y) + w t +
        Sha1.k t + rol (s.regs r.v) 5))).setReg r.w (rol (s.regs r.w) 30)).regs r.next
      (Sha1.step w v t) := by
  simp only [Roles.Distinct, List.nodup_cons, List.mem_cons, List.not_mem_nil, or_false,
    not_or] at hr
  obtain ⟨⟨hvw, -, -, hvz⟩, ⟨hwx, hwy, hwz⟩, ⟨-, hxz⟩, hyz, -⟩ := hr
  constructor
  · simp only [Roles.next, Work.setReg, if_neg (Ne.symm hwz), if_true]
    rw [h.a, h.b, h.c, h.d, h.e]
    show v.e + (Sha1.f t v.b v.c v.d + w t + Sha1.k t + rotl 5 v.a) =
      rotl 5 v.a + Sha1.f t v.b v.c v.d + v.e + Sha1.k t + w t
    ac_rfl
  · simp only [Roles.next, Work.setReg, if_neg hvw, if_neg hvz]
    exact h.a
  · simp only [Roles.next, Work.setReg, if_true]
    rw [h.b]
    rfl
  · simp only [Roles.next, Work.setReg, if_neg (Ne.symm hwx), if_neg hxz]
    exact h.c
  · simp only [Roles.next, Work.setReg, if_neg (Ne.symm hwy), if_neg hyz]
    exact h.d

/-- **A line of `Sha1Transform`** is a step of the standard. -/
theorem simulates_step {m : Nat → Word} {h : Five} {t : Nat} {s : Work}
    (hs : Simulates m h t s) : Simulates m h (t + 1) (roundAt t s) := by
  have hr := distinct_rolesAt t
  rw [roundAt_eq, roundWith, hs.window.blkAt_eq]
  constructor
  · rw [varsAt_succ]
    have hz : (rolesAt t).w ≠ (rolesAt t).z := by
      simp only [Roles.Distinct, List.nodup_cons, List.mem_cons, List.not_mem_nil, or_false,
        not_or] at hr
      exact hr.2.1.2.2
    have hstep := hs.regs.step hr t (schedule m)
    simp only [Work.assign, Work.setReg, if_neg hz] at hstep ⊢
    exact hstep
  · have hwindow := hs.window.assign
    exact ⟨hwindow.length, hwindow.expanded, hwindow.unread⟩

theorem simulates_rounds {m : Nat → Word} {h : Five} {s : Work} (hs : Simulates m h 0 s)
    (t : Nat) :
    Simulates m h t ((List.range t).foldl (fun s i => roundAt i s) s) := by
  induction t with
  | zero => exact hs
  | succ t ih =>
      rw [List.range_succ, List.foldl_append]
      exact simulates_step ih

/-! ## `Sha1Transform` -/

/-- The state as a hash value of the standard. -/
def States.toFive (s : States) : Five := ⟨s.s0, s.s1, s.s2, s.s3, s.s4⟩

/-- The words that are left in the buffer: the last sixteen of the schedule. -/
def lastWords (m : Nat → Word) : List Word := (List.range 16).map fun i => schedule m (64 + i)

theorem at_toWords {buf : Bytes} {i : Nat} (hi : i < 16) (regs : Reg → Word) :
    (Work.mk regs (toWords buf)).at i = wordAt buf i := by
  simp [Work.at, toWords, hi]

theorem simulates_load (state : States) (buf : Bytes) :
    Simulates (blockWord buf) state.toFive 0 ⟨load state, toWords buf⟩ := by
  refine ⟨⟨rfl, rfl, rfl, rfl, rfl⟩, ?_, ?_, ?_⟩
  · simp [toWords]
  · intro i hi
    omega
  · intro i _ hi
    rw [at_toWords hi]
    exact swapBytes_wordAt buf i

/-- The work behind the last line. -/
def behindRounds (state : States) (buf : Bytes) : Work :=
  rounds.foldl (fun s round => round s) ⟨load state, toWords buf⟩

theorem sha1Transform_eq (state : States) (buf : Bytes) :
    sha1Transform state buf =
      (⟨state.s0 + (behindRounds state buf).regs .a, state.s1 + (behindRounds state buf).regs .b,
        state.s2 + (behindRounds state buf).regs .c, state.s3 + (behindRounds state buf).regs .d,
        state.s4 + (behindRounds state buf).regs .e⟩, toChars (behindRounds state buf).l) := rfl

theorem simulates_behindRounds (state : States) (buf : Bytes) :
    Simulates (blockWord buf) state.toFive 80 (behindRounds state buf) := by
  rw [behindRounds, rounds_eq, List.foldl_map]
  exact simulates_rounds (simulates_load state buf) 80

/-- **`Sha1Transform`** compresses the block into the state. -/
theorem sha1Transform_fst (state : States) (buf : Bytes) :
    (sha1Transform state buf).1.toFive = compress state.toFive (blockWord buf) := by
  have hregs := (simulates_behindRounds state buf).regs
  have hroles : rolesAt 80 = ⟨.a, .b, .c, .d, .e⟩ := rfl
  rw [hroles] at hregs
  rw [sha1Transform_eq, hregs.a, hregs.b, hregs.c, hregs.d, hregs.e]
  rfl

theorem sha1Transform_snd (state : States) (buf : Bytes) :
    (sha1Transform state buf).2 = toChars (lastWords (blockWord buf)) := by
  have hwindow := (simulates_behindRounds state buf).window
  have hlen := hwindow.length
  have hlast : (behindRounds state buf).l = lastWords (blockWord buf) := by
    apply List.ext_getElem
    · rw [hlen]
      simp [lastWords]
    · intro i hi hi'
      have hword := hwindow.expanded (64 + i) (by omega) (by omega)
      rw [show (64 + i) % 16 = i by omega, Work.at, List.getD_eq_getElem?_getD,
        List.getElem?_eq_getElem hi, Option.getD_some] at hword
      rw [hword]
      simp [lastWords]
  rw [sha1Transform_eq, hlast]

theorem length_toChars (l : List Word) : (toChars l).length = 4 * l.length := by
  unfold toChars
  rw [List.length_flatMap]
  simp [Nat.mul_comm]

@[simp] theorem length_toChars_lastWords (m : Nat → Word) :
    (toChars (lastWords m)).length = 64 := by
  rw [length_toChars]
  simp [lastWords]

/-! ## The loop over the whole blocks -/

/-- The hash value behind the first `n` blocks. -/
def hashBlocks (h : Five) (s : Bytes) (n : Nat) : Five :=
  (List.range n).foldl (fun h i => compress h (blockWord (Sha1.block s i))) h

/-- What the first `n` blocks are overwritten with. -/
def expandBlocks (s : Bytes) (n : Nat) : Bytes :=
  (List.range n).flatMap fun i => toChars (lastWords (blockWord (Sha1.block s i)))

theorem length_expandBlocks (s : Bytes) (n : Nat) : (expandBlocks s n).length = 64 * n := by
  unfold expandBlocks
  rw [List.length_flatMap]
  simp [Nat.mul_comm]

section Cons

variable {b s : Bytes} (hb : b.length = 64)

include hb

theorem block_cons_zero : Sha1.block (b ++ s) 0 = b := by
  unfold Sha1.block
  rw [Nat.mul_zero, List.drop_zero, List.take_left' hb]

theorem block_cons_succ (i : Nat) : Sha1.block (b ++ s) (i + 1) = Sha1.block s i := by
  rw [Sha1.block_append (n := 1) (by omega), if_neg (by omega), Nat.add_sub_cancel]

theorem hashBlocks_cons (h : Five) (n : Nat) :
    hashBlocks h (b ++ s) (n + 1) = hashBlocks (compress h (blockWord b)) s n := by
  unfold hashBlocks
  rw [List.range_succ_eq_map, List.foldl_cons, List.foldl_map, block_cons_zero hb]
  simp only [Nat.succ_eq_add_one, block_cons_succ hb]

theorem expandBlocks_cons (n : Nat) :
    expandBlocks (b ++ s) (n + 1) = toChars (lastWords (blockWord b)) ++ expandBlocks s n := by
  unfold expandBlocks
  rw [List.range_succ_eq_map, List.flatMap_cons, List.flatMap_map, block_cons_zero hb]
  simp only [Nat.succ_eq_add_one, block_cons_succ hb]

end Cons

/-- The first of some whole blocks, and what is behind it. -/
theorem exists_firstBlock {n : Nat} {body : Bytes} (hbody : body.length = 64 * (n + 1)) :
    ∃ b rest, body = b ++ rest ∧ b.length = 64 ∧ rest.length = 64 * n := by
  refine ⟨body.take 64, body.drop 64, (List.take_append_drop 64 body).symm, ?_, ?_⟩
  · rw [List.length_take]
    omega
  · rw [List.length_drop]
    omega

/-- The loop of `Digest`: every whole block is compressed, and overwritten. -/
theorem digestLoop_eq (fuel : Nat) (pre : Bytes) (states : States) {n : Nat} {body tail : Bytes}
    (hbody : body.length = 64 * n) (htail : tail.length < 64) (hfuel : n ≤ fuel) :
    ∃ states', digestLoop fuel pre.length states (pre ++ (body ++ tail)) =
        (states', pre ++ (expandBlocks body n ++ tail)) ∧
      states'.toFive = hashBlocks states.toFive body n := by
  induction n generalizing fuel pre states body with
  | zero =>
      have hnil : body = [] := List.length_eq_zero_iff.1 (by omega)
      refine ⟨states, ?_, rfl⟩
      rw [hnil]
      cases fuel with
      | zero => rfl
      | succ fuel =>
          rw [digestLoop, if_neg]
          · rfl
          · rw [List.length_append, List.nil_append]
            omega
  | succ n ih =>
      obtain ⟨fuel, rfl⟩ : ∃ k, fuel = k + 1 := ⟨fuel - 1, by omega⟩
      obtain ⟨b, rest, rfl, hb, hrest⟩ := exists_firstBlock hbody
      have hread : ((pre ++ (b ++ rest ++ tail)).drop pre.length).take 64 = b := by
        rw [List.drop_left, List.append_assoc, List.take_left' hb]
      have hwrite : ∀ bytes : Bytes, bytes.length = 64 →
          overwrite (pre ++ (b ++ rest ++ tail)) pre.length bytes =
            (pre ++ bytes) ++ (rest ++ tail) := by
        intro bytes hbytes
        unfold overwrite
        rw [List.take_left, hbytes, List.drop_length_add_append, List.append_assoc b,
          List.drop_left' hb]
      obtain ⟨states', hloop, hstates'⟩ := ih fuel (pre ++ toChars (lastWords (blockWord b)))
        (sha1Transform states b).1 hrest (by omega)
      refine ⟨states', ?_, ?_⟩
      · rw [digestLoop, if_pos]
        · rw [hread]
          rcases htransform : sha1Transform states b with ⟨next, left⟩
          have hleft := sha1Transform_snd states b
          rw [htransform] at hleft hloop
          dsimp only at hleft hloop ⊢
          rw [hleft, hwrite _ (length_toChars_lastWords _),
            ← length_toChars_lastWords (blockWord b), ← List.length_append, hloop,
            expandBlocks_cons hb]
          simp only [List.append_assoc]
        · simp only [List.length_append]
          omega
      · rw [hstates', sha1Transform_fst, hashBlocks_cons hb]

/-! ## The last blocks -/

/-- The bytes of the bit length, as the standard has them. -/
theorem shiftRight_and_eq (bits k : Nat) :
    UInt8.ofNat ((bits >>> (k * 8)) &&& 0xff) = UInt8.ofNat (bits / 256 ^ k % 256) := by
  have hand : ∀ n : Nat, n &&& 255 = n % 256 := fun n => Nat.and_two_pow_sub_one_eq_mod n 8
  rw [hand, Nat.shiftRight_eq_div_pow, Nat.mul_comm k 8, Nat.pow_mul]

theorem storeLength_append {pre : Bytes} (hpre : pre.length = 56) (bits : Nat) :
    storeLength bits (pre ++ List.replicate 8 0) = pre ++ beBytes 8 bits := by
  have hset : ∀ (i : Nat) (x : UInt8) (ys : Bytes),
      (pre ++ ys).set (56 + i) x = pre ++ ys.set i x := by
    intro i x ys
    rw [List.set_append_right _ _ (by omega), hpre, Nat.add_sub_cancel_left]
  unfold storeLength
  simp only [show List.range 8 = [0, 1, 2, 3, 4, 5, 6, 7] from rfl, List.foldl_cons,
    List.foldl_nil, hset, shiftRight_and_eq]
  rfl

/-- `last_block` with the byte behind the message. -/
theorem set_lastBlock {tail : Bytes} (htail : tail.length < 64) :
    (tail ++ List.replicate (64 - tail.length) 0).set tail.length 0x80 =
      tail ++ [0x80] ++ List.replicate (63 - tail.length) 0 := by
  obtain ⟨k, hk⟩ : ∃ k, 64 - tail.length = k + 1 := ⟨63 - tail.length, by omega⟩
  rw [hk, List.set_append_right _ _ (Nat.le_refl _), Nat.sub_self, List.replicate_succ,
    List.set_cons_zero, List.append_assoc, show 63 - tail.length = k by omega]
  rfl

/-- The bytes that padding adds to the rest of the message. -/
def padTail (tail : Bytes) (len : Nat) : Bytes :=
  tail ++ [0x80] ++ List.replicate (Sha1.zeros len) 0 ++ beBytes 8 (8 * len)

section Padding

variable {tail : Bytes} {len : Nat}

/-- A rest of fewer than 56 bytes is padded to one block. -/
theorem padTail_of_lt (hlen : len % 64 = tail.length) (hbits : len < 2 ^ 61)
    (hshort : tail.length < 56) :
    padTail tail len =
      storeLength (len * 8 % 2 ^ 64)
        (tail ++ [0x80] ++ List.replicate (63 - tail.length) 0) := by
  have hzeros : Sha1.zeros len = 55 - tail.length := by
    unfold Sha1.zeros
    omega
  have hblock : tail ++ [0x80] ++ List.replicate (63 - tail.length) 0 =
      (tail ++ [0x80] ++ List.replicate (55 - tail.length) 0) ++ List.replicate 8 0 := by
    rw [List.append_assoc _ (List.replicate _ _), List.replicate_append_replicate,
      show 55 - tail.length + 8 = 63 - tail.length by omega]
  rw [hblock, storeLength_append]
  · rw [padTail, hzeros, show len * 8 % 2 ^ 64 = 8 * len by omega]
  · simp only [List.length_append, List.length_replicate, List.length_cons, List.length_nil]
    omega

/-- A longer rest is padded to two. -/
theorem padTail_of_ge (hlen : len % 64 = tail.length) (hbits : len < 2 ^ 61)
    (hlong : 56 ≤ tail.length) :
    padTail tail len =
      (tail ++ [0x80] ++ List.replicate (63 - tail.length) 0) ++
        storeLength (len * 8 % 2 ^ 64) (List.replicate 64 0) := by
  have hzeros : Sha1.zeros len = 63 - tail.length + 56 := by
    unfold Sha1.zeros
    omega
  have hblock : (List.replicate 64 0 : Bytes) = List.replicate 56 0 ++ List.replicate 8 0 := by
    rw [List.replicate_append_replicate]
  rw [hblock, storeLength_append (List.length_replicate ..), padTail, hzeros,
    ← List.replicate_append_replicate, show len * 8 % 2 ^ 64 = 8 * len by omega]
  simp only [List.append_assoc]

end Padding

/-- The padded message: its whole blocks, and the padded rest. -/
theorem pad_eq (body tail : Bytes) :
    Sha1.pad (body ++ tail) = body ++ padTail tail (body ++ tail).length := by
  unfold Sha1.pad padTail
  simp only [List.append_assoc]

theorem hash_pad {body tail : Bytes} {n m : Nat} (hbody : body.length = 64 * n)
    (hm : (padTail tail (body ++ tail).length).length = 64 * m) :
    Sha1.hash (Sha1.pad (body ++ tail)) =
      hashBlocks (hashBlocks Sha1.init body n) (padTail tail (body ++ tail).length) m := by
  have hblocks : (Sha1.pad (body ++ tail)).length / 64 = n + m := by
    rw [pad_eq, List.length_append]
    omega
  unfold Sha1.hash hashBlocks
  rw [hblocks, pad_eq]
  exact Sha1.foldl_blocks_append hbody _

/-! ## The result -/

/-- The bytes of a word in the result. -/
theorem resBytes_eq (x : Word) : resBytes x = Sha1.wordBytes x := by
  have hbyte : ∀ k, UInt8.ofBitVec (((x >>> k) &&& 0xff).setWidth 8) =
      UInt8.ofBitVec (x.extractLsb' k 8) := by
    intro k
    congr 1
    apply BitVec.eq_of_getLsbD_eq
    intro i hi
    simp only [BitVec.getLsbD_setWidth, BitVec.getLsbD_and, BitVec.getLsbD_ushiftRight,
      BitVec.getLsbD_extractLsb']
    interval_cases i <;> simp
  unfold resBytes Sha1.wordBytes
  simp only [show List.range 4 = [0, 1, 2, 3] from rfl, List.map_cons, List.map_nil, hbyte]

/-- The first of the last blocks, before the length. -/
def lastBlock (tail : Bytes) : Bytes := tail ++ [0x80] ++ List.replicate (63 - tail.length) 0

/-- The state behind the last blocks. -/
def finish (states : States) (tail : Bytes) (len : Nat) : States :=
  let bits := len * 8 % 2 ^ 64
  if tail.length < 56 then (sha1Transform states (storeLength bits (lastBlock tail))).1
  else
    (sha1Transform (sha1Transform states (lastBlock tail)).1
      (storeLength bits (List.replicate 64 0))).1

/-- `Digest` of whole blocks and a rest. -/
theorem digest_eq {n : Nat} {body tail : Bytes} (hbody : body.length = 64 * n)
    (htail : tail.length < 64) :
    ∃ states, states.toFive = hashBlocks Sha1.init body n ∧
      digest (body ++ tail) =
        ⟨Sha1.digestBytes (finish states tail (body ++ tail).length).toFive ++ [0],
          expandBlocks body n ++ tail⟩ := by
  have hlen : (body ++ tail).length = 64 * n + tail.length := by
    rw [List.length_append, hbody]
  have hexpanded := length_expandBlocks body n
  obtain ⟨states, hloop, hstates⟩ := digestLoop_eq (body ++ tail).length [] sha1ContextInit hbody
    htail (by omega)
  have hand : (body ++ tail).length &&& 63 = tail.length := by
    have hmod : (body ++ tail).length &&& 63 = (body ++ tail).length % 64 :=
      Nat.and_two_pow_sub_one_eq_mod _ 6
    omega
  have hsame : (expandBlocks body n ++ tail).length = (body ++ tail).length := by
    rw [List.length_append, hexpanded, hlen]
  have hrest : ((expandBlocks body n ++ tail).drop ((body ++ tail).length - tail.length)).take
      tail.length = tail := by
    rw [hlen, Nat.add_sub_cancel, ← hexpanded, List.drop_left, List.take_length]
  simp only [List.nil_append, List.length_nil] at hloop
  refine ⟨states, hstates, ?_⟩
  unfold digest
  simp only [hand, hloop, hsame, hrest, set_lastBlock htail, resBytes_eq]
  unfold finish lastBlock Sha1.digestBytes States.toFive
  by_cases hshort : tail.length < 56
  · simp only [if_pos hshort, if_neg (Nat.not_le.2 hshort)]
  · simp only [if_neg hshort, if_pos (Nat.not_lt.1 hshort)]

theorem finish_toFive {n : Nat} {body tail : Bytes} {states : States} (hbody : body.length = 64 * n)
    (htail : tail.length < 64) (hstates : states.toFive = hashBlocks Sha1.init body n)
    (hbits : (body ++ tail).length < 2 ^ 61) :
    (finish states tail (body ++ tail).length).toFive =
      Sha1.hash (Sha1.pad (body ++ tail)) := by
  have hmod : (body ++ tail).length % 64 = tail.length := by
    rw [List.length_append]
    omega
  have hlast : (lastBlock tail).length = 64 := by
    simp only [lastBlock, List.length_append, List.length_replicate, List.length_cons,
      List.length_nil]
    omega
  have hstore : ∀ (bits : Nat) (s : Bytes), (storeLength bits s).length = s.length := by
    intro bits s
    simp [storeLength, List.range, List.range.loop]
  unfold finish
  by_cases hshort : tail.length < 56
  · have hpad := padTail_of_lt hmod hbits hshort
    rw [if_pos hshort, sha1Transform_fst, hash_pad (m := 1) hbody, hstates, hpad]
    · have hone := hashBlocks_cons (s := []) (b := storeLength ((body ++ tail).length * 8 % 2 ^ 64)
        (lastBlock tail)) (by rw [hstore, hlast]) (hashBlocks Sha1.init body n) 0
      rw [List.append_nil] at hone
      exact hone.symm
    · rw [hpad, hstore]
      exact hlast
  · have hpad := padTail_of_ge hmod hbits (Nat.not_lt.1 hshort)
    rw [if_neg hshort, sha1Transform_fst, sha1Transform_fst, hash_pad (m := 2) hbody, hstates,
      hpad]
    · have hone := hashBlocks_cons (s := []) (b := storeLength ((body ++ tail).length * 8 % 2 ^ 64)
        (List.replicate 64 0)) (by rw [hstore, List.length_replicate])
        (compress (hashBlocks Sha1.init body n) (blockWord (lastBlock tail))) 0
      rw [List.append_nil] at hone
      exact (hone.symm.trans (hashBlocks_cons hlast _ 1).symm)
    · rw [hpad, List.length_append, hstore, List.length_replicate]
      exact congrArg (· + 64) hlast

/-- A message is its whole blocks and a rest. -/
theorem exists_blocks (msg : Bytes) :
    ∃ n body tail, msg = body ++ tail ∧ body.length = 64 * n ∧ tail.length < 64 := by
  refine ⟨msg.length / 64, msg.take (64 * (msg.length / 64)), msg.drop (64 * (msg.length / 64)),
    (List.take_append_drop _ msg).symm, ?_, ?_⟩
  · rw [List.length_take]
    omega
  · rw [List.length_drop]
    omega

/-- **`Digest` is SHA-1**: the twenty bytes of the hash value, and a NUL. -/
theorem digest_res (msg : Bytes) (hbits : msg.length < 2 ^ 61) :
    (digest msg).res = Sha1.sha1 msg ++ [0] := by
  obtain ⟨n, body, tail, rfl, hbody, htail⟩ := exists_blocks msg
  obtain ⟨states, hstates, hdigest⟩ := digest_eq hbody htail
  rw [hdigest, finish_toFive hbody htail hstates hbits]
  rfl

/-- The first test vector of the standard. -/
theorem digest_res_abc :
    Sha1.sha1 (lit "abc") =
      [0xa9, 0x99, 0x3e, 0x36, 0x47, 0x06, 0x81, 0x6a, 0xba, 0x3e, 0x25, 0x71, 0x78, 0x50, 0xc2,
        0x6c, 0x9c, 0xd0, 0xd8, 0x9d] := by
  have hres := digest_res (lit "abc") (by decide)
  have hcode : (digest (lit "abc")).res =
      [0xa9, 0x99, 0x3e, 0x36, 0x47, 0x06, 0x81, 0x6a, 0xba, 0x3e, 0x25, 0x71, 0x78, 0x50, 0xc2,
        0x6c, 0x9c, 0xd0, 0xd8, 0x9d] ++ [0] := by decide +kernel
  exact List.append_cancel_right (hres.symm.trans hcode)

end Unixtar.Md
