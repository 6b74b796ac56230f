import Unixtar.Utils.Base64

/-!
# Base64 texts

Three bytes are four symbols.  `encodeGroups` writes the groups of a byte
string one by one; the loop of `Encode` is in phase 0 between two groups, and
so is the loop of `Decode`.  A text is an encoding exactly when it is made of
symbols and at most two padding characters, in groups of four, and the bits
that padding cuts off are zero.

`Decode` does not check the last part: it takes what stands in front of the
first padding character, and it looks a byte up before it knows that the byte
is a character of the table at all.

## Main results

* `encode_eq`, `decode_encodeGroups` — encoding and decoding, group by group.
* `exists_encode_iff` — which texts are encodings.
* `exists_roundTrips` — every byte string comes back.
* `exact_iff` — on which texts `Decode` accepts exactly the encodings.
-/

namespace Unixtar.Base64

/-! ## Six bits -/

/-- The four indices of a group. -/
def sextet₀ (a : UInt8) : UInt8 := (a >>> 2) &&& 0x3f
def sextet₁ (a b : UInt8) : UInt8 := ((a &&& 0x3) <<< 4) ||| ((b >>> 4) &&& 0xf)
def sextet₂ (b c : UInt8) : UInt8 := ((b &&& 0xf) <<< 2) ||| ((c >>> 6) &&& 0x3)
def sextet₃ (c : UInt8) : UInt8 := c &&& 0x3f

/-- The three bytes of a group. -/
def byte₀ (p q : UInt8) : UInt8 := ((p <<< 2) &&& (0xff : UInt8)) + ((q >>> 4) &&& 0x3)
def byte₁ (q r : UInt8) : UInt8 := ((q &&& 0xf) <<< 4) + ((r >>> 2) &&& 0xf)
def byte₂ (r s : UInt8) : UInt8 := ((r &&& 0x3) <<< 6) + (s &&& 0x3f)

theorem toNat_and_mask (a : UInt8) :
    (a &&& 0x3).toNat = a.toNat % 4 ∧ (a &&& 0xf).toNat = a.toNat % 16 ∧
      (a &&& 0x3f).toNat = a.toNat % 64 ∧ (a &&& 0xff).toNat = a.toNat := by
  have hlt := a.toNat_lt
  refine ⟨?_, ?_, ?_, ?_⟩
  · exact Nat.and_two_pow_sub_one_eq_mod a.toNat 2
  · exact Nat.and_two_pow_sub_one_eq_mod a.toNat 4
  · exact Nat.and_two_pow_sub_one_eq_mod a.toNat 6
  · refine (Nat.and_two_pow_sub_one_eq_mod a.toNat 8).trans (Nat.mod_eq_of_lt hlt)

theorem toNat_sextet₀ (a : UInt8) : (sextet₀ a).toNat = a.toNat / 4 := by
  have hlt := a.toNat_lt
  rw [sextet₀, (toNat_and_mask _).2.2.1]
  simp only [UInt8.toNat_shiftRight, Nat.shiftRight_eq_div_pow]
  show a.toNat / 4 % 64 = _
  omega

theorem toNat_sextet₁ (a b : UInt8) :
    (sextet₁ a b).toNat = a.toNat % 4 * 16 + b.toNat / 16 := by
  have hb := b.toNat_lt
  rw [sextet₁, UInt8.toNat_or, UInt8.toNat_shiftLeft, (toNat_and_mask a).1,
    (toNat_and_mask _).2.1, UInt8.toNat_shiftRight, Nat.shiftRight_eq_div_pow]
  show (a.toNat % 4) <<< 4 % 2 ^ 8 ||| b.toNat / 16 % 16 = _
  rw [Nat.mod_eq_of_lt (by rw [Nat.shiftLeft_eq]; omega),
    ← Nat.shiftLeft_add_eq_or_of_lt (by omega), Nat.shiftLeft_eq]
  omega

theorem toNat_sextet₂ (b c : UInt8) :
    (sextet₂ b c).toNat = b.toNat % 16 * 4 + c.toNat / 64 := by
  have hc := c.toNat_lt
  rw [sextet₂, UInt8.toNat_or, UInt8.toNat_shiftLeft, (toNat_and_mask b).2.1,
    (toNat_and_mask _).1, UInt8.toNat_shiftRight, Nat.shiftRight_eq_div_pow]
  show (b.toNat % 16) <<< 2 % 2 ^ 8 ||| c.toNat / 64 % 4 = _
  rw [Nat.mod_eq_of_lt (by rw [Nat.shiftLeft_eq]; omega),
    ← Nat.shiftLeft_add_eq_or_of_lt (by omega), Nat.shiftLeft_eq]
  omega

theorem toNat_sextet₃ (c : UInt8) : (sextet₃ c).toNat = c.toNat % 64 := (toNat_and_mask c).2.2.1

theorem toNat_byte₀ {p q : UInt8} (hp : p.toNat < 64) (hq : q.toNat < 64) :
    (byte₀ p q).toNat = p.toNat * 4 + q.toNat / 16 := by
  rw [byte₀, UInt8.toNat_add, (toNat_and_mask _).2.2.2, (toNat_and_mask _).1,
    UInt8.toNat_shiftLeft, UInt8.toNat_shiftRight, Nat.shiftRight_eq_div_pow, Nat.shiftLeft_eq]
  show (p.toNat * 4 % 256 + q.toNat / 16 % 4) % 256 = _
  omega

theorem toNat_byte₁ {q r : UInt8} (hr : r.toNat < 64) :
    (byte₁ q r).toNat = q.toNat % 16 * 16 + r.toNat / 4 := by
  rw [byte₁, UInt8.toNat_add, (toNat_and_mask _).2.1, UInt8.toNat_shiftLeft,
    (toNat_and_mask _).2.1, UInt8.toNat_shiftRight, Nat.shiftRight_eq_div_pow, Nat.shiftLeft_eq]
  show (q.toNat % 16 * 16 % 256 + r.toNat / 4 % 16) % 256 = _
  omega

theorem toNat_byte₂ {r s : UInt8} (hs : s.toNat < 64) :
    (byte₂ r s).toNat = r.toNat % 4 * 64 + s.toNat := by
  rw [byte₂, UInt8.toNat_add, UInt8.toNat_shiftLeft, (toNat_and_mask _).1,
    (toNat_and_mask _).2.2.1, Nat.shiftLeft_eq]
  show (r.toNat % 4 * 64 % 256 + s.toNat % 64) % 256 = _
  omega

theorem sextet_lt (a b : UInt8) :
    (sextet₀ a).toNat < 64 ∧ (sextet₁ a b).toNat < 64 ∧ (sextet₂ a b).toNat < 64 ∧
      (sextet₃ a).toNat < 64 := by
  have ha := a.toNat_lt
  have hb := b.toNat_lt
  rw [toNat_sextet₀, toNat_sextet₁, toNat_sextet₂, toNat_sextet₃]
  omega

/-- Bytes come back from their indices. -/
theorem byte_sextet (a b c : UInt8) :
    byte₀ (sextet₀ a) (sextet₁ a b) = a ∧ byte₁ (sextet₁ a b) (sextet₂ b c) = b ∧
      byte₂ (sextet₂ b c) (sextet₃ c) = c := by
  have ha := a.toNat_lt
  have hb := b.toNat_lt
  have hc := c.toNat_lt
  have hab := sextet_lt a b
  have hbc := sextet_lt b c
  have hca := sextet_lt c a
  refine ⟨?_, ?_, ?_⟩
  · apply UInt8.toNat_inj.1
    rw [toNat_byte₀ hab.1 hab.2.1, toNat_sextet₀, toNat_sextet₁]
    omega
  · apply UInt8.toNat_inj.1
    rw [toNat_byte₁ hbc.2.2.1, toNat_sextet₁, toNat_sextet₂]
    omega
  · apply UInt8.toNat_inj.1
    rw [toNat_byte₂ hca.2.2.2, toNat_sextet₂, toNat_sextet₃]
    omega

/-- Indices come back from their bytes. -/
theorem sextet_byte {p q r s : UInt8} (hp : p.toNat < 64) (hq : q.toNat < 64) (hr : r.toNat < 64)
    (hs : s.toNat < 64) :
    sextet₀ (byte₀ p q) = p ∧ sextet₁ (byte₀ p q) (byte₁ q r) = q ∧
      sextet₂ (byte₁ q r) (byte₂ r s) = r ∧ sextet₃ (byte₂ r s) = s := by
  simp only [← UInt8.toNat_inj, toNat_sextet₀, toNat_sextet₁, toNat_sextet₂, toNat_sextet₃,
    toNat_byte₀ hp hq, toNat_byte₁ hr, toNat_byte₂ hs]
  omega

/-- Indices that end in zero bits. -/
theorem sextet_byte_zero {p q r : UInt8} (hp : p.toNat < 64) (hq : q.toNat < 64)
    (hr : r.toNat < 64) :
    (q.toNat % 16 = 0 → sextet₁ (byte₀ p q) 0 = q) ∧
      (r.toNat % 4 = 0 → sextet₂ (byte₁ q r) 0 = r) := by
  have hzero : (0 : UInt8).toNat = 0 := rfl
  simp only [← UInt8.toNat_inj, toNat_sextet₁, toNat_sextet₂, toNat_byte₀ hp hq, toNat_byte₁ hr,
    hzero]
  omega

/-! ## Symbols -/

/-- A character of the alphabet. -/
def IsSymbol (c : UInt8) : Prop := c ∈ encodeTable

instance (c : UInt8) : Decidable (IsSymbol c) := inferInstanceAs (Decidable (_ ∈ _))

/-- What both tables say of an index. -/
structure Listed (v : UInt8) : Prop where
  isSymbol : IsSymbol (symbol v)
  ne_nul : symbol v ≠ 0
  ne_padding : symbol v ≠ padding
  lookup : lookup (symbol v) = .ok v
  ne_error : v ≠ 255

theorem listed {v : UInt8} (hv : v.toNat < 64) : Listed v := by
  have hall : ∀ n < 64, IsSymbol (symbol (UInt8.ofNat n)) ∧ symbol (UInt8.ofNat n) ≠ 0 ∧
      symbol (UInt8.ofNat n) ≠ padding ∧ lookup (symbol (UInt8.ofNat n)) = .ok (UInt8.ofNat n) ∧
      UInt8.ofNat n ≠ 255 := by decide +kernel
  have h := hall v.toNat hv
  rw [UInt8.ofNat_toNat] at h
  exact ⟨h.1, h.2.1, h.2.2.1, h.2.2.2.1, h.2.2.2.2⟩

theorem IsSymbol.exists_index {c : UInt8} (hc : IsSymbol c) :
    ∃ v : UInt8, v.toNat < 64 ∧ symbol v = c := by
  obtain ⟨n, hn, rfl⟩ := List.getElem_of_mem hc
  have hlen : encodeTable.length = 64 := by decide
  have hnat : (UInt8.ofNat n).toNat = n := by
    rw [UInt8.toNat_ofNat']
    omega
  refine ⟨UInt8.ofNat n, by omega, ?_⟩
  rw [symbol, hnat, List.getD_eq_getElem?_getD, List.getElem?_eq_getElem hn, Option.getD_some]

/-- What `decode_table` has for the other characters: an error below 128, and
nothing above. -/
theorem lookup_of_not_isSymbol {c : UInt8} (hc : ¬ IsSymbol c) :
    (c.toNat < 128 → lookup c = .ok 255) ∧ (128 ≤ c.toNat → ∃ index, lookup c = .error index) := by
  have hbelow : ∀ n < 128, ¬ IsSymbol (UInt8.ofNat n) → lookup (UInt8.ofNat n) = .ok 255 := by
    decide +kernel
  refine ⟨fun hlt => ?_, fun hge => ?_⟩
  · have h := hbelow c.toNat hlt
    rw [UInt8.ofNat_toNat] at h
    exact h hc
  · have hneg : ¬ 0 ≤ c.toBitVec.toInt := by
      rw [BitVec.toInt_eq_toNat_cond]
      have hlt := c.toNat_lt
      have hnat : c.toBitVec.toNat = c.toNat := rfl
      split <;> omega
    refine ⟨c.toBitVec.toInt, ?_⟩
    unfold lookup
    rw [if_neg fun h => hneg h.1]

/-! ## Groups -/

/-- The text of a byte string, group by group. -/
def encodeGroups : Bytes → Bytes
  | a :: b :: c :: rest =>
      [symbol (sextet₀ a), symbol (sextet₁ a b), symbol (sextet₂ b c), symbol (sextet₃ c)] ++
        encodeGroups rest
  | [a, b] => [symbol (sextet₀ a), symbol (sextet₁ a b), symbol (sextet₂ b 0), padding]
  | [a] => [symbol (sextet₀ a), symbol (sextet₁ a 0), padding, padding]
  | [] => []

/-- Between two groups the loop of `Encode` is in phase 0. -/
theorem encodeRest_foldl (x : Bytes) (res : Bytes) (last : UInt8) :
    encodeRest (x.foldl encodeRound ⟨res, last, 0⟩) = res ++ encodeGroups x := by
  induction x using encodeGroups.induct generalizing res last with
  | case1 a b c rest ih =>
      rw [encodeGroups, ← List.append_assoc, ← ih _ c]
      simp only [List.foldl_cons, encodeRound, if_true]
      simp only [show ¬ (1 = 0) by decide, show ¬ (2 = 0) by decide, show ¬ (2 = 1) by decide,
        if_false, List.append_assoc]
      rfl
  | case2 a b =>
      have hlast : ((b &&& 0xf) <<< 2) = sextet₂ b 0 := by
        rw [sextet₂]
        simp
      simp [List.foldl_cons, encodeRound, encodeRest, encodeGroups, hlast]
      exact ⟨rfl, rfl⟩
  | case3 a =>
      have hlast : ((a &&& 0x3) <<< 4) = sextet₁ a 0 := by
        rw [sextet₁]
        simp
      simp [List.foldl_cons, encodeRound, encodeRest, encodeGroups, hlast]
      rfl
  | case4 => exact (List.append_nil res).symm

theorem length_encodeGroups (x : Bytes) : (encodeGroups x).length = 4 * ((x.length + 2) / 3) := by
  induction x using encodeGroups.induct with
  | case1 a b c rest ih =>
      rw [encodeGroups, List.length_append, ih]
      simp only [List.length_cons, List.length_nil]
      omega
  | case2 a b => simp [encodeGroups]
  | case3 a => simp [encodeGroups]
  | case4 => rfl

/-- The symbols of some indices in groups of four, with padding: the bits that
the padding cuts off are zero. -/
structure Padded (text : Bytes) (indices : List UInt8) (pads : Nat) : Prop where
  text_eq : text = indices.map symbol ++ List.replicate pads padding
  index_lt : ∀ v ∈ indices, v.toNat < 64
  pads_le : pads ≤ 2
  whole : text.length % 4 = 0
  leftover : ∀ v ∈ indices.getLast?, v.toNat % 4 ^ pads = 0

theorem Padded.count {text : Bytes} {indices : List UInt8} {pads : Nat}
    (h : Padded text indices pads) : (indices.length + pads) % 4 = 0 := by
  have hwhole := h.whole
  rw [h.text_eq, List.length_append, List.length_map, List.length_replicate] at hwhole
  exact hwhole

/-- Another group in front. -/
theorem Padded.group {text : Bytes} {indices group : List UInt8} {pads : Nat}
    (h : Padded text indices pads) (hlen : group.length = 4) (hlt : ∀ v ∈ group, v.toNat < 64)
    (hlast : indices = [] → pads = 0) :
    Padded (group.map symbol ++ text) (group ++ indices) pads := by
  refine ⟨?_, ?_, h.pads_le, ?_, ?_⟩
  · rw [h.text_eq, List.map_append, List.append_assoc]
  · intro v hv
    rcases List.mem_append.1 hv with hv | hv
    · exact hlt v hv
    · exact h.index_lt v hv
  · have hwhole := h.whole
    rw [List.length_append, List.length_map]
    omega
  · intro v hv
    by_cases hnil : indices = []
    · rw [hlast hnil, Nat.pow_zero, Nat.mod_one]
    · rw [List.getLast?_append_of_ne_nil _ hnil] at hv
      exact h.leftover v hv

/-- The symbols and the padding of an encoding. -/
theorem padded_encodeGroups (x : Bytes) :
    ∃ indices pads, Padded (encodeGroups x) indices pads ∧ (indices = [] → pads = 0) ∧
      x.length + pads = 3 * ((x.length + 2) / 3) := by
  induction x using encodeGroups.induct with
  | case1 a b c rest ih =>
      obtain ⟨indices, pads, hpadded, hempty, hlen⟩ := ih
      have hab := sextet_lt a b
      have hbc := sextet_lt b c
      have hca := sextet_lt c a
      have hgroup : ∀ v ∈ [sextet₀ a, sextet₁ a b, sextet₂ b c, sextet₃ c], v.toNat < 64 := by
        simp only [List.forall_mem_cons, List.not_mem_nil, false_implies, implies_true, and_true]
        exact ⟨hab.1, hab.2.1, hbc.2.2.1, hca.2.2.2⟩
      refine ⟨[sextet₀ a, sextet₁ a b, sextet₂ b c, sextet₃ c] ++ indices, pads, ?_, ?_, ?_⟩
      · rw [encodeGroups]
        exact hpadded.group rfl hgroup hempty
      · intro h
        cases h
      · simp only [List.length_cons]
        omega
  | case2 a b =>
      have hab := sextet_lt a b
      have hbz := sextet_lt b 0
      refine ⟨[sextet₀ a, sextet₁ a b, sextet₂ b 0], 1, ⟨?_, ?_, by omega, ?_, ?_⟩, ?_, ?_⟩
      · rw [encodeGroups]
        rfl
      · simp only [List.forall_mem_cons, List.not_mem_nil, false_implies, implies_true, and_true]
        exact ⟨hab.1, hab.2.1, hbz.2.2.1⟩
      · simp [encodeGroups]
      · intro v hv
        cases hv
        show (sextet₂ b 0).toNat % 4 = 0
        rw [toNat_sextet₂]
        show (b.toNat % 16 * 4 + 0 / 64) % 4 = 0
        omega
      · intro h
        cases h
      · simp
  | case3 a =>
      have haz := sextet_lt a 0
      refine ⟨[sextet₀ a, sextet₁ a 0], 2, ⟨?_, ?_, by omega, ?_, ?_⟩, ?_, ?_⟩
      · rw [encodeGroups]
        rfl
      · simp only [List.forall_mem_cons, List.not_mem_nil, false_implies, implies_true, and_true]
        exact ⟨haz.1, haz.2.1⟩
      · simp [encodeGroups]
      · intro v hv
        cases hv
        show (sextet₁ a 0).toNat % 16 = 0
        rw [toNat_sextet₁]
        show (a.toNat % 4 * 16 + 0 / 16) % 16 = 0
        omega
      · intro h
        cases h
      · simp
  | case4 =>
      refine ⟨[], 0, ⟨rfl, fun v hv => absurd hv List.not_mem_nil, by omega, rfl, ?_⟩,
        fun _ => rfl, rfl⟩
      intro v hv
      cases hv

/-- A padded text is an encoding. -/
theorem exists_encodeGroups {pads : Nat} : ∀ (indices : List UInt8) {text : Bytes},
    Padded text indices pads →
      ∃ x, encodeGroups x = text ∧ x.length + pads = 3 * (text.length / 4)
  | [], text, h => by
      have htext := h.text_eq
      have hcount : (0 + pads) % 4 = 0 := h.count
      have hpads := h.pads_le
      have hzero : pads = 0 := by omega
      subst hzero
      exact ⟨[], htext.symm, by rw [htext]; rfl⟩
  | [v₀], text, h => by
      have hcount : (1 + pads) % 4 = 0 := h.count
      have hpads := h.pads_le
      omega
  | [v₀, v₁], text, h => by
      have htext := h.text_eq
      have hcount : (2 + pads) % 4 = 0 := h.count
      have hpads := h.pads_le
      have hleft := h.leftover v₁ rfl
      have htwo : pads = 2 := by omega
      subst htwo
      have h₀ := h.index_lt v₀ (by simp)
      have h₁ := h.index_lt v₁ (by simp)
      refine ⟨[byte₀ v₀ v₁], ?_, ?_⟩
      · rw [encodeGroups, (sextet_byte h₀ h₁ h₁ h₁).1, (sextet_byte_zero h₀ h₁ h₁).1 hleft, htext]
        rfl
      · rw [htext]
        simp
  | [v₀, v₁, v₂], text, h => by
      have htext := h.text_eq
      have hcount : (3 + pads) % 4 = 0 := h.count
      have hpads := h.pads_le
      have hleft := h.leftover v₂ rfl
      have hone : pads = 1 := by omega
      subst hone
      have h₀ := h.index_lt v₀ (by simp)
      have h₁ := h.index_lt v₁ (by simp)
      have h₂ := h.index_lt v₂ (by simp)
      refine ⟨[byte₀ v₀ v₁, byte₁ v₁ v₂], ?_, ?_⟩
      · rw [encodeGroups, (sextet_byte h₀ h₁ h₂ h₂).1, (sextet_byte h₀ h₁ h₂ h₂).2.1,
          (sextet_byte_zero h₀ h₁ h₂).2 hleft, htext]
        rfl
      · rw [htext]
        simp
  | v₀ :: v₁ :: v₂ :: v₃ :: indices, text, h => by
      have htext := h.text_eq
      have hcount : (indices.length + 4 + pads) % 4 = 0 := h.count
      have hrest : Padded (indices.map symbol ++ List.replicate pads padding) indices pads := by
        refine ⟨rfl, fun v hv => h.index_lt v (by simp [hv]), h.pads_le, ?_, ?_⟩
        · simp only [List.length_append, List.length_map, List.length_replicate]
          omega
        · intro v hv
          apply h.leftover v
          have hne : indices ≠ [] := by
            intro hnil
            rw [hnil] at hv
            cases hv
          show v ∈ ([v₀, v₁, v₂, v₃] ++ indices).getLast?
          rw [List.getLast?_append_of_ne_nil _ hne]
          exact hv
      obtain ⟨x, hx, hlen⟩ := exists_encodeGroups indices hrest
      have h₀ := h.index_lt v₀ (by simp)
      have h₁ := h.index_lt v₁ (by simp)
      have h₂ := h.index_lt v₂ (by simp)
      have h₃ := h.index_lt v₃ (by simp)
      obtain ⟨hs₀, hs₁, hs₂, hs₃⟩ := sextet_byte h₀ h₁ h₂ h₃
      refine ⟨byte₀ v₀ v₁ :: byte₁ v₁ v₂ :: byte₂ v₂ v₃ :: x, ?_, ?_⟩
      · rw [encodeGroups, hs₀, hs₁, hs₂, hs₃, hx, htext]
        rfl
      · rw [htext]
        simp only [List.length_append, List.length_map, List.length_cons,
          List.length_replicate] at hlen ⊢
        omega

/-! ## The two loops -/

theorem and_three (n : Nat) : n &&& 3 = n % 4 := Nat.and_two_pow_sub_one_eq_mod n 2

/-- `Encode` of an input whose length fits the `int` of its loop. -/
theorem encode_eq {x : Bytes} (hx : x.length < 2 ^ 31) : encode x = some (encodeGroups x) := by
  obtain ⟨indices, pads, hpadded, -, -⟩ := padded_encodeGroups x
  have hnul : 0 ∉ encodeGroups x := by
    rw [hpadded.text_eq]
    intro hmem
    rcases List.mem_append.1 hmem with hmem | hmem
    · obtain ⟨v, hv, hzero⟩ := List.mem_map.1 hmem
      exact (listed (hpadded.index_lt v hv)).ne_nul hzero
    · exact absurd (List.eq_of_mem_replicate hmem) (by decide)
  have hrest : encodeRest (x.foldl encodeRound ⟨[], 0, 0⟩) = encodeGroups x :=
    encodeRest_foldl x [] 0
  have hwhole := hpadded.whole
  unfold encode
  rw [if_neg (by omega)]
  simp only [hrest, and_three, Str.strlen_append hnul]
  rw [if_neg]
  show ¬ ((encodeGroups x).length + 0) % 4 ≠ 0
  omega

theorem encode_eq_some_iff {x text : Bytes} :
    encode x = some text ↔ x.length < 2 ^ 31 ∧ encodeGroups x = text := by
  by_cases hx : x.length < 2 ^ 31
  · rw [encode_eq hx, Option.some.injEq]
    exact ⟨fun h => ⟨hx, h⟩, fun h => h.2⟩
  · constructor
    · intro h
      rw [encode, if_pos (by omega)] at h
      cases h
    · intro h
      exact absurd h.1 hx

theorem decodeLoop_symbol {v : UInt8} (hv : v.toNat < 64) (s : Decoder) (input : Bytes) :
    decodeLoop s (symbol v :: input) = decodeLoop (decodeRound s v) input := by
  have h := listed hv
  rw [decodeLoop, if_neg h.ne_padding, h.lookup]
  simp only [if_neg h.ne_error]

theorem decodeLoop_padding (s : Decoder) (input : Bytes) :
    decodeLoop s (padding :: input) = .returned s.res := by
  rw [decodeLoop, if_pos rfl]

/-- Between two groups the loop of `Decode` is in phase 0. -/
theorem decodeLoop_encodeGroups (x : Bytes) (res : Bytes) (last : UInt8) :
    decodeLoop ⟨res, last, 0⟩ (encodeGroups x) = .returned (res ++ x) := by
  induction x using encodeGroups.induct generalizing res last with
  | case1 a b c rest ih =>
      have hab := sextet_lt a b
      have hbc := sextet_lt b c
      have hca := sextet_lt c a
      obtain ⟨ha, hb, hc⟩ := byte_sextet a b c
      have hround : decodeRound (decodeRound (decodeRound (decodeRound ⟨res, last, 0⟩ (sextet₀ a))
          (sextet₁ a b)) (sextet₂ b c)) (sextet₃ c) =
          ⟨res ++ [byte₀ (sextet₀ a) (sextet₁ a b)] ++ [byte₁ (sextet₁ a b) (sextet₂ b c)] ++
            [byte₂ (sextet₂ b c) (sextet₃ c)], sextet₃ c, 0⟩ := rfl
      rw [encodeGroups, List.cons_append, List.cons_append, List.cons_append, List.cons_append,
        List.nil_append, decodeLoop_symbol hab.1, decodeLoop_symbol hab.2.1,
        decodeLoop_symbol hbc.2.2.1, decodeLoop_symbol hca.2.2.2, hround, ha, hb, hc, ih]
      simp
  | case2 a b =>
      have hab := sextet_lt a b
      have hbz := sextet_lt b 0
      obtain ⟨ha, hb, -⟩ := byte_sextet a b 0
      have hround : decodeRound (decodeRound (decodeRound ⟨res, last, 0⟩ (sextet₀ a))
          (sextet₁ a b)) (sextet₂ b 0) =
          ⟨res ++ [byte₀ (sextet₀ a) (sextet₁ a b)] ++ [byte₁ (sextet₁ a b) (sextet₂ b 0)],
            sextet₂ b 0, 3⟩ := rfl
      rw [encodeGroups, decodeLoop_symbol hab.1, decodeLoop_symbol hab.2.1,
        decodeLoop_symbol hbz.2.2.1, hround, decodeLoop_padding, ha, hb]
      simp
  | case3 a =>
      have haz := sextet_lt a 0
      obtain ⟨ha, -, -⟩ := byte_sextet a 0 0
      have hround : decodeRound (decodeRound ⟨res, last, 0⟩ (sextet₀ a)) (sextet₁ a 0) =
          ⟨res ++ [byte₀ (sextet₀ a) (sextet₁ a 0)], sextet₁ a 0, 2⟩ := rfl
      rw [encodeGroups, decodeLoop_symbol haz.1, decodeLoop_symbol haz.2.1, hround,
        decodeLoop_padding, ha]
  | case4 =>
      rw [encodeGroups, decodeLoop, List.append_nil]

theorem decode_encodeGroups (x : Bytes) : decode (encodeGroups x) = .returned x := by
  have hlen := length_encodeGroups x
  unfold decode
  rw [and_three, if_neg (by omega)]
  exact decodeLoop_encodeGroups x [] 255

/-! ## Main theorems -/

/-- The text that `Encode` makes of `x`, and what `Decode` makes of it. -/
structure RoundTrips (x text : Bytes) : Prop where
  encoded : encode x = some text
  length : text.length = 4 * ((x.length + 2) / 3)
  symbols : ∃ body pads, text = body ++ List.replicate pads padding ∧ pads ≤ 2 ∧
    ∀ c ∈ body, IsSymbol c
  decoded : decode text = .returned x

/-- **Every byte string comes back** from its text. -/
theorem exists_roundTrips (x : Bytes) (hx : x.length < 2 ^ 31) : ∃ text, RoundTrips x text := by
  obtain ⟨indices, pads, hpadded, -, -⟩ := padded_encodeGroups x
  refine ⟨encodeGroups x, encode_eq hx, length_encodeGroups x, ?_, decode_encodeGroups x⟩
  refine ⟨indices.map symbol, pads, hpadded.text_eq, hpadded.pads_le, ?_⟩
  intro c hc
  obtain ⟨v, hv, rfl⟩ := List.mem_map.1 hc
  exact (listed (hpadded.index_lt v hv)).isSymbol

theorem exists_roundTrips_hello :
    (lit "hello").length < 2 ^ 31 ∧ ∃ text, RoundTrips (lit "hello") text :=
  ⟨by decide, exists_roundTrips (lit "hello") (by decide)⟩

example : encode (lit "this is a test for base64") =
    some (lit "dGhpcyBpcyBhIHRlc3QgZm9yIGJhc2U2NA==") := by decide +kernel

/-- Symbols in groups of four, padding only at the end, zero bits behind the
last byte, and fewer than 2³¹ bytes. -/
def Canonical (text : Bytes) : Prop :=
  ∃ indices pads, Padded text indices pads ∧ 3 * (text.length / 4) - pads < 2 ^ 31

/-- The first character that is neither padding nor a symbol comes before any
padding, and is one that the table has. -/
def RefusedByTable (text : Bytes) : Prop :=
  ∃ before c after, text = before ++ c :: after ∧ (∀ d ∈ before, IsSymbol d) ∧ ¬ IsSymbol c ∧
    c ≠ padding ∧ c.toNat < 128

/-- `Decode` accepts exactly the encodings, and refuses every other text with
one of its exceptions. -/
structure Exact (text : Bytes) : Prop where
  inTable : ∀ index, decode text ≠ .outside index
  returns_iff : (∃ x, decode text = .returned x) ↔ ∃ x, encode x = some text
  returned : ∀ x, encode x = some text → decode text = .returned x
  raises : (∀ x, encode x ≠ some text) →
    decode text = .illegalBase64Length text.length ∨ decode text = .base64Decode

theorem exists_encode_iff (text : Bytes) : (∃ x, encode x = some text) ↔ Canonical text := by
  constructor
  · rintro ⟨x, hx⟩
    obtain ⟨hlt, rfl⟩ := encode_eq_some_iff.1 hx
    obtain ⟨indices, pads, hpadded, -, hlen⟩ := padded_encodeGroups x
    have hwhole := length_encodeGroups x
    exact ⟨indices, pads, hpadded, by omega⟩
  · rintro ⟨indices, pads, hpadded, hlt⟩
    obtain ⟨x, hx, hlen⟩ := exists_encodeGroups indices hpadded
    exact ⟨x, encode_eq_some_iff.2 ⟨by omega, hx⟩⟩

theorem decode_of_encode {x text : Bytes} (h : encode x = some text) :
    decode text = .returned x := by
  obtain ⟨-, rfl⟩ := encode_eq_some_iff.1 h
  exact decode_encodeGroups x

theorem refusedByTable_cons {c : UInt8} {input : Bytes} (hc : IsSymbol c) :
    RefusedByTable (c :: input) ↔ RefusedByTable input := by
  constructor
  · rintro ⟨before, d, after, htext, hbefore, hd⟩
    cases before with
    | nil =>
        cases htext
        exact absurd hc hd.1
    | cons b before =>
        cases htext
        exact ⟨before, d, after, rfl, fun e he => hbefore e (List.mem_cons_of_mem _ he), hd⟩
  · rintro ⟨before, d, after, rfl, hbefore, hd⟩
    refine ⟨c :: before, d, after, rfl, ?_, hd⟩
    intro e he
    rcases List.mem_cons.1 he with rfl | he
    · exact hc
    · exact hbefore e he

/-- When the loop of `Decode` throws. -/
theorem decodeLoop_eq_base64Decode_iff (s : Decoder) (input : Bytes) :
    decodeLoop s input = .base64Decode ↔ RefusedByTable input := by
  induction input generalizing s with
  | nil =>
      rw [decodeLoop]
      constructor
      · intro h
        cases h
      · rintro ⟨before, c, after, h, -⟩
        cases before <;> cases h
  | cons c input ih =>
      by_cases hsymbol : IsSymbol c
      · obtain ⟨v, hv, rfl⟩ := hsymbol.exists_index
        rw [decodeLoop_symbol hv, ih, refusedByTable_cons hsymbol]
      · -- a text that the table refuses starts with a symbol or is refused here
        have hfirst : RefusedByTable (c :: input) ↔ c ≠ padding ∧ c.toNat < 128 := by
          constructor
          · rintro ⟨before, d, after, htext, hbefore, -, hpad, hlt⟩
            cases before with
            | nil =>
                cases htext
                exact ⟨hpad, hlt⟩
            | cons b before =>
                cases htext
                exact absurd (hbefore c List.mem_cons_self) hsymbol
          · rintro ⟨hpad, hlt⟩
            exact ⟨[], c, input, rfl, fun d hd => absurd hd List.not_mem_nil, hsymbol, hpad, hlt⟩
        obtain ⟨hbelow, habove⟩ := lookup_of_not_isSymbol hsymbol
        rw [hfirst, decodeLoop]
        by_cases hpad : c = padding
        · rw [if_pos hpad]
          constructor
          · intro h
            cases h
          · intro h
            exact absurd hpad h.1
        · rw [if_neg hpad]
          by_cases hlt : c.toNat < 128
          · rw [hbelow hlt]
            simp only [if_true, true_iff]
            exact ⟨hpad, hlt⟩
          · obtain ⟨index, hindex⟩ := habove (by omega)
            rw [hindex]
            constructor
            · intro h
              cases h
            · intro h
              exact absurd h.2 hlt

theorem decodeLoop_ne_illegalBase64Length (s : Decoder) (input : Bytes) (len : Nat) :
    decodeLoop s input ≠ .illegalBase64Length len := by
  induction input generalizing s with
  | nil =>
      intro h
      cases h
  | cons c input ih =>
      rw [decodeLoop]
      split
      · intro h
        cases h
      · split
        · intro h
          cases h
        · split
          · intro h
            cases h
          · exact ih _

/-- A text of whole groups goes to the loop. -/
theorem decode_of_whole {text : Bytes} (hlen : text.length % 4 = 0) :
    decode text = decodeLoop ⟨[], 255, 0⟩ text := by
  rw [decode, and_three, if_neg (by omega)]

/-- An exception is right: what is encoded comes back. -/
theorem exact_of_raises {text : Bytes}
    (h : decode text = .illegalBase64Length text.length ∨ decode text = .base64Decode) :
    Exact text := by
  have hnot : ∀ x, decode text ≠ .returned x := by
    intro x hx
    rcases h with h | h
    · rw [h] at hx
      cases hx
    · rw [h] at hx
      cases hx
  have hnone : ∀ x, encode x ≠ some text := fun x hx => hnot x (decode_of_encode hx)
  refine ⟨?_, ?_, fun x hx => absurd hx (hnone x), fun _ => h⟩
  · intro index hout
    rcases h with h | h
    · rw [h] at hout
      cases hout
    · rw [h] at hout
      cases hout
  · exact ⟨fun ⟨x, hx⟩ => absurd hx (hnot x), fun ⟨x, hx⟩ => absurd hx (hnone x)⟩

/-- **Decoding is exact** on the texts that are no whole groups, that are
encodings, or that the table refuses. -/
theorem exact_iff (text : Bytes) :
    Exact text ↔ text.length % 4 ≠ 0 ∨ Canonical text ∨ RefusedByTable text := by
  constructor
  · intro h
    by_cases hlen : text.length % 4 = 0
    · have hwhole := decode_of_whole hlen
      cases hdecode : decode text with
      | returned x =>
          exact Or.inr (Or.inl ((exists_encode_iff text).1 (h.returns_iff.1 ⟨x, hdecode⟩)))
      | illegalBase64Length n =>
          rw [hwhole] at hdecode
          exact absurd hdecode (decodeLoop_ne_illegalBase64Length _ _ _)
      | base64Decode =>
          rw [hwhole] at hdecode
          exact Or.inr (Or.inr ((decodeLoop_eq_base64Decode_iff _ text).1 hdecode))
      | outside index => exact absurd hdecode (h.inTable index)
    · exact Or.inl hlen
  · intro h
    by_cases hlen : text.length % 4 = 0
    · rcases h with hne | hcanonical | hrefused
      · exact absurd hlen hne
      · obtain ⟨x, hx⟩ := (exists_encode_iff text).2 hcanonical
        have hdecode := decode_of_encode hx
        refine ⟨?_, ?_, fun y hy => decode_of_encode hy, fun hnone => absurd hx (hnone x)⟩
        · intro index hout
          rw [hdecode] at hout
          cases hout
        · exact ⟨fun _ => ⟨x, hx⟩, fun _ => ⟨x, hdecode⟩⟩
      · apply exact_of_raises
        rw [decode_of_whole hlen]
        exact Or.inr ((decodeLoop_eq_base64Decode_iff _ text).2 hrefused)
    · apply exact_of_raises
      rw [decode, and_three, if_pos hlen]
      exact Or.inl rfl

/-- Padding alone is accepted, and a byte above 127 leaves the table. -/
theorem not_exact_padding : ¬ Exact (lit "====") ∧ ¬ Exact [200, 65, 65, 65] := by
  constructor
  · intro h
    have hreturned : decode (lit "====") = .returned [] := by decide
    obtain ⟨x, hx⟩ := h.returns_iff.1 ⟨[], hreturned⟩
    have hnil := decode_of_encode hx
    rw [hreturned] at hnil
    cases hnil
    exact absurd hx (by decide)
  · intro h
    exact h.inTable (-56) (by decide)

end Unixtar.Base64
