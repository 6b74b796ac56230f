import Unixtar.Http.HttpPacket
import Unixtar.Utils.Split

/-!
# Encoded packets and the parser

A packet as both `Pack` functions write it: the first line, the header fields
and the body.  The parser finds the two ends it looks for where the encoder
put them, unless the `int` of `strnstr` hides them, and then splits the header
lines into the pairs they were made of.

## Main results

* `strtoul_decimal` — a length that was printed is read back.
* `HeaderField.parseFromString_text` — header fields come back from their
  text.
* `decodes_iff` — a fresh parser gives the packet back exactly when its body
  is not empty and both scans reach the ends.
-/

namespace Unixtar.Http

/-! ## Clean texts and numbers -/

/-- A text that can stand in a header line: not empty, without CR, LF and
NUL, and without the text between key and value. -/
structure CleanField (text : Bytes) : Prop where
  nonempty : text ≠ []
  noCr : 13 ∉ text
  noLf : 10 ∉ text
  noNul : 0 ∉ text
  noPair : ¬ lit ": " <:+: text

instance (text : Bytes) : Decidable (CleanField text) :=
  decidable_of_iff
    (text ≠ [] ∧ 13 ∉ text ∧ 10 ∉ text ∧ 0 ∉ text ∧ ¬ lit ": " <:+: text)
    ⟨fun ⟨h₁, h₂, h₃, h₄, h₅⟩ => ⟨h₁, h₂, h₃, h₄, h₅⟩,
      fun h => ⟨h.nonempty, h.noCr, h.noLf, h.noNul, h.noPair⟩⟩

theorem toNat_of_mem_toDigits {n : Nat} {c : Char} (h : c ∈ Nat.toDigits 10 n) :
    (48 ≤ c.toNat ∧ c.toNat ≤ 57) ∧ (UInt8.ofNat c.toNat).toNat = c.toNat := by
  have hdigit : 48 ≤ c.toNat ∧ c.toNat ≤ 57 :=
    Char.isDigit_iff_toNat.1 (Nat.isDigit_of_mem_toDigits (by decide) (by decide) h)
  refine ⟨hdigit, ?_⟩
  rw [UInt8.toNat_ofNat']
  omega

theorem isDigit_of_mem_decimal {n : Nat} {d : UInt8} (h : d ∈ decimal n) :
    Str.isDigit d = true := by
  obtain ⟨c, hc, rfl⟩ := List.mem_map.1 h
  obtain ⟨hdigit, hnat⟩ := toNat_of_mem_toDigits hc
  simp only [Str.isDigit, Bool.and_eq_true, decide_eq_true_eq, UInt8.le_iff_toNat_le, hnat]
  exact hdigit

theorem decimal_ne_nil (n : Nat) : decimal n ≠ [] := by
  intro h
  exact Nat.toDigits_ne_nil (List.map_eq_nil_iff.1 h)

theorem isSpace_of_isDigit {d : UInt8} (h : Str.isDigit d = true) : Str.isSpace d = false := by
  have hnat : 48 ≤ d.toNat := by
    simp only [Str.isDigit, Bool.and_eq_true, decide_eq_true_eq, UInt8.le_iff_toNat_le] at h
    exact h.1
  simp only [Str.isSpace, Bool.or_eq_false_iff, Bool.and_eq_false_imp, decide_eq_true_eq,
    decide_eq_false_iff_not, UInt8.le_iff_toNat_le, ← UInt8.toNat_inj]
  refine ⟨?_, fun _ => ?_⟩
  · show ¬ d.toNat = 32
    omega
  · show ¬ d.toNat ≤ 13
    omega

/-- `k` digits are enough below 10ᵏ. -/
theorem take_decimal {n k : Nat} (hk : 0 < k) (h : n < 10 ^ k) :
    (decimal n).take k = decimal n := by
  apply List.take_of_length_le
  unfold decimal
  rw [List.length_map]
  exact (Nat.length_toDigits_le_iff (by decide) hk).2 h

/-- A printed number can stand in a header line. -/
theorem cleanField_decimal (n : Nat) : CleanField (decimal n) where
  nonempty := decimal_ne_nil n
  noCr h := absurd (isDigit_of_mem_decimal h) (by decide)
  noLf h := absurd (isDigit_of_mem_decimal h) (by decide)
  noNul h := absurd (isDigit_of_mem_decimal h) (by decide)
  noPair h := absurd (isDigit_of_mem_decimal (h.subset (show 58 ∈ lit ": " by decide))) (by decide)

theorem digitsValue_decimal (n : Nat) : Str.digitsValue (decimal n) = n := by
  have hdigits := Nat.ofDigitChars_ten_toDigits (n := n)
  rw [Nat.ofDigitChars_eq_foldl] at hdigits
  unfold Str.digitsValue decimal
  rw [List.foldl_map]
  conv_rhs => rw [← hdigits]
  apply List.foldl_ext
  intro v c hc
  obtain ⟨-, hnat⟩ := toNat_of_mem_toDigits hc
  rw [hnat, Nat.mul_comm v 10]
  rfl

/-! ### Reading digits -/

section Digits

variable {ds : Bytes}

theorem cstr_digits (h : ∀ d ∈ ds, Str.isDigit d = true) : Str.cstr ds = ds :=
  Str.cstr_of_nulFree fun hzero => absurd (h 0 hzero) (by decide)

theorem dropWhile_digits (h : ∀ d ∈ ds, Str.isDigit d = true) :
    ds.dropWhile Str.isSpace = ds := by
  cases ds with
  | nil => rfl
  | cons d ds =>
      have hd := isSpace_of_isDigit (h d List.mem_cons_self)
      rw [List.dropWhile_cons_of_neg]
      rw [hd]
      exact Bool.false_ne_true

theorem takeWhile_digits (h : ∀ d ∈ ds, Str.isDigit d = true) :
    ds.takeWhile Str.isDigit = ds :=
  List.takeWhile_eq_self_iff.2 h

/-- Digits have no sign. -/
theorem ne_sign_cons (h : ∀ d ∈ ds, Str.isDigit d = true) (rest : Bytes) :
    ds ≠ 45 :: rest ∧ ds ≠ 43 :: rest := by
  constructor
  · intro hds
    exact absurd (h 45 (by rw [hds]; exact List.mem_cons_self)) (by decide)
  · intro hds
    exact absurd (h 43 (by rw [hds]; exact List.mem_cons_self)) (by decide)

/-- `strtoul` of digits. -/
theorem strtoul_digits_eq (h : ∀ d ∈ ds, Str.isDigit d = true) :
    Str.strtoul ds = if 2 ^ 64 ≤ Str.digitsValue ds then 2 ^ 64 - 1 else Str.digitsValue ds := by
  unfold Str.strtoul
  simp only [cstr_digits h, dropWhile_digits h]
  split
  · exact absurd rfl (ne_sign_cons h _).1
  · exact absurd rfl (ne_sign_cons h _).2
  · rw [takeWhile_digits h]
    simp

theorem strtoul_digits (h : ∀ d ∈ ds, Str.isDigit d = true) (hlt : Str.digitsValue ds < 2 ^ 64) :
    Str.strtoul ds = Str.digitsValue ds := by
  rw [strtoul_digits_eq h, if_neg (Nat.not_le_of_lt hlt)]

/-- `std::stoi` of digits. -/
theorem stoi_digits (hne : ds ≠ []) (h : ∀ d ∈ ds, Str.isDigit d = true)
    (hle : Str.digitsValue ds ≤ 2147483647) :
    StatusLine.stoi ds = some (Str.digitsValue ds : Int) := by
  unfold StatusLine.stoi
  simp only [cstr_digits h, dropWhile_digits h]
  split
  · exact absurd rfl (ne_sign_cons h _).1
  · exact absurd rfl (ne_sign_cons h _).2
  · rw [takeWhile_digits h, if_neg (by simpa using hne)]
    simp only [Bool.false_eq_true, if_false]
    rw [if_neg (by omega)]

end Digits

/-- A length that was printed is read back. -/
theorem strtoul_decimal {n : Nat} (h : n < 2 ^ 64) : Str.strtoul (decimal n) = n := by
  have hvalue := digitsValue_decimal n
  rw [strtoul_digits (fun d hd => isDigit_of_mem_decimal hd) (by omega), hvalue]

/-! ## First lines -/

/-- A version is one word and is read back. -/
theorem version2string_spec (version : THttpVersion) :
    (version2string version ≠ [] ∧ 32 ∉ version2string version) ∧
      getHttpVersion (version2string version) = version := by
  cases version <;> decide

theorem method2string_spec (method : THttpMethod) :
    (method2string method ≠ [] ∧ 32 ∉ method2string method) ∧
      getHttpMethod (method2string method) = method := by
  cases method <;> decide

/-- Three words with blanks between them. -/
theorem split_words {p q r : Bytes} (hp : p ≠ [] ∧ 32 ∉ p) (hq : q ≠ [] ∧ 32 ∉ q)
    (hr : r ≠ [] ∧ 32 ∉ r) :
    Str.split (p ++ (lit " " ++ (q ++ (lit " " ++ r)))) (lit " ") = [p, q, r] :=
  Str.split_three (by decide) (Str.piece_of_not_mem hp.1 hp.2) (Str.piece_of_not_mem hq.1 hq.2)
    (Str.piece_of_not_mem hr.1 hr.2)

/-! ## Header fields -/

/-- A key and a value that can stand in a header line. -/
def CleanEntry (e : Bytes × Bytes) : Prop := CleanField e.1 ∧ CleanField e.2

namespace HeaderField

/-- The text of one field, without its CRLF. -/
def line (e : Bytes × Bytes) : Bytes := e.1 ++ lit ": " ++ e.2

/-- The text of the fields up to the CRLFCRLF. -/
def text (h : HeaderField) : Bytes := HttpParser.crlf.intercalate (h.entries.map line)

theorem flatMap_lines (es : List (Bytes × Bytes)) (hne : es ≠ []) :
    es.flatMap (fun e => e.1 ++ lit ": " ++ e.2 ++ lit "\r\n") =
      HttpParser.crlf.intercalate (es.map line) ++ HttpParser.crlf := by
  induction es with
  | nil => exact absurd rfl hne
  | cons e es ih =>
      cases es with
      | nil =>
          rw [List.flatMap_cons, List.flatMap_nil, List.append_nil, List.map_singleton,
            List.intercalate_singleton]
          rfl
      | cons d ds =>
          have hlines : HttpParser.crlf.intercalate ((e :: d :: ds).map line) =
              line e ++ HttpParser.crlf ++ HttpParser.crlf.intercalate ((d :: ds).map line) :=
            List.intercalate_cons_cons
          rw [List.flatMap_cons, ih (List.cons_ne_nil d ds), hlines, ← List.append_assoc]
          rfl

theorem toBytes_eq {h : HeaderField} (hne : h.entries ≠ []) :
    h.toBytes = h.text ++ HttpParser.crlfcrlf := by
  unfold toBytes
  rw [flatMap_lines h.entries hne, List.append_assoc]
  rfl

theorem line_ne_nil {e : Bytes × Bytes} (h : CleanEntry e) : line e ≠ [] := by
  unfold line
  intro hnil
  simp only [List.append_eq_nil_iff] at hnil
  exact h.1.nonempty hnil.1.1

/-- A byte that is neither in the texts nor one of the colon and the blank. -/
theorem not_mem_line {e : Bytes × Bytes} {c : UInt8} (hkey : c ∉ e.1) (hvalue : c ∉ e.2)
    (hc : c ∉ lit ": ") : c ∉ line e := by
  unfold line
  simp only [List.mem_append, not_or]
  exact ⟨⟨hkey, hc⟩, hvalue⟩

theorem noCr_line {e : Bytes × Bytes} (h : CleanEntry e) : 13 ∉ line e :=
  not_mem_line h.1.noCr h.2.noCr (by decide)

theorem split_line {e : Bytes × Bytes} (h : CleanEntry e) :
    Str.split (line e) (lit ": ") = [e.1, e.2] := by
  have hfree : ∀ p ∈ [e.1, e.2], p ≠ [] ∧ Str.Free (lit ": ") p := by
    intro p hp
    have hclean : CleanField p := by
      rcases List.mem_cons.1 hp with rfl | hp
      · exact h.1
      · rw [List.mem_singleton.1 hp]
        exact h.2
    exact ⟨hclean.nonempty, Str.free_of_not_infix (by decide) hclean.noPair⟩
  have hjoin : line e = (lit ": ").intercalate [e.1, e.2] := by
    rw [List.intercalate_cons_cons, List.intercalate_singleton]
    rfl
  rw [hjoin]
  exact Str.split_join (by decide) hfree (Nat.le_refl 2)

theorem parseLines_map_line (es : List (Bytes × Bytes)) (hes : ∀ e ∈ es, CleanEntry e)
    (h : HeaderField) :
    parseLines h (es.map line) =
      (es.foldl (fun h e => insertOrUpdate h e.1 e.2) h, true) := by
  induction es generalizing h with
  | nil => rfl
  | cons e es ih =>
      rw [List.map_cons, parseLines, split_line (hes e List.mem_cons_self)]
      exact ih (fun d hd => hes d (List.mem_cons_of_mem e hd)) _

/-- The fields of a map that the caller gives, inserted one by one. -/
def insertAll (h : HeaderField) (es : List (Bytes × Bytes)) : HeaderField :=
  es.foldl (fun h e => insertOrUpdate h e.1 e.2) h

/-- The text of header lines up to their CRLFCRLF. -/
def blockText (es : List (Bytes × Bytes)) : Bytes := HttpParser.crlf.intercalate (es.map line)

theorem free_of_mem_lines {es : List (Bytes × Bytes)} (hes : ∀ e ∈ es, CleanEntry e) :
    ∀ p ∈ es.map line, p ≠ [] ∧ Str.Free HttpParser.crlf p := by
  intro p hp
  obtain ⟨e, he, rfl⟩ := List.mem_map.1 hp
  exact ⟨line_ne_nil (hes e he), Str.free_of_not_mem (noCr_line (hes e he))⟩

/-- **The fields of header lines**: two or more lines are read one by one, a
single one is lost. -/
theorem parseFromString_lines (h : HeaderField) {es : List (Bytes × Bytes)} (hne : es ≠ [])
    (hes : ∀ e ∈ es, CleanEntry e) :
    parseFromString h (blockText es) = (if es.length = 1 then h else insertAll h es, true) := by
  have hfree := free_of_mem_lines hes
  have hlen : (es.map line).length = es.length := List.length_map line
  have hpos := List.length_pos_of_ne_nil hne
  by_cases hone : es.length = 1
  · obtain ⟨e, rfl⟩ := List.length_eq_one_iff.1 hone
    have htext : blockText [e] = line e := List.intercalate_singleton
    have hsplit : Str.split (line e) (lit "\r\n") = [] :=
      Str.split_single (by decide) (hfree (line e) List.mem_cons_self).2
    rw [if_pos hone, htext, parseFromString, hsplit, parseLines]
  · have hsplit : Str.split (blockText es) (lit "\r\n") = es.map line :=
      Str.split_join (by decide) hfree (by omega)
    rw [if_neg hone, parseFromString, hsplit]
    exact parseLines_map_line es hes h

/-- **Header fields come back** from their lines, if there are two or more. -/
theorem parseFromString_text {h : HeaderField} (hclean : ∀ e ∈ h.entries, CleanEntry e)
    (htwo : 2 ≤ h.entries.length) : parseFromString Lib.OrdMap.empty h.text = (h, true) := by
  have hne : h.entries ≠ [] := List.ne_nil_of_length_pos (by omega)
  have hlines := parseFromString_lines Lib.OrdMap.empty hne hclean
  rw [if_neg (by omega)] at hlines
  exact hlines.trans (congrArg (·, true) (Lib.OrdMap.foldl_insert_entries h))

/-- A field with this key is there. -/
def HasKey (h : HeaderField) (key : Bytes) : Prop := ∃ e ∈ h.entries, e.1 = key

theorem hasKey_insert_self (h : HeaderField) (key value : Bytes) :
    HasKey (insertOrUpdate h key value) key :=
  ⟨(key, value), Lib.OrdMap.mem_insertEntry_self key value h.entries, rfl⟩

theorem HasKey.insert {h : HeaderField} {key : Bytes} (hkey : HasKey h key) (key' value' : Bytes) :
    HasKey (insertOrUpdate h key' value') key := by
  obtain ⟨e, he, rfl⟩ := hkey
  by_cases heq : e.1 = key'
  · rw [heq]
    exact hasKey_insert_self h key' value'
  · exact ⟨e, Lib.OrdMap.mem_insertEntry_of_ne he heq, rfl⟩

theorem two_le_of_hasKey {h : HeaderField} {key key' : Bytes} (hne : key ≠ key')
    (hkey : HasKey h key) (hkey' : HasKey h key') : 2 ≤ h.entries.length := by
  obtain ⟨e, he, rfl⟩ := hkey
  obtain ⟨d, hd, rfl⟩ := hkey'
  match hentries : h.entries with
  | [] =>
      rw [hentries] at he
      exact absurd he List.not_mem_nil
  | [a] =>
      rw [hentries, List.mem_singleton] at he hd
      rw [he, hd] at hne
      exact absurd rfl hne
  | a :: b :: rest => exact Nat.le_add_left 2 rest.length

/-- Fields that were inserted are clean if the new ones are. -/
theorem clean_insert {h : HeaderField} {key value : Bytes} (hclean : ∀ e ∈ h.entries, CleanEntry e)
    (hkey : CleanField key) (hvalue : CleanField value) :
    ∀ e ∈ (insertOrUpdate h key value).entries, CleanEntry e := by
  intro e he
  rcases Lib.OrdMap.mem_insertEntry he with rfl | he
  · exact ⟨hkey, hvalue⟩
  · exact hclean e he

theorem clean_insertAll (es : List (Bytes × Bytes)) (hes : ∀ e ∈ es, CleanEntry e)
    {h : HeaderField} (hclean : ∀ e ∈ h.entries, CleanEntry e) :
    ∀ e ∈ (insertAll h es).entries, CleanEntry e := by
  induction es generalizing h with
  | nil => exact hclean
  | cons d es ih =>
      obtain ⟨hkey, hvalue⟩ := hes d List.mem_cons_self
      exact ih (fun e he => hes e (List.mem_cons_of_mem d he)) (clean_insert hclean hkey hvalue)

theorem HasKey.insertAll {h : HeaderField} {key : Bytes} (hkey : HasKey h key)
    (es : List (Bytes × Bytes)) : HasKey (insertAll h es) key := by
  induction es generalizing h with
  | nil => exact hkey
  | cons d es ih => exact ih (hkey.insert d.1 d.2)

/-- A key that begins with another one, as one with the same C string does,
does not come before it. -/
theorem not_lt_of_cstr_eq {key key' : Bytes} (h : Str.cstr key = key') : ¬ key < key' := by
  have hcut : key = key' ++ key.dropWhile (· ≠ 0) := by
    rw [← h]
    exact (List.takeWhile_append_dropWhile).symm
  rw [hcut]
  exact List.le_append_left

/-- The length that was inserted last is found, whatever other keys there
are. -/
theorem contentLength_insert (h : HeaderField) (value : Bytes) :
    contentLength (insertOrUpdate h kContentLength value) = Str.strtoul value := by
  have hfind : (insertOrUpdate h kContentLength value).entries.find?
      (fun e => Str.cstr e.1 = kContentLength) = some (kContentLength, value) := by
    apply Lib.OrdMap.find?_insertEntry
    · show decide (Str.cstr kContentLength = kContentLength) = true
      decide
    · intro e _ hlt
      exact decide_eq_false fun heq => not_lt_of_cstr_eq heq hlt
  unfold contentLength
  rw [hfind]

end HeaderField

/-! ## Where the ends stand -/

/-- No CRLFCRLF starts inside header lines: they are not empty and have no
CR. -/
theorem not_crlfcrlf_prefix (lines : List Bytes) (hlines : ∀ l ∈ lines, l ≠ [] ∧ 13 ∉ l)
    (t : Bytes) {k : Nat} (hk : k < (HttpParser.crlf.intercalate lines).length) :
    ¬ HttpParser.crlfcrlf <+:
      (HttpParser.crlf.intercalate lines ++ (HttpParser.crlfcrlf ++ t)).drop k := by
  -- a place inside a line does not hold a CR
  have hinside : ∀ l : Bytes, 13 ∉ l → ∀ i, i < l.length → ∀ u,
      ¬ HttpParser.crlfcrlf <+: (l ++ u).drop i := by
    intro l hl i hi u hat
    rw [List.drop_append_of_le_length (Nat.le_of_lt hi), List.drop_eq_getElem_cons hi] at hat
    have hhead : 13 = l[i] := (List.cons_prefix_cons.1 hat).1
    apply hl
    rw [hhead]
    exact List.getElem_mem hi
  induction lines generalizing k with
  | nil => exact absurd hk (Nat.not_lt_zero k)
  | cons l ls ih =>
      obtain ⟨hne, hcr⟩ := hlines l List.mem_cons_self
      cases ls with
      | nil =>
          rw [List.intercalate_singleton] at hk ⊢
          exact hinside l hcr k hk _
      | cons m ms =>
          have htail : ∀ l ∈ m :: ms, l ≠ [] ∧ 13 ∉ l :=
            fun l hl => hlines l (List.mem_cons_of_mem _ hl)
          rw [List.intercalate_cons_cons] at hk ⊢
          by_cases hlt : k < l.length
          · rw [List.append_assoc, List.append_assoc]
            exact hinside l hcr k hlt _
          · obtain ⟨i, rfl⟩ : ∃ i, k = l.length + i := ⟨k - l.length, by omega⟩
            have hi : i < 2 + (HttpParser.crlf.intercalate (m :: ms)).length := by
              simp only [List.length_append] at hk
              have hcrlf : HttpParser.crlf.length = 2 := rfl
              omega
            rw [List.append_assoc, List.append_assoc, List.drop_length_add_append]
            obtain ⟨c, cs, rfl⟩ := List.exists_cons_of_ne_nil (htail m List.mem_cons_self).1
            match i with
            | 0 =>
                -- behind one CRLF stands the first byte of the next line
                intro hat
                rw [List.intercalate_cons_cons_left] at hat
                have hhead : 13 = c :=
                  (List.cons_prefix_cons.1
                    (List.cons_prefix_cons.1 (List.cons_prefix_cons.1 hat).2).2).1
                apply (htail (c :: cs) List.mem_cons_self).2
                rw [hhead]
                exact List.mem_cons_self
            | 1 =>
                intro hat
                exact absurd (List.cons_prefix_cons.1 hat).1 (by decide)
            | i + 2 => exact ih htail (by omega)

/-- The scan for the CRLF behind a text without CR. -/
theorem strnstr_crlf {line : Bytes} (hcr : 13 ∉ line) (t : Bytes) :
    Str.strnstr (line ++ (HttpParser.crlf ++ t)) HttpParser.crlf
        (line ++ (HttpParser.crlf ++ t)).length =
      if Str.Reaches (Str.strlen (line ++ (HttpParser.crlf ++ t))) (line.length + 2)
        then some line.length else none := by
  have hfree : Str.Free HttpParser.crlf line := Str.free_of_not_mem hcr
  rw [Str.strnstr_of_first HttpParser.isLiteral_crlf (i := line.length)]
  · rfl
  · rw [List.drop_left]
    exact List.prefix_append _ _
  · intro k hk
    exact hfree k hk _ (Or.inr (List.prefix_append _ _))
  · rw [List.length_append, List.length_append]
    omega

/-- The scan for the CRLFCRLF behind header lines. -/
theorem strnstr_crlfcrlf {es : List (Bytes × Bytes)} (hes : ∀ e ∈ es, CleanEntry e) (t : Bytes) :
    Str.strnstr (HeaderField.blockText es ++ (HttpParser.crlfcrlf ++ t)) HttpParser.crlfcrlf
        (HeaderField.blockText es ++ (HttpParser.crlfcrlf ++ t)).length =
      if Str.Reaches (Str.strlen (HeaderField.blockText es ++ (HttpParser.crlfcrlf ++ t)))
          ((HeaderField.blockText es).length + 4)
        then some (HeaderField.blockText es).length else none := by
  have hlines : ∀ l ∈ es.map HeaderField.line, l ≠ [] ∧ 13 ∉ l := by
    intro l hl
    obtain ⟨e, he, rfl⟩ := List.mem_map.1 hl
    exact ⟨HeaderField.line_ne_nil (hes e he), HeaderField.noCr_line (hes e he)⟩
  rw [Str.strnstr_of_first HttpParser.isLiteral_crlfcrlf
    (i := (HeaderField.blockText es).length)]
  · rfl
  · rw [List.drop_left]
    exact List.prefix_append _ _
  · intro k hk
    exact not_crlfcrlf_prefix _ hlines t hk
  · rw [List.length_append, List.length_append]
    omega

/-! ## Encoded packets -/

/-- A packet as `Pack` writes it: a first line without its CRLF, the header
fields and the body. -/
def encode (line : Bytes) (h : HeaderField) (body : Bytes) : Bytes :=
  line ++ (HttpParser.crlf ++ (h.toBytes ++ body))

/-- What the parser is to give back: `parse` reads the first line, and the
header fields state the length of the body. -/
structure Encodes {L : Type} (parse : L → Bytes → L × LineResult) (l₀ l : L) (line : Bytes)
    (h : HeaderField) (body : Bytes) : Prop where
  noCr : 13 ∉ line
  noNul : 0 ∉ line
  parses : parse l₀ line = (l, .accepted)
  clean : ∀ e ∈ h.entries, CleanEntry e
  two : 2 ≤ h.entries.length
  length : HeaderField.contentLength h = body.length

/-- The parser ends with the packet. -/
structure Decoded {L : Type} (l : L) (h : HeaderField) (body : Bytes) (p : HttpParser L) :
    Prop where
  isEnd : p.position = .kEnd
  firstLine : p.firstLine = l
  headers : p.headers = h
  body : p.body = body

/-- The scan for the end of the first line, and the scan for the end of the
header fields, reach it. -/
structure EndsReached (line : Bytes) (h : HeaderField) (body : Bytes) : Prop where
  line : Str.Reaches (line.length + 2 + h.toBytes.length + Str.strlen body) (line.length + 2)
  headers : Str.Reaches (h.toBytes.length + Str.strlen body) h.toBytes.length

/-- A packet below 2³² bytes up to the first NUL of its body. -/
theorem endsReached_of_lt {line : Bytes} {h : HeaderField} {body : Bytes}
    (hlen : line.length + 2 + h.toBytes.length + Str.strlen body < 2 ^ 32) :
    EndsReached line h body :=
  ⟨Str.reaches_of_lt hlen (by omega), Str.reaches_of_lt (by omega) (by omega)⟩

section

variable {L : Type} {parse : L → Bytes → L × LineResult} {l₀ l : L} {line : Bytes}
  {h : HeaderField} {body : Bytes}

theorem Encodes.toBytes_eq (henc : Encodes parse l₀ l line h body) :
    h.toBytes = h.text ++ HttpParser.crlfcrlf :=
  HeaderField.toBytes_eq (List.ne_nil_of_length_pos (by have := henc.two; omega))

theorem Encodes.noNul_toBytes (henc : Encodes parse l₀ l line h body) : 0 ∉ h.toBytes := by
  unfold HeaderField.toBytes
  rw [List.mem_append, not_or]
  refine ⟨?_, by decide⟩
  rw [List.mem_flatMap]
  rintro ⟨e, he, hmem⟩
  have hclean := henc.clean e he
  rw [List.mem_append] at hmem
  rcases hmem with hmem | hmem
  · exact HeaderField.not_mem_line hclean.1.noNul hclean.2.noNul (by decide) hmem
  · exact absurd hmem (by decide)

/-- The scan for the first line. -/
theorem Encodes.strnstr_line (henc : Encodes parse l₀ l line h body) :
    Str.strnstr (encode line h body) HttpParser.crlf (encode line h body).length =
      if Str.Reaches (line.length + 2 + h.toBytes.length + Str.strlen body) (line.length + 2)
        then some line.length else none := by
  have hnul : 0 ∉ line ++ (HttpParser.crlf ++ h.toBytes) := by
    simp only [List.mem_append, not_or]
    exact ⟨henc.noNul, by decide, henc.noNul_toBytes⟩
  have hassoc : encode line h body = line ++ (HttpParser.crlf ++ h.toBytes) ++ body := by
    simp only [encode, List.append_assoc]
  have hlen : Str.strlen (encode line h body) =
      line.length + 2 + h.toBytes.length + Str.strlen body := by
    rw [hassoc, Str.strlen_append hnul]
    simp only [List.length_append]
    have hcrlf : HttpParser.crlf.length = 2 := rfl
    omega
  rw [← hlen]
  exact strnstr_crlf henc.noCr _

/-- The scan for the header fields, behind the first line. -/
theorem Encodes.strnstr_headers (henc : Encodes parse l₀ l line h body) :
    Str.strnstr (h.toBytes ++ body) HttpParser.crlfcrlf (h.toBytes ++ body).length =
      if Str.Reaches (h.toBytes.length + Str.strlen body) h.toBytes.length
        then some h.text.length else none := by
  have hlen : h.toBytes.length = h.text.length + 4 := by
    rw [henc.toBytes_eq, List.length_append]
    rfl
  have hassoc : h.toBytes ++ body = h.text ++ (HttpParser.crlfcrlf ++ body) := by
    rw [henc.toBytes_eq, List.append_assoc]
  rw [← Str.strlen_append henc.noNul_toBytes, hlen, hassoc]
  exact strnstr_crlfcrlf henc.clean body

/-! ## The parser on an encoded packet -/

/-- The virtual functions of a parser whose header fields and body are those
of the base class, for packets with the first line `l`. -/
structure Resolvers.Plain (r : Resolvers L) (parse : L → Bytes → L × LineResult) (l : L) :
    Prop where
  firstLine : r.firstLine = HttpParser.resolveFirstLine parse
  headers : ∀ buf p, ∃ upgrade, r.headers buf p =
    ({ (HttpParser.resolveHeaders buf p).1 with isUpgradeToWs := upgrade },
      (HttpParser.resolveHeaders buf p).2)
  body : ∀ buf p, p.firstLine = l → r.body buf p = HttpParser.resolveBody buf p

/-- The parser behind the first line. -/
def behindLine (l₀ l : L) (line : Bytes) : HttpParser L :=
  { HttpParser.init l₀ with
    firstLine := l, position := .kHeaders, resolvedLen := line.length + 2,
    firstLineLen := line.length + 2 }

/-- The parser behind the header fields. -/
def behindHeaders (l₀ l : L) (line : Bytes) (h : HeaderField) (upgrade : Bool) : HttpParser L :=
  { behindLine l₀ l line with
    headers := h, resolvedLen := line.length + 2 + h.text.length + 4,
    headerLen := line.length + 2 + h.text.length + 4 - (line.length + 2), position := .kBody,
    isUpgradeToWs := upgrade }

variable {r : Resolvers L}

theorem encode_ne_nil (line : Bytes) (h : HeaderField) (body : Bytes) :
    encode line h body ≠ [] := by
  unfold encode
  intro hnil
  simp only [List.append_eq_nil_iff] at hnil
  exact absurd hnil.2.1 (by decide)

/-- The first round looks for the first line. -/
theorem resolve_init (hfirst : r.firstLine = HttpParser.resolveFirstLine parse) {buf : Bytes}
    (hbuf : buf ≠ []) :
    HttpParser.resolve r buf (HttpParser.init l₀) =
      HttpParser.resolveFirstLine parse buf
        { HttpParser.init l₀ with position := .kFirstLine } := by
  have hpos := List.length_pos_of_ne_nil hbuf
  simp only [HttpParser.resolve, HttpParser.init, hpos, and_self, if_true, hfirst]

theorem resolveFirstLine_encode (henc : Encodes parse l₀ l line h body)
    (hreach : Str.Reaches (line.length + 2 + h.toBytes.length + Str.strlen body)
      (line.length + 2)) :
    HttpParser.resolveFirstLine parse (encode line h body)
        { HttpParser.init l₀ with position := .kFirstLine } =
      (behindLine l₀ l line, .success) := by
  have htake : (encode line h body).take line.length = line := by
    unfold encode
    rw [List.take_left]
  unfold HttpParser.resolveFirstLine
  rw [henc.strnstr_line, if_pos hreach]
  dsimp only
  unfold HttpParser.takeFirstLine
  have hfirst : { HttpParser.init l₀ with position := .kFirstLine }.firstLine = l₀ := rfl
  rw [hfirst, htake, henc.parses]
  rfl

theorem drop_encode (line : Bytes) (h : HeaderField) (body : Bytes) :
    (encode line h body).drop (line.length + 2) = h.toBytes ++ body := by
  unfold encode
  rw [← List.append_assoc]
  exact List.drop_left' (by rw [List.length_append]; rfl)

theorem resolveHeaders_encode (henc : Encodes parse l₀ l line h body)
    (hreach : Str.Reaches (h.toBytes.length + Str.strlen body) h.toBytes.length) :
    HttpParser.resolveHeaders (encode line h body) (behindLine l₀ l line) =
      (behindHeaders l₀ l line h false, .success) := by
  have hdrop := drop_encode line h body
  have hlen : (encode line h body).length - (line.length + 2) = (h.toBytes ++ body).length := by
    rw [← hdrop, List.length_drop]
  have htake : (h.toBytes ++ body).take h.text.length = h.text := by
    rw [henc.toBytes_eq, List.append_assoc, List.take_left]
  have hresolved : (behindLine l₀ l line).resolvedLen = line.length + 2 := rfl
  unfold HttpParser.resolveHeaders
  rw [hresolved, hdrop, hlen, henc.strnstr_headers, if_pos hreach]
  dsimp only
  unfold HttpParser.takeHeaders
  have hheaders : (behindLine l₀ l line).headers = Lib.OrdMap.empty := rfl
  rw [hheaders, hresolved, hdrop, htake, HeaderField.parseFromString_text henc.clean henc.two]
  rfl

theorem resolveBody_encode (henc : Encodes parse l₀ l line h body) (upgrade : Bool) :
    if body = [] then
      (HttpParser.resolveBody (encode line h body) (behindHeaders l₀ l line h upgrade)).1.position =
        .kError
    else
      ∃ p, HttpParser.resolveBody (encode line h body) (behindHeaders l₀ l line h upgrade) =
        (p, .success) ∧ Decoded l h body p := by
  have hcrlf : HttpParser.crlf.length = 2 := rfl
  have htext : h.toBytes.length = h.text.length + 4 := by
    rw [henc.toBytes_eq, List.length_append]
    rfl
  have hlen : (encode line h body).length =
      line.length + 2 + (h.text.length + 4) + body.length := by
    simp only [encode, List.length_append, htext, hcrlf]
    omega
  have hdrop : (encode line h body).drop ((encode line h body).length - body.length) = body := by
    have hassoc : encode line h body = line ++ (HttpParser.crlf ++ h.toBytes) ++ body := by
      simp only [encode, List.append_assoc]
    rw [hassoc]
    apply List.drop_left'
    simp only [List.length_append]
    omega
  unfold HttpParser.resolveBody
  simp only [behindHeaders, henc.length]
  split
  · rename_i hnil
    rw [if_pos (by rw [hnil]; rfl)]
  · rename_i hne
    have hpos := List.length_pos_of_ne_nil hne
    have hcurr : (encode line h body).length - (behindLine l₀ l line).firstLineLen -
        (line.length + 2 + h.text.length + 4 - (line.length + 2)) = body.length := by
      show (encode line h body).length - (line.length + 2) - _ = _
      omega
    rw [if_neg (by omega), hcurr, if_neg (Nat.lt_irrefl _), if_pos rfl]
    refine ⟨_, rfl, rfl, rfl, rfl, ?_⟩
    show ((encode line h body).drop _).take _ = body
    rw [hdrop, List.take_length]

theorem doParse_init {buf : Bytes} (hbuf : buf ≠ []) :
    HttpParser.doParse r buf (HttpParser.init l₀) =
      HttpParser.loop r buf 4 (HttpParser.init l₀) := by
  have hlen : buf.length ≠ 0 := fun h0 => hbuf (List.eq_nil_of_length_eq_zero h0)
  have hrest : buf.length - (HttpParser.init l₀).resolvedLen ≠ 0 := hlen
  unfold HttpParser.doParse
  rw [if_neg hlen, if_neg hrest]

/-- A scan that does not reach the end of the first line. -/
theorem position_of_line_missed (hplain : r.Plain parse l) (henc : Encodes parse l₀ l line h body)
    (hmiss : ¬ Str.Reaches (line.length + 2 + h.toBytes.length + Str.strlen body)
      (line.length + 2)) :
    (HttpParser.doParse r (encode line h body) (HttpParser.init l₀)).1.position = .kFirstLine := by
  have hne := encode_ne_nil line h body
  have hround : HttpParser.resolve r (encode line h body) (HttpParser.init l₀) = _ :=
    resolve_init hplain.firstLine hne
  unfold HttpParser.resolveFirstLine at hround
  rw [henc.strnstr_line, if_neg hmiss] at hround
  rw [doParse_init hne, HttpParser.loop_fst_of_last hround (Or.inl (by decide))]

/-- From the header fields on: a scan that does not reach their end. -/
theorem position_of_headers_missed (hplain : r.Plain parse l)
    (henc : Encodes parse l₀ l line h body)
    (hmiss : ¬ Str.Reaches (h.toBytes.length + Str.strlen body) h.toBytes.length) (n : Nat) :
    (HttpParser.loop r (encode line h body) (n + 1) (behindLine l₀ l line)).1.position =
      .kHeaders := by
  have hdrop : (encode line h body).drop (behindLine l₀ l line).resolvedLen = h.toBytes ++ body :=
    drop_encode line h body
  have hbase : HttpParser.resolveHeaders (encode line h body) (behindLine l₀ l line) =
      (behindLine l₀ l line, .failure) := by
    unfold HttpParser.resolveHeaders
    rw [← List.length_drop, hdrop, henc.strnstr_headers, if_neg hmiss]
  obtain ⟨upgrade, hheaders⟩ := hplain.headers (encode line h body) (behindLine l₀ l line)
  rw [hbase] at hheaders
  have hround : HttpParser.resolve r (encode line h body) (behindLine l₀ l line) =
      ({ behindLine l₀ l line with isUpgradeToWs := upgrade }, .failure) := hheaders
  rw [HttpParser.loop_fst_of_last hround (Or.inl (by decide))]
  rfl

/-- From the header fields on, when the scan reaches their end. -/
theorem loop_behindLine (hplain : r.Plain parse l) (henc : Encodes parse l₀ l line h body)
    (hreach : Str.Reaches (h.toBytes.length + Str.strlen body) h.toBytes.length) (n : Nat) :
    ∃ upgrade, (HttpParser.loop r (encode line h body) (n + 2) (behindLine l₀ l line)).1 =
      (HttpParser.resolveBody (encode line h body) (behindHeaders l₀ l line h upgrade)).1 := by
  obtain ⟨upgrade, hheaders⟩ := hplain.headers (encode line h body) (behindLine l₀ l line)
  rw [resolveHeaders_encode henc hreach] at hheaders
  have hround : HttpParser.resolve r (encode line h body) (behindLine l₀ l line) =
      (behindHeaders l₀ l line h upgrade, .success) := hheaders
  have hlast : HttpParser.resolve r (encode line h body) (behindHeaders l₀ l line h upgrade) =
      HttpParser.resolveBody (encode line h body) (behindHeaders l₀ l line h upgrade) :=
    hplain.body _ _ rfl
  refine ⟨upgrade, ?_⟩
  rw [HttpParser.loop_of_success hround (by simp [behindHeaders]) (by simp [behindHeaders])]
  have hbody := resolveBody_encode henc upgrade
  split at hbody
  · exact HttpParser.loop_fst_of_last hlast (Or.inr (Or.inr hbody)) n
  · obtain ⟨p, hp, hdecoded⟩ := hbody
    rw [hp] at hlast ⊢
    exact HttpParser.loop_fst_of_last hlast (Or.inr (Or.inl hdecoded.isEnd)) n

/-- **The parser on an encoded packet** gives it back exactly when the body is
not empty and both scans reach their ends. -/
theorem decodes_iff (hplain : r.Plain parse l) (henc : Encodes parse l₀ l line h body) :
    Decoded l h body (HttpParser.doParse r (encode line h body) (HttpParser.init l₀)).1 ↔
      body ≠ [] ∧ EndsReached line h body := by
  have hne := encode_ne_nil line h body
  by_cases hline : Str.Reaches (line.length + 2 + h.toBytes.length + Str.strlen body)
      (line.length + 2)
  · have hround : HttpParser.resolve r (encode line h body) (HttpParser.init l₀) = _ :=
      resolve_init hplain.firstLine hne
    rw [resolveFirstLine_encode henc hline] at hround
    rw [doParse_init hne,
      HttpParser.loop_of_success hround (by simp [behindLine]) (by simp [behindLine])]
    by_cases hhead : Str.Reaches (h.toBytes.length + Str.strlen body) h.toBytes.length
    · obtain ⟨upgrade, hloop⟩ := loop_behindLine hplain henc hhead 1
      rw [hloop]
      have hbody := resolveBody_encode henc upgrade
      split at hbody
      · rename_i hnil
        refine iff_of_false (fun hdecoded => ?_) (fun hgood => hgood.1 hnil)
        rw [hdecoded.isEnd] at hbody
        cases hbody
      · rename_i hbodyNe
        obtain ⟨p, hp, hdecoded⟩ := hbody
        rw [hp]
        exact iff_of_true hdecoded ⟨hbodyNe, hline, hhead⟩
    · have hstuck := position_of_headers_missed hplain henc hhead 2
      refine iff_of_false (fun hdecoded => ?_) (fun hgood => hhead hgood.2.headers)
      rw [hdecoded.isEnd] at hstuck
      cases hstuck
  · have hstuck := position_of_line_missed hplain henc hline
    refine iff_of_false (fun hdecoded => ?_) (fun hgood => hline hgood.2.line)
    rw [hdecoded.isEnd] at hstuck
    cases hstuck

end

end Unixtar.Http
