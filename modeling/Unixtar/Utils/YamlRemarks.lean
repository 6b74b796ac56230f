import Unixtar.Utils.YamlRoundTrip

/-!
# Blank lines and comments in configuration files

`ParseYaml` cuts a line off at its '#', and skips it if nothing is left.
Spaces are left: a line of spaces is of no kind that `ParseYaml` knows, and
spaces behind "key:" are a second piece.

## Main results

* `insert_iff` — a blank line or a comment can be inserted exactly when it is
  not indented.
* `append_iff` — a comment behind a line does not matter exactly when no space
  stands before it, or the line has a comment already, or there is text on
  the line that does not end with a colon.
-/

namespace Unixtar.Yaml

/-- Spaces, and a comment if there is one. -/
def remark (n : Nat) (comment : Option Bytes) : Bytes :=
  spaces n ++ (comment.map (35 :: ·)).getD []

/-- `ParseYaml` accepts the text, and its nodes are those of `p`. -/
def SameTree (path text : Bytes) (p : Parser) : Prop :=
  ∃ q, parseYaml path text = some q ∧ q.nodes = p.nodes

/-! ## Lines -/

theorem delafter_append (s t : Bytes) (whence : UInt8) :
    delafter (s ++ t) whence =
      if whence ∈ s then delafter s whence else s ++ delafter t whence := by
  unfold delafter
  induction s with
  | nil => rfl
  | cons c s ih =>
      by_cases hc : c = whence
      · subst hc
        simp
      · rw [List.cons_append, List.takeWhile_cons_of_pos (by simpa using hc), ih]
        have hmem : whence ∈ c :: s ↔ whence ∈ s := by
          rw [List.mem_cons, or_iff_right (Ne.symm hc)]
        simp only [hmem]
        split
        · rw [List.takeWhile_cons_of_pos (by simpa using hc)]
        · rfl

theorem delafter_remark (n : Nat) (comment : Option Bytes) :
    delafter (remark n comment) 35 = spaces n := by
  unfold remark
  rw [delafter_append, if_neg (not_mem_spaces (by decide) n)]
  cases comment with
  | none => exact List.append_nil _
  | some text => exact List.append_nil _

/-- What stands behind the '#' does not matter. -/
theorem parseLine_congr {line line' : Bytes} (h : delafter line 35 = delafter line' 35)
    (p : Parser) : p.parseLine line = p.parseLine line' := by
  unfold Parser.parseLine
  rw [h]

/-- Three pieces or more, or none. -/
theorem parsePieces_other {pieces : List Bytes} (hone : ∀ key, pieces ≠ [key])
    (htwo : ∀ key data, pieces ≠ [key, data]) (line : Bytes) (indentDiff : Int) (p : Parser) :
    p.parsePieces line indentDiff pieces =
      if trim line = lit "-" then p.markArrStart else none := by
  match pieces with
  | [] => rfl
  | [key] => exact absurd rfl (hone key)
  | [key, data] => exact absurd rfl (htwo key data)
  | _ :: _ :: _ :: _ => rfl

theorem trim_spaces_only (n : Nat) : trim (spaces n) = [] := by
  rw [← List.append_nil (spaces n)]
  exact trim_spaces n nofun nofun

theorem spaces_ne_nil {n : Nat} (h : n ≠ 0) : spaces n ≠ [] := by
  obtain ⟨k, rfl⟩ := Nat.exists_eq_succ_of_ne_zero h
  exact List.cons_ne_nil _ _

/-- **A remark as a line** is skipped or fails, whatever has been read. -/
theorem parseLine_remark (p : Parser) (n : Nat) (comment : Option Bytes) :
    p.parseLine (remark n comment) = if n = 0 then some p else none := by
  have hsplit : Str.split (spaces n) (lit ":") = [] :=
    Str.split_single (by decide) (Str.free_of_not_mem (not_mem_spaces (by decide) n))
  have htrim : ¬ trim (spaces n) = lit "-" := by
    rw [trim_spaces_only]
    decide
  by_cases hn : n = 0
  · subst hn
    rw [if_pos rfl]
    unfold Parser.parseLine
    simp only [delafter_remark]
    rfl
  · rw [if_neg hn]
    unfold Parser.parseLine
    simp only [delafter_remark, if_neg (spaces_ne_nil hn), hsplit]
    unfold Parser.parsePieces
    rw [if_neg htrim]
    split <;> rfl

/-- **Inserting a line.** -/
theorem insert_iff {path text text' : Bytes} {p : Parser} {pre post : List Bytes} {n : Nat}
    {comment : Option Bytes} (hparse : parseYaml path text = some p)
    (hlines : getLines text = pre ++ post)
    (hlines' : getLines text' = pre ++ remark n comment :: post) :
    SameTree path text' p ↔ n = 0 := by
  unfold parseYaml at hparse
  rw [hlines, parseLines_append] at hparse
  have hparse' : parseYaml path text' = if n = 0 then some p else none := by
    unfold parseYaml
    rw [hlines', parseLines_append]
    cases hpre : (Parser.init path).parseLines pre with
    | none =>
        rw [hpre] at hparse
        cases hparse
    | some q =>
        rw [hpre] at hparse
        rw [Option.bind_some, parseLines_cons, parseLine_remark]
        split
        · exact hparse
        · rfl
  unfold SameTree
  rw [hparse']
  constructor
  · rintro ⟨q, hq, -⟩
    by_contra hn
    rw [if_neg hn] at hq
    cases hq
  · intro hn
    exact ⟨p, if_pos hn, rfl⟩

/-! ## Spaces behind a line -/

theorem trim_append_spaces (s : Bytes) (n : Nat) : trim (s ++ spaces n) = trim s := by
  unfold trim
  congr 1
  by_cases hall : ∀ c ∈ s, c = 32
  · -- nothing is left of either
    have hdrop : ∀ l : Bytes, (∀ c ∈ l, c = 32) → l.dropWhile (· = 32) = [] := by
      intro l hl
      rw [List.dropWhile_eq_nil_iff]
      intro c hc
      simpa using hl c hc
    rw [hdrop s hall, hdrop (s ++ spaces n)]
    intro c hc
    rcases List.mem_append.1 hc with hc | hc
    · exact hall c hc
    · exact List.eq_of_mem_replicate hc
  · have hdrop : (s ++ spaces n).dropWhile (· = 32) = s.dropWhile (· = 32) ++ spaces n := by
      rw [List.dropWhile_append, if_neg]
      rw [List.isEmpty_iff, List.dropWhile_eq_nil_iff]
      simpa using hall
    rw [hdrop, List.reverse_append]
    have hrev : (spaces n).reverse = spaces n := List.reverse_replicate ..
    rw [hrev]
    apply List.dropWhile_append_of_pos
    intro c hc
    simpa using List.eq_of_mem_replicate hc

theorem indentsOf_append {s : Bytes} (hs : ¬ ∀ c ∈ s, c = 32) (t : Bytes) :
    indentsOf (s ++ t) = indentsOf s := by
  unfold indentsOf
  rw [List.findIdx?_append]
  cases hfind : s.findIdx? (· ≠ 32) with
  | some i => rfl
  | none =>
      apply absurd _ hs
      intro c hc
      have hnone := List.findIdx?_eq_none_iff.1 hfind c hc
      simpa using hnone

/-- A line of spaces that is not empty is refused. -/
theorem parseLine_spaces {p : Parser} {line : Bytes} (hne : line ≠ []) (hall : ∀ c ∈ line, c = 32) :
    p.parseLine line = none := by
  have hline : line = remark line.length none := by
    unfold remark spaces
    rw [List.eq_replicate_of_mem hall]
    simp
  rw [hline, parseLine_remark, if_neg (fun h => hne (List.eq_nil_of_length_eq_zero h))]

/-- **A line that does not end with a colon** is read as before. -/
theorem parseLine_closed {p q : Parser} {line : Bytes} (hhash : 35 ∉ line) (hne : line ≠ [])
    (hlast : line.getLast? ≠ some 58) (haccept : p.parseLine line = some q) (n : Nat) :
    p.parseLine (line ++ spaces n) = some q := by
  have hsome : ¬ ∀ c ∈ line, c = 32 := by
    intro hall
    rw [parseLine_spaces hne hall] at haccept
    cases haccept
  have hhash' : 35 ∉ line ++ spaces n := by
    rw [List.mem_append, not_or]
    exact ⟨hhash, not_mem_spaces (by decide) n⟩
  rw [parseLine_eq hhash hne] at haccept
  rw [parseLine_eq hhash' (fun h => hne (List.append_eq_nil_iff.1 h).1),
    indentsOf_append hsome, ← haccept]
  have hpieces : p.parsePieces (line ++ spaces n) (indentsOf line - p.lastIndents)
      (Str.split (line ++ spaces n) (lit ":")) =
        p.parsePieces line (indentsOf line - p.lastIndents) (Str.split line (lit ":")) := by
    rcases Str.split_append_of_closed hne hlast (not_mem_spaces (c := 58) (by decide) n) with
      ⟨hnil, hnil'⟩ | ⟨init, last, hinit, hsplit, hsplit'⟩
    · have hcolon : lit ":" = [58] := by decide
      rw [hcolon, hnil, hnil']
      unfold Parser.parsePieces
      rw [trim_append_spaces]
    · have hcolon : lit ":" = [58] := by decide
      rw [hcolon, hsplit, hsplit']
      match init with
      | [] => exact absurd rfl hinit
      | [key] =>
          show p.insertLeaf key (last ++ spaces n) _ = p.insertLeaf key last _
          unfold Parser.insertLeaf
          rw [trim_append_spaces]
      | a :: b :: rest =>
          rw [parsePieces_other (by simp) (by simp), parsePieces_other (by simp) (by simp),
            trim_append_spaces]
  rw [hpieces]

/-! ## Nodes keep their kind -/

/-- The node is a leaf. -/
def Node.IsLeaf (n : Node) : Prop := ∃ data, n.value = some (.leaf data)

/-- The nodes of `p` are there behind it, and those that are leaves still are
the same ones. -/
def KeepsKinds (p q : Parser) : Prop :=
  ∀ (j : NodeId) (n : Node), p.nodes[j]? = some n →
    ∃ n' : Node, q.nodes[j]? = some n' ∧ (n'.IsLeaf ↔ n.IsLeaf)

theorem KeepsKinds.refl (p : Parser) : KeepsKinds p p := fun _ n hn => ⟨n, hn, Iff.rfl⟩

theorem KeepsKinds.trans {p q r : Parser} (h : KeepsKinds p q) (h' : KeepsKinds q r) :
    KeepsKinds p r := by
  intro j n hn
  obtain ⟨n', hn', hiff⟩ := h j n hn
  obtain ⟨n'', hn'', hiff'⟩ := h' j n' hn'
  exact ⟨n'', hn'', hiff'.trans hiff⟩

/-- A node that is no leaf gets a value that is none, and nodes are added. -/
theorem keepsKinds_of_set {p q : Parser} {parent : NodeId} {n : Node} {value : Value}
    {added : List Node} (hn : p.nodes[parent]? = some n)
    (hold : ∀ data, n.value ≠ some (.leaf data))
    (hnew : ∀ data, value ≠ .leaf data)
    (hnodes : q.nodes = p.nodes.set parent { n with value := some value } ++ added) :
    KeepsKinds p q := by
  intro j m hm
  have hlt := (List.getElem?_eq_some_iff.1 hm).1
  rw [hnodes, List.getElem?_append_left (by simpa using hlt)]
  by_cases hj : parent = j
  · subst hj
    rw [hn] at hm
    cases hm
    refine ⟨_, List.getElem?_set_self hlt, iff_of_false ?_ ?_⟩
    · rintro ⟨data, hdata⟩
      exact hnew data (Option.some.inj hdata)
    · rintro ⟨data, hdata⟩
      exact hold data hdata
  · exact ⟨m, by rw [List.getElem?_set_ne hj]; exact hm, Iff.rfl⟩

theorem Value.insert_kind {value value' : Value} {id : NodeId} (h : value.insert id = some value') :
    (∀ data, value ≠ .leaf data) ∧ ∀ data, value' ≠ .leaf data := by
  cases value with
  | leaf data => cases h
  | obj nodes =>
      cases h
      exact ⟨nofun, nofun⟩
  | arr elems curr len =>
      refine ⟨nofun, ?_⟩
      unfold Value.insert at h
      dsimp only at h
      split at h
      · cases h
        exact nofun
      · split at h
        · cases h
          exact nofun
        · cases h

theorem Value.markArrStart_kind {value value' : Value} (h : value.markArrStart = some value') :
    (∀ data, value ≠ .leaf data) ∧ ∀ data, value' ≠ .leaf data := by
  cases value with
  | leaf data => cases h
  | obj nodes => cases h
  | arr elems curr len =>
      refine ⟨nofun, ?_⟩
      unfold Value.markArrStart at h
      dsimp only at h
      split at h
      · cases h
        exact nofun
      · split at h
        · cases h
        · cases h
          exact nofun

theorem Value.insertValueLeaf_kind {value value' : Value} {data : Bytes}
    (h : value.insertValueLeaf data = some value') :
    (∀ data, value ≠ .leaf data) ∧ ∀ data, value' ≠ .leaf data := by
  cases value with
  | leaf data => cases h
  | obj nodes => cases h
  | arr elems curr len =>
      refine ⟨nofun, ?_⟩
      unfold Value.insertValueLeaf at h
      dsimp only at h
      split at h
      · cases h
        exact nofun
      · cases h

/-- The line "key: data": a leaf behind the other nodes. -/
theorem insertLeaf_spec {p q : Parser} {key data : Bytes} {indentDiff : Int}
    (h : p.insertLeaf key data indentDiff = some q) :
    KeepsKinds p q ∧ q.nodes[p.nodes.length]? = some ⟨trim key, some (.leaf (trim data))⟩ := by
  unfold Parser.insertLeaf at h
  split at h
  · cases h
  · rename_i parent stack _
    split at h
    · cases h
    · rename_i n hn
      obtain ⟨value, hinsert, rfl⟩ := Option.map_eq_some_iff.1 h
      obtain ⟨hold, hnew⟩ := Value.insert_kind hinsert
      refine ⟨keepsKinds_of_set hn ?_ hnew rfl, (addNode_getElem? hn value _).2.1⟩
      intro data hdata
      rw [hdata] at hold
      exact hold data rfl

/-- The line "key:": a node without a value. -/
theorem openNode_spec {p q : Parser} {key : Bytes} {indentDiff : Int}
    (h : p.openNode key indentDiff = some q) :
    KeepsKinds p q ∧ q.nodes[p.nodes.length]? = some ⟨trim key, none⟩ := by
  unfold Parser.openNode at h
  split at h
  · cases h
  · rename_i parent stack _
    split at h
    · rename_i n hn
      split at h
      · cases h
      · rename_i value hvalue
        split at h
        · cases h
        · obtain ⟨value', hinsert, rfl⟩ := Option.map_eq_some_iff.1 h
          obtain ⟨hold, hnew⟩ := Value.insert_kind hinsert
          refine ⟨keepsKinds_of_set hn ?_ hnew rfl, (addNode_getElem? hn value' _).2.1⟩
          intro data hdata
          rw [hvalue, Option.some.injEq] at hdata
          exact hold data hdata
    · cases h

/-- A line that only changes the array. -/
theorem setValue_kinds {p q : Parser} {f : Option Value → Option Value}
    (hf : ∀ value value', f value = some value' →
      (∀ data, value ≠ some (.leaf data)) ∧ ∀ data, value' ≠ .leaf data)
    (h : p.setValue f = some q) : KeepsKinds p q := by
  unfold Parser.setValue at h
  split at h
  · cases h
  · rename_i n hn
    obtain ⟨value, hvalue, rfl⟩ := Option.map_eq_some_iff.1 h
    obtain ⟨hold, hnew⟩ := hf _ _ hvalue
    exact keepsKinds_of_set hn hold hnew (List.append_nil _).symm

theorem parsePieces_kinds {p q : Parser} {line : Bytes} {indentDiff : Int} {pieces : List Bytes}
    (h : p.parsePieces line indentDiff pieces = some q) : KeepsKinds p q := by
  unfold Parser.parsePieces at h
  split at h
  · exact (insertLeaf_spec h).1
  · split at h
    · exact (openNode_spec h).1
    · refine setValue_kinds (fun value value' hvalue => ?_) h
      obtain ⟨v, rfl, hv⟩ := Option.bind_eq_some_iff.1 hvalue
      obtain ⟨hold, hnew⟩ := Value.insertValueLeaf_kind hv
      exact ⟨fun data hdata => hold data (Option.some.inj hdata), hnew⟩
  · split at h
    · refine setValue_kinds (fun value value' hvalue => ?_) h
      obtain ⟨hold, hnew⟩ := Value.markArrStart_kind hvalue
      refine ⟨fun data hdata => ?_, hnew⟩
      rw [hdata] at hold
      exact hold data rfl
    · cases h

/-- **One line.** -/
theorem parseLine_kinds {p q : Parser} {line : Bytes} (h : p.parseLine line = some q) :
    KeepsKinds p q := by
  unfold Parser.parseLine at h
  dsimp only at h
  split at h
  · cases h
    exact KeepsKinds.refl _
  · split at h
    · cases h
    · obtain ⟨r, hr, rfl⟩ := Option.map_eq_some_iff.1 h
      have hkinds : KeepsKinds p r := parsePieces_kinds hr
      exact hkinds

/-- **Every following line.** -/
theorem parseLines_kinds {p q : Parser} {ls : List Bytes} (h : p.parseLines ls = some q) :
    KeepsKinds p q := by
  induction ls generalizing p with
  | nil =>
      cases h
      exact KeepsKinds.refl _
  | cons line ls ih =>
      rw [parseLines_cons] at h
      obtain ⟨r, hr, hrest⟩ := Option.bind_eq_some_iff.1 h
      exact (parseLine_kinds hr).trans (ih hrest)

/-! ## A comment behind a line -/

theorem lit_colon : lit ":" = [58] := by decide

/-- A line that ends with a colon, with spaces behind it: it fails, or what
was a node to be filled is a leaf. -/
theorem parseLine_open_spaces {p q : Parser} {line : Bytes} (hhash : 35 ∉ line)
    (hlast : line.getLast? = some 58) (haccept : p.parseLine line = some q) {n : Nat} (hn : n ≠ 0) :
    p.parseLine (line ++ spaces n) = none ∨
      ∃ r m m', p.parseLine (line ++ spaces n) = some r ∧
        q.nodes[p.nodes.length]? = some m ∧ ¬ m.IsLeaf ∧
        r.nodes[p.nodes.length]? = some m' ∧ m'.IsLeaf := by
  have hmem : 58 ∈ line := List.mem_of_getLast? hlast
  have hne : line ≠ [] := List.ne_nil_of_mem hmem
  have hhash' : 35 ∉ line ++ spaces n := by
    rw [List.mem_append, not_or]
    exact ⟨hhash, not_mem_spaces (by decide) n⟩
  have hsome : ¬ ∀ c ∈ line, c = 32 := fun hall => absurd (hall 58 hmem) (by decide)
  have hdash : ¬ trim line = lit "-" := fun h => not_mem_of_dash h hmem
  have hsplit := Str.split_append_of_open hlast (spaces_ne_nil hn)
    (not_mem_spaces (c := 58) (by decide) n)
  rw [parseLine_eq hhash hne, lit_colon] at haccept
  rw [parseLine_eq hhash' (fun h => hne (List.append_eq_nil_iff.1 h).1), indentsOf_append hsome,
    lit_colon, hsplit]
  split at haccept
  · cases haccept
  · rename_i hfits
    obtain ⟨q', hq', rfl⟩ := Option.map_eq_some_iff.1 haccept
    rw [if_neg hfits]
    cases hpieces : Str.split line [58] with
    | nil =>
        rw [hpieces, parsePieces_other (by simp) (by simp), if_neg hdash] at hq'
        cases hq'
    | cons key rest =>
        rw [hpieces] at hq'
        rw [if_neg (List.cons_ne_nil key rest)]
        cases rest with
        | nil =>
            -- "key:" becomes "key:" with an empty text
            replace hq' : p.openNode key (indentsOf line - p.lastIndents) = some q' := by
              simpa only [Parser.parsePieces, if_pos hmem] using hq'
            obtain ⟨-, hopen⟩ := openNode_spec hq'
            have hnode : ¬ Node.IsLeaf ⟨trim key, none⟩ := by
              rintro ⟨v, hv⟩
              cases hv
            cases hleaf : p.insertLeaf key (spaces n) (indentsOf line - p.lastIndents) with
            | none =>
                left
                show Option.map _ (p.insertLeaf key (spaces n) _) = none
                rw [hleaf]
                rfl
            | some r =>
                right
                refine ⟨{ r with lastIndents := indentsOf line }, _, _, ?_, hopen, hnode,
                  (insertLeaf_spec hleaf).2, _, rfl⟩
                show Option.map _ (p.insertLeaf key (spaces n) _) = _
                rw [hleaf]
                rfl
        | cons data rest =>
            left
            rw [parsePieces_other (by simp) (by simp), trim_append_spaces, if_neg hdash]
            rfl

/-- **A comment behind a line.** -/
theorem append_iff {path text text' : Bytes} {p : Parser} {pre post : List Bytes} {line : Bytes}
    {n : Nat} {comment : Bytes} (hparse : parseYaml path text = some p)
    (hlines : getLines text = pre ++ line :: post)
    (hlines' : getLines text' = pre ++ (line ++ remark n (some comment)) :: post) :
    SameTree path text' p ↔ n = 0 ∨ 35 ∈ line ∨ (line ≠ [] ∧ line.getLast? ≠ some 58) := by
  unfold parseYaml at hparse
  rw [hlines, parseLines_append] at hparse
  obtain ⟨q, hq, hparse⟩ := Option.bind_eq_some_iff.1 hparse
  rw [parseLines_cons] at hparse
  obtain ⟨q', hline, hpost⟩ := Option.bind_eq_some_iff.1 hparse
  have hparse' : parseYaml path text' =
      (q.parseLine (line ++ remark n (some comment))).bind (·.parseLines post) := by
    unfold parseYaml
    rw [hlines', parseLines_append, hq, Option.bind_some, parseLines_cons]
  have hsame : q.parseLine (line ++ remark n (some comment)) = some q' → SameTree path text' p := by
    intro h
    exact ⟨p, by rw [hparse', h]; exact hpost, rfl⟩
  by_cases hmem : 35 ∈ line
  · apply iff_of_true _ (Or.inr (Or.inl hmem))
    apply hsame
    rw [← hline]
    apply parseLine_congr
    rw [delafter_append, if_pos hmem]
  · have hcut : q.parseLine (line ++ remark n (some comment)) = q.parseLine (line ++ spaces n) := by
      apply parseLine_congr
      rw [delafter_append, if_neg hmem, delafter_remark, delafter_append, if_neg hmem,
        delafter_of_not_mem (not_mem_spaces (by decide) n)]
    by_cases hn : n = 0
    · apply iff_of_true _ (Or.inl hn)
      apply hsame
      rw [hcut, hn, ← hline]
      exact congrArg q.parseLine (List.append_nil line)
    · by_cases hclosed : line ≠ [] ∧ line.getLast? ≠ some 58
      · apply iff_of_true _ (Or.inr (Or.inr hclosed))
        apply hsame
        rw [hcut]
        exact parseLine_closed hmem hclosed.1 hclosed.2 hline n
      · apply iff_of_false
        · rintro ⟨r, hr, hnodes⟩
          rw [hparse', hcut] at hr
          obtain ⟨r', hr', hrpost⟩ := Option.bind_eq_some_iff.1 hr
          by_cases hnil : line = []
          · rw [hnil, List.nil_append] at hr'
            have hspaces := parseLine_spaces (p := q) (spaces_ne_nil hn)
              fun c hc => List.eq_of_mem_replicate hc
            rw [hspaces] at hr'
            cases hr'
          · have hopen : line.getLast? = some 58 := by
              by_contra h
              exact hclosed ⟨hnil, h⟩
            rcases parseLine_open_spaces hmem hopen hline hn with hfail | ⟨u, m, m', hu, hm, hnot,
              hm', hleaf⟩
            · rw [hfail] at hr'
              cases hr'
            · rw [hu] at hr'
              cases hr'
              -- the node is a leaf in one of the trees only
              obtain ⟨a, ha, haiff⟩ := parseLines_kinds hpost _ m hm
              obtain ⟨b, hb, hbiff⟩ := parseLines_kinds hrpost _ m' hm'
              rw [hnodes, ha] at hb
              cases hb
              exact hnot (haiff.1 (hbiff.2 hleaf))
        · rintro (h | h | h)
          · exact hn h
          · exact hmem h
          · exact hclosed h

/-! ## Main theorem -/

/-- **Remarks do not matter** exactly when an inserted one is not indented,
and one behind a line has no space before it, or stands behind another
comment or behind text that does not end with a colon. -/
theorem remarks_iff (path text : Bytes) (p : Parser) (hparse : parseYaml path text = some p) :
    (∀ (pre post : List Bytes) (n : Nat) (comment : Option Bytes) (text' : Bytes),
      getLines text = pre ++ post → getLines text' = pre ++ remark n comment :: post →
        (SameTree path text' p ↔ n = 0)) ∧
      ∀ (pre post : List Bytes) (line : Bytes) (n : Nat) (comment text' : Bytes),
        getLines text = pre ++ line :: post →
        getLines text' = pre ++ (line ++ remark n (some comment)) :: post →
          (SameTree path text' p ↔
            n = 0 ∨ 35 ∈ line ∨ (line ≠ [] ∧ line.getLast? ≠ some 58)) :=
  ⟨fun _ _ _ _ _ hlines hlines' => insert_iff hparse hlines hlines',
    fun _ _ _ _ _ _ hlines hlines' => append_iff hparse hlines hlines'⟩

/-- A leaf. -/
def oneLeaf : Bytes := lit "port: 80\n"

theorem remarks_oneLeaf :
    ∃ p, parseYaml (lit "conf.yml") oneLeaf = some p ∧
      SameTree (lit "conf.yml") (lit "# a\nport: 80\n") p ∧
      SameTree (lit "conf.yml") (lit "port: 80  # a\n") p := by
  have hsome : (parseYaml (lit "conf.yml") oneLeaf).isSome = true := by decide +kernel
  obtain ⟨p, hp⟩ := Option.isSome_iff_exists.1 hsome
  obtain ⟨hinsert, happend⟩ := remarks_iff _ _ p hp
  refine ⟨p, hp, ?_, ?_⟩
  · exact (hinsert [] [lit "port: 80"] 0 (some (lit " a")) _ (by decide +kernel)
      (by decide +kernel)).2 rfl
  · exact (happend [] [] (lit "port: 80") 2 (lit " a") _ (by decide +kernel) (by decide +kernel)).2
      (by decide +kernel)

/-- A comment line that is indented. -/
theorem not_sameTree_oneLeaf :
    ∃ p, parseYaml (lit "conf.yml") oneLeaf = some p ∧
      getLines (lit "port: 80\n  # a\n") = getLines oneLeaf ++ [remark 2 (some (lit " a"))] ∧
      ¬ SameTree (lit "conf.yml") (lit "port: 80\n  # a\n") p := by
  have hsome : (parseYaml (lit "conf.yml") oneLeaf).isSome = true := by decide +kernel
  obtain ⟨p, hp⟩ := Option.isSome_iff_exists.1 hsome
  have hnone : parseYaml (lit "conf.yml") (lit "port: 80\n  # a\n") = none := by decide +kernel
  refine ⟨p, hp, by decide +kernel, ?_⟩
  rintro ⟨q, hq, -⟩
  rw [hnone] at hq
  cases hq

end Unixtar.Yaml
