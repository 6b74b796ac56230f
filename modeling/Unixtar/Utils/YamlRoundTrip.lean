import Unixtar.Utils.Split
import Unixtar.Utils.YamlUtil

/-!
# Configuration trees and their texts

A configuration tree of leaves and objects is written with two spaces for each
level and read back by `ParseYaml`.  An object line allocates its node without
a value, and the next object line below it inserts into that null value: a
tree comes back exactly when no inner object starts with an object, as long as
the indentation fits an `int`.

## Main results

* `read_of_loadable` — the lines of a loadable tree extend the object they
  stand below by that tree, and nothing else.
* `parse_fails` — the lines of any other tree end in a failure.
* `loads_iff_loadable` — the file of a tree comes back exactly when the tree
  is loadable.
-/

namespace Unixtar.Yaml

/-! ## Trees -/

/-- The entries of an object, in order. -/
inductive Tree
  | nil
  | leaf (key data : Bytes) (rest : Tree)
  | node (key : Bytes) (children rest : Tree)
deriving DecidableEq

/-- A key or a leaf text: trimmed, and free of colons, hashes and newlines. -/
structure CleanText (text : Bytes) : Prop where
  nonempty : text ≠ []
  head : text.head? ≠ some 32
  last : text.getLast? ≠ some 32
  noColon : 58 ∉ text
  noHash : 35 ∉ text
  noNewline : 10 ∉ text

namespace Tree

/-- The texts are clean, and inner objects are not empty. -/
def Valid : Tree → Prop
  | .nil => True
  | .leaf key data rest => CleanText key ∧ CleanText data ∧ rest.Valid
  | .node key children rest => CleanText key ∧ children ≠ .nil ∧ children.Valid ∧ rest.Valid

/-- The indentation of a level. -/
def indent (d : Nat) : Bytes := List.replicate (2 * d) 32

/-- The lines of the entries at level `d`. -/
def lines (d : Nat) : Tree → List Bytes
  | .nil => []
  | .leaf key data rest => (indent d ++ key ++ lit ": " ++ data) :: rest.lines d
  | .node key children rest =>
      (indent d ++ key ++ lit ":") :: (children.lines (d + 1) ++ rest.lines d)

/-- The text of the file. -/
def render (t : Tree) : Bytes := (t.lines 0).flatMap (· ++ [10])

/-- The entries of one tree, then those of another. -/
def append : Tree → Tree → Tree
  | .nil, u => u
  | .leaf key data rest, u => .leaf key data (rest.append u)
  | .node key children rest, u => .node key children (rest.append u)

def StartsWithLeaf : Tree → Prop
  | .leaf _ _ _ => True
  | _ => False

/-- No inner object starts with an object, and the indentation fits an
`int`. -/
def Loadable (d : Nat) : Tree → Prop
  | .nil => True
  | .leaf _ _ rest => 2 * d < 2 ^ 31 ∧ rest.Loadable d
  | .node _ children rest =>
      2 * d < 2 ^ 31 ∧ children.StartsWithLeaf ∧ children.Loadable (d + 1) ∧ rest.Loadable d

end Tree

/-- The nodes `ids` are the entries of the tree, in order; all nodes of the
tree are at `lo` or behind. -/
def Represents (lo : Nat) (nodes : List Node) : List NodeId → Tree → Prop
  | [], .nil => True
  | id :: ids, .leaf key data rest =>
      (lo ≤ id ∧ nodes[id]? = some ⟨key, some (.leaf data)⟩) ∧ Represents lo nodes ids rest
  | id :: ids, .node key children rest =>
      (∃ kids, (lo ≤ id ∧ nodes[id]? = some ⟨key, some (.obj kids)⟩) ∧
        Represents lo nodes kids children) ∧ Represents lo nodes ids rest
  | _, _ => False

/-- `ParseYaml` completes on the text of the tree, and the descriptor's object
is the tree. -/
def Loads (path : Bytes) (t : Tree) : Prop :=
  ∃ p ids, parseYaml path t.render = some p ∧
    p.nodes[0]? = some ⟨path, some (.obj ids)⟩ ∧ Represents 1 p.nodes ids t

/-- The nodes of a tree stay as they are while others change. -/
theorem Represents.frame {lo lo' : Nat} {nodes nodes' : List Node} (hlo : lo' ≤ lo)
    (hsame : ∀ id, lo ≤ id → id < nodes.length → nodes'[id]? = nodes[id]?)
    {ids : List NodeId} {t : Tree} (h : Represents lo nodes ids t) :
    Represents lo' nodes' ids t := by
  induction t generalizing ids with
  | nil =>
      cases ids with
      | nil => trivial
      | cons id ids => exact h.elim
  | leaf key data rest ih =>
      cases ids with
      | nil => exact h.elim
      | cons id ids =>
          obtain ⟨⟨hid, hnode⟩, hrest⟩ := h
          have hlt := (List.getElem?_eq_some_iff.1 hnode).1
          exact ⟨⟨Nat.le_trans hlo hid, (hsame id hid hlt).trans hnode⟩, ih hrest⟩
  | node key children rest ihc ih =>
      cases ids with
      | nil => exact h.elim
      | cons id ids =>
          obtain ⟨⟨kids, ⟨hid, hnode⟩, hkids⟩, hrest⟩ := h
          have hlt := (List.getElem?_eq_some_iff.1 hnode).1
          exact ⟨⟨kids, ⟨Nat.le_trans hlo hid, (hsame id hid hlt).trans hnode⟩, ihc hkids⟩,
            ih hrest⟩

theorem Represents.append {lo : Nat} {nodes : List Node} {ids ids' : List NodeId} {t u : Tree}
    (ht : Represents lo nodes ids t) (hu : Represents lo nodes ids' u) :
    Represents lo nodes (ids ++ ids') (t.append u) := by
  induction t generalizing ids with
  | nil =>
      cases ids with
      | nil => exact hu
      | cons id ids => exact ht.elim
  | leaf key data rest ih =>
      cases ids with
      | nil => exact ht.elim
      | cons id ids => exact ⟨ht.1, ih ht.2⟩
  | node key children rest ihc ih =>
      cases ids with
      | nil => exact ht.elim
      | cons id ids => exact ⟨ht.1, ih ht.2⟩

/-! ## Lines -/

/-- An indentation, by the number of its spaces. -/
def spaces (w : Nat) : Bytes := List.replicate w 32

theorem dropWhile_spaces (w : Nat) {text : Bytes} (h : text.head? ≠ some 32) :
    (spaces w ++ text).dropWhile (· = 32) = text := by
  unfold spaces
  induction w with
  | zero =>
      cases text with
      | nil => rfl
      | cons c cs =>
          rw [List.replicate_zero, List.nil_append, List.dropWhile_cons_of_neg]
          intro hc
          exact h (congrArg some (of_decide_eq_true hc))
  | succ n ih =>
      rw [List.replicate_succ, List.cons_append, List.dropWhile_cons_of_pos (by decide)]
      exact ih

theorem trim_spaces (w : Nat) {text : Bytes} (hhead : text.head? ≠ some 32)
    (hlast : text.getLast? ≠ some 32) : trim (spaces w ++ text) = text := by
  unfold trim
  rw [dropWhile_spaces w hhead]
  have hrev : text.reverse.dropWhile (· = 32) = text.reverse := by
    have hrevhead : text.reverse.head? ≠ some 32 := by
      rw [List.head?_reverse]
      exact hlast
    exact dropWhile_spaces 0 hrevhead
  rw [hrev, List.reverse_reverse]

theorem trim_indent (d : Nat) {text : Bytes} (h : CleanText text) :
    trim (Tree.indent d ++ text) = text :=
  trim_spaces (2 * d) h.head h.last

theorem indentsOf_spaces (w : Nat) {text : Bytes} (hne : text ≠ []) (h : text.head? ≠ some 32) :
    indentsOf (spaces w ++ text) = Str.toInt w := by
  have hfind : (spaces w ++ text).findIdx? (· ≠ 32) = some w := by
    unfold spaces
    induction w with
    | zero =>
        obtain ⟨c, cs, rfl⟩ := List.exists_cons_of_ne_nil hne
        have hc : c ≠ 32 := fun heq => h (congrArg some heq)
        simp [List.findIdx?_cons, hc]
    | succ n ih =>
        rw [List.replicate_succ, List.cons_append, List.findIdx?_cons]
        simp only [ne_eq, not_true_eq_false, decide_false, Bool.false_eq_true, if_false]
        rw [ih]
        rfl
  unfold indentsOf
  rw [hfind]

theorem indentsOf_indent (d : Nat) {text : Bytes} (hne : text ≠ []) (h : text.head? ≠ some 32) :
    indentsOf (Tree.indent d ++ text) = Str.toInt (2 * d) :=
  indentsOf_spaces (2 * d) hne h

theorem not_mem_spaces {c : UInt8} (hc : c ≠ 32) (w : Nat) : c ∉ spaces w :=
  fun h => hc (List.eq_of_mem_replicate h)

theorem not_mem_indent {c : UInt8} (hc : c ≠ 32) (d : Nat) : c ∉ Tree.indent d :=
  fun h => hc (List.eq_of_mem_replicate h)

theorem head?_append_of_clean {text : Bytes} (h : CleanText text) (t : Bytes) :
    (text ++ t).head? ≠ some 32 := by
  obtain ⟨c, cs, rfl⟩ := List.exists_cons_of_ne_nil h.nonempty
  exact h.head

theorem delafter_of_not_mem {s : Bytes} {whence : UInt8} (h : whence ∉ s) :
    delafter s whence = s := by
  unfold delafter
  rw [List.takeWhile_eq_self_iff]
  intro c hc
  have hne : c ≠ whence := fun heq => h (heq ▸ hc)
  simpa using hne

/-- Only spaces are trimmed. -/
theorem mem_trim {c : UInt8} {s : Bytes} (hc : c ≠ 32) (h : c ∈ s) : c ∈ trim s := by
  have hdrop : ∀ l : Bytes, c ∈ l → c ∈ l.dropWhile (· = 32) := by
    intro l hl
    rw [← List.takeWhile_append_dropWhile (p := (· = 32)) (l := l), List.mem_append] at hl
    refine hl.resolve_left fun htake => hc ?_
    simpa using List.mem_takeWhile_imp htake
  unfold trim
  rw [List.mem_reverse]
  exact hdrop _ (List.mem_reverse.2 (hdrop s h))

/-- A line of the third kind has no colon. -/
theorem not_mem_of_dash {line : Bytes} (h : trim line = lit "-") : 58 ∉ line := by
  intro hmem
  have htrim := mem_trim (by decide) hmem
  rw [h] at htrim
  exact absurd htrim (by decide)

/-- What a line does: the branch of its pieces, with the difference to the
last indentation. -/
theorem parseLine_eq {p : Parser} {line : Bytes} (hhash : 35 ∉ line) (hne : line ≠ []) :
    p.parseLine line =
      if indentsOf line - p.lastIndents < -2 ^ 31 ∨ 2 ^ 31 ≤ indentsOf line - p.lastIndents then
        none
      else
        (p.parsePieces line (indentsOf line - p.lastIndents) (Str.split line (lit ":"))).map
          fun q => { q with lastIndents := indentsOf line } := by
  unfold Parser.parseLine
  simp only [delafter_of_not_mem hhash, if_neg hne]

theorem split_leaf {w : Nat} {key data : Bytes} (hkey : CleanText key) (hdata : CleanText data) :
    Str.split (spaces w ++ key ++ lit ": " ++ data) (lit ":") = [spaces w ++ key, 32 :: data] := by
  have hpieces : ∀ q ∈ [spaces w ++ key, 32 :: data], q ≠ [] ∧ Str.Free (lit ":") q := by
    intro q hq
    rcases List.mem_cons.1 hq with rfl | hq
    · refine ⟨fun h => hkey.nonempty (List.append_eq_nil_iff.1 h).2, Str.free_of_not_mem ?_⟩
      rw [List.mem_append, not_or]
      exact ⟨not_mem_spaces (by decide) w, hkey.noColon⟩
    · rw [List.mem_singleton.1 hq]
      refine ⟨List.cons_ne_nil 32 data, Str.free_of_not_mem ?_⟩
      rw [List.mem_cons, not_or]
      exact ⟨by decide, hdata.noColon⟩
  have hjoin : spaces w ++ key ++ lit ": " ++ data =
      (lit ":").intercalate [spaces w ++ key, 32 :: data] := by
    have hlit : lit ": " = lit ":" ++ [32] := by decide
    rw [List.intercalate_cons_cons, List.intercalate_singleton, hlit]
    simp only [List.append_assoc, List.singleton_append]
  rw [hjoin]
  exact Str.split_join (by decide) hpieces (Nat.le_refl 2)

theorem split_node {d : Nat} {key : Bytes} (hkey : CleanText key) :
    Str.split (Tree.indent d ++ key ++ lit ":") (lit ":") = [Tree.indent d ++ key] := by
  have hfree : Str.Free (lit ":") (Tree.indent d ++ key) := by
    apply Str.free_of_not_mem
    rw [List.mem_append, not_or]
    exact ⟨not_mem_indent (by decide) d, hkey.noColon⟩
  have hne : Tree.indent d ++ key ≠ [] := fun h => hkey.nonempty (List.append_eq_nil_iff.1 h).2
  exact Str.split_trailing (by decide) hne hfree

/-- A leaf line with any indentation. -/
theorem parseLine_spaces_leaf {p : Parser} {w : Nat} {key data : Bytes} (hkey : CleanText key)
    (hdata : CleanText data) :
    p.parseLine (spaces w ++ key ++ lit ": " ++ data) =
      if Str.toInt w - p.lastIndents < -2 ^ 31 ∨ 2 ^ 31 ≤ Str.toInt w - p.lastIndents then none
      else
        (p.insertLeaf (spaces w ++ key) (32 :: data) (Str.toInt w - p.lastIndents)).map
          fun q => { q with lastIndents := Str.toInt w } := by
  have hhash : 35 ∉ spaces w ++ key ++ lit ": " ++ data := by
    simp only [List.mem_append, not_or]
    exact ⟨⟨⟨not_mem_spaces (by decide) w, hkey.noHash⟩, by decide⟩, hdata.noHash⟩
  have hassoc : spaces w ++ key ++ lit ": " ++ data = spaces w ++ (key ++ (lit ": " ++ data)) := by
    simp only [List.append_assoc]
  have hne : key ++ (lit ": " ++ data) ≠ [] := fun h => hkey.nonempty (List.append_eq_nil_iff.1 h).1
  have hindents : indentsOf (spaces w ++ key ++ lit ": " ++ data) = Str.toInt w := by
    rw [hassoc]
    exact indentsOf_spaces w hne (head?_append_of_clean hkey _)
  rw [parseLine_eq hhash, hindents, split_leaf hkey hdata]
  · rfl
  · rw [hassoc]
    exact fun h => hne (List.append_eq_nil_iff.1 h).2

theorem parseLine_leaf {p : Parser} {d : Nat} {key data : Bytes} (hkey : CleanText key)
    (hdata : CleanText data) :
    p.parseLine (Tree.indent d ++ key ++ lit ": " ++ data) =
      if Str.toInt (2 * d) - p.lastIndents < -2 ^ 31 ∨ 2 ^ 31 ≤ Str.toInt (2 * d) - p.lastIndents
      then none
      else
        (p.insertLeaf (Tree.indent d ++ key) (32 :: data) (Str.toInt (2 * d) - p.lastIndents)).map
          fun q => { q with lastIndents := Str.toInt (2 * d) } :=
  parseLine_spaces_leaf hkey hdata

theorem parseLine_node {p : Parser} {d : Nat} {key : Bytes} (hkey : CleanText key) :
    p.parseLine (Tree.indent d ++ key ++ lit ":") =
      if Str.toInt (2 * d) - p.lastIndents < -2 ^ 31 ∨ 2 ^ 31 ≤ Str.toInt (2 * d) - p.lastIndents
      then none
      else
        (p.openNode (Tree.indent d ++ key) (Str.toInt (2 * d) - p.lastIndents)).map
          fun q => { q with lastIndents := Str.toInt (2 * d) } := by
  have hhash : 35 ∉ Tree.indent d ++ key ++ lit ":" := by
    simp only [List.mem_append, not_or]
    exact ⟨⟨not_mem_indent (by decide) d, hkey.noHash⟩, by decide⟩
  have hne : key ++ lit ":" ≠ [] := fun h => hkey.nonempty (List.append_eq_nil_iff.1 h).1
  have hindents : indentsOf (Tree.indent d ++ key ++ lit ":") = Str.toInt (2 * d) := by
    rw [List.append_assoc]
    exact indentsOf_indent d hne (head?_append_of_clean hkey _)
  have hcolon : 58 ∈ Tree.indent d ++ key ++ lit ":" :=
    List.mem_append_right _ (by decide)
  rw [parseLine_eq hhash, hindents, split_node hkey]
  · simp only [Parser.parsePieces, if_pos hcolon]
  · rw [List.append_assoc]
    exact fun h => hne (List.append_eq_nil_iff.1 h).2

/-! ## Levels -/

theorem toInt_of_lt {n : Nat} (h : n < 2 ^ 31) : Str.toInt n = n := by
  unfold Str.toInt
  split <;> omega

theorem popParents_eq (k : Nat) (stack : List NodeId) :
    popParents (k + 1) stack =
      match stack.drop k with
      | [] => none
      | parent :: rest => some (parent, rest) := by
  induction k generalizing stack with
  | zero => cases stack <;> rfl
  | succ k ih =>
      cases stack with
      | nil => rfl
      | cons a stack =>
          rw [List.drop_succ_cons, ← ih]
          rfl

/-- A line of level `d` goes below `parent`. -/
structure Comes (p : Parser) (d : Nat) (parent : NodeId) (stack : List NodeId) : Prop where
  depth : 2 * d < 2 ^ 31
  last : 0 ≤ p.lastIndents ∧ p.lastIndents < 2 ^ 31
  near : (2 * d : Nat) ≤ p.lastIndents ∨ (2 * d : Nat) = p.lastIndents + 2
  found : p.parentFor ((2 * d : Nat) - p.lastIndents) = some (parent, stack)

/-- The entries of level `d` of `parent` have been read: the last line was of
that level or of a deeper one. -/
def Standing (p : Parser) (d : Nat) (parent : NodeId) (stack : List NodeId) : Prop :=
  ∃ e, d ≤ e ∧ 2 * e < 2 ^ 31 ∧ p.lastIndents = (2 * e : Nat) ∧
    (p.parent :: p.stack).drop (e - d) = parent :: stack

theorem Standing.comes {p : Parser} {d : Nat} {parent : NodeId} {stack : List NodeId}
    (h : Standing p d parent stack) : Comes p d parent stack := by
  obtain ⟨e, hde, he, hlast, hdrop⟩ := h
  refine ⟨by omega, by omega, by omega, ?_⟩
  unfold Parser.parentFor
  rw [hlast]
  by_cases heq : e = d
  · subst heq
    rw [Nat.sub_self, List.drop_zero] at hdrop
    obtain ⟨hparent, hstack⟩ := List.cons.inj hdrop
    rw [if_neg (by omega), hparent, hstack]
  · obtain ⟨k, rfl⟩ : ∃ k, e = d + k + 1 := ⟨e - d - 1, by omega⟩
    have hk : d + k + 1 - d = k + 1 := by omega
    rw [hk, List.drop_succ_cons] at hdrop
    rw [if_pos (by omega)]
    unfold getParentNodeByIndentDiff
    rw [if_pos (by omega)]
    have hrounds : (-((2 * d : Nat) - ((2 * (d + k + 1) : Nat) : Int)) / 2).toNat = k + 1 := by
      omega
    rw [hrounds, popParents_eq, hdrop]

/-- What stands at a level stands above it, too. -/
theorem Standing.up {p : Parser} {d : Nat} {parent parent' : NodeId} {stack : List NodeId}
    (h : Standing p (d + 1) parent (parent' :: stack)) : Standing p d parent' stack := by
  obtain ⟨e, hde, he, hlast, hdrop⟩ := h
  refine ⟨e, by omega, he, hlast, ?_⟩
  have hsucc : e - d = e - (d + 1) + 1 := by omega
  rw [hsucc, ← List.drop_drop, hdrop]
  rfl

/-! ## What a line adds -/

/-- The lines behind `p` have extended the object of `parent` by the tree, and
changed nothing else. -/
structure Extends (p : Parser) (d : Nat) (parent : NodeId) (stack : List NodeId) (key : Bytes)
    (ids new : List NodeId) (t : Tree) (q : Parser) : Prop where
  standing : Standing q d parent stack
  object : q.nodes[parent]? = some ⟨key, some (.obj (ids ++ new))⟩
  others : ∀ j, j < p.nodes.length → j ≠ parent → q.nodes[j]? = p.nodes[j]?
  length : p.nodes.length ≤ q.nodes.length
  represents : Represents p.nodes.length q.nodes new t

/-- The list of nodes behind a new node. -/
theorem addNode_getElem? {p : Parser} {parent : NodeId} {n : Node}
    (hn : p.nodes[parent]? = some n) (value : Value) (node : Node) :
    (p.addNode parent n value node)[parent]? = some { n with value := some value } ∧
      (p.addNode parent n value node)[p.nodes.length]? = some node ∧
      (∀ j, j < p.nodes.length → j ≠ parent →
        (p.addNode parent n value node)[j]? = p.nodes[j]?) ∧
      (p.addNode parent n value node).length = p.nodes.length + 1 := by
  have hlt := (List.getElem?_eq_some_iff.1 hn).1
  unfold Parser.addNode
  refine ⟨?_, ?_, ?_, by simp⟩
  · rw [List.getElem?_append_left (by simpa using hlt), List.getElem?_set_self hlt]
  · rw [List.getElem?_append_right (by simp)]
    simp
  · intro j hj hne
    rw [List.getElem?_append_left (by simpa using hj), List.getElem?_set_ne (Ne.symm hne)]

/-- A leaf line. -/
theorem extends_leaf {p : Parser} {d : Nat} {parent : NodeId} {stack : List NodeId} {n : Node}
    {ids : List NodeId} {key data : Bytes} (hcomes : Comes p d parent stack)
    (hn : p.nodes[parent]? = some n) (hvalue : n.value.getD (.obj []) = .obj ids)
    (hkey : CleanText key) (hdata : CleanText data) :
    ∃ q, p.parseLine (Tree.indent d ++ key ++ lit ": " ++ data) = some q ∧
      Extends p d parent stack n.key ids [p.nodes.length] (.leaf key data .nil) q := by
  have hint := toInt_of_lt hcomes.depth
  have hdepth := hcomes.depth
  have hlast := hcomes.last
  have htrim : trim (32 :: data) = data := trim_spaces 1 hdata.head hdata.last
  rw [parseLine_leaf hkey hdata, hint, if_neg (by omega)]
  unfold Parser.insertLeaf
  simp only [hcomes.found, hn, hvalue, Value.insert, Option.map_some, trim_indent d hkey, htrim]
  refine ⟨_, rfl, ?_⟩
  obtain ⟨hparent, hnew, hothers, hlen⟩ :=
    addNode_getElem? hn (.obj (ids ++ [p.nodes.length])) ⟨key, some (.leaf data)⟩
  constructor
  · exact ⟨d, Nat.le_refl d, hdepth, rfl, by rw [Nat.sub_self]; rfl⟩
  · exact hparent
  · exact hothers
  · exact Nat.le_of_lt (by rw [hlen]; exact Nat.lt_succ_self _)
  · exact ⟨⟨Nat.le_refl _, hnew⟩, trivial⟩

/-- Entries behind entries. -/
theorem Extends.trans {p q r : Parser} {d : Nat} {parent : NodeId} {stack : List NodeId}
    {key : Bytes} {ids new new' : List NodeId} {t u : Tree}
    (hparent : parent < p.nodes.length) (h : Extends p d parent stack key ids new t q)
    (h' : Extends q d parent stack key (ids ++ new) new' u r) :
    Extends p d parent stack key ids (new ++ new') (t.append u) r := by
  have hlen := h.length
  constructor
  · exact h'.standing
  · rw [h'.object, List.append_assoc]
  · intro j hj hne
    rw [h'.others j (by omega) hne, h.others j hj hne]
  · exact Nat.le_trans hlen h'.length
  · apply Represents.append
    · apply h.represents.frame (Nat.le_refl _)
      intro id hid hlt
      exact h'.others id hlt (Nat.ne_of_gt (Nat.lt_of_lt_of_le hparent hid))
    · exact h'.represents.frame hlen fun id _ _ => rfl

/-- The parser behind an object line. -/
def Parser.opened (p : Parser) (d : Nat) (parent : NodeId) (stack : List NodeId) (n : Node)
    (ids : List NodeId) (key : Bytes) : Parser :=
  { nodes := p.addNode parent n (.obj (ids ++ [p.nodes.length])) ⟨key, none⟩,
    stack := parent :: stack, parent := p.nodes.length, lastIndents := (2 * d : Nat) }

/-- An object line, below an object that has a value. -/
theorem parseLine_open {p : Parser} {d : Nat} {parent : NodeId} {stack : List NodeId} {n : Node}
    {ids : List NodeId} {key : Bytes} (hcomes : Comes p d parent stack)
    (hn : p.nodes[parent]? = some n) (hvalue : n.value = some (.obj ids)) (hkey : CleanText key) :
    p.parseLine (Tree.indent d ++ key ++ lit ":") = some (p.opened d parent stack n ids key) := by
  have hdepth := hcomes.depth
  have hlast := hcomes.last
  have hnear := hcomes.near
  have hint := toInt_of_lt hdepth
  rw [parseLine_node hkey, hint, if_neg (by omega)]
  unfold Parser.openNode
  have hdiff : ¬ (((2 * d : Nat) : Int) - p.lastIndents > 0 ∧
      ((2 * d : Nat) : Int) - p.lastIndents ≠ 2) := by
    omega
  simp only [hcomes.found, hn, hvalue, if_neg hdiff, Value.insert, Option.map_some,
    trim_indent d hkey, Parser.opened]

/-- The lines below a new object come below its node. -/
theorem comes_below {p : Parser} {d : Nat} {parent : NodeId} {stack : List NodeId} {n : Node}
    {ids : List NodeId} {key : Bytes} (hdepth : 2 * (d + 1) < 2 ^ 31) :
    Comes (p.opened d parent stack n ids key) (d + 1) p.nodes.length (parent :: stack) := by
  have hlast : (p.opened d parent stack n ids key).lastIndents = (2 * d : Nat) := rfl
  refine ⟨hdepth, ⟨by omega, by omega⟩, Or.inr (by omega), ?_⟩
  unfold Parser.parentFor
  rw [if_neg (by omega)]
  rfl

theorem opened_node {p : Parser} {parent : NodeId} {n : Node} (hn : p.nodes[parent]? = some n)
    (d : Nat) (stack ids : List NodeId) (key : Bytes) :
    (p.opened d parent stack n ids key).nodes[p.nodes.length]? = some ⟨key, none⟩ :=
  (addNode_getElem? hn (.obj (ids ++ [p.nodes.length])) ⟨key, none⟩).2.1

/-- An object with its entries. -/
theorem extends_node {p q : Parser} {d : Nat} {parent : NodeId} {stack : List NodeId} {n : Node}
    {ids kids : List NodeId} {key : Bytes} {children : Tree} (hn : p.nodes[parent]? = some n)
    (h : Extends (p.opened d parent stack n ids key) (d + 1) p.nodes.length (parent :: stack) key []
      kids children q) :
    Extends p d parent stack n.key ids [p.nodes.length] (.node key children .nil) q := by
  obtain ⟨hparent, -, hothers, hlen⟩ :=
    addNode_getElem? hn (.obj (ids ++ [p.nodes.length])) ⟨key, none⟩
  have hnodes : (p.opened d parent stack n ids key).nodes =
      p.addNode parent n (.obj (ids ++ [p.nodes.length])) ⟨key, none⟩ := rfl
  rw [← hnodes] at hparent hothers hlen
  have hlt := (List.getElem?_eq_some_iff.1 hn).1
  have hlength := h.length
  have hobject := h.object
  rw [List.nil_append] at hobject
  constructor
  · exact h.standing.up
  · rw [h.others parent (by rw [hlen]; exact Nat.lt_succ_of_lt hlt) (Nat.ne_of_lt hlt)]
    exact hparent
  · intro j hj hne
    rw [h.others j (by omega) (Nat.ne_of_lt hj)]
    exact hothers j hj hne
  · omega
  · refine ⟨⟨kids, ⟨Nat.le_refl _, hobject⟩, ?_⟩, trivial⟩
    exact h.represents.frame (by omega) fun id _ _ => rfl

/-! ## Reading a tree -/

theorem parseLines_append (p : Parser) (ls ls' : List Bytes) :
    p.parseLines (ls ++ ls') = (p.parseLines ls).bind (·.parseLines ls') :=
  List.foldlM_append

theorem parseLines_cons (p : Parser) (line : Bytes) (ls : List Bytes) :
    p.parseLines (line :: ls) = (p.parseLine line).bind (·.parseLines ls) :=
  List.foldlM_cons

/-- The rest of an object, behind entries that have been read. -/
theorem Extends.rest {p q : Parser} {d : Nat} {parent : NodeId} {stack : List NodeId} {key : Bytes}
    {ids new : List NodeId} {t rest : Tree} (hparent : parent < p.nodes.length)
    (h : Extends p d parent stack key ids new t q)
    (hrest : rest ≠ .nil → ∃ new' r, q.parseLines (rest.lines d) = some r ∧
      Extends q d parent stack key (ids ++ new) new' rest r) :
    ∃ new' r, q.parseLines (rest.lines d) = some r ∧
      Extends p d parent stack key ids new' (t.append rest) r := by
  by_cases hnil : rest = .nil
  · subst hnil
    have hsame : t.append .nil = t := by
      clear h hrest
      induction t with
      | nil => rfl
      | leaf key data rest ih => exact congrArg (Tree.leaf key data) ih
      | node key children rest _ ih => exact congrArg (Tree.node key children) ih
    rw [hsame]
    exact ⟨new, q, rfl, h⟩
  · obtain ⟨new', r, hread, hext⟩ := hrest hnil
    exact ⟨new ++ new', r, hread, h.trans hparent hext⟩

/-- The parent of an object that may come has a value already. -/
theorem value_of_node {n : Node} {ids : List NodeId} {key : Bytes} {children rest : Tree}
    (hvalue : n.value.getD (.obj []) = .obj ids)
    (hstart : n.value = none → (Tree.node key children rest).StartsWithLeaf) :
    n.value = some (.obj ids) := by
  cases hv : n.value with
  | none => exact (hstart hv).elim
  | some value =>
      rw [hv] at hvalue
      exact congrArg some hvalue

/-- The entries of a loadable tree extend the object they come below. -/
theorem read_of_loadable {t : Tree} (hvalid : t.Valid) {p : Parser} {d : Nat} {parent : NodeId}
    {stack : List NodeId} {n : Node} {ids : List NodeId} (hload : t.Loadable d) (hne : t ≠ .nil)
    (hcomes : Comes p d parent stack) (hn : p.nodes[parent]? = some n)
    (hvalue : n.value.getD (.obj []) = .obj ids) (hstart : n.value = none → t.StartsWithLeaf) :
    ∃ new q, p.parseLines (t.lines d) = some q ∧ Extends p d parent stack n.key ids new t q := by
  -- by induction on the tree; the parser before its lines is arbitrary
  induction t generalizing p d parent stack n ids with
  | nil => exact absurd rfl hne
  | leaf key data rest ih =>
      obtain ⟨hkey, hdata, hvrest⟩ := hvalid
      obtain ⟨q, hline, hext⟩ := extends_leaf hcomes hn hvalue hkey hdata
      have hrest := hext.rest (List.getElem?_eq_some_iff.1 hn).1 fun hne' =>
        ih (n := ⟨n.key, some (.obj _)⟩) hvrest hload.2 hne' hext.standing.comes hext.object rfl
          nofun
      obtain ⟨new, r, hread, hext'⟩ := hrest
      refine ⟨new, r, ?_, hext'⟩
      show p.parseLines (_ :: rest.lines d) = some r
      rw [parseLines_cons, hline]
      exact hread
  | node key children rest ihc ih =>
      obtain ⟨hkey, hcne, hvchildren, hvrest⟩ := hvalid
      obtain ⟨-, hfirst, hlchildren, hlrest⟩ := hload
      have hsome := value_of_node hvalue hstart
      have hdepth : 2 * (d + 1) < 2 ^ 31 := by
        cases children with
        | nil => exact hfirst.elim
        | leaf key data rest => exact hlchildren.1
        | node key children rest => exact hfirst.elim
      have hline := parseLine_open hcomes hn hsome hkey
      have hbelow : Comes (p.opened d parent stack n ids key) (d + 1) p.nodes.length
          (parent :: stack) := comes_below hdepth
      have hnew := opened_node hn d stack ids key
      obtain ⟨kids, q, hkids, hext⟩ :=
        ihc hvchildren hlchildren hcne hbelow hnew rfl fun _ => hfirst
      have hnode := extends_node hn hext
      have hrest := hnode.rest (List.getElem?_eq_some_iff.1 hn).1 fun hne' =>
        ih (n := ⟨n.key, some (.obj _)⟩) hvrest hlrest hne' hnode.standing.comes hnode.object
          rfl nofun
      obtain ⟨new, r, hread, hext'⟩ := hrest
      refine ⟨new, r, ?_, hext'⟩
      show p.parseLines (_ :: (children.lines (d + 1) ++ rest.lines d)) = some r
      rw [parseLines_cons, hline, Option.bind_some, parseLines_append, hkids]
      exact hread

/-! ## Trees that are not read -/

/-- An object line below a node without a value follows a null pointer. -/
theorem parseLine_null {p : Parser} {d : Nat} {parent : NodeId} {stack : List NodeId} {n : Node}
    {key : Bytes} (hcomes : Comes p d parent stack) (hn : p.nodes[parent]? = some n)
    (hvalue : n.value = none) (hkey : CleanText key) :
    p.parseLine (Tree.indent d ++ key ++ lit ":") = none := by
  have hdepth := hcomes.depth
  have hlast := hcomes.last
  rw [parseLine_node hkey, toInt_of_lt hdepth, if_neg (by omega)]
  unfold Parser.openNode
  simp only [hcomes.found, hn, hvalue, Option.map_none]

/-- The entries of a level whose indentation does not fit an `int` any more. -/
theorem parse_overflow {t : Tree} (hvalid : t.Valid) (hne : t ≠ .nil) {p : Parser} {d : Nat}
    (hdepth : 2 * d = 2 ^ 31) (hlast : p.lastIndents = 2 ^ 31 - 2) :
    p.parseLines (t.lines d) = none := by
  have hint : Str.toInt (2 * d) = -2 ^ 31 := by
    rw [hdepth]
    decide
  have hover : Str.toInt (2 * d) - p.lastIndents < -2 ^ 31 := by
    rw [hint, hlast]
    decide
  cases t with
  | nil => exact absurd rfl hne
  | leaf key data rest =>
      show p.parseLines (_ :: rest.lines d) = none
      rw [parseLines_cons, parseLine_leaf hvalid.1 hvalid.2.1, if_pos (Or.inl hover)]
      rfl
  | node key children rest =>
      show p.parseLines (_ :: (children.lines (d + 1) ++ rest.lines d)) = none
      rw [parseLines_cons, parseLine_node hvalid.1, if_pos (Or.inl hover)]
      rfl

/-- The entries below a new object that do not start with a leaf. -/
theorem parse_null {t : Tree} (hvalid : t.Valid) (hne : t ≠ .nil) (hstart : ¬ t.StartsWithLeaf)
    {p : Parser} {d : Nat} {parent : NodeId} {stack : List NodeId} {n : Node}
    (hcomes : Comes p d parent stack) (hn : p.nodes[parent]? = some n) (hvalue : n.value = none) :
    p.parseLines (t.lines d) = none := by
  cases t with
  | nil => exact absurd rfl hne
  | leaf key data rest => exact absurd trivial hstart
  | node key children rest =>
      show p.parseLines (_ :: (children.lines (d + 1) ++ rest.lines d)) = none
      rw [parseLines_cons, parseLine_null hcomes hn hvalue hvalid.1]
      rfl

/-- The entries of any other tree end in a failure. -/
theorem parse_fails {t : Tree} (hvalid : t.Valid) {p : Parser} {d : Nat} {parent : NodeId}
    {stack : List NodeId} {n : Node} {ids : List NodeId} (hload : ¬ t.Loadable d)
    (hcomes : Comes p d parent stack) (hn : p.nodes[parent]? = some n)
    (hvalue : n.value.getD (.obj []) = .obj ids) (hstart : n.value = none → t.StartsWithLeaf) :
    p.parseLines (t.lines d) = none := by
  induction t generalizing p d parent stack n ids with
  | nil => exact absurd trivial hload
  | leaf key data rest ih =>
      obtain ⟨hkey, hdata, hvrest⟩ := hvalid
      obtain ⟨q, hline, hext⟩ := extends_leaf hcomes hn hvalue hkey hdata
      have hlrest : ¬ rest.Loadable d := fun h => hload ⟨hcomes.depth, h⟩
      show p.parseLines (_ :: rest.lines d) = none
      rw [parseLines_cons, hline]
      exact ih hvrest hlrest hext.standing.comes hext.object rfl nofun
  | node key children rest ihc ih =>
      obtain ⟨hkey, hcne, hvchildren, hvrest⟩ := hvalid
      have hsome := value_of_node hvalue hstart
      have hline := parseLine_open hcomes hn hsome hkey
      have hnew := opened_node hn d stack ids key
      have hdepth := hcomes.depth
      show p.parseLines (_ :: (children.lines (d + 1) ++ rest.lines d)) = none
      rw [parseLines_cons, hline, Option.bind_some, parseLines_append]
      by_cases hfits : 2 * (d + 1) < 2 ^ 31
      · have hbelow : Comes (p.opened d parent stack n ids key) (d + 1) p.nodes.length
            (parent :: stack) := comes_below hfits
        by_cases hfirst : children.StartsWithLeaf
        · by_cases hlchildren : children.Loadable (d + 1)
          · -- the children are read, so that the fault is in the rest
            have hlrest : ¬ rest.Loadable d :=
              fun h => hload ⟨hdepth, hfirst, hlchildren, h⟩
            obtain ⟨kids, q, hkids, hext⟩ :=
              read_of_loadable hvchildren hlchildren hcne hbelow hnew rfl fun _ => hfirst
            have hnode := extends_node hn hext
            rw [hkids]
            exact ih hvrest hlrest hnode.standing.comes hnode.object rfl nofun
          · rw [ihc hvchildren hlchildren hbelow hnew rfl fun _ => hfirst]
            rfl
        · rw [parse_null hvchildren hcne hfirst hbelow hnew rfl]
          rfl
      · have hlast : (p.opened d parent stack n ids key).lastIndents = 2 ^ 31 - 2 := by
          show ((2 * d : Nat) : Int) = 2 ^ 31 - 2
          omega
        rw [parse_overflow hvchildren hcne (by omega) hlast]
        rfl

/-! ## Files -/

theorem getLines_line {line : Bytes} (h : 10 ∉ line) (s : Bytes) :
    getLines (line ++ [10] ++ s) = line :: getLines s := by
  induction line with
  | nil => rfl
  | cons c line ih =>
      rw [List.mem_cons, not_or] at h
      rw [List.append_assoc] at ih ⊢
      rw [List.cons_append, getLines, if_neg (Ne.symm h.1), ih h.2]

theorem getLines_flatMap {ls : List Bytes} (h : ∀ line ∈ ls, 10 ∉ line) :
    getLines (ls.flatMap (· ++ [10])) = ls := by
  induction ls with
  | nil => rfl
  | cons line ls ih =>
      rw [List.flatMap_cons, getLines_line (h line (List.mem_cons_self ..)),
        ih fun l hl => h l (List.mem_cons_of_mem line hl)]

theorem not_mem_lines {t : Tree} (hvalid : t.Valid) (d : Nat) : ∀ line ∈ t.lines d, 10 ∉ line := by
  induction t generalizing d with
  | nil =>
      intro line hline
      exact absurd hline List.not_mem_nil
  | leaf key data rest ih =>
      intro line hline
      rcases List.mem_cons.1 hline with rfl | hline
      · simp only [List.mem_append, not_or]
        exact ⟨⟨⟨not_mem_indent (by decide) d, hvalid.1.noNewline⟩, by decide⟩,
          hvalid.2.1.noNewline⟩
      · exact ih hvalid.2.2 d line hline
  | node key children rest ihc ih =>
      intro line hline
      rcases List.mem_cons.1 hline with rfl | hline
      · simp only [List.mem_append, not_or]
        exact ⟨⟨not_mem_indent (by decide) d, hvalid.1.noNewline⟩, by decide⟩
      · rcases List.mem_append.1 hline with hline | hline
        · exact ihc hvalid.2.2.1 (d + 1) line hline
        · exact ih hvalid.2.2.2 d line hline

theorem parseYaml_render {t : Tree} (hvalid : t.Valid) (path : Bytes) :
    parseYaml path t.render = (Parser.init path).parseLines (t.lines 0) := by
  unfold parseYaml Tree.render
  rw [getLines_flatMap (not_mem_lines hvalid 0)]

theorem comes_init (path : Bytes) : Comes (Parser.init path) 0 0 [] := by
  have hlast : (Parser.init path).lastIndents = 0 := rfl
  exact ⟨by decide, by omega, by omega, rfl⟩

/-- The file of a tree comes back exactly when no inner object starts with an
object and the indentation fits an `int`. -/
theorem loads_iff_loadable (path : Bytes) {t : Tree} (hvalid : t.Valid) (hne : t ≠ .nil) :
    Loads path t ↔ t.Loadable 0 := by
  have hcomes := comes_init path
  have hn : (Parser.init path).nodes[0]? = some ⟨path, some (.obj [])⟩ := rfl
  unfold Loads
  rw [parseYaml_render hvalid]
  constructor
  · rintro ⟨p, ids, hread, -⟩
    by_contra hload
    have hfail := parse_fails hvalid hload hcomes hn rfl nofun
    rw [hread] at hfail
    cases hfail
  · intro hload
    obtain ⟨new, q, hread, hext⟩ := read_of_loadable hvalid hload hne hcomes hn rfl nofun
    exact ⟨q, new, hread, hext.object, hext.represents⟩

instance (text : Bytes) : Decidable (CleanText text) :=
  decidable_of_iff
    (text ≠ [] ∧ text.head? ≠ some 32 ∧ text.getLast? ≠ some 32 ∧ 58 ∉ text ∧ 35 ∉ text ∧ 10 ∉ text)
    ⟨fun ⟨h₁, h₂, h₃, h₄, h₅, h₆⟩ => ⟨h₁, h₂, h₃, h₄, h₅, h₆⟩,
      fun ⟨h₁, h₂, h₃, h₄, h₅, h₆⟩ => ⟨h₁, h₂, h₃, h₄, h₅, h₆⟩⟩

/-- Two levels of objects, each starting with a leaf, and a leaf behind
them. -/
def sampleTree : Tree :=
  .node (lit "a")
    (.leaf (lit "b") (lit "1") (.node (lit "c") (.leaf (lit "d") (lit "2") .nil) .nil))
    (.leaf (lit "e") (lit "3") .nil)

theorem sampleTree_valid : sampleTree.Valid :=
  ⟨by decide +kernel, nofun, ⟨by decide +kernel, by decide +kernel, by decide +kernel, nofun,
    ⟨by decide +kernel, by decide +kernel, trivial⟩, trivial⟩,
    by decide +kernel, by decide +kernel, trivial⟩

theorem loads_sampleTree : Loads (lit "conf.yml") sampleTree :=
  (loads_iff_loadable (lit "conf.yml") sampleTree_valid nofun).2
    ⟨by decide, trivial, ⟨by decide, by decide, trivial, ⟨by decide, trivial⟩, trivial⟩,
      by decide, trivial⟩

/-- An object whose first entry is an object. -/
def objectFirst : Tree :=
  .node (lit "a") (.node (lit "b") (.leaf (lit "c") (lit "1") .nil) .nil) .nil

theorem not_loads_objectFirst :
    objectFirst.Valid ∧ objectFirst ≠ .nil ∧ ¬ Loads (lit "conf.yml") objectFirst := by
  refine ⟨⟨by decide +kernel, nofun, ⟨by decide +kernel, nofun,
    ⟨by decide +kernel, by decide +kernel, trivial⟩, trivial⟩, trivial⟩, nofun, ?_⟩
  have hparse : parseYaml (lit "conf.yml") objectFirst.render = none := by decide +kernel
  rintro ⟨p, ids, hread, -⟩
  rw [hparse] at hread
  cases hread

end Unixtar.Yaml
