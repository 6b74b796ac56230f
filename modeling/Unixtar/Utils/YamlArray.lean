import Mathlib.Data.List.Forall2
import Mathlib.Data.List.Induction
import Unixtar.Utils.YamlRoundTrip

/-!
# Arrays of objects in configuration files

A file with an array of objects under a top-level key: a line "-" before each
object, and the entries of the object at the same indentation.

`ValueArray` counts the entries of the current object in `curr`, and learns
the common length from the first "-" behind an object.  With a single object
there is no such line, and the length of the last object is compared with
nothing.

## Main results

* `readsElements` — the elements of an array are read one by one, until the
  object before a "-" does not have the common length.
* `returnsWhole_iff` — the objects come back exactly when there are two at
  least, and what stands around the array can be read.
* `failsLengthCheck_iff` — the check of the lengths fails exactly when two
  objects before the last one differ.
-/

namespace Unixtar.Yaml

/-! ## Texts -/

/-- The entries of an object in an array. -/
abbrev Entries := List (Bytes × Bytes)

/-- "key: data". -/
def entryLine (w : Nat) (e : Bytes × Bytes) : Bytes := spaces w ++ e.1 ++ lit ": " ++ e.2

/-- The line before an object. -/
def dashLine (w : Nat) : Bytes := spaces w ++ lit "-"

/-- An object in an array. -/
def elementLines (w : Nat) (o : Entries) : List Bytes := dashLine w :: o.map (entryLine w)

/-- An array under a top-level key. -/
def arrayLines (w : Nat) (key : Bytes) (objs : List Entries) : List Bytes :=
  (key ++ lit ":") :: objs.flatMap (elementLines w)

/-- An object that is not empty, with clean texts. -/
structure CleanObject (o : Entries) : Prop where
  nonempty : o ≠ []
  clean : ∀ e ∈ o, CleanText e.1 ∧ CleanText e.2

/-- Objects that all have the same number of entries. -/
def SameLength (objs : List Entries) : Prop := ∀ o ∈ objs, ∀ o' ∈ objs, o.length = o'.length

/-- Objects that have the same number of entries, but for the last one. -/
def Even (objs : List Entries) : Prop := SameLength objs.dropLast

/-! ## The two counters -/

/-- `curr` when these objects have been read. -/
def currOf (done : List Entries) : Int :=
  match done.getLast? with
  | none => -1
  | some o => o.length

/-- `len_of_obj_in_arr` when these objects have been read. -/
def lenOf : List Entries → Int
  | o :: _ :: _ => o.length
  | _ => -1

/-- The check of `MarkArrStart` fails. -/
def Value.LengthsDiffer : Value → Prop
  | .arr _ curr len => ¬ (len = -1 ∧ curr > 0) ∧ len ≠ curr
  | _ => False

theorem Value.markArrStart_arr (elems : List Element) (curr len : Int) :
    (Value.arr elems curr len).markArrStart =
      if len = -1 ∧ curr > 0 then some (.arr elems 0 curr)
      else if len ≠ curr then none
      else some (.arr elems 0 len) := rfl

theorem Value.markArrStart_of_differ {value : Value} (h : value.LengthsDiffer) :
    value.markArrStart = none := by
  cases value with
  | arr elems curr len =>
      rw [Value.markArrStart_arr, if_neg h.1, if_pos h.2]
  | leaf data => exact h.elim
  | obj nodes => exact h.elim

@[simp] theorem currOf_append (done : List Entries) (o : Entries) :
    currOf (done ++ [o]) = o.length := by
  unfold currOf
  rw [List.getLast?_concat]

/-- Objects of the same length. -/
theorem markArrStart_of_same {done : List Entries} (hsame : SameLength done)
    (hne : ∀ o ∈ done, o ≠ []) (elems : List Element) (o : Entries) :
    (Value.arr elems (currOf done) (lenOf done)).markArrStart =
      some (.arr elems 0 (lenOf (done ++ [o]))) := by
  rw [Value.markArrStart_arr]
  match done with
  | [] => rfl
  | [x] =>
      have hpos : 0 < x.length := List.length_pos_of_ne_nil (hne x List.mem_cons_self)
      have hcurr : currOf [x] = x.length := rfl
      rw [if_pos ⟨rfl, by omega⟩]
      rfl
  | x :: y :: rest =>
      have hcurr : currOf (x :: y :: rest) = lenOf (x :: y :: rest) := by
        unfold currOf lenOf
        rw [List.getLast?_eq_getLast_of_ne_nil (List.cons_ne_nil _ _)]
        exact congrArg Nat.cast
          (hsame _ (List.getLast_mem (List.cons_ne_nil _ _)) x List.mem_cons_self)
      rw [if_neg, if_neg (fun h => h hcurr.symm)]
      · rfl
      · rintro ⟨hlen, -⟩
        have hlen' : (x.length : Int) = -1 := hlen
        omega

/-- The last object read is compared with those before it. -/
theorem differ_of_not_same {done : List Entries} (heven : Even done) (hsame : ¬ SameLength done)
    (hne : ∀ o ∈ done, o ≠ []) (elems : List Element) :
    (Value.arr elems (currOf done) (lenOf done)).LengthsDiffer := by
  match done with
  | [] => exact absurd nofun hsame
  | [x] =>
      apply absurd _ hsame
      intro o ho o' ho'
      rw [List.mem_singleton.1 ho, List.mem_singleton.1 ho']
  | x :: y :: rest =>
      have hsplit := List.dropLast_append_getLast (List.cons_ne_nil x (y :: rest))
      have hx : x ∈ (x :: y :: rest).dropLast := by
        rw [List.dropLast_cons_cons]
        exact List.mem_cons_self
      have hlen : lenOf (x :: y :: rest) = x.length := rfl
      have hcurr : currOf (x :: y :: rest) =
          ((x :: y :: rest).getLast (List.cons_ne_nil _ _)).length := by
        unfold currOf
        rw [List.getLast?_eq_getLast_of_ne_nil (List.cons_ne_nil _ _)]
      refine ⟨?_, fun heq => hsame ?_⟩
      · rintro ⟨h, -⟩
        omega
      · -- the last object would have the length of the first one
        have hlast : ∀ o ∈ x :: y :: rest, o.length = x.length := by
          intro o ho
          rw [← hsplit, List.mem_append, List.mem_singleton] at ho
          rcases ho with ho | rfl
          · exact heven o ho x hx
          · omega
        intro o ho o' ho'
        rw [hlast o ho, hlast o' ho']

/-! ## Elements -/

/-- The nodes are the leaf nodes of these entries, behind node `a`. -/
def Holds (a : NodeId) (nodes : List Node) (ids : List NodeId) (o : Entries) : Prop :=
  List.Forall₂ (fun id e => a < id ∧ nodes[id]? = some ⟨e.1, some (.leaf e.2)⟩) ids o

/-- The lines between `p` and `q` have added nodes, and changed node `a` at
most. -/
structure Grows (a : NodeId) (p q : Parser) : Prop where
  parent : q.parent = p.parent
  stack : q.stack = p.stack
  others : ∀ j, j < p.nodes.length → j ≠ a → q.nodes[j]? = p.nodes[j]?
  length : p.nodes.length ≤ q.nodes.length

theorem Grows.refl (a : NodeId) (p : Parser) : Grows a p p :=
  ⟨rfl, rfl, fun _ _ _ => rfl, Nat.le_refl _⟩

theorem Grows.trans {a : NodeId} {p q r : Parser} (h : Grows a p q) (h' : Grows a q r) :
    Grows a p r where
  parent := h'.parent.trans h.parent
  stack := h'.stack.trans h.stack
  others j hj hne := (h'.others j (Nat.lt_of_lt_of_le hj h.length) hne).trans (h.others j hj hne)
  length := Nat.le_trans h.length h'.length

theorem Holds.frame {a : NodeId} {nodes nodes' : List Node} {ids : List NodeId} {o : Entries}
    (h : Holds a nodes ids o)
    (hsame : ∀ j, j < nodes.length → a < j → nodes'[j]? = nodes[j]?) : Holds a nodes' ids o := by
  unfold Holds at h ⊢
  apply h.imp
  rintro id e ⟨hlt, hnode⟩
  exact ⟨hlt, (hsame id (List.getElem?_eq_some_iff.1 hnode).1 hlt).trans hnode⟩

/-- An array whose last object has the nodes `mine` so far. -/
def Value.growing (olds : List Element) (mine : List NodeId) (len : Int) : Value :=
  .arr (if mine = [] then olds else olds ++ [.obj mine]) mine.length len

theorem Value.insert_growing (olds : List Element) (mine : List NodeId) (len : Int)
    (id : NodeId) :
    (Value.growing olds mine len).insert id = some (Value.growing olds (mine ++ [id]) len) := by
  unfold Value.growing Value.insert
  cases mine with
  | nil => simp
  | cons first rest =>
      have hcurr : ¬ (rest.length : Int) + 1 = 0 := by omega
      simp [hcurr]

/-- A line of an entry, at the indentation of the line before it. -/
theorem parseLine_entry {p : Parser} {w : Nat} {e : Bytes × Bytes} {key : Bytes}
    {value value' : Value} (he : CleanText e.1 ∧ CleanText e.2)
    (hlast : p.lastIndents = Str.toInt w)
    (hparent : p.nodes[p.parent]? = some ⟨key, some value⟩)
    (hinsert : value.insert p.nodes.length = some value') :
    p.parseLine (entryLine w e) =
      some { p with nodes := p.addNode p.parent ⟨key, some value⟩ value'
                      ⟨e.1, some (.leaf e.2)⟩ } := by
  have htrim : trim (32 :: e.2) = e.2 := trim_spaces 1 he.2.head he.2.last
  unfold entryLine
  rw [parseLine_spaces_leaf he.1 he.2, ← hlast, Int.sub_self, if_neg (by decide)]
  unfold Parser.insertLeaf Parser.parentFor
  rw [if_neg (by decide)]
  simp only [hparent, Option.getD_some, hinsert, Option.map_some,
    trim_spaces w he.1.head he.1.last, htrim]

/-- The entries of an object. -/
theorem read_entries {o : Entries} (ho : ∀ e ∈ o, CleanText e.1 ∧ CleanText e.2) {p : Parser}
    {w : Nat} {key : Bytes} {olds : List Element} {mine : List NodeId} {len : Int}
    (hlast : p.lastIndents = Str.toInt w)
    (hparent : p.nodes[p.parent]? = some ⟨key, some (.growing olds mine len)⟩) :
    ∃ q new, p.parseLines (o.map (entryLine w)) = some q ∧ Grows p.parent p q ∧
      q.lastIndents = Str.toInt w ∧
      q.nodes[p.parent]? = some ⟨key, some (.growing olds (mine ++ new) len)⟩ ∧
      Holds p.parent q.nodes new o := by
  induction o generalizing p mine with
  | nil =>
      refine ⟨p, [], rfl, Grows.refl _ p, hlast, ?_, List.Forall₂.nil⟩
      rw [List.append_nil]
      exact hparent
  | cons e rest ih =>
      have hline := parseLine_entry (ho e List.mem_cons_self) hlast hparent
        (Value.insert_growing olds mine len p.nodes.length)
      obtain ⟨hself, hnew, hothers, hlength⟩ := addNode_getElem? hparent
        (.growing olds (mine ++ [p.nodes.length]) len) ⟨e.1, some (.leaf e.2)⟩
      have hlt := (List.getElem?_eq_some_iff.1 hparent).1
      generalize hp' : { p with
        nodes := p.addNode p.parent ⟨key, some (.growing olds mine len)⟩
          (.growing olds (mine ++ [p.nodes.length]) len) ⟨e.1, some (.leaf e.2)⟩ } = p' at hline
      have hnodes : p'.nodes = p.addNode p.parent ⟨key, some (.growing olds mine len)⟩
          (.growing olds (mine ++ [p.nodes.length]) len) ⟨e.1, some (.leaf e.2)⟩ := by
        rw [← hp']
      have hsame : p'.parent = p.parent := by rw [← hp']
      rw [← hnodes] at hself hnew hothers hlength
      have hgrows : Grows p.parent p p' :=
        ⟨hsame, by rw [← hp'], hothers, by omega⟩
      have hlast' : p'.lastIndents = Str.toInt w := by rw [← hp']; exact hlast
      have hself' : p'.nodes[p'.parent]? =
          some ⟨key, some (.growing olds (mine ++ [p.nodes.length]) len)⟩ := by
        rw [hsame]
        exact hself
      obtain ⟨q, new, hread, hq, hqlast, hqself, hholds⟩ :=
        ih (fun e' he' => ho e' (List.mem_cons_of_mem e he')) hlast' hself'
      rw [hsame] at hq hqself hholds
      refine ⟨q, p.nodes.length :: new, ?_, hgrows.trans hq, hqlast, ?_, ?_⟩
      · rw [List.map_cons, parseLines_cons, hline]
        exact hread
      · rw [hqself, List.append_assoc]
        rfl
      · refine List.Forall₂.cons ⟨hlt, ?_⟩ hholds
        rw [hq.others _ (by omega) (Nat.ne_of_gt hlt)]
        exact hnew

/-- The lines behind `p`, whose parent is the node of the array, have read
these objects. -/
structure InArray (w : Nat) (key : Bytes) (p : Parser) (done : List Entries) (q : Parser) :
    Prop where
  grows : Grows p.parent p q
  last : q.lastIndents = if done = [] then p.lastIndents else Str.toInt w
  array : ∃ value ids, q.nodes[p.parent]? = some ⟨key, value⟩ ∧
    value.getD Value.newArray = .arr (ids.map .obj) (currOf done) (lenOf done) ∧
    List.Forall₂ (Holds p.parent q.nodes) ids done

theorem InArray.init {p : Parser} {w : Nat} {key : Bytes}
    (hparent : p.nodes[p.parent]? = some ⟨key, none⟩) : InArray w key p [] p :=
  ⟨Grows.refl _ p, rfl, none, [], hparent, rfl, List.Forall₂.nil⟩

theorem not_mem_dashLine {c : UInt8} {w : Nat} (hspace : c ≠ 32) (hdash : c ≠ 45) :
    c ∉ dashLine w := by
  unfold dashLine
  rw [List.mem_append, not_or]
  exact ⟨not_mem_spaces hspace w, fun h => hdash (List.mem_singleton.1 h)⟩

theorem dashLine_ne_nil (w : Nat) : dashLine w ≠ [] :=
  fun h => List.cons_ne_nil 45 [] (List.append_eq_nil_iff.1 h).2

theorem indentsOf_dashLine (w : Nat) : indentsOf (dashLine w) = Str.toInt w :=
  indentsOf_spaces w (List.cons_ne_nil 45 []) (by decide)

theorem trim_dashLine (w : Nat) : trim (delafter (dashLine w) 35) = lit "-" := by
  rw [delafter_of_not_mem (not_mem_dashLine (by decide) (by decide))]
  exact trim_spaces w (by decide) (by decide)

/-- A line "-". -/
theorem parseLine_dash {p : Parser} {w : Nat}
    (hfits : ¬ (Str.toInt w - p.lastIndents < -2 ^ 31 ∨ 2 ^ 31 ≤ Str.toInt w - p.lastIndents)) :
    p.parseLine (dashLine w) =
      p.markArrStart.map fun q => { q with lastIndents := Str.toInt w } := by
  have hsplit : Str.split (dashLine w) (lit ":") = [] :=
    Str.split_single (by decide) (Str.free_of_not_mem (not_mem_dashLine (by decide) (by decide)))
  have htrim : trim (dashLine w) = lit "-" := trim_spaces w (by decide) (by decide)
  rw [parseLine_eq (not_mem_dashLine (by decide) (by decide)) (dashLine_ne_nil w),
    indentsOf_dashLine, if_neg hfits, hsplit]
  unfold Parser.parsePieces
  rw [if_pos htrim]

section Elements

variable {p q : Parser} {w : Nat} {key : Bytes} {done : List Entries}

/-- The indentation of the next "-" fits. -/
theorem InArray.fits (h : InArray w key p done q) (hw : w < 2 ^ 31) (hp : p.lastIndents = 0) :
    ¬ (Str.toInt w - q.lastIndents < -2 ^ 31 ∨ 2 ^ 31 ≤ Str.toInt w - q.lastIndents) := by
  have hlast := h.last
  have hint := toInt_of_lt hw
  by_cases hdone : done = []
  · rw [if_pos hdone] at hlast
    omega
  · rw [if_neg hdone] at hlast
    omega

/-- The next "-" is refused if the last object read has another length. -/
theorem InArray.refused (h : InArray w key p done q) (hne : ∀ o ∈ done, o ≠ []) (heven : Even done)
    (hsame : ¬ SameLength done) :
    ∃ n, q.nodes[q.parent]? = some n ∧ (n.value.getD Value.newArray).LengthsDiffer := by
  obtain ⟨value, ids, hnode, hvalue, -⟩ := h.array
  refine ⟨⟨key, value⟩, by rw [h.grows.parent]; exact hnode, ?_⟩
  rw [hvalue]
  exact differ_of_not_same heven hsame hne _

/-- **The next object.** -/
theorem InArray.element {o : Entries} (h : InArray w key p done q) (hw : w < 2 ^ 31)
    (hp : p.lastIndents = 0) (hne : ∀ o ∈ done, o ≠ []) (hsame : SameLength done)
    (ho : CleanObject o) :
    ∃ r, q.parseLines (elementLines w o) = some r ∧ InArray w key p (done ++ [o]) r := by
  obtain ⟨value, ids, hnode, hvalue, hholds⟩ := h.array
  have hmark := markArrStart_of_same hsame hne (ids.map .obj) o
  have hlt := (List.getElem?_eq_some_iff.1 hnode).1
  -- the parser behind the "-"
  have hdash : q.parseLine (dashLine w) =
      some { q with
        nodes := q.nodes.set p.parent
          ⟨key, some (.growing (ids.map .obj) [] (lenOf (done ++ [o])))⟩
        lastIndents := Str.toInt w } := by
    rw [parseLine_dash (h.fits hw hp)]
    unfold Parser.markArrStart Parser.setValue
    simp only [h.grows.parent, hnode, hvalue, hmark, Option.map_some]
    rfl
  generalize hq' : { q with
      nodes := q.nodes.set p.parent ⟨key, some (.growing (ids.map .obj) [] (lenOf (done ++ [o])))⟩
      lastIndents := Str.toInt w } = q' at hdash
  have hnodes : q'.nodes = q.nodes.set p.parent
      ⟨key, some (.growing (ids.map .obj) [] (lenOf (done ++ [o])))⟩ := by rw [← hq']
  have hgrows : Grows p.parent q q' := by
    refine ⟨by rw [← hq'], by rw [← hq'], fun j _ hj => ?_, ?_⟩
    · rw [hnodes, List.getElem?_set_ne (Ne.symm hj)]
    · rw [hnodes, List.length_set]
  have hparent : q'.parent = p.parent := hgrows.parent.trans h.grows.parent
  have hself : q'.nodes[q'.parent]? =
      some ⟨key, some (.growing (ids.map .obj) [] (lenOf (done ++ [o])))⟩ := by
    rw [hparent, hnodes, List.getElem?_set_self hlt]
  obtain ⟨r, new, hread, hr, hrlast, hrself, hnew⟩ :=
    read_entries ho.clean (w := w) (by rw [← hq']) hself
  rw [hparent] at hr hrself hnew
  have hne' : new ≠ [] := by
    rintro rfl
    exact ho.nonempty (List.forall₂_nil_left_iff.1 hnew)
  refine ⟨r, ?_, h.grows.trans (hgrows.trans hr), ?_, ?_⟩
  · unfold elementLines
    rw [parseLines_cons, hdash]
    exact hread
  · rw [if_neg (by simp)]
    exact hrlast
  · refine ⟨_, ids ++ [new], hrself, ?_, ?_⟩
    · rw [List.nil_append, Option.getD_some, Value.growing, if_neg hne', currOf_append,
        List.map_append, List.Forall₂.length_eq hnew]
      rfl
    · apply List.rel_append
      · apply hholds.imp
        intro ids' o' hold
        apply hold.frame
        intro j hj hlo
        rw [hr.others j (Nat.lt_of_lt_of_le hj hgrows.length) (Nat.ne_of_gt hlo)]
        exact hgrows.others j hj (Nat.ne_of_gt hlo)
      · exact List.Forall₂.cons hnew List.Forall₂.nil

theorem even_append_singleton {o : Entries} : Even (done ++ [o]) ↔ SameLength done := by
  unfold Even
  rw [List.dropLast_concat]

theorem even_of_sameLength (h : SameLength done) : Even done :=
  fun o ho o' ho' => h o (List.dropLast_subset _ ho) o' (List.dropLast_subset _ ho')

/-- Where the first object stands whose "-" is refused. -/
theorem exists_first_uneven {objs : List Entries} (h : ¬ Even objs) :
    ∃ done o rest, objs = done ++ o :: rest ∧ Even done ∧ ¬ SameLength done := by
  induction objs using List.reverseRecOn with
  | nil => exact absurd (even_of_sameLength fun o ho => absurd ho List.not_mem_nil) h
  | append_singleton init last ih =>
      rw [even_append_singleton] at h
      by_cases heven : Even init
      · exact ⟨init, last, [], rfl, heven, h⟩
      · obtain ⟨done, o, rest, rfl, hdone, hsame⟩ := ih heven
        exact ⟨done, o, rest ++ [last], by simp, hdone, hsame⟩

/-- **The elements** are read as long as only the last one differs. -/
theorem readsElements {objs : List Entries} (hw : w < 2 ^ 31) (hp : p.lastIndents = 0)
    (hparent : p.nodes[p.parent]? = some ⟨key, none⟩) (hobjs : ∀ o ∈ objs, CleanObject o)
    (heven : Even objs) :
    ∃ q, p.parseLines (objs.flatMap (elementLines w)) = some q ∧ InArray w key p objs q := by
  induction objs using List.reverseRecOn with
  | nil => exact ⟨p, rfl, InArray.init hparent⟩
  | append_singleton done o ih =>
      have hsame := even_append_singleton.1 heven
      have hdone : ∀ o' ∈ done, CleanObject o' := fun o' ho' =>
        hobjs o' (List.mem_append_left _ ho')
      obtain ⟨q, hread, hq⟩ := ih hdone (even_of_sameLength hsame)
      obtain ⟨r, hread', hr⟩ := hq.element hw hp (fun o' ho' => (hdone o' ho').nonempty) hsame
        (hobjs o (List.mem_append_right _ List.mem_cons_self))
      refine ⟨r, ?_, hr⟩
      rw [List.flatMap_append, parseLines_append, hread, List.flatMap_singleton]
      exact hread'

/-- Otherwise a "-" is refused. -/
theorem refusesElements {objs : List Entries} (hw : w < 2 ^ 31) (hp : p.lastIndents = 0)
    (hparent : p.nodes[p.parent]? = some ⟨key, none⟩) (hobjs : ∀ o ∈ objs, CleanObject o)
    (heven : ¬ Even objs) :
    ∃ done o rest q n, objs = done ++ o :: rest ∧
      p.parseLines (done.flatMap (elementLines w)) = some q ∧ q.nodes[q.parent]? = some n ∧
      (n.value.getD Value.newArray).LengthsDiffer := by
  obtain ⟨done, o, rest, rfl, hdone, hsame⟩ := exists_first_uneven heven
  have hclean : ∀ o' ∈ done, CleanObject o' := fun o' ho' => hobjs o' (List.mem_append_left _ ho')
  obtain ⟨q, hread, hq⟩ := readsElements hw hp hparent hclean hdone
  obtain ⟨n, hn, hdiffer⟩ := hq.refused (fun o' ho' => (hclean o' ho').nonempty) hdone hsame
  exact ⟨done, o, rest, q, n, rfl, hread, hn, hdiffer⟩

/-- The check stops `ParseYaml`. -/
theorem parseLine_of_differ {n : Node} {line : Bytes} (hline : trim (delafter line 35) = lit "-")
    (hn : q.nodes[q.parent]? = some n) (hdiffer : (n.value.getD Value.newArray).LengthsDiffer) :
    q.parseLine line = none := by
  have hcolon := not_mem_of_dash hline
  have hsplit : Str.split (delafter line 35) (lit ":") = [] :=
    Str.split_single (by decide) (Str.free_of_not_mem hcolon)
  have hne : delafter line 35 ≠ [] := by
    intro hnil
    rw [hnil] at hline
    exact absurd hline (by decide)
  have hmark : q.markArrStart = none := by
    unfold Parser.markArrStart Parser.setValue
    simp only [hn, Value.markArrStart_of_differ hdiffer, Option.map_none]
  unfold Parser.parseLine
  dsimp only
  rw [if_neg hne, hsplit]
  unfold Parser.parsePieces
  rw [if_pos hline, hmark]
  split <;> rfl

end Elements

/-! ## Top-level keys -/

/-- What stands under one top-level key or some of them: leaves and objects,
or an array of objects. -/
inductive Section
  | entries (t : Tree)
  | array (key : Bytes) (objs : List Entries)

namespace Section

/-- The lines, with arrays indented by `w` spaces. -/
def lines (w : Nat) : Section → List Bytes
  | entries t => t.lines 0
  | array key objs => arrayLines w key objs

/-- The texts are clean, and there is something to read. -/
def Valid : Section → Prop
  | entries t => t.Valid ∧ t ≠ .nil
  | array key objs => CleanText key ∧ objs ≠ [] ∧ ∀ o ∈ objs, CleanObject o

/-- `ParseYaml` reads the section. -/
def Readable : Section → Prop
  | entries t => t.Loadable 0
  | array _ objs => Even objs

end Section

/-- The lines between `p` and `q` have added to the object of the descriptor. -/
structure TopExtends (path : Bytes) (ids : List NodeId) (p q : Parser) (new : List NodeId) :
    Prop where
  standing : Standing q 0 0 []
  object : q.nodes[0]? = some ⟨path, some (.obj (ids ++ new))⟩
  others : ∀ j, j < p.nodes.length → j ≠ 0 → q.nodes[j]? = p.nodes[j]?
  length : p.nodes.length ≤ q.nodes.length

theorem TopExtends.trans {path : Bytes} {ids new new' : List NodeId} {p q r : Parser}
    (h : TopExtends path ids p q new) (h' : TopExtends path (ids ++ new) q r new') :
    TopExtends path ids p r (new ++ new') where
  standing := h'.standing
  object := by rw [h'.object, List.append_assoc]
  others j hj hne :=
    (h'.others j (Nat.lt_of_lt_of_le hj h.length) hne).trans (h.others j hj hne)
  length := Nat.le_trans h.length h'.length

section Sections

variable {path key : Bytes} {ids : List NodeId} {p : Parser} {w : Nat} {objs : List Entries}

/-- The parser behind the key of an array. -/
abbrev behindKey (path key : Bytes) (ids : List NodeId) (p : Parser) : Parser :=
  p.opened 0 0 [] ⟨path, some (.obj ids)⟩ ids key

theorem parseLine_key (hcomes : Comes p 0 0 [])
    (hdesc : p.nodes[0]? = some ⟨path, some (.obj ids)⟩) (hkey : CleanText key) :
    p.parseLine (key ++ lit ":") = some (behindKey path key ids p) :=
  parseLine_open (d := 0) hcomes hdesc rfl hkey

/-- An array, whatever its indentation. -/
theorem read_array (hcomes : Comes p 0 0 [])
    (hdesc : p.nodes[0]? = some ⟨path, some (.obj ids)⟩) (hkey : CleanText key)
    (hobjs : ∀ o ∈ objs, CleanObject o) (hw : w < 2 ^ 31) (heven : Even objs) :
    ∃ q, p.parseLines (arrayLines w key objs) = some q ∧
      InArray w key (behindKey path key ids p) objs q := by
  obtain ⟨q, hread, hq⟩ := readsElements hw (p := behindKey path key ids p) rfl
    (opened_node hdesc 0 [] ids key) hobjs heven
  refine ⟨q, ?_, hq⟩
  unfold arrayLines
  rw [parseLines_cons, parseLine_key hcomes hdesc hkey]
  exact hread

/-- What an array has left of the nodes before it. -/
theorem InArray.frame {q : Parser} (h : InArray w key (behindKey path key ids p) objs q)
    (hdesc : p.nodes[0]? = some ⟨path, some (.obj ids)⟩) :
    q.nodes[0]? = some ⟨path, some (.obj (ids ++ [p.nodes.length]))⟩ ∧
      (∀ j, j < p.nodes.length → j ≠ 0 → q.nodes[j]? = p.nodes[j]?) ∧
      p.nodes.length < q.nodes.length := by
  obtain ⟨hself, -, hothers, hlength⟩ :=
    addNode_getElem? hdesc (.obj (ids ++ [p.nodes.length])) ⟨key, none⟩
  have hpos := (List.getElem?_eq_some_iff.1 hdesc).1
  have hgrows := h.grows
  have hlen : (behindKey path key ids p).nodes.length = p.nodes.length + 1 := hlength
  have hle := hgrows.length
  refine ⟨?_, fun j hj hne => ?_, by omega⟩
  · rw [hgrows.others 0 (by omega) (Nat.ne_of_lt hpos)]
    exact hself
  · rw [hgrows.others j (by omega) (Nat.ne_of_lt hj)]
    exact hothers j hj hne

/-- Behind an array with two spaces the next top-level key may come. -/
theorem InArray.topExtends {q : Parser} (h : InArray 2 key (behindKey path key ids p) objs q)
    (hne : objs ≠ []) (hdesc : p.nodes[0]? = some ⟨path, some (.obj ids)⟩) :
    TopExtends path ids p q [p.nodes.length] := by
  obtain ⟨hself, hothers, hlength⟩ := h.frame hdesc
  refine ⟨⟨1, by decide, by decide, ?_, ?_⟩, hself, hothers, Nat.le_of_lt hlength⟩
  · rw [h.last, if_neg hne]
    decide
  · rw [h.grows.parent, h.grows.stack]
    rfl

/-- **A section** that can be read. -/
theorem read_section {s : Section} (hcomes : Comes p 0 0 [])
    (hdesc : p.nodes[0]? = some ⟨path, some (.obj ids)⟩) (hvalid : s.Valid)
    (hreadable : s.Readable) :
    ∃ q new, p.parseLines (s.lines 2) = some q ∧ TopExtends path ids p q new := by
  cases s with
  | entries t =>
      obtain ⟨new, q, hread, hext⟩ :=
        read_of_loadable hvalid.1 hreadable hvalid.2 hcomes hdesc rfl nofun
      exact ⟨q, new, hread, hext.standing, hext.object, hext.others, hext.length⟩
  | array key objs =>
      obtain ⟨q, hread, hq⟩ :=
        read_array hcomes hdesc hvalid.1 hvalid.2.2 (w := 2) (by decide) hreadable
      exact ⟨q, _, hread, hq.topExtends hvalid.2.1 hdesc⟩

/-- An array that cannot be read. -/
theorem array_fails (hcomes : Comes p 0 0 [])
    (hdesc : p.nodes[0]? = some ⟨path, some (.obj ids)⟩) (hkey : CleanText key)
    (hobjs : ∀ o ∈ objs, CleanObject o) (hw : w < 2 ^ 31) (heven : ¬ Even objs) :
    p.parseLines (arrayLines w key objs) = none := by
  obtain ⟨done, o, rest, q, n, rfl, hread, hn, hdiffer⟩ :=
    refusesElements hw (p := behindKey path key ids p) rfl (opened_node hdesc 0 [] ids key) hobjs
      heven
  unfold arrayLines
  rw [parseLines_cons, parseLine_key hcomes hdesc hkey, Option.bind_some, List.flatMap_append,
    parseLines_append, hread, Option.bind_some, List.flatMap_cons]
  unfold elementLines
  rw [List.cons_append, parseLines_cons, parseLine_of_differ (trim_dashLine w) hn hdiffer]
  rfl

theorem section_fails {s : Section} (hcomes : Comes p 0 0 [])
    (hdesc : p.nodes[0]? = some ⟨path, some (.obj ids)⟩) (hvalid : s.Valid)
    (hreadable : ¬ s.Readable) : p.parseLines (s.lines 2) = none := by
  cases s with
  | entries t => exact parse_fails hvalid.1 hreadable hcomes hdesc rfl nofun
  | array key objs =>
      exact array_fails hcomes hdesc hvalid.1 hvalid.2.2 (by decide) hreadable

/-- **Sections**, one behind the other. -/
theorem read_sections {ss : List Section} (hstanding : Standing p 0 0 [])
    (hdesc : p.nodes[0]? = some ⟨path, some (.obj ids)⟩) (hvalid : ∀ s ∈ ss, s.Valid)
    (hreadable : ∀ s ∈ ss, s.Readable) :
    ∃ q new, p.parseLines (ss.flatMap (Section.lines 2)) = some q ∧
      TopExtends path ids p q new := by
  induction ss generalizing p ids with
  | nil =>
      refine ⟨p, [], rfl, hstanding, ?_, fun _ _ _ => rfl, Nat.le_refl _⟩
      rw [List.append_nil]
      exact hdesc
  | cons s ss ih =>
      obtain ⟨q, new, hread, hq⟩ := read_section hstanding.comes hdesc
        (hvalid s List.mem_cons_self) (hreadable s List.mem_cons_self)
      obtain ⟨r, new', hread', hr⟩ := ih hq.standing hq.object
        (fun s' hs' => hvalid s' (List.mem_cons_of_mem s hs'))
        (fun s' hs' => hreadable s' (List.mem_cons_of_mem s hs'))
      refine ⟨r, new ++ new', ?_, hq.trans hr⟩
      rw [List.flatMap_cons, parseLines_append, hread]
      exact hread'

theorem sections_fail {ss : List Section} (hstanding : Standing p 0 0 [])
    (hdesc : p.nodes[0]? = some ⟨path, some (.obj ids)⟩) (hvalid : ∀ s ∈ ss, s.Valid)
    (hreadable : ¬ ∀ s ∈ ss, s.Readable) :
    p.parseLines (ss.flatMap (Section.lines 2)) = none := by
  induction ss generalizing p ids with
  | nil => exact absurd nofun hreadable
  | cons s ss ih =>
      rw [List.flatMap_cons, parseLines_append]
      by_cases hs : s.Readable
      · obtain ⟨q, new, hread, hq⟩ := read_section hstanding.comes hdesc
          (hvalid s List.mem_cons_self) hs
        rw [hread]
        apply ih hq.standing hq.object (fun s' hs' => hvalid s' (List.mem_cons_of_mem s hs'))
        intro hall
        exact hreadable (List.forall_mem_cons.2 ⟨hs, hall⟩)
      · rw [section_fails hstanding.comes hdesc (hvalid s List.mem_cons_self) hs]
        rfl

/-- There is no parent for a top-level line behind another indentation. -/
theorem parentFor_eq_none {b : NodeId} (hstack : p.stack = [b]) (hw : 0 < w) (htwo : w ≠ 2) :
    p.parentFor (Str.toInt (2 * 0) - (w : Int)) = none := by
  have hzero : Str.toInt (2 * 0) = 0 := rfl
  unfold Parser.parentFor
  rw [hzero, if_pos (by omega), hstack]
  unfold getParentNodeByIndentDiff
  split
  · rename_i heven
    obtain ⟨k, hk⟩ : ∃ k, w = 2 * (k + 2) := ⟨w / 2 - 2, by omega⟩
    have hrounds : (-(0 - (w : Int)) / 2).toNat = k + 1 + 1 := by omega
    rw [hrounds, popParents_eq, List.drop_succ_cons, List.drop_nil]
  · rfl

/-- Behind an array with another indentation no top-level key can come. -/
theorem sections_fail_of_indent {ss : List Section} {b : NodeId} (hne : ss ≠ [])
    (hvalid : ∀ s ∈ ss, s.Valid) (hstack : p.stack = [b]) (hw : 0 < w) (hlast : p.lastIndents = w)
    (htwo : w ≠ 2) : p.parseLines (ss.flatMap (Section.lines w)) = none := by
  have hparent := parentFor_eq_none hstack hw htwo
  rw [← hlast] at hparent
  have hnode : ∀ key', CleanText key' → p.parseLine (key' ++ lit ":") = none := by
    intro key' hkey
    have hline := parseLine_node (p := p) (d := 0) hkey
    rw [Parser.openNode, hparent] at hline
    refine Eq.trans hline ?_
    split <;> rfl
  obtain ⟨s, rest, rfl⟩ := List.exists_cons_of_ne_nil hne
  have hs := hvalid s List.mem_cons_self
  rw [List.flatMap_cons, parseLines_append]
  suffices hfail : p.parseLines (s.lines w) = none by
    rw [hfail]
    rfl
  cases s with
  | entries t =>
      cases t with
      | nil => exact absurd rfl hs.2
      | leaf key' data rest =>
          have hline := parseLine_leaf (p := p) (d := 0) hs.1.1 hs.1.2.1
          rw [Parser.insertLeaf, hparent] at hline
          show p.parseLines (_ :: rest.lines 0) = none
          rw [parseLines_cons, hline]
          split <;> rfl
      | node key' children rest =>
          show p.parseLines ((key' ++ lit ":") :: (children.lines 1 ++ rest.lines 0)) = none
          rw [parseLines_cons, hnode key' hs.1.1]
          rfl
  | array key' objs' =>
      show p.parseLines ((key' ++ lit ":") :: objs'.flatMap (elementLines w)) = none
      rw [parseLines_cons, hnode key' hs.1]
      rfl

end Sections

/-! ## The property -/

/-- The keys at the top. -/
def Tree.keys : Tree → List Bytes
  | .nil => []
  | .leaf key _ rest => key :: rest.keys
  | .node key _ rest => key :: rest.keys

/-- A file with an array of objects under a top-level key, with other
top-level keys around it. -/
structure ArrayFile where
  indent : Nat
  before : Tree
  key : Bytes
  objs : List Entries
  after : List Section
  indented : 0 < indent ∧ indent < 2 ^ 31
  before_valid : before.Valid
  key_clean : CleanText key
  key_new : key ∉ before.keys
  objs_ne : objs ≠ []
  objs_clean : ∀ o ∈ objs, CleanObject o
  after_valid : ∀ s ∈ after, s.Valid

namespace ArrayFile

def lines (f : ArrayFile) : List Bytes :=
  f.before.lines 0 ++ (arrayLines f.indent f.key f.objs ++ f.after.flatMap (Section.lines f.indent))

def text (f : ArrayFile) : Bytes := f.lines.flatMap (· ++ [10])

end ArrayFile

/-- `GetArray(key)->AsYmlObjects()` behind `ParseYaml`, with the nodes. -/
def loadObjects (path text key : Bytes) : Option (List Node × List (List NodeId)) :=
  match parseYaml path text with
  | none => none
  | some p =>
      match p.descriptor with
      | .error _ => none
      | .ok ids =>
          match getArray p.nodes ids key with
          | .error _ => none
          | .ok array => array.asYmlObjects.map fun got => (p.nodes, got)

/-- The objects come back, in order and with their entries in order. -/
def ReturnsWhole (path text key : Bytes) (objs : List Entries) : Prop :=
  ∃ nodes got, loadObjects path text key = some (nodes, got) ∧
    List.Forall₂ (List.Forall₂ fun id e => nodes[id]? = some ⟨e.1, some (.leaf e.2)⟩) got objs

/-- `ParseYaml` comes to a "-" at which the check of `MarkArrStart` fails. -/
def FailsLengthCheck (path text : Bytes) : Prop :=
  ∃ pre line post p n, getLines text = pre ++ line :: post ∧
    (Parser.init path).parseLines pre = some p ∧ trim (delafter line 35) = lit "-" ∧
    p.nodes[p.parent]? = some n ∧ (n.value.getD Value.newArray).LengthsDiffer

/-! ## Reading the file -/

theorem not_newline_arrayLines {w : Nat} {key : Bytes} {objs : List Entries}
    (hkey : CleanText key) (hobjs : ∀ o ∈ objs, CleanObject o) :
    ∀ line ∈ arrayLines w key objs, 10 ∉ line := by
  intro line hline
  rcases List.mem_cons.1 hline with rfl | hline
  · rw [List.mem_append, not_or]
    exact ⟨hkey.noNewline, by decide⟩
  · obtain ⟨o, ho, hline⟩ := List.mem_flatMap.1 hline
    rcases List.mem_cons.1 hline with rfl | hline
    · exact not_mem_dashLine (by decide) (by decide)
    · obtain ⟨e, he, rfl⟩ := List.mem_map.1 hline
      have hclean := (hobjs o ho).clean e he
      unfold entryLine
      simp only [List.mem_append, not_or]
      exact ⟨⟨⟨not_mem_spaces (by decide) w, hclean.1.noNewline⟩, by decide⟩, hclean.2.noNewline⟩

theorem ArrayFile.getLines_text (f : ArrayFile) : getLines f.text = f.lines := by
  apply getLines_flatMap
  intro line hline
  unfold ArrayFile.lines at hline
  rw [List.mem_append, List.mem_append] at hline
  rcases hline with hline | hline | hline
  · exact not_mem_lines f.before_valid 0 line hline
  · exact not_newline_arrayLines f.key_clean f.objs_clean line hline
  · obtain ⟨s, hs, hline⟩ := List.mem_flatMap.1 hline
    have hvalid := f.after_valid s hs
    cases s with
    | entries t => exact not_mem_lines hvalid.1 0 line hline
    | array key objs => exact not_newline_arrayLines hvalid.1 hvalid.2.2 line hline

theorem Represents.keys {lo : Nat} {nodes : List Node} {ids : List NodeId} {t : Tree}
    (h : Represents lo nodes ids t) :
    ∀ id ∈ ids, lo ≤ id ∧ ∃ n, nodes[id]? = some n ∧ n.key ∈ t.keys := by
  induction t generalizing ids with
  | nil =>
      cases ids with
      | nil => exact fun id hid => absurd hid List.not_mem_nil
      | cons id ids => exact h.elim
  | leaf key data rest ih =>
      cases ids with
      | nil => exact h.elim
      | cons id ids =>
          obtain ⟨⟨hlo, hnode⟩, hrest⟩ := h
          intro j hj
          rcases List.mem_cons.1 hj with rfl | hj
          · exact ⟨hlo, _, hnode, List.mem_cons_self⟩
          · obtain ⟨hlo', n, hn, hkey⟩ := ih hrest j hj
            exact ⟨hlo', n, hn, List.mem_cons_of_mem _ hkey⟩
  | node key children rest _ ih =>
      cases ids with
      | nil => exact h.elim
      | cons id ids =>
          obtain ⟨⟨kids, ⟨hlo, hnode⟩, -⟩, hrest⟩ := h
          intro j hj
          rcases List.mem_cons.1 hj with rfl | hj
          · exact ⟨hlo, _, hnode, List.mem_cons_self⟩
          · obtain ⟨hlo', n, hn, hkey⟩ := ih hrest j hj
            exact ⟨hlo', n, hn, List.mem_cons_of_mem _ hkey⟩

/-- The first node with the key. -/
theorem get_of_new {nodes : List Node} {key : Bytes} {ids : List NodeId} {a : NodeId}
    {value : Option Value} (hids : ∀ id ∈ ids, ∃ n, nodes[id]? = some n ∧ n.key ≠ key)
    (ha : nodes[a]? = some ⟨key, value⟩) (rest : List NodeId) :
    get nodes key (ids ++ a :: rest) = .ok value := by
  induction ids with
  | nil => simp [get, ha]
  | cons id ids ih =>
      obtain ⟨n, hn, hne⟩ := hids id List.mem_cons_self
      rw [List.cons_append, get, hn]
      simp only [if_neg hne]
      exact ih fun id' hid' => hids id' (List.mem_cons_of_mem id hid')

theorem asYmlObjects_objs (got : List (List NodeId)) (curr : Int) {len : Int} (h : len > 1) :
    (Value.arr (got.map .obj) curr len).asYmlObjects = some got := by
  unfold Value.asYmlObjects
  dsimp only
  rw [if_pos h]
  induction got with
  | nil => rfl
  | cons ids got ih =>
      rw [List.map_cons, List.mapM_cons, ih]
      rfl

namespace ArrayFile

variable {path : Bytes} {f : ArrayFile}

/-- What stands around the array can be read, and the array itself. -/
def Parses (f : ArrayFile) : Prop :=
  f.before.Loadable 0 ∧ Even f.objs ∧
    (f.after = [] ∨ f.indent = 2 ∧ ∀ s ∈ f.after, s.Readable)

/-- The top-level keys before the array. -/
theorem read_before (path : Bytes) (hload : f.before.Loadable 0) :
    ∃ p ids, (Parser.init path).parseLines (f.before.lines 0) = some p ∧ Comes p 0 0 [] ∧
      p.nodes[0]? = some ⟨path, some (.obj ids)⟩ ∧ Represents 1 p.nodes ids f.before := by
  have hdesc : (Parser.init path).nodes[0]? = some ⟨path, some (.obj [])⟩ := rfl
  cases hbefore : f.before with
  | nil => exact ⟨Parser.init path, [], rfl, comes_init path, hdesc, trivial⟩
  | leaf key data rest =>
      rw [← hbefore]
      obtain ⟨new, q, hread, hext⟩ := read_of_loadable f.before_valid hload
        (by rw [hbefore]; nofun) (comes_init path) hdesc rfl nofun
      exact ⟨q, new, hread, hext.standing.comes, hext.object, hext.represents⟩
  | node key children rest =>
      rw [← hbefore]
      obtain ⟨new, q, hread, hext⟩ := read_of_loadable f.before_valid hload
        (by rw [hbefore]; nofun) (comes_init path) hdesc rfl nofun
      exact ⟨q, new, hread, hext.standing.comes, hext.object, hext.represents⟩

theorem before_fails (path : Bytes) (hload : ¬ f.before.Loadable 0) :
    (Parser.init path).parseLines (f.before.lines 0) = none :=
  parse_fails f.before_valid hload (comes_init path) rfl rfl nofun

/-- **The file**, behind its last line. -/
theorem read (path : Bytes) (h : f.Parses) :
    ∃ r ids a new value got, parseYaml path f.text = some r ∧
      r.nodes[0]? = some ⟨path, some (.obj (ids ++ a :: new))⟩ ∧
      (∀ id ∈ ids, ∃ n, r.nodes[id]? = some n ∧ n.key ≠ f.key) ∧
      r.nodes[a]? = some ⟨f.key, value⟩ ∧
      value.getD Value.newArray = .arr (got.map .obj) (currOf f.objs) (lenOf f.objs) ∧
      List.Forall₂ (Holds a r.nodes) got f.objs := by
  obtain ⟨hload, heven, hafter⟩ := h
  obtain ⟨p, ids, hreadp, hcomes, hdesc, hrep⟩ := read_before path hload
  obtain ⟨q, hreadq, hq⟩ :=
    read_array hcomes hdesc f.key_clean f.objs_clean f.indented.2 heven
  obtain ⟨hself, hothers, hlength⟩ := hq.frame hdesc
  obtain ⟨value, got, hnode, hvalue, hholds⟩ := hq.array
  -- what follows changes the descriptor at most
  have hrest : ∃ r new, q.parseLines (f.after.flatMap (Section.lines f.indent)) = some r ∧
      r.nodes[0]? = some ⟨path, some (.obj (ids ++ p.nodes.length :: new))⟩ ∧
      ∀ j, j < q.nodes.length → j ≠ 0 → r.nodes[j]? = q.nodes[j]? := by
    rcases hafter with hnil | ⟨htwo, hreadable⟩
    · refine ⟨q, [], ?_, hself, fun _ _ _ => rfl⟩
      rw [hnil]
      rfl
    · rw [htwo] at hq ⊢
      have htop := hq.topExtends f.objs_ne hdesc
      obtain ⟨r, new, hread, hr⟩ :=
        read_sections htop.standing htop.object f.after_valid hreadable
      refine ⟨r, new, hread, ?_, hr.others⟩
      rw [hr.object, List.append_assoc]
      rfl
  obtain ⟨r, new, hreadr, hobject, hsame⟩ := hrest
  have hpos : 0 < p.nodes.length := (List.getElem?_eq_some_iff.1 hdesc).1
  refine ⟨r, ids, p.nodes.length, new, value, got, ?_, hobject, ?_, ?_, hvalue, ?_⟩
  · unfold parseYaml
    rw [f.getLines_text, ArrayFile.lines, parseLines_append, hreadp, Option.bind_some,
      parseLines_append, hreadq]
    exact hreadr
  · intro id hid
    obtain ⟨hlo, n, hn, hkey⟩ := hrep.keys id hid
    have hlt := (List.getElem?_eq_some_iff.1 hn).1
    refine ⟨n, ?_, fun heq => f.key_new (heq ▸ hkey)⟩
    rw [hsame id (by omega) (Nat.ne_of_gt hlo), hothers id hlt (Nat.ne_of_gt hlo)]
    exact hn
  · rw [hsame _ hlength (Nat.ne_of_gt hpos)]
    exact hnode
  · apply hholds.imp
    intro ids' o hold
    apply hold.frame
    intro j hj hlo
    exact hsame j hj (Nat.ne_of_gt (Nat.lt_of_le_of_lt (Nat.zero_le _) hlo))

/-- Any other file is refused. -/
theorem fails (path : Bytes) (h : ¬ f.Parses) : parseYaml path f.text = none := by
  unfold parseYaml
  rw [f.getLines_text, ArrayFile.lines, parseLines_append]
  by_cases hload : f.before.Loadable 0
  · obtain ⟨p, ids, hreadp, hcomes, hdesc, -⟩ := read_before path hload
    rw [hreadp, Option.bind_some, parseLines_append]
    by_cases heven : Even f.objs
    · obtain ⟨q, hreadq, hq⟩ :=
        read_array hcomes hdesc f.key_clean f.objs_clean f.indented.2 heven
      have hne : f.after ≠ [] := fun hnil => h ⟨hload, heven, Or.inl hnil⟩
      rw [hreadq, Option.bind_some]
      by_cases htwo : f.indent = 2
      · have hreadable : ¬ ∀ s ∈ f.after, s.Readable :=
          fun hall => h ⟨hload, heven, Or.inr ⟨htwo, hall⟩⟩
        rw [htwo] at hq ⊢
        have htop := hq.topExtends f.objs_ne hdesc
        exact sections_fail htop.standing htop.object f.after_valid hreadable
      · have hlast := hq.last
        rw [if_neg f.objs_ne, toInt_of_lt f.indented.2] at hlast
        exact sections_fail_of_indent hne f.after_valid hq.grows.stack f.indented.1 hlast htwo
    · rw [array_fails hcomes hdesc f.key_clean f.objs_clean f.indented.2 heven]
      rfl
  · rw [before_fails path hload]
    rfl

/-! ## Main theorem -/

/-- The look-ups behind the last line. -/
theorem loadObjects_text (path : Bytes) (h : f.Parses) :
    ∃ nodes got, loadObjects path f.text f.key =
        (Value.arr (got.map .obj) (currOf f.objs) (lenOf f.objs)).asYmlObjects.map
          (fun got => (nodes, got)) ∧
      List.Forall₂ (List.Forall₂ fun id e => nodes[id]? = some ⟨e.1, some (.leaf e.2)⟩) got
        f.objs := by
  obtain ⟨r, ids, a, new, value, got, hparse, hobject, hids, hnode, hvalue, hholds⟩ := read path h
  -- a node without a value would not have counted any object
  obtain ⟨v, rfl⟩ : ∃ v, value = some v := by
    cases value with
    | some v => exact ⟨v, rfl⟩
    | none =>
        have hcurr := (Value.arr.inj hvalue).2.1
        rw [← List.dropLast_append_getLast f.objs_ne, currOf_append] at hcurr
        omega
  rw [Option.getD_some] at hvalue
  subst hvalue
  refine ⟨r.nodes, got, ?_, hholds.imp fun ids' o hold => hold.imp fun id e h => h.2⟩
  have hdesc : r.descriptor = .ok (ids ++ a :: new) := by
    unfold Parser.descriptor
    rw [hobject]
    rfl
  have harray : getArray r.nodes (ids ++ a :: new) f.key =
      .ok (.arr (got.map .obj) (currOf f.objs) (lenOf f.objs)) := by
    unfold getArray
    rw [get_of_new hids hnode]
    rfl
  unfold loadObjects
  simp only [hparse, hdesc, harray]

/-- Without a second object the common length is not known. -/
theorem one_lt_lenOf {m : Nat} (hm : 2 ≤ m) (hlen : ∀ o ∈ f.objs, o.length = m) :
    lenOf f.objs > 1 ↔ 2 ≤ f.objs.length := by
  match hobjs : f.objs with
  | [] => exact absurd hobjs f.objs_ne
  | [o] =>
      have hlenOf : lenOf [o] = -1 := rfl
      simp [hlenOf]
  | o :: o' :: rest =>
      have ho := hlen o (by rw [hobjs]; exact List.mem_cons_self)
      have hlenOf : lenOf (o :: o' :: rest) = o.length := rfl
      apply iff_of_true
      · omega
      · simp

/-- **Arrays of objects come back whole** exactly when there are two objects
at least, the keys before the array can be read, and nothing follows or the
indentation is of two spaces and what follows can be read. -/
theorem returnsWhole_iff (path : Bytes) (f : ArrayFile) (m : Nat) (hm : 2 ≤ m)
    (hlen : ∀ o ∈ f.objs, o.length = m) :
    ReturnsWhole path f.text f.key f.objs ↔
      2 ≤ f.objs.length ∧ f.before.Loadable 0 ∧
        (f.after = [] ∨ f.indent = 2 ∧ ∀ s ∈ f.after, s.Readable) := by
  have heven : Even f.objs :=
    even_of_sameLength fun o ho o' ho' => (hlen o ho).trans (hlen o' ho').symm
  constructor
  · rintro ⟨nodes, got, hload, -⟩
    have hparses : f.Parses := by
      by_contra hfail
      rw [loadObjects, fails path hfail] at hload
      cases hload
    obtain ⟨nodes', got', hload', -⟩ := loadObjects_text path hparses
    refine ⟨?_, hparses.1, hparses.2.2⟩
    by_contra hone
    rw [Value.asYmlObjects, if_neg (fun h => hone ((one_lt_lenOf hm hlen).1 h)), hload] at hload'
    cases hload'
  · rintro ⟨htwo, hbefore, hafter⟩
    obtain ⟨nodes, got, hload, hholds⟩ := loadObjects_text path ⟨hbefore, heven, hafter⟩
    refine ⟨nodes, got, ?_, hholds⟩
    rw [hload, asYmlObjects_objs got _ ((one_lt_lenOf hm hlen).2 htwo)]
    rfl

/-! ### Two files -/

/-- An object of a file with web servers. -/
def oneServer : Entries := [(lit "ip", lit "127.0.0.1"), (lit "port", lit "5002")]

/-- Two objects with two spaces of indentation, and a key behind them. -/
def twoObjects : ArrayFile where
  indent := 2
  before := .leaf (lit "port") (lit "80") .nil
  key := lit "webservers"
  objs := [oneServer, oneServer]
  after := [.entries (.leaf (lit "rule") (lit "poll") .nil)]
  indented := by decide
  before_valid := ⟨by decide +kernel, by decide +kernel, trivial⟩
  key_clean := by decide +kernel
  key_new := by decide +kernel
  objs_ne := by decide
  objs_clean := by
    intro o ho
    have hsame : o = oneServer := by simpa using ho
    subst hsame
    exact ⟨by decide, by decide +kernel⟩
  after_valid := by
    intro s hs
    rw [List.mem_singleton.1 hs]
    exact ⟨⟨by decide +kernel, by decide +kernel, trivial⟩, nofun⟩

theorem returnsWhole_twoObjects :
    ReturnsWhole (lit "conf.yml") twoObjects.text twoObjects.key twoObjects.objs := by
  apply (returnsWhole_iff (lit "conf.yml") twoObjects 2 (by decide) (by decide +kernel)).2
  refine ⟨by decide, ⟨by decide, trivial⟩, Or.inr ⟨rfl, ?_⟩⟩
  intro s hs
  rw [List.mem_singleton.1 hs]
  exact ⟨by decide, trivial⟩

/-- A single object. -/
def oneObject : ArrayFile :=
  { twoObjects with
    objs := [oneServer]
    objs_ne := by decide
    objs_clean := fun o ho => twoObjects.objs_clean o (by simpa [twoObjects] using ho) }

theorem not_returnsWhole_oneObject :
    (∀ o ∈ oneObject.objs, o.length = 2) ∧
      ¬ ReturnsWhole (lit "conf.yml") oneObject.text oneObject.key oneObject.objs := by
  refine ⟨by decide +kernel, ?_⟩
  rintro ⟨nodes, got, hload, -⟩
  have hnone : (loadObjects (lit "conf.yml") oneObject.text oneObject.key).isNone = true := by
    decide +kernel
  rw [hload] at hnone
  cases hnone

/-! ## Where the check fails -/

end ArrayFile

/-- A line in front of which only lines without the property stand. -/
theorem split_of_forall_not {α : Type} {P : α → Prop} {front back pre post : List α} {x : α}
    (hfront : ∀ y ∈ front, ¬ P y) (hx : P x) (h : front ++ back = pre ++ x :: post) :
    ∃ mid, pre = front ++ mid ∧ back = mid ++ x :: post := by
  induction front generalizing pre with
  | nil => exact ⟨pre, rfl, h⟩
  | cons y front ih =>
      cases pre with
      | nil =>
          cases h
          exact absurd hx (hfront x List.mem_cons_self)
      | cons z pre =>
          obtain ⟨rfl, htail⟩ := List.cons.inj h
          obtain ⟨mid, rfl, hback⟩ := ih (fun u hu => hfront u (List.mem_cons_of_mem y hu)) htail
          exact ⟨mid, rfl, hback⟩

/-- A line with a colon is no "-". -/
theorem not_dash_of_colon {line : Bytes} (hhash : 35 ∉ line) (hcolon : 58 ∈ line) :
    ¬ trim (delafter line 35) = lit "-" := by
  rw [delafter_of_not_mem hhash]
  exact fun h => not_mem_of_dash h hcolon

theorem not_dash_tree {t : Tree} (hvalid : t.Valid) (d : Nat) :
    ∀ line ∈ t.lines d, ¬ trim (delafter line 35) = lit "-" := by
  induction t generalizing d with
  | nil => exact fun line hline => absurd hline List.not_mem_nil
  | leaf key data rest ih =>
      intro line hline
      rcases List.mem_cons.1 hline with rfl | hline
      · apply not_dash_of_colon
        · simp only [List.mem_append, not_or]
          exact ⟨⟨⟨not_mem_indent (by decide) d, hvalid.1.noHash⟩, by decide⟩, hvalid.2.1.noHash⟩
        · exact List.mem_append_left _ (List.mem_append_right _ (by decide))
      · exact ih hvalid.2.2 d line hline
  | node key children rest ihc ih =>
      intro line hline
      rcases List.mem_cons.1 hline with rfl | hline
      · apply not_dash_of_colon
        · simp only [List.mem_append, not_or]
          exact ⟨⟨not_mem_indent (by decide) d, hvalid.1.noHash⟩, by decide⟩
        · exact List.mem_append_right _ (by decide)
      · rcases List.mem_append.1 hline with hline | hline
        · exact ihc hvalid.2.2.1 (d + 1) line hline
        · exact ih hvalid.2.2.2 d line hline

theorem not_dash_entry {w : Nat} {e : Bytes × Bytes} (he : CleanText e.1 ∧ CleanText e.2) :
    ¬ trim (delafter (entryLine w e) 35) = lit "-" := by
  unfold entryLine
  apply not_dash_of_colon
  · simp only [List.mem_append, not_or]
    exact ⟨⟨⟨not_mem_spaces (by decide) w, he.1.noHash⟩, by decide⟩, he.2.noHash⟩
  · exact List.mem_append_left _ (List.mem_append_right _ (by decide))

/-- The lines "-" of an array. -/
theorem split_elements {w : Nat} {objs : List Entries} {back pre post : List Bytes} {line : Bytes}
    (hobjs : ∀ o ∈ objs, CleanObject o)
    (hback : ∀ l ∈ back, ¬ trim (delafter l 35) = lit "-")
    (hline : trim (delafter line 35) = lit "-")
    (h : objs.flatMap (elementLines w) ++ back = pre ++ line :: post) :
    ∃ done o rest, objs = done ++ o :: rest ∧ pre = done.flatMap (elementLines w) := by
  induction objs generalizing pre with
  | nil =>
      have hmem : line ∈ back := by
        rw [List.flatMap_nil, List.nil_append] at h
        rw [h]
        exact List.mem_append_right _ List.mem_cons_self
      exact absurd hline (hback line hmem)
  | cons o objs ih =>
      cases pre with
      | nil => exact ⟨[], o, objs, rfl, rfl⟩
      | cons l pre =>
          rw [List.flatMap_cons, elementLines, List.cons_append, List.cons_append,
            List.append_assoc] at h
          obtain ⟨rfl, htail⟩ := List.cons.inj h
          have ho := hobjs o List.mem_cons_self
          obtain ⟨mid, rfl, hmid⟩ := split_of_forall_not
            (P := fun l => trim (delafter l 35) = lit "-")
            (fun l hl => by
              obtain ⟨e, he, rfl⟩ := List.mem_map.1 hl
              exact not_dash_entry (ho.clean e he)) hline htail
          obtain ⟨done, o', rest, rfl, rfl⟩ :=
            ih (fun o' ho' => hobjs o' (List.mem_cons_of_mem o ho')) hmid
          exact ⟨o :: done, o', rest, rfl, rfl⟩

/-- A check that fails ends `ParseYaml`. -/
theorem parse_of_failsLengthCheck {path text : Bytes} (h : FailsLengthCheck path text) :
    parseYaml path text = none := by
  obtain ⟨pre, line, post, p, n, hlines, hread, hline, hn, hdiffer⟩ := h
  unfold parseYaml
  rw [hlines, parseLines_append, hread, Option.bind_some, parseLines_cons,
    parseLine_of_differ hline hn hdiffer]
  rfl

namespace ArrayFile

/-- **The check of the lengths fails** exactly when two objects before the
last one have different lengths, and the keys before the array can be
read. -/
theorem failsLengthCheck_iff (path : Bytes) (f : ArrayFile)
    (hafter : ∀ s ∈ f.after, ∃ t, s = .entries t) :
    FailsLengthCheck path f.text ↔ f.before.Loadable 0 ∧ ¬ Even f.objs := by
  constructor
  · rintro ⟨pre, line, post, p, n, hlines, hread, hline, hn, hdiffer⟩
    rw [f.getLines_text, ArrayFile.lines] at hlines
    obtain ⟨mid, rfl, hmid⟩ := split_of_forall_not
      (P := fun l => trim (delafter l 35) = lit "-") (not_dash_tree f.before_valid 0) hline hlines
    rw [parseLines_append] at hread
    have hload : f.before.Loadable 0 := by
      by_contra hload
      rw [before_fails path hload] at hread
      cases hread
    refine ⟨hload, fun heven => ?_⟩
    obtain ⟨p0, ids, hread0, hcomes, hdesc, -⟩ := read_before path hload
    rw [hread0, Option.bind_some] at hread
    -- the line is the "-" behind some of the objects
    have hkeyline : ∀ l ∈ [f.key ++ lit ":"], ¬ trim (delafter l 35) = lit "-" := by
      intro l hl
      rw [List.mem_singleton.1 hl]
      apply not_dash_of_colon
      · rw [List.mem_append, not_or]
        exact ⟨f.key_clean.noHash, by decide⟩
      · exact List.mem_append_right _ (by decide)
    have hback : ∀ l ∈ f.after.flatMap (Section.lines f.indent),
        ¬ trim (delafter l 35) = lit "-" := by
      intro l hl
      obtain ⟨s, hs, hl⟩ := List.mem_flatMap.1 hl
      obtain ⟨t, rfl⟩ := hafter s hs
      exact not_dash_tree (f.after_valid _ hs).1 0 l hl
    replace hmid : [f.key ++ lit ":"] ++ (f.objs.flatMap (elementLines f.indent) ++
        f.after.flatMap (Section.lines f.indent)) = mid ++ line :: post := hmid
    obtain ⟨mid', rfl, hmid'⟩ := split_of_forall_not
      (P := fun l => trim (delafter l 35) = lit "-") hkeyline hline hmid
    obtain ⟨done, o, rest, hobjs, rfl⟩ := split_elements f.objs_clean hback hline hmid'
    have hsame : SameLength done := by
      intro x hx y hy
      apply heven
      · rw [hobjs, List.dropLast_append_of_ne_nil (List.cons_ne_nil o rest)]
        exact List.mem_append_left _ hx
      · rw [hobjs, List.dropLast_append_of_ne_nil (List.cons_ne_nil o rest)]
        exact List.mem_append_left _ hy
    have hclean : ∀ x ∈ done, CleanObject x := by
      intro x hx
      apply f.objs_clean
      rw [hobjs]
      exact List.mem_append_left _ hx
    obtain ⟨q, hreadq, hq⟩ := read_array hcomes hdesc f.key_clean hclean f.indented.2
      (even_of_sameLength hsame)
    replace hread : p0.parseLines (arrayLines f.indent f.key done) = some p := hread
    rw [hread] at hreadq
    cases hreadq
    obtain ⟨value, got, hnode, hvalue, -⟩ := hq.array
    rw [hq.grows.parent, hnode] at hn
    cases hn
    -- the check does not fail there
    have hmark := markArrStart_of_same hsame (fun x hx => (hclean x hx).nonempty)
      (got.map .obj) o
    rw [← hvalue, Value.markArrStart_of_differ hdiffer] at hmark
    cases hmark
  · rintro ⟨hload, heven⟩
    obtain ⟨p, ids, hreadp, hcomes, hdesc, -⟩ := read_before path hload
    obtain ⟨done, o, rest, q, n, hobjs, hread, hn, hdiffer⟩ :=
      refusesElements f.indented.2 (p := behindKey path f.key ids p) rfl
        (opened_node hdesc 0 [] ids f.key) f.objs_clean heven
    refine ⟨f.before.lines 0 ++ (f.key ++ lit ":") :: done.flatMap (elementLines f.indent),
      dashLine f.indent, o.map (entryLine f.indent) ++ rest.flatMap (elementLines f.indent) ++
        f.after.flatMap (Section.lines f.indent), q, n, ?_, ?_, trim_dashLine _, hn, hdiffer⟩
    · rw [f.getLines_text, ArrayFile.lines, arrayLines, hobjs, List.flatMap_append,
        List.flatMap_cons, elementLines]
      simp only [List.append_assoc, List.cons_append]
    · rw [parseLines_append, hreadp, Option.bind_some, parseLines_cons,
        parseLine_key hcomes hdesc f.key_clean]
      exact hread

/-! ### Three objects, and two -/

/-- An object with one entry more. -/
def weightedServer : Entries := oneServer ++ [(lit "weight", lit "1")]

theorem weightedServer_clean : CleanObject weightedServer := ⟨by decide, by decide +kernel⟩

/-- The second one of three objects is longer. -/
def raggedInside : ArrayFile :=
  { twoObjects with
    objs := [oneServer, weightedServer, oneServer]
    objs_ne := by decide
    objs_clean := by
      intro o ho
      simp only [List.mem_cons, List.not_mem_nil, or_false] at ho
      rcases ho with rfl | rfl | rfl
      · exact twoObjects.objs_clean _ List.mem_cons_self
      · exact weightedServer_clean
      · exact twoObjects.objs_clean _ List.mem_cons_self }

theorem failsLengthCheck_raggedInside :
    FailsLengthCheck (lit "conf.yml") raggedInside.text := by
  apply (failsLengthCheck_iff (lit "conf.yml") raggedInside ?_).2
  · refine ⟨⟨by decide, trivial⟩, fun heven => ?_⟩
    exact absurd (heven oneServer List.mem_cons_self weightedServer
      (List.mem_cons_of_mem _ List.mem_cons_self)) (by decide)
  · intro s hs
    exact ⟨_, List.mem_singleton.1 hs⟩

/-- The last one of two objects is longer. -/
def raggedAtEnd : ArrayFile :=
  { twoObjects with
    objs := [oneServer, weightedServer]
    objs_ne := by decide
    objs_clean := by
      intro o ho
      simp only [List.mem_cons, List.not_mem_nil, or_false] at ho
      rcases ho with rfl | rfl
      · exact twoObjects.objs_clean _ List.mem_cons_self
      · exact weightedServer_clean }

theorem not_failsLengthCheck_raggedAtEnd :
    ¬ FailsLengthCheck (lit "conf.yml") raggedAtEnd.text ∧
      ∃ r ∈ loadObjects (lit "conf.yml") raggedAtEnd.text raggedAtEnd.key,
        r.2.map List.length = [2, 3] := by
  constructor
  · intro hfails
    have hsome : (parseYaml (lit "conf.yml") raggedAtEnd.text).isSome = true := by decide +kernel
    rw [parse_of_failsLengthCheck hfails] at hsome
    cases hsome
  · decide +kernel

end ArrayFile

end Unixtar.Yaml
