import Unixtar.Utils.StrUtil

/-!
# Configuration files: `utils/yamlutil.cc`

`ParseYaml` on the text of a file.  A `Node *` is the place of the node in
`nodes`, which lists the nodes in the order of their allocation; the
descriptor is the first one.  A node's value is allocated when it is needed,
so that a null pointer is a value that is not there.

`none` means that an assertion fails, that a null pointer is followed, or that
the difference of two `int`s overflows.
-/

namespace Unixtar.Yaml

abbrev NodeId := Nat

/-- An element of a `ValueArray`. -/
inductive Element
  | leaf (data : Bytes)
  | obj (nodes : List NodeId)
deriving DecidableEq

/-- `AbsValue`. -/
inductive Value
  | leaf (data : Bytes)
  | obj (nodes : List NodeId)
  | arr (elems : List Element) (curr lenOfObjInArr : Int)
deriving DecidableEq

/-- `Node`. -/
structure Node where
  key : Bytes
  value : Option Value
deriving DecidableEq

/-- The variables of `ParseYaml`. -/
structure Parser where
  nodes : List Node
  stack : List NodeId
  parent : NodeId
  lastIndents : Int
deriving DecidableEq

/-! ## Texts -/

/-- `getline` until the end of the file. -/
def getLines : Bytes → List Bytes
  | [] => []
  | c :: cs =>
      if c = 10 then [] :: getLines cs
      else
        match getLines cs with
        | [] => [[c]]
        | line :: lines => (c :: line) :: lines

/-- `str::delafter`. -/
def delafter (s : Bytes) (whence : UInt8) : Bytes := s.takeWhile (· ≠ whence)

/-- `str::trim`. -/
def trim (s : Bytes) : Bytes :=
  ((s.dropWhile (· = 32)).reverse.dropWhile (· = 32)).reverse

/-- `(int) line.find_first_not_of(' ')`. -/
def indentsOf (line : Bytes) : Int :=
  match line.findIdx? (· ≠ 32) with
  | some i => Str.toInt i
  | none => Str.toInt (2 ^ 64 - 1)

/-! ## Values -/

namespace Value

/-- `Insert`: a leaf takes no node, and an array puts it into its last
object.  The `int` counter of an array is not bounded here; an object with more
than `2^31 - 1` entries would overflow it. -/
def insert (node : NodeId) : Value → Option Value
  | .leaf _ => none
  | .obj nodes => some (.obj (nodes ++ [node]))
  | .arr elems curr len =>
      if curr = 0 then some (.arr (elems ++ [.obj [node]]) (curr + 1) len)
      else
        match elems.getLast? with
        | some (.obj nodes) =>
            some (.arr (elems.dropLast ++ [.obj (nodes ++ [node])]) (curr + 1) len)
        | _ => none

/-- `ValueArray::InsertValueLeaf`. -/
def insertValueLeaf (data : Bytes) : Value → Option Value
  | .arr elems curr len => if curr = 0 then some (.arr (elems ++ [.leaf data]) curr len) else none
  | _ => none

/-- `ValueArray::MarkArrStart`. -/
def markArrStart : Value → Option Value
  | .arr elems curr len =>
      if len = -1 ∧ curr > 0 then some (.arr elems 0 curr)
      else if len ≠ curr then none
      else some (.arr elems 0 len)
  | _ => none

/-- `new ValueArray()`. -/
def newArray : Value := .arr [] (-1) (-1)

end Value

/-! ## `ParseYaml` -/

/-- The loop of `GetParentNodeByIndentDiff`, with the number of its rounds. -/
def popParents : Nat → List NodeId → Option (NodeId × List NodeId)
  | 0, _ => none
  | _ + 1, [] => none
  | 1, parent :: rest => some (parent, rest)
  | n + 2, _ :: rest => popParents (n + 1) rest

/-- `GetParentNodeByIndentDiff`. -/
def getParentNodeByIndentDiff (stack : List NodeId) (indentDiff : Int) :
    Option (NodeId × List NodeId) :=
  if indentDiff < 0 ∧ indentDiff % 2 = 0 then popParents (-indentDiff / 2).toNat stack else none

namespace Parser

/-- The descriptor, and no line read. -/
def init (path : Bytes) : Parser :=
  { nodes := [⟨path, some (.obj [])⟩], stack := [], parent := 0, lastIndents := 0 }

/-- `parent` and the stack, for a line with this indentation. -/
def parentFor (indentDiff : Int) (p : Parser) : Option (NodeId × List NodeId) :=
  if indentDiff < 0 then getParentNodeByIndentDiff p.stack indentDiff
  else some (p.parent, p.stack)

/-- The new node below `parent`, whose value becomes `value`. -/
def addNode (parent : NodeId) (n : Node) (value : Value) (node : Node) (p : Parser) : List Node :=
  p.nodes.set parent { n with value := some value } ++ [node]

/-- A line "key: data". -/
def insertLeaf (key data : Bytes) (indentDiff : Int) (p : Parser) : Option Parser :=
  match p.parentFor indentDiff with
  | none => none
  | some (parent, stack) =>
      match p.nodes[parent]? with
      | none => none
      | some n =>
          ((n.value.getD (.obj [])).insert p.nodes.length).map fun value =>
            { p with nodes := p.addNode parent n value ⟨trim key, some (.leaf (trim data))⟩,
                     parent, stack }

/-- A line "key:". -/
def openNode (key : Bytes) (indentDiff : Int) (p : Parser) : Option Parser :=
  match p.parentFor indentDiff with
  | none => none
  | some (parent, stack) =>
      match p.nodes[parent]? with
      | some n =>
          match n.value with
          | none => none
          | some value =>
              if indentDiff > 0 ∧ indentDiff ≠ 2 then none
              else
                (value.insert p.nodes.length).map fun value =>
                  { p with nodes := p.addNode parent n value ⟨trim key, none⟩,
                           stack := parent :: stack, parent := p.nodes.length }
      | none => none

/-- A change of the value of `parent`. -/
def setValue (f : Option Value → Option Value) (p : Parser) : Option Parser :=
  match p.nodes[p.parent]? with
  | none => none
  | some n =>
      (f n.value).map fun value =>
        { p with nodes := p.nodes.set p.parent { n with value := some value } }

/-- A line without a colon, as an element of an array. -/
def insertValueLeaf (data : Bytes) (p : Parser) : Option Parser :=
  p.setValue fun value => value.bind (·.insertValueLeaf (trim data))

/-- A line "-". -/
def markArrStart (p : Parser) : Option Parser :=
  p.setValue fun value => (value.getD Value.newArray).markArrStart

/-- The branches for what `split` makes of the line. -/
def parsePieces (line : Bytes) (indentDiff : Int) (p : Parser) : List Bytes → Option Parser
  | [key, data] => p.insertLeaf key data indentDiff
  | [key] => if 58 ∈ line then p.openNode key indentDiff else p.insertValueLeaf key
  | _ => if trim line = lit "-" then p.markArrStart else none

/-- One round of the loop. -/
def parseLine (p : Parser) (line : Bytes) : Option Parser :=
  let line := delafter line 35
  if line = [] then some p
  else
    let indents := indentsOf line
    let indentDiff := indents - p.lastIndents
    if indentDiff < -2 ^ 31 ∨ 2 ^ 31 ≤ indentDiff then none
    else
      (p.parsePieces line indentDiff (Str.split line (lit ":"))).map fun p =>
        { p with lastIndents := indents }

/-- The loop. -/
def parseLines (p : Parser) (lines : List Bytes) : Option Parser := lines.foldlM parseLine p

end Parser

/-- `ParseYaml` on the text of the file. -/
def parseYaml (path text : Bytes) : Option Parser := (Parser.init path).parseLines (getLines text)

/-! ## Looking up -/

/-- How a look-up ends that finds nothing: an exception with its key, or a
null pointer that is followed, or a failed assertion. -/
inductive LookupError
  | noSuchField (key : Bytes)
  | notAnYamlObject (key : Bytes)
  | notAnYamlArray (key : Bytes)
  | notAnYamlLeaf (key : Bytes)
  | crashed
deriving DecidableEq

/-- `ValueObj::__Get`: the first node with this key. -/
def get (nodes : List Node) (key : Bytes) : List NodeId → Except LookupError (Option Value)
  | [] => .error (.noSuchField key)
  | id :: ids =>
      match nodes[id]? with
      | none => .error .crashed
      | some node => if node.key = key then .ok node.value else get nodes key ids

/-- `GetLeaf`. -/
def getLeaf (nodes : List Node) (ids : List NodeId) (key : Bytes) : Except LookupError Bytes := do
  match ← get nodes key ids with
  | none => .error .crashed
  | some (.leaf data) => .ok data
  | some _ => .error (.notAnYamlLeaf key)

/-- `GetYmlObj`. -/
def getYmlObj (nodes : List Node) (ids : List NodeId) (key : Bytes) :
    Except LookupError (List NodeId) := do
  match ← get nodes key ids with
  | none => .error .crashed
  | some (.obj ids) => .ok ids
  | some _ => .error (.notAnYamlObject key)

/-- `GetArray`. -/
def getArray (nodes : List Node) (ids : List NodeId) (key : Bytes) : Except LookupError Value := do
  match ← get nodes key ids with
  | none => .error .crashed
  | some (.arr elems curr len) => .ok (.arr elems curr len)
  | some _ => .error (.notAnYamlArray key)

/-- `ValueArray::AsYmlObjects`; a leaf is no object. -/
def Value.asYmlObjects : Value → Option (List (List NodeId))
  | .arr elems _ len =>
      if len > 1 then
        elems.mapM fun
          | .obj ids => some ids
          | .leaf _ => none
      else none
  | _ => none

/-- The object of the descriptor. -/
def Parser.descriptor (p : Parser) : Except LookupError (List NodeId) :=
  match p.nodes[0]?.bind Node.value with
  | some (.obj ids) => .ok ids
  | _ => .error .crashed

/-- `YamlDescriptor::GetLeaf`. -/
def Parser.getLeaf (p : Parser) (key : Bytes) : Except LookupError Bytes := do
  Yaml.getLeaf p.nodes (← p.descriptor) key

/-- `YamlDescriptor::GetYmlObj`. -/
def Parser.getYmlObj (p : Parser) (key : Bytes) : Except LookupError (List NodeId) := do
  Yaml.getYmlObj p.nodes (← p.descriptor) key

/-! ## `ValueLeaf::To` -/

/-- `To(bool &)`. -/
def ValueLeaf.toBool (data : Bytes) : Bool := data = lit "true"

/-- `To(int &)`: the low 32 bits of what `strtol` reads. -/
def ValueLeaf.toInt (data : Bytes) : Int := (Str.strtol data).bmod (2 ^ 32)

/-- `To(uint16_t &)`. -/
def ValueLeaf.toUint16 (data : Bytes) : Nat := (Str.strtol data % 2 ^ 16).toNat

end Unixtar.Yaml
