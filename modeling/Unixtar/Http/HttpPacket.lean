import Unixtar.Http.HeaderField
import Unixtar.Http.FirstLine
import Unixtar.NetworkModel.ApplicationLayer

/-!
# The HTTP parser: `http/httppacket.cc`

`HttpParser` is the base class of the request and the response parser.  A
value of `HttpParser L` is the parser together with the one packet it fills;
`L` is the type of the packet's first line.  The buffer is an argument: the
first `Length()` bytes of `tcp_byte_arr_`.  `body` is what `Body()` showed
when `SetBody` stored the pointer.

The virtual functions are a record `Resolvers`, so that `DoParse` is written
once, as in the source.
-/

namespace Unixtar.Http

/-- `HttpParser::TPosition`. -/
inductive TPosition
  | kNone
  | kFirstLine
  | kHeaders
  | kBody
  | kEnd
  | kError
deriving DecidableEq, Repr

/-- The parser and its packet. -/
structure HttpParser (L : Type) where
  position : TPosition
  firstLine : L
  headers : HeaderField
  body : Bytes
  firstLineLen : Nat
  headerLen : Nat
  resolvedLen : Nat
  /-- `is_upgrade_to_ws_` of the request parser. -/
  isUpgradeToWs : Bool
deriving DecidableEq

/-- How a `_Resolve…` function ends. -/
inductive Resolved
  | success
  | failure
  | thrown
deriving DecidableEq, Repr

/-- The virtual functions `_ResolveFirstLine`, `_ResolveHeaders` and
`_ResolveBody`. -/
structure Resolvers (L : Type) where
  firstLine : Bytes → HttpParser L → HttpParser L × Resolved
  headers : Bytes → HttpParser L → HttpParser L × Resolved
  body : Bytes → HttpParser L → HttpParser L × Resolved

namespace HttpParser

def crlf : Bytes := lit "\r\n"
def crlfcrlf : Bytes := lit "\r\n\r\n"

theorem isLiteral_crlf : Str.IsLiteral crlf :=
  ⟨by decide, by decide, by decide⟩

theorem isLiteral_crlfcrlf : Str.IsLiteral crlfcrlf :=
  ⟨by decide, by decide, by decide⟩

variable {L : Type}

/-- A parser constructed on a new packet. -/
def init (firstLine : L) : HttpParser L :=
  { position := .kNone, firstLine, headers := Lib.OrdMap.empty, body := [],
    firstLineLen := 0, headerLen := 0, resolvedLen := 0, isUpgradeToWs := false }

/-- `IsEnd`. -/
def isEnd (p : HttpParser L) : Bool := p.position = .kEnd

/-- `IsErr`. -/
def isErr (p : HttpParser L) : Bool := p.position = .kError

/-- The branch of `_ResolveFirstLine` behind a CRLF at `off`. -/
def takeFirstLine (parseFromString : L → Bytes → L × LineResult)
    (buf : Bytes) (off : Nat) (p : HttpParser L) : HttpParser L × Resolved :=
  match parseFromString p.firstLine (buf.take off) with
  | (firstLine, .accepted) =>
      ({ p with firstLine, position := .kHeaders, resolvedLen := off + 2,
                firstLineLen := off + 2 }, .success)
  | (firstLine, .rejected) => ({ p with firstLine, position := .kError }, .failure)
  | (firstLine, .thrown) => ({ p with firstLine }, .thrown)

/-- `_ResolveFirstLine` of both parsers, which differ in `ParseFromString`
of their first line only. -/
def resolveFirstLine (parseFromString : L → Bytes → L × LineResult)
    (buf : Bytes) (p : HttpParser L) : HttpParser L × Resolved :=
  match Str.strnstr buf crlf buf.length with
  | some off => takeFirstLine parseFromString buf off p
  | none => ({ p with position := .kFirstLine, resolvedLen := 0 }, .failure)

/-- The branch of `_ResolveHeaders` behind a CRLFCRLF at `off`. -/
def takeHeaders (buf : Bytes) (off : Nat) (p : HttpParser L) :
    HttpParser L × Resolved :=
  match HeaderField.parseFromString p.headers ((buf.drop p.resolvedLen).take off) with
  | (headers, true) =>
      let resolvedLen := p.resolvedLen + off + 4
      ({ p with headers, resolvedLen, headerLen := resolvedLen - p.firstLineLen,
                position := .kBody }, .success)
  | (headers, false) => ({ p with headers, position := .kError }, .failure)

/-- `HttpParser::_ResolveHeaders`. -/
def resolveHeaders (buf : Bytes) (p : HttpParser L) : HttpParser L × Resolved :=
  match Str.strnstr (buf.drop p.resolvedLen) crlfcrlf (buf.length - p.resolvedLen) with
  | none => (p, .failure)
  | some off => takeHeaders buf off p

/-- `HttpParser::_ResolveBody`. -/
def resolveBody (buf : Bytes) (p : HttpParser L) : HttpParser L × Resolved :=
  let contentLength := HeaderField.contentLength p.headers
  if contentLength = 0 then ({ p with position := .kError }, .failure)
  else
    let p := { p with resolvedLen := buf.length }
    let currBodyLen := buf.length - p.firstLineLen - p.headerLen
    if contentLength < currBodyLen then ({ p with position := .kError }, .failure)
    else if contentLength = currBodyLen then
      ({ p with position := .kEnd,
                body := (buf.drop (buf.length - contentLength)).take contentLength },
        .success)
    else (p, .failure)

variable (r : Resolvers L)

/-- The branch of the loop of `DoParse` that the position selects. -/
def resolve (buf : Bytes) (p : HttpParser L) : HttpParser L × Resolved :=
  match p.position with
  | .kNone =>
      if p.resolvedLen = 0 ∧ 0 < buf.length then
        r.firstLine buf { p with position := .kFirstLine }
      else (p, .failure)
  | .kFirstLine => r.firstLine buf p
  | .kHeaders => r.headers buf p
  | .kBody => r.body buf p
  | .kEnd => (p, .failure)
  | .kError => (p, .failure)

/-- The loop of `DoParse`.  Every round but the last moves the position
forward, so four rounds are enough from any position. -/
def loop (buf : Bytes) : Nat → HttpParser L → HttpParser L × ParseRet
  | 0, p => (p, .returned (-1))
  | fuel + 1, p =>
      let (p, resolved) := resolve r buf p
      if resolved = .thrown then (p, .crashed)
      else if p.position = .kEnd then (p, .returned 0)
      else if p.position = .kError then (p, .returned (-1))
      else if resolved = .failure then (p, .returned (-1))
      else loop buf fuel p

variable {r}

/-- The state a round of the loop leaves behind when it is the last one. -/
theorem loop_fst_of_last {buf : Bytes} {p q : HttpParser L} {res : Resolved}
    (h : resolve r buf p = (q, res))
    (hlast : res ≠ .success ∨ q.position = .kEnd ∨ q.position = .kError) (n : Nat) :
    (loop r buf (n + 1) p).1 = q := by
  rw [loop, h]
  cases res with
  | success =>
      rcases hlast.resolve_left (by simp) with hq | hq <;> simp [hq]
  | failure =>
      simp only [reduceCtorEq, if_false, if_true]
      split_ifs <;> rfl
  | thrown => simp

/-- A round that succeeds short of the end goes on with the next. -/
theorem loop_of_success {buf : Bytes} {p q : HttpParser L}
    (h : resolve r buf p = (q, .success)) (hend : q.position ≠ .kEnd)
    (herr : q.position ≠ .kError) (n : Nat) : loop r buf (n + 1) p = loop r buf n q := by
  rw [loop, h]
  simp [hend, herr]

/-- Rounds that do not throw make a loop that returns. -/
theorem loop_returns {buf : Bytes} (h : ∀ p, (resolve r buf p).2 ≠ .thrown) (n : Nat)
    (p : HttpParser L) : ∃ code, (loop r buf n p).2 = .returned code := by
  induction n generalizing p with
  | zero => exact ⟨-1, rfl⟩
  | succ n ih =>
      rw [loop]
      dsimp only
      rw [if_neg (h p)]
      split_ifs
      · exact ⟨0, rfl⟩
      · exact ⟨-1, rfl⟩
      · exact ⟨-1, rfl⟩
      · exact ih _

variable (r)

/-- `HttpParser::DoParse`. -/
def doParse (buf : Bytes) (p : HttpParser L) : HttpParser L × ParseRet :=
  if buf.length = 0 then (p, .returned 0)
  else if buf.length - p.resolvedLen = 0 then (p, .returned 0)
  else loop r buf 4 p

end HttpParser

end Unixtar.Http
