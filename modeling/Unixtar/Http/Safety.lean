import Unixtar.Lib.Checked
import Unixtar.Lib.Run
import Unixtar.Http.HttpRequest

/-!
# Offsets of the request parser

The functions of `HttpParser` once more, with every range that is handed to a
scan or a copy and every subtraction of lengths checked, and with the
`while (true)` of `DoParse` as a loop that may run for ever.  Under one
invariant over all positions they do what the unchecked functions do, without
a fault, and the loop returns.

## Main results

* `strnstr_eq` — a scan of a range inside the buffer reads only that range.
* `resolve_eq`, `resolve_keeps` — a round does not fault, keeps the invariant
  and moves the position forward when it succeeds.
* `doParse_eq` — `DoParse` returns what the unchecked one does.
-/

namespace Unixtar.Http.Safety

open Unixtar.Lib

/-! ## The checked functions -/

/-- The loop of `str::strnstr`; `memcmp` reads `n` bytes behind `off + i`. -/
def strnstrLoop (buf needle : Bytes) (off n : Nat) : Nat → Nat → Checked (Option Nat)
  | 0, _ => .ok none
  | len + 1, i =>
      if n ≤ len + 1 then do
        let window ← Checked.slice buf (off + i) n
        if window = needle.take n then .ok (some i)
        else strnstrLoop buf needle off n len (i + 1)
      else .ok none

/-- `str::strnstr` on `Ptr(off)`; `strnlen` may read all `len` bytes. -/
def strnstr (buf needle : Bytes) (off len : Nat) : Checked (Option Nat) := do
  let hay ← Checked.slice buf off len
  let len2 : Int := Str.toInt (Str.strlen needle)
  if len2 = 0 then .ok (some 0)
  else strnstrLoop buf needle off (Str.toSizeT len2) (Str.scanLen hay len) 0

section

variable {L : Type}

/-- `_ResolveFirstLine`. -/
def resolveFirstLine (parseFromString : L → Bytes → L × LineResult) (buf : Bytes)
    (p : HttpParser L) : Checked (HttpParser L × Resolved) := do
  match ← strnstr buf HttpParser.crlf 0 buf.length with
  | some off => do
      let line ← Checked.slice buf 0 off
      .ok (HttpParser.takeFirstLine parseFromString line off p)
  | none => .ok ({ p with position := .kFirstLine, resolvedLen := 0 }, .failure)

/-- `HttpParser::_ResolveHeaders`. -/
def resolveHeaders (buf : Bytes) (p : HttpParser L) : Checked (HttpParser L × Resolved) := do
  let unresolvedLen ← Checked.sub buf.length p.resolvedLen
  match ← strnstr buf HttpParser.crlfcrlf p.resolvedLen unresolvedLen with
  | none => .ok (p, .failure)
  | some off => do
      let text ← Checked.slice buf p.resolvedLen off
      match HeaderField.parseFromString p.headers text with
      | (headers, true) => do
          let resolvedLen := p.resolvedLen + off + 4
          let headerLen ← Checked.sub resolvedLen p.firstLineLen
          .ok ({ p with headers, resolvedLen, headerLen, position := .kBody }, .success)
      | (headers, false) => .ok ({ p with headers, position := .kError }, .failure)

/-- `HttpParser::_ResolveBody`. -/
def resolveBody (buf : Bytes) (p : HttpParser L) : Checked (HttpParser L × Resolved) :=
  let contentLength := HeaderField.contentLength p.headers
  if contentLength = 0 then .ok ({ p with position := .kError }, .failure)
  else do
    let p := { p with resolvedLen := buf.length }
    let behindLine ← Checked.sub buf.length p.firstLineLen
    let currBodyLen ← Checked.sub behindLine p.headerLen
    if contentLength < currBodyLen then .ok ({ p with position := .kError }, .failure)
    else if contentLength = currBodyLen then do
      let off ← Checked.sub buf.length contentLength
      let body ← Checked.slice buf off contentLength
      .ok ({ p with position := .kEnd, body }, .success)
    else .ok (p, .failure)

end

/-- `request::Parser::_ResolveHeaders`. -/
def requestHeaders (buf : Bytes) (p : Request.Parser) :
    Checked (Request.Parser × Resolved) := do
  let result ← resolveHeaders buf p
  .ok (Request.noteUpgrade result)

/-- `request::Parser::_ResolveBody`. -/
def requestBody (buf : Bytes) (p : Request.Parser) : Checked (Request.Parser × Resolved) :=
  if p.firstLine.method = .kGET then do
    let unresolvedLen ← Checked.sub buf.length p.resolvedLen
    if unresolvedLen > 0 then .ok ({ p with position := .kError }, .failure)
    else .ok ({ p with position := .kEnd }, .success)
  else resolveBody buf p

/-- The branch of the loop of `DoParse` that the position selects. -/
def resolve (buf : Bytes) (p : Request.Parser) : Checked (Request.Parser × Resolved) :=
  match p.position with
  | .kNone =>
      if p.resolvedLen = 0 ∧ 0 < buf.length then
        resolveFirstLine RequestLine.parseFromString buf { p with position := .kFirstLine }
      else .ok (p, .failure)
  | .kFirstLine => resolveFirstLine RequestLine.parseFromString buf p
  | .kHeaders => requestHeaders buf p
  | .kBody => requestBody buf p
  | .kEnd => .ok (p, .failure)
  | .kError => .ok (p, .failure)

/-- One round of the loop of `DoParse`. -/
def round (buf : Bytes) (p : Request.Parser) :
    Checked (Round Request.Parser (Request.Parser × ParseRet)) := do
  let (p, resolved) ← resolve buf p
  if resolved = .thrown then .ok (.done (p, .crashed))
  else if p.position = .kEnd then .ok (.done (p, .returned 0))
  else if p.position = .kError then .ok (.done (p, .returned (-1)))
  else if resolved = .failure then .ok (.done (p, .returned (-1)))
  else .ok (.next p)

/-- `DoParse`, with its loop cut off after `n` rounds. -/
def doParse (buf : Bytes) (p : Request.Parser) (n : Nat) :
    Checked (Option (Request.Parser × ParseRet)) :=
  if buf.length = 0 then .ok (some (p, .returned 0))
  else do
    let unresolvedLen ← Checked.sub buf.length p.resolvedLen
    if unresolvedLen = 0 then .ok (some (p, .returned 0))
    else whileTrue (round buf) n p

/-! ## Scans -/

theorem strnstrLoop_eq {buf needle : Bytes} {off n len i : Nat}
    (h : off + i + len ≤ buf.length) :
    strnstrLoop buf needle off n len i =
      .ok ((Str.strnstrLoop needle n len (buf.drop (off + i))).map (· + i)) := by
  induction len generalizing i with
  | zero => rfl
  | succ len ih =>
      rw [strnstrLoop, Str.strnstrLoop]
      by_cases hle : n ≤ len + 1
      · rw [if_pos hle, if_pos hle, Checked.slice_of_le (by omega), Checked.ok_bind]
        by_cases hhit : (buf.drop (off + i)).take n = needle.take n
        · rw [if_pos hhit, if_pos hhit, Option.map_some, Nat.zero_add]
        · rw [if_neg hhit, if_neg hhit, ih (by omega), List.tail_drop, Option.map_map]
          congr 2
          funext k
          show k + (i + 1) = k + 1 + i
          omega
      · rw [if_neg hle, if_neg hle]
        rfl

/-- A scan whose range lies inside the buffer does not read behind it. -/
theorem strnstr_eq {buf needle : Bytes} {off len : Nat} (h : off + len ≤ buf.length) :
    strnstr buf needle off len = .ok (Str.strnstr (buf.drop off) needle len) := by
  have hlen : Str.strnlen ((buf.drop off).take len) len = Str.strnlen (buf.drop off) len := by
    rw [Str.strnlen, List.take_take, Nat.min_self, Str.strnlen]
  have hscan : Str.scanLen ((buf.drop off).take len) len = Str.scanLen (buf.drop off) len := by
    unfold Str.scanLen
    rw [hlen]
  have hle := Str.scanLen_le (buf.drop off) len
  unfold strnstr Str.strnstr
  rw [Checked.slice_of_le h, Checked.ok_bind, hscan]
  dsimp only
  split
  · rfl
  · rw [strnstrLoop_eq (by omega), Nat.add_zero]
    congr 1
    exact Option.map_id'

/-! ## The invariant -/

/-- What is resolved in each position. -/
def Place (p : Request.Parser) : Prop :=
  match p.position with
  | .kNone | .kFirstLine => p.resolvedLen = 0
  | .kHeaders => p.resolvedLen = p.firstLineLen
  | .kBody => p.firstLine.method = .kGET → p.resolvedLen = p.firstLineLen + p.headerLen
  | .kEnd | .kError => True

/-- The invariant of the parser and its buffer. -/
structure Inv (buf : Bytes) (p : Request.Parser) : Prop where
  resolved : p.resolvedLen ≤ buf.length
  offsets : p.firstLineLen + p.headerLen ≤ p.resolvedLen
  place : Place p

/-- The length of the body, as `Body()` is cut from the buffer. -/
def bodyLen (p : Request.Parser) : Nat :=
  if p.firstLine.method = .kGET then 0 else HeaderField.contentLength p.headers

/-- The parts of a request that has just ended fill the buffer. -/
structure EndsRight (buf : Bytes) (p : Request.Parser) : Prop where
  length : p.firstLineLen + p.headerLen + bodyLen p = buf.length
  body : p.firstLine.method ≠ .kGET → p.body = buf.drop (p.firstLineLen + p.headerLen)

/-- How many rounds the position is away from the last one. -/
def rank : TPosition → Nat
  | .kNone | .kFirstLine => 3
  | .kHeaders => 2
  | .kBody => 1
  | .kEnd | .kError => 0

/-- A round keeps the invariant, moves the position forward when it succeeds,
and reaches `kEnd` only with the whole request. -/
structure Keeps (buf : Bytes) (p : Request.Parser) (m : Request.Parser × Resolved) : Prop where
  inv : Inv buf m.1
  notThrown : m.2 ≠ .thrown
  forward : m.2 = .success → rank m.1.position < rank p.position
  ends : p.position ≠ .kEnd → m.1.position = .kEnd → EndsRight buf m.1

/-! ## Rounds -/

section Rounds

variable {buf : Bytes} {p : Request.Parser}

/-- A round that fails short of the end. -/
theorem keeps_failure {q : Request.Parser} (h : Inv buf q) (hend : q.position ≠ .kEnd) :
    Keeps buf p (q, .failure) :=
  ⟨h, fun hf => (by cases hf), fun hf => (by cases hf), fun _ hq => absurd hq hend⟩

/-- A round that succeeds. -/
theorem keeps_success {q : Request.Parser} {a b : TPosition} (hp : p.position = a)
    (hq : q.position = b) (hrank : rank b < rank a) (h : Inv buf q)
    (hends : q.position = .kEnd → EndsRight buf q) : Keeps buf p (q, .success) := by
  refine ⟨h, fun hf => (by cases hf), fun _ => ?_, fun _ => hends⟩
  rw [hp, hq]
  exact hrank

theorem resolveFirstLine_eq {L : Type} (parse : L → Bytes → L × LineResult) (buf : Bytes)
    (p : HttpParser L) :
    resolveFirstLine parse buf p = .ok (HttpParser.resolveFirstLine parse buf p) := by
  unfold resolveFirstLine HttpParser.resolveFirstLine
  rw [strnstr_eq (by omega), Checked.ok_bind, List.drop_zero]
  cases hscan : Str.strnstr buf HttpParser.crlf buf.length with
  | none => rfl
  | some off =>
      have hoff := Str.strnstr_add_le HttpParser.isLiteral_crlf hscan
      dsimp only
      rw [Checked.slice_of_le (by omega), Checked.ok_bind, List.drop_zero]
      unfold HttpParser.takeFirstLine
      rw [List.take_take, Nat.min_self]

theorem resolveFirstLine_keeps (h : Inv buf p) (hzero : p.resolvedLen = 0)
    (hpos : p.position = .kFirstLine) :
    Keeps buf p (HttpParser.resolveFirstLine RequestLine.parseFromString buf p) := by
  have hoffsets := h.offsets
  unfold HttpParser.resolveFirstLine
  cases hscan : Str.strnstr buf HttpParser.crlf buf.length with
  | none =>
      have hnone : p.firstLineLen + p.headerLen ≤ 0 := by omega
      exact keeps_failure ⟨Nat.zero_le _, hnone, rfl⟩ (by simp)
  | some off =>
      have hoff : off + 2 ≤ buf.length := Str.strnstr_add_le HttpParser.isLiteral_crlf hscan
      have hthrown := RequestLine.parseFromString_ne_thrown p.firstLine (buf.take off)
      dsimp only
      unfold HttpParser.takeFirstLine
      rcases hparse : RequestLine.parseFromString p.firstLine (buf.take off) with ⟨line, result⟩
      rw [hparse] at hthrown
      cases result with
      | accepted =>
          have hsum : off + 2 + p.headerLen ≤ off + 2 := by omega
          exact keeps_success (b := .kHeaders) hpos rfl (by decide) ⟨hoff, hsum, rfl⟩
            (fun hq => by cases hq)
      | rejected => exact keeps_failure ⟨h.resolved, h.offsets, trivial⟩ (by simp)
      | thrown => exact absurd rfl hthrown

theorem resolveHeaders_eq (h : Inv buf p) :
    resolveHeaders buf p = .ok (HttpParser.resolveHeaders buf p) := by
  have hresolved := h.resolved
  have hoffsets := h.offsets
  unfold resolveHeaders HttpParser.resolveHeaders
  rw [Checked.sub_of_le hresolved, Checked.ok_bind, strnstr_eq (by omega), Checked.ok_bind]
  cases hscan : Str.strnstr (buf.drop p.resolvedLen) HttpParser.crlfcrlf
      (buf.length - p.resolvedLen) with
  | none => rfl
  | some off =>
      have hoff := Str.strnstr_add_le HttpParser.isLiteral_crlfcrlf hscan
      dsimp only
      rw [Checked.slice_of_le (by omega), Checked.ok_bind]
      unfold HttpParser.takeHeaders
      rcases HeaderField.parseFromString p.headers ((buf.drop p.resolvedLen).take off) with
        ⟨headers, good⟩
      cases good with
      | true =>
          dsimp only
          rw [Checked.sub_of_le (by omega), Checked.ok_bind]
      | false => rfl

theorem resolveHeaders_keeps (h : Inv buf p) (hpos : p.position = .kHeaders) :
    Keeps buf p (HttpParser.resolveHeaders buf p) := by
  have hresolved := h.resolved
  have hoffsets := h.offsets
  have hplace := h.place
  simp only [Place, hpos] at hplace
  unfold HttpParser.resolveHeaders
  cases hscan : Str.strnstr (buf.drop p.resolvedLen) HttpParser.crlfcrlf
      (buf.length - p.resolvedLen) with
  | none => exact keeps_failure h (by rw [hpos]; decide)
  | some off =>
      have hoff : off + 4 ≤ buf.length - p.resolvedLen :=
        Str.strnstr_add_le HttpParser.isLiteral_crlfcrlf hscan
      dsimp only
      unfold HttpParser.takeHeaders
      rcases HeaderField.parseFromString p.headers ((buf.drop p.resolvedLen).take off) with
        ⟨headers, good⟩
      cases good with
      | true =>
          have hsum : p.firstLineLen + (p.resolvedLen + off + 4 - p.firstLineLen) =
              p.resolvedLen + off + 4 := by omega
          have hinside : p.resolvedLen + off + 4 ≤ buf.length := by omega
          exact keeps_success (b := .kBody) hpos rfl (by decide)
            ⟨hinside, Nat.le_of_eq hsum, fun _ => hsum.symm⟩ (fun hq => by cases hq)
      | false => exact keeps_failure ⟨h.resolved, h.offsets, trivial⟩ (by simp)

/-- The flag that `request::Parser::_ResolveHeaders` adds is none of the
offsets. -/
theorem noteUpgrade_keeps {m : Request.Parser × Resolved} (h : Keeps buf p m)
    (hend : m.1.position ≠ .kEnd) : Keeps buf p (Request.noteUpgrade m) := by
  obtain ⟨q, result⟩ := m
  cases result with
  | success =>
      unfold Request.noteUpgrade
      dsimp only
      split
      · exact ⟨⟨h.inv.resolved, h.inv.offsets, h.inv.place⟩, h.notThrown, h.forward,
          fun _ hq => absurd hq hend⟩
      · exact h
  | failure => exact h
  | thrown => exact h

theorem resolveHeaders_position_ne (hpos : p.position = .kHeaders) :
    (HttpParser.resolveHeaders buf p).1.position ≠ .kEnd := by
  unfold HttpParser.resolveHeaders
  split
  · rw [hpos]
    decide
  · unfold HttpParser.takeHeaders
    split <;> simp

theorem resolveBody_eq (h : Inv buf p) :
    resolveBody buf p = .ok (HttpParser.resolveBody buf p) := by
  have hresolved := h.resolved
  have hoffsets := h.offsets
  unfold resolveBody HttpParser.resolveBody
  dsimp only
  split
  · rfl
  · rw [Checked.sub_of_le (by omega), Checked.ok_bind, Checked.sub_of_le (by omega),
      Checked.ok_bind]
    split
    · rfl
    · split
      · rename_i heq
        rw [Checked.sub_of_le (by omega), Checked.ok_bind, Checked.slice_of_le (by omega),
          Checked.ok_bind]
      · rfl

theorem resolveBody_keeps (h : Inv buf p) (hpos : p.position = .kBody)
    (hget : p.firstLine.method ≠ .kGET) : Keeps buf p (HttpParser.resolveBody buf p) := by
  have hresolved := h.resolved
  have hoffsets := h.offsets
  have hwhole : p.firstLineLen + p.headerLen ≤ buf.length := by omega
  unfold HttpParser.resolveBody
  dsimp only
  split
  · exact keeps_failure ⟨hresolved, hoffsets, trivial⟩ (by simp)
  · split
    · exact keeps_failure ⟨Nat.le_refl _, hwhole, trivial⟩ (by simp)
    · split
      · rename_i heq
        have hstart : buf.length - HeaderField.contentLength p.headers =
            p.firstLineLen + p.headerLen := by omega
        refine keeps_success (b := .kEnd) hpos rfl (by decide)
          ⟨Nat.le_refl _, hwhole, trivial⟩ (fun _ => ⟨?_, ?_⟩)
        · show p.firstLineLen + p.headerLen +
            (if p.firstLine.method = .kGET then 0 else HeaderField.contentLength p.headers) = _
          rw [if_neg hget]
          omega
        · intro _
          show (buf.drop (buf.length - _)).take _ = buf.drop (p.firstLineLen + p.headerLen)
          rw [hstart]
          apply List.take_of_length_le
          rw [List.length_drop]
          omega
      · refine keeps_failure ⟨Nat.le_refl _, hwhole, ?_⟩ (by simp [hpos])
        simp only [Place, hpos]
        exact fun hm => absurd hm hget

theorem requestBody_eq (h : Inv buf p) :
    requestBody buf p = .ok (Request.resolveBody buf p) := by
  unfold requestBody Request.resolveBody
  split
  · rw [Checked.sub_of_le h.resolved, Checked.ok_bind]
    split <;> rfl
  · exact resolveBody_eq h

theorem requestBody_keeps (h : Inv buf p) (hpos : p.position = .kBody) :
    Keeps buf p (Request.resolveBody buf p) := by
  have hresolved := h.resolved
  have hplace := h.place
  simp only [Place, hpos] at hplace
  unfold Request.resolveBody
  split
  · rename_i hget
    have hsum := hplace hget
    split
    · exact keeps_failure ⟨h.resolved, h.offsets, trivial⟩ (by simp)
    · refine keeps_success (b := .kEnd) hpos rfl (by decide)
        ⟨h.resolved, h.offsets, trivial⟩ (fun _ => ⟨?_, ?_⟩)
      · show p.firstLineLen + p.headerLen +
          (if p.firstLine.method = .kGET then 0 else HeaderField.contentLength p.headers) = _
        rw [if_pos hget]
        omega
      · intro hne
        exact absurd hget hne
  · rename_i hget
    exact resolveBody_keeps h hpos hget

/-- **One round** does what the unchecked one does. -/
theorem resolve_eq (h : Inv buf p) :
    resolve buf p = .ok (HttpParser.resolve Request.resolvers buf p) := by
  unfold resolve HttpParser.resolve
  cases p.position with
  | kNone =>
      dsimp only
      split
      · exact resolveFirstLine_eq _ _ _
      · rfl
  | kFirstLine => exact resolveFirstLine_eq _ _ _
  | kHeaders =>
      show requestHeaders buf p = _
      unfold requestHeaders
      rw [resolveHeaders_eq h, Checked.ok_bind]
      rfl
  | kBody => exact requestBody_eq h
  | kEnd => rfl
  | kError => rfl

/-- **One round** keeps the invariant. -/
theorem resolve_keeps (h : Inv buf p) :
    Keeps buf p (HttpParser.resolve Request.resolvers buf p) := by
  have hplace := h.place
  unfold HttpParser.resolve
  cases hpos : p.position with
  | kNone =>
      simp only [Place, hpos] at hplace
      dsimp only
      split
      · have hfirst : Inv buf { p with position := .kFirstLine } :=
          ⟨h.resolved, h.offsets, hplace⟩
        obtain ⟨hinv, hthrown, hforward, hends⟩ := resolveFirstLine_keeps hfirst hplace rfl
        refine ⟨hinv, hthrown, fun hs => ?_, fun _ hq => hends (by simp) hq⟩
        rw [hpos]
        exact hforward hs
      · exact keeps_failure h (by rw [hpos]; decide)
  | kFirstLine =>
      simp only [Place, hpos] at hplace
      exact resolveFirstLine_keeps h hplace hpos
  | kHeaders =>
      exact noteUpgrade_keeps (resolveHeaders_keeps h hpos) (resolveHeaders_position_ne hpos)
  | kBody => exact requestBody_keeps h hpos
  | kEnd =>
      exact ⟨h, fun hf => (by cases hf), fun hf => (by cases hf), fun hne => absurd hpos hne⟩
  | kError => exact keeps_failure h (by rw [hpos]; decide)

end Rounds

/-! ## `DoParse` -/

section DoParse

variable {buf : Bytes} {p : Request.Parser}

/-- What `DoParse` leaves behind when it is called on `p`. -/
structure Post (buf : Bytes) (p : Request.Parser) (r : Request.Parser × ParseRet) : Prop where
  inv : Inv buf r.1
  returned : ∃ code, r.2 = .returned code
  ends : p.position ≠ .kEnd → r.1.position = .kEnd → EndsRight buf r.1

theorem rank_lt_four (position : TPosition) : rank position < 4 := by
  cases position <;> decide

/-- A round inside a call on `p` returns, or goes on nearer to the end. -/
theorem round_spec {q : Request.Parser} (h : Inv buf q)
    (hrun : p.position ≠ .kEnd → q.position ≠ .kEnd) :
    (∃ r, round buf q = .ok (.done r) ∧ Post buf p r) ∨
      (∃ t, round buf q = .ok (.next t) ∧
        (Inv buf t ∧ (p.position ≠ .kEnd → t.position ≠ .kEnd)) ∧
          rank t.position < rank q.position) := by
  have hkeeps := resolve_keeps h
  rcases hresolve : HttpParser.resolve Request.resolvers buf q with ⟨t, result⟩
  rw [hresolve] at hkeeps
  obtain ⟨hinv, hthrown, hforward, hends⟩ := hkeeps
  unfold round
  rw [resolve_eq h, hresolve, Checked.ok_bind]
  dsimp only at hinv hthrown hforward hends ⊢
  have hpost : ∀ code, Post buf p (t, .returned code) := fun code =>
    ⟨hinv, ⟨code, rfl⟩, fun hp ht => hends (hrun hp) ht⟩
  rw [if_neg hthrown]
  by_cases hend : t.position = .kEnd
  · exact Or.inl ⟨_, if_pos hend, hpost 0⟩
  · rw [if_neg hend]
    by_cases herr : t.position = .kError
    · exact Or.inl ⟨_, if_pos herr, hpost (-1)⟩
    · rw [if_neg herr]
      cases result with
      | success =>
          exact Or.inr ⟨t, if_neg (by decide), ⟨hinv, fun _ => hend⟩, hforward rfl⟩
      | failure => exact Or.inl ⟨_, if_pos rfl, hpost (-1)⟩
      | thrown => exact absurd rfl hthrown

/-- The loop returns within four rounds. -/
theorem whileTrue_round (h : Inv buf p) :
    ∃ r, whileTrue (round buf) 4 p = .ok (some r) ∧ Post buf p r :=
  whileTrue_of_measure (fun q => Inv buf q ∧ (p.position ≠ .kEnd → q.position ≠ .kEnd))
    (Post buf p) (fun q => rank q.position) (fun _ hq => round_spec hq.1 hq.2)
    ⟨h, fun hp => hp⟩ (rank_lt_four p.position)

/-- **`DoParse`** returns and keeps the invariant. -/
theorem doParse_spec (h : Inv buf p) :
    ∃ r, (∀ n, 4 ≤ n → doParse buf p n = .ok (some r)) ∧ Post buf p r := by
  have hstay : Post buf p (p, .returned 0) :=
    ⟨h, ⟨0, rfl⟩, fun hp hend => absurd hend hp⟩
  unfold doParse
  by_cases hempty : buf.length = 0
  · exact ⟨_, fun n _ => if_pos hempty, hstay⟩
  · simp only [if_neg hempty, Checked.sub_of_le h.resolved, Checked.ok_bind]
    by_cases hnone : buf.length - p.resolvedLen = 0
    · exact ⟨_, fun n _ => if_pos hnone, hstay⟩
    · obtain ⟨r, hr, hpost⟩ := whileTrue_round h
      refine ⟨r, fun n hn => ?_, hpost⟩
      rw [if_neg hnone, show n = 4 + (n - 4) by omega]
      exact whileTrue_add hr (n - 4)

/-- However long its loop may run, `DoParse` does not fault. -/
theorem doParse_not_fault (h : Inv buf p) (n : Nat) (f : Fault) :
    doParse buf p n ≠ .error f := by
  unfold doParse
  by_cases hempty : buf.length = 0
  · rw [if_pos hempty]
    simp
  · rw [if_neg hempty, Checked.sub_of_le h.resolved, Checked.ok_bind]
    by_cases hnone : buf.length - p.resolvedLen = 0
    · rw [if_pos hnone]
      simp
    · rw [if_neg hnone]
      obtain ⟨r, hr, -⟩ := whileTrue_round h
      exact Returns.not_fault ⟨4, hr⟩ n f

theorem whileTrue_round_eq {n : Nat} (h : Inv buf p) (hn : rank p.position < n) :
    whileTrue (round buf) n p =
      .ok (some (HttpParser.loop Request.resolvers buf n p)) := by
  induction n generalizing p with
  | zero => omega
  | succ n ih =>
      have hkeeps := resolve_keeps h
      rcases hresolve : HttpParser.resolve Request.resolvers buf p with ⟨t, result⟩
      rw [hresolve] at hkeeps
      obtain ⟨hinv, hthrown, hforward, -⟩ := hkeeps
      rw [whileTrue, round, resolve_eq h, hresolve, Checked.ok_bind, HttpParser.loop, hresolve]
      dsimp only at hinv hthrown hforward ⊢
      rw [if_neg hthrown, if_neg hthrown]
      split
      · rfl
      · split
        · rfl
        · cases result with
          | success =>
              rw [if_neg (by decide), if_neg (by decide)]
              have hless := hforward rfl
              exact ih hinv (by omega)
          | failure => rfl
          | thrown => exact absurd rfl hthrown

/-- The checked `DoParse` returns what the unchecked one does. -/
theorem doParse_eq (h : Inv buf p) :
    doParse buf p 4 = .ok (some (Request.Parser.doParse buf p)) := by
  unfold doParse Request.Parser.doParse HttpParser.doParse
  split
  · rfl
  · rw [Checked.sub_of_le h.resolved, Checked.ok_bind]
    split
    · rfl
    · exact whileTrue_round_eq h (rank_lt_four p.position)

/-- What the unchecked `DoParse` leaves behind. -/
theorem post_doParse (h : Inv buf p) : Post buf p (Request.Parser.doParse buf p) := by
  obtain ⟨r, hparse, hpost⟩ := doParse_spec h
  have hsame := hparse 4 (Nat.le_refl 4)
  rw [doParse_eq h] at hsame
  cases hsame
  exact hpost

end DoParse

/-! ## Runs -/

/-- The parser and its buffer. -/
structure System where
  buf : Bytes
  parser : Request.Parser

/-- A parser on an empty buffer. -/
def start : System := ⟨[], Request.Parser.fresh⟩

/-- Bytes are appended and `DoParse` is called; a call that faults, throws or
does not return has no successor. -/
def step (s : System) (bytes : Bytes) : Option System :=
  match doParse (s.buf ++ bytes) s.parser 4 with
  | .ok (some (q, .returned _)) => some ⟨s.buf ++ bytes, q⟩
  | _ => none

/-- What holds in a state: the offsets fit, and whatever is appended, the next
call of `DoParse` returns, hands only ranges of the buffer on, and ends a
request only where its parts fill the buffer. -/
structure Safe (s : System) : Prop where
  resolved : s.parser.resolvedLen ≤ s.buf.length
  offsets : s.parser.firstLineLen + s.parser.headerLen ≤ s.buf.length
  returns : ∀ bytes, ∃ q code,
    (∀ n, 4 ≤ n → doParse (s.buf ++ bytes) s.parser n = .ok (some (q, .returned code))) ∧
      q.resolvedLen ≤ (s.buf ++ bytes).length ∧
      (s.parser.position ≠ .kEnd → q.position = .kEnd → EndsRight (s.buf ++ bytes) q)
  noFault : ∀ bytes n f, doParse (s.buf ++ bytes) s.parser n ≠ .error f

theorem inv_start : Inv start.buf start.parser :=
  ⟨Nat.le_refl _, Nat.le_refl _, rfl⟩

theorem Inv.append {buf : Bytes} {p : Request.Parser} (h : Inv buf p) (bytes : Bytes) :
    Inv (buf ++ bytes) p := by
  refine ⟨?_, h.offsets, h.place⟩
  have hresolved := h.resolved
  rw [List.length_append]
  omega

theorem safe_of_inv {s : System} (h : Inv s.buf s.parser) : Safe s := by
  refine ⟨h.resolved, Nat.le_trans h.offsets h.resolved, ?_, ?_⟩
  · intro bytes
    obtain ⟨⟨q, ret⟩, hparse, hinv, ⟨code, rfl⟩, hends⟩ := doParse_spec (h.append bytes)
    exact ⟨q, code, hparse, hinv.resolved, hends⟩
  · intro bytes
    exact doParse_not_fault (h.append bytes)

theorem step_spec {s : System} (h : Inv s.buf s.parser) (bytes : Bytes) :
    ∃ t, step s bytes = some t ∧ Inv t.buf t.parser := by
  obtain ⟨⟨q, ret⟩, hparse, hinv, ⟨code, rfl⟩, -⟩ := doParse_spec (h.append bytes)
  refine ⟨⟨s.buf ++ bytes, q⟩, ?_, hinv⟩
  unfold step
  rw [hparse 4 (Nat.le_refl 4)]

theorem run_spec {s : System} (h : Inv s.buf s.parser) (chunks : List Bytes) :
    ∃ t, run step s chunks = some t ∧ Inv t.buf t.parser := by
  induction chunks generalizing s with
  | nil => exact ⟨s, rfl, h⟩
  | cons bytes chunks ih =>
      obtain ⟨t, hstep, hinv⟩ := step_spec h bytes
      rw [run_cons_some hstep]
      exact ih hinv

/-- **Offsets.**  After any appended bytes, with `DoParse` after each of them,
the parser is safe, and every call on the way has returned. -/
theorem requestParser_safe (chunks : List Bytes) :
    ∃ s, run step start chunks = some s ∧ Safe s := by
  obtain ⟨s, hrun, hinv⟩ := run_spec inv_start chunks
  exact ⟨s, hrun, safe_of_inv hinv⟩

end Unixtar.Http.Safety
