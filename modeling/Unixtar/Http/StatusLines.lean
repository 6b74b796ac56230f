import Unixtar.Http.Encoding
import Unixtar.Http.HttpResponse
import Unixtar.Lib.Chunks

/-!
# Status lines

`StatusLine::ParseFromString` wants three words, so it does not read back what
`ToString` writes for a description of several words.  It takes the second
word for a number without a check: `std::stoi` throws where there is none.

## Main results

* `text_eq` — a status line as its three words.
* `rejected_iff` — which lines are refused.
* `IsStatusLine.ne_thrown` — a well-formed line does not throw.
-/

namespace Unixtar.Http.StatusLine

/-! ## Written lines -/

/-- A description: its words are set apart by single blanks. -/
structure CleanDesc (desc : Bytes) : Prop where
  nonempty : desc ≠ []
  noCr : 13 ∉ desc
  noLf : 10 ∉ desc
  noNul : 0 ∉ desc
  noLeading : desc.head? ≠ some 32
  noTrailing : desc.getLast? ≠ some 32
  noDouble : ¬ lit "  " <:+: desc

instance (desc : Bytes) : Decidable (CleanDesc desc) :=
  decidable_of_iff
    (desc ≠ [] ∧ 13 ∉ desc ∧ 10 ∉ desc ∧ 0 ∉ desc ∧ desc.head? ≠ some 32 ∧
      desc.getLast? ≠ some 32 ∧ ¬ lit "  " <:+: desc)
    ⟨fun ⟨h₁, h₂, h₃, h₄, h₅, h₆, h₇⟩ => ⟨h₁, h₂, h₃, h₄, h₅, h₆, h₇⟩,
      fun h => ⟨h.nonempty, h.noCr, h.noLf, h.noNul, h.noLeading, h.noTrailing, h.noDouble⟩⟩

/-- The output of `ToString` without its CRLF. -/
def text (l : StatusLine) : Bytes := l.toBytes.take (l.toBytes.length - 2)

/-- A code of up to three digits is printed as a whole. -/
theorem text_eq (version : THttpVersion) {code : Nat} (hcode : code ≤ 999) (desc : Bytes) :
    text ⟨version, code, desc⟩ =
      version2string version ++ (lit " " ++ (decimal code ++ (lit " " ++ desc))) := by
  have hunsigned : ((code : Int) % 4294967296).toNat = code := by omega
  have hdigits : (decimal code).take 3 = decimal code :=
    take_decimal (by decide) (by omega)
  have hbytes : toBytes ⟨version, code, desc⟩ =
      version2string version ++ (lit " " ++ (decimal code ++ (lit " " ++ desc))) ++
        lit "\r\n" := by
    unfold toBytes
    simp only [hunsigned, hdigits, List.append_assoc]
  unfold text
  rw [hbytes, List.length_append]
  exact List.take_left' (by show _ = _ + 2 - 2; omega)

theorem noBlank_digits {ds : Bytes} (h : ∀ d ∈ ds, Str.isDigit d = true) : 32 ∉ ds :=
  fun hmem => absurd (h 32 hmem) (by decide)

/-- A printed code is read back. -/
theorem stoi_decimal {code : Nat} (hcode : code ≤ 999) :
    stoi (decimal code) = some (code : Int) := by
  have hvalue := digitsValue_decimal code
  rw [stoi_digits (decimal_ne_nil code) (fun d hd => isDigit_of_mem_decimal hd) (by omega),
    hvalue]

/-- **Status lines come back** from their text exactly when the description is
one word: a blank in it makes a fourth piece. -/
theorem restores_iff_oneWord (l : StatusLine) (version : THttpVersion) (code : Nat)
    (hcode : code ≤ 999) (desc : Bytes) (hdesc : CleanDesc desc) :
    l.parseFromString (text ⟨version, code, desc⟩) = (⟨version, code, desc⟩, .accepted) ↔
      32 ∉ desc := by
  rw [text_eq version hcode]
  constructor
  · intro h
    -- what is stored as the description is a piece
    unfold parseFromString at h
    split at h
    · rename_i v c d hsplit
      have hpiece : 32 ∉ d := by
        apply Str.not_mem_of_mem_split (s := _)
        show d ∈ Str.split _ (lit " ")
        rw [hsplit]
        simp
      split at h
      · exact absurd (congrArg Prod.snd h) (fun hf => by cases hf)
      · have hstored : d = desc := congrArg (fun r => r.1.statusDesc) h
        rw [← hstored]
        exact hpiece
    · exact absurd (congrArg Prod.snd h) (fun hf => by cases hf)
  · intro hblank
    have hdigits : ∀ d ∈ decimal code, Str.isDigit d = true :=
      fun d hd => isDigit_of_mem_decimal hd
    have hversion := version2string_spec version
    have hsplit := split_words hversion.1 ⟨decimal_ne_nil code, noBlank_digits hdigits⟩
      ⟨hdesc.nonempty, hblank⟩
    unfold parseFromString
    simp only [hsplit, stoi_decimal hcode, hversion.2]
    rw [if_neg (by omega)]

/-- `HTTP/1.1 404 OK`. -/
theorem restores_ok :
    init.parseFromString (text ⟨.kHTTP_1_1, 404, kStatusDescOk⟩) =
      (⟨.kHTTP_1_1, 404, kStatusDescOk⟩, .accepted) :=
  (restores_iff_oneWord init .kHTTP_1_1 404 (by decide) kStatusDescOk (by decide +kernel)).2
    (by decide)

/-- `HTTP/1.1 101 Switching Protocols`. -/
theorem not_restores_switchProtocol :
    CleanDesc kStatusDescSwitchProtocol ∧
      init.parseFromString (text ⟨.kHTTP_1_1, 101, kStatusDescSwitchProtocol⟩) =
        (init, .rejected) :=
  ⟨by decide +kernel, by decide +kernel⟩

/-! ## Malformed lines -/

/-- The parts of a well-formed line: a version, a decimal code up to 1000 and
a description. -/
structure Parts where
  version : Bytes
  code : Bytes
  desc : Bytes
  version_ne : version ≠ []
  version_blank : 32 ∉ version
  code_ne : code ≠ []
  code_digits : ∀ d ∈ code, Str.isDigit d = true
  code_le : Str.digitsValue code ≤ 1000
  desc_ne : desc ≠ []

/-- The line they are put together to. -/
def Parts.line (w : Parts) : Bytes := w.version ++ (lit " " ++ (w.code ++ (lit " " ++ w.desc)))

/-- `version code description`. -/
def IsStatusLine (line : Bytes) : Prop := ∃ w : Parts, w.line = line

/-- The line has not three words, or the second one starts with a number
outside of 0..1000. -/
def Refused (line : Bytes) : Prop :=
  ∀ version code desc, Str.split line (lit " ") = [version, code, desc] →
    ∃ v, stoi code = some v ∧ (v < 0 ∨ 1000 < v)

theorem rejected_iff (l : StatusLine) (line : Bytes) :
    (l.parseFromString line).2 = .rejected ↔ Refused line := by
  unfold parseFromString Refused
  split
  · rename_i version code desc hsplit
    rw [hsplit]
    cases hcode : stoi code with
    | none =>
        refine iff_of_false (fun hf => by cases hf) ?_
        intro h
        obtain ⟨v, hv, -⟩ := h version code desc rfl
        rw [hcode] at hv
        cases hv
    | some v =>
        by_cases hrange : v < 0 ∨ 1000 < v
        · simp only [if_pos hrange]
          refine iff_of_true trivial ?_
          rintro _ _ _ ⟨⟩
          exact ⟨v, hcode, hrange⟩
        · simp only [if_neg hrange]
          refine iff_of_false (fun hf => by cases hf) ?_
          intro h
          obtain ⟨v', hv', hrange'⟩ := h version code desc rfl
          rw [hcode] at hv'
          cases hv'
          exact hrange hrange'
  · rename_i hother
    refine iff_of_true rfl ?_
    intro version code desc hsplit
    exact absurd hsplit (hother version code desc)

/-- **A well-formed line does not throw**: if it has three words, the code is
the second one. -/
theorem IsStatusLine.ne_thrown {line : Bytes} (h : IsStatusLine line) (l : StatusLine) :
    (l.parseFromString line).2 ≠ .thrown := by
  obtain ⟨w, rfl⟩ := h
  have hfirst : [w.version, w.code] <+: Str.split w.line (lit " ") :=
    Str.prefix_split (by decide) (Str.piece_of_not_mem w.version_ne w.version_blank)
      (Str.piece_of_not_mem w.code_ne (noBlank_digits w.code_digits)) w.desc
  have hle := w.code_le
  have hstoi := stoi_digits w.code_ne w.code_digits (by omega)
  unfold parseFromString
  split
  · rename_i version code desc hsplit
    rw [hsplit] at hfirst
    have hcode : w.code = code := (List.cons_prefix_cons.1 (List.cons_prefix_cons.1 hfirst).2).1
    rw [← hcode, hstoi]
    dsimp only
    split
    · exact fun hf => by cases hf
    · exact fun hf => by cases hf
  · exact fun hf => by cases hf

end Unixtar.Http.StatusLine

namespace Unixtar.Http.Response

open StatusLine

/-! ## The end of the first line -/

/-- Where the first CRLF stands. -/
def lineEnd (s : Bytes) : Option Nat := Str.find HttpParser.crlf s

theorem lineEnd_add_le {s : Bytes} {i : Nat} (h : lineEnd s = some i) : i + 2 ≤ s.length :=
  Str.find_add_le HttpParser.isLiteral_crlf.nonempty h

/-- A prefix that holds the CRLF has the same first line. -/
theorem lineEnd_prefix_iff {b s : Bytes} (hb : b <+: s) (i : Nat) :
    lineEnd b = some i ↔ lineEnd s = some i ∧ i + 2 ≤ b.length :=
  Str.find_prefix_iff HttpParser.isLiteral_crlf.nonempty hb i

/-- What the scan finds is the end of the first line. -/
theorem lineEnd_of_strnstr {b : Bytes} {i : Nat}
    (h : Str.strnstr b HttpParser.crlf b.length = some i) : lineEnd b = some i :=
  Str.find_of_strnstr HttpParser.isLiteral_crlf h

/-- The scan finds the end of the first line if the `int` lets it. -/
theorem strnstr_of_lineEnd {b : Bytes} {i : Nat} (h : lineEnd b = some i) :
    Str.strnstr b HttpParser.crlf b.length =
      if Str.Reaches (Str.strlen b) (i + 2) then some i else none :=
  Str.strnstr_of_find HttpParser.isLiteral_crlf h

/-- The first line is complete and malformed. -/
def BadLine (b : Bytes) : Prop := ∃ i, lineEnd b = some i ∧ ¬ IsStatusLine (b.take i)

/-! ## One call of `DoParse` -/

theorem resolveHeaders_ne_thrown (buf : Bytes) (p : Parser) :
    (HttpParser.resolveHeaders buf p).2 ≠ .thrown := by
  unfold HttpParser.resolveHeaders
  split
  · exact fun hf => by cases hf
  · unfold HttpParser.takeHeaders
    split <;> exact fun hf => by cases hf

theorem resolveBody_ne_thrown (buf : Bytes) (p : Parser) :
    (HttpParser.resolveBody buf p).2 ≠ .thrown := by
  unfold HttpParser.resolveBody
  dsimp only
  split_ifs <;> exact fun hf => by cases hf

theorem resolveFirstLine_ne_thrown {buf : Bytes}
    (h : ∀ i, lineEnd buf = some i → ∀ l, (parseFromString l (buf.take i)).2 ≠ .thrown)
    (p : Parser) : (HttpParser.resolveFirstLine parseFromString buf p).2 ≠ .thrown := by
  unfold HttpParser.resolveFirstLine
  split
  · rename_i i hscan
    have hline := h i (lineEnd_of_strnstr hscan) p.firstLine
    unfold HttpParser.takeFirstLine
    split
    · exact fun hf => by cases hf
    · exact fun hf => by cases hf
    · rename_i hparse
      rw [hparse] at hline
      exact absurd rfl hline
  · exact fun hf => by cases hf

/-- Only the first line can throw. -/
theorem doParse_returns {buf : Bytes}
    (h : ∀ i, lineEnd buf = some i → ∀ l, (parseFromString l (buf.take i)).2 ≠ .thrown)
    (p : Parser) : ∃ code, (Parser.doParse buf p).2 = .returned code := by
  have hround : ∀ q, (HttpParser.resolve resolvers buf q).2 ≠ .thrown := by
    intro q
    unfold HttpParser.resolve
    cases q.position with
    | kNone =>
        dsimp only
        split
        · exact resolveFirstLine_ne_thrown h _
        · exact fun hf => by cases hf
    | kFirstLine => exact resolveFirstLine_ne_thrown h q
    | kHeaders => exact resolveHeaders_ne_thrown buf q
    | kBody => exact resolveBody_ne_thrown buf q
    | kEnd => exact fun hf => by cases hf
    | kError => exact fun hf => by cases hf
  unfold Parser.doParse HttpParser.doParse
  split_ifs
  · exact ⟨0, rfl⟩
  · exact ⟨0, rfl⟩
  · exact HttpParser.loop_returns hround 4 p

/-- A parser whose first line is not complete. -/
def Waiting (p : Parser) : Prop :=
  p = Parser.fresh ∨ p = { Parser.fresh with position := .kFirstLine }

section Waiting

variable {buf : Bytes} {p : Parser}

/-- The first round looks for the first line. -/
theorem resolve_of_waiting (hp : Waiting p) (hbuf : buf ≠ []) :
    HttpParser.resolve resolvers buf p = HttpParser.resolveFirstLine parseFromString buf
      { Parser.fresh with position := .kFirstLine } := by
  rcases hp with rfl | rfl
  · exact resolve_init rfl hbuf
  · rfl

theorem doParse_of_waiting (hp : Waiting p) (hbuf : buf ≠ []) :
    Parser.doParse buf p = HttpParser.loop resolvers buf 4 p := by
  have hpos := List.length_pos_of_ne_nil hbuf
  have hresolved : p.resolvedLen = 0 := by
    rcases hp with rfl | rfl <;> rfl
  unfold Parser.doParse HttpParser.doParse
  rw [if_neg (by omega), if_neg (by omega)]

/-- Without the first CRLF the parser keeps waiting. -/
theorem doParse_of_missed (hp : Waiting p)
    (hscan : Str.strnstr buf HttpParser.crlf buf.length = none) :
    Waiting (Parser.doParse buf p).1 := by
  by_cases hbuf : buf = []
  · rw [hbuf]
    exact hp
  · have hround := resolve_of_waiting hp hbuf
    rw [HttpParser.resolveFirstLine, hscan] at hround
    rw [doParse_of_waiting hp hbuf,
      HttpParser.loop_fst_of_last hround (Or.inl (fun hf => by cases hf))]
    exact Or.inr rfl

theorem ne_nil_of_lineEnd {i : Nat} (h : lineEnd buf = some i) : buf ≠ [] := by
  have hlen := lineEnd_add_le h
  exact List.ne_nil_of_length_pos (by omega)

/-- A first line that is found and refused is an error. -/
theorem doParse_of_refused (hp : Waiting p) {i : Nat} (hend : lineEnd buf = some i)
    (hreach : Str.Reaches (Str.strlen buf) (i + 2)) (hrefused : Refused (buf.take i)) :
    (Parser.doParse buf p).1.position = .kError := by
  have hbuf := ne_nil_of_lineEnd hend
  have hscan := strnstr_of_lineEnd hend
  rw [if_pos hreach] at hscan
  have hline := (rejected_iff Parser.fresh.firstLine (buf.take i)).2 hrefused
  have hround := resolve_of_waiting hp hbuf
  rw [HttpParser.resolveFirstLine, hscan] at hround
  dsimp only [HttpParser.takeFirstLine] at hround
  rcases hparse : parseFromString Parser.fresh.firstLine (buf.take i) with ⟨line, res⟩
  rw [hparse] at hline hround
  change res = .rejected at hline
  subst hline
  rw [doParse_of_waiting hp hbuf,
    HttpParser.loop_fst_of_last hround (Or.inl (fun hf => by cases hf))]

/-- Behind the CRLF of a line that was accepted nothing is left to read. -/
theorem loop_of_nothing {q : Parser} (hpos : q.position = .kHeaders)
    (hnone : buf.length ≤ q.resolvedLen) (n : Nat) :
    (HttpParser.loop resolvers buf (n + 1) q).1 = q := by
  have hround : HttpParser.resolve resolvers buf q = (q, .failure) := by
    unfold HttpParser.resolve
    rw [hpos]
    show HttpParser.resolveHeaders buf q = (q, .failure)
    unfold HttpParser.resolveHeaders
    rw [List.drop_eq_nil_of_le hnone, Nat.sub_eq_zero_of_le hnone]
    rfl
  exact HttpParser.loop_fst_of_last hround (Or.inl (fun hf => by cases hf)) n

/-- A first line that is an error has been found. -/
theorem reaches_of_isError (hp : Waiting p) {i : Nat} (hend : lineEnd buf = some i)
    (herr : (Parser.doParse buf p).1.position = .kError) :
    Str.Reaches (Str.strlen buf) (i + 2) := by
  by_contra hreach
  have hscan := strnstr_of_lineEnd hend
  rw [if_neg hreach] at hscan
  rcases doParse_of_missed hp hscan with hsame | hsame
  · rw [hsame] at herr
    cases herr
  · rw [hsame] at herr
    cases herr

/-- With nothing behind the first line, it is an error only if it is
refused. -/
theorem refused_of_isError (hp : Waiting p) {i : Nat} (hend : lineEnd buf = some i)
    (hlen : buf.length = i + 2) (hret : (Parser.doParse buf p).2 ≠ .crashed)
    (herr : (Parser.doParse buf p).1.position = .kError) : Refused (buf.take i) := by
  have hscan := strnstr_of_lineEnd hend
  rw [if_pos (reaches_of_isError hp hend herr)] at hscan
  have hbuf := ne_nil_of_lineEnd hend
  have hround := resolve_of_waiting hp hbuf
  rw [HttpParser.resolveFirstLine, hscan] at hround
  dsimp only [HttpParser.takeFirstLine] at hround
  rw [doParse_of_waiting hp hbuf] at hret herr
  apply (rejected_iff Parser.fresh.firstLine (buf.take i)).1
  rcases hparse : parseFromString Parser.fresh.firstLine (buf.take i) with ⟨line, res⟩
  rw [hparse] at hround
  cases res with
  | accepted =>
      rw [HttpParser.loop_of_success hround (fun hf => by cases hf) (fun hf => by cases hf),
        loop_of_nothing rfl (Nat.le_of_eq hlen)] at herr
      cases herr
  | rejected => rfl
  | thrown =>
      exfalso
      apply hret
      rw [HttpParser.loop, hround]
      rfl

end Waiting

/-- An error stays. -/
theorem doParse_of_isError {p : Parser} (hp : p.position = .kError) (buf : Bytes) :
    (Parser.doParse buf p).1.position = .kError := by
  have hround : HttpParser.resolve resolvers buf p = (p, .failure) := by
    unfold HttpParser.resolve
    rw [hp]
  unfold Parser.doParse HttpParser.doParse
  split_ifs
  · exact hp
  · exact hp
  · rw [HttpParser.loop_fst_of_last hround (Or.inl (fun hf => by cases hf))]
    exact hp

/-! ## Delivered bytes -/

/-- The parser behind the chunks, with `DoParse` after each. -/
def parseChunks (chunks : List Bytes) : Parser :=
  Lib.feed (fun buf p => (Parser.doParse buf p).1) [] Parser.fresh chunks

/-- A call of `DoParse` while the bytes `s` are delivered: the chunks of the
calls before it, the chunk that is new to it, and those still to come. -/
structure DoParseCall (s : Bytes) where
  pre : List Bytes
  chunk : Bytes
  rest : List Bytes
  delivered : (pre ++ chunk :: rest).flatten = s

namespace DoParseCall

variable {s : Bytes} (k : DoParseCall s)

/-- The buffer the call sees. -/
def buf : Bytes := k.pre.flatten ++ k.chunk

/-- The parser behind the call, and how the call ends. -/
def result : Parser × ParseRet := Parser.doParse k.buf (parseChunks k.pre)

theorem isPrefix_buf : k.buf <+: s := by
  have hwhole : k.pre.flatten ++ k.chunk ++ k.rest.flatten =
      (k.pre ++ k.chunk :: k.rest).flatten := by
    rw [List.flatten_append, List.flatten_cons, List.append_assoc]
  exact ⟨k.rest.flatten, hwhole.trans k.delivered⟩

end DoParseCall

/-- The call on a prefix that comes in one chunk. -/
def firstCall {b s : Bytes} (hb : b <+: s) : DoParseCall s where
  pre := []
  chunk := b
  rest := [s.drop b.length]
  delivered := by
    show b ++ (s.drop b.length ++ []) = s
    rw [List.append_nil]
    exact List.prefix_iff_eq_append.1 hb

/-- The first line, if it is malformed, is refused, and every scan of bytes
that hold its CRLF gets there. -/
def RefusesBadLine (s : Bytes) : Prop :=
  ∀ i, lineEnd s = some i → ¬ IsStatusLine (s.take i) →
    Refused (s.take i) ∧ ∀ b, b <+: s → i + 2 ≤ b.length → Str.Reaches (Str.strlen b) (i + 2)

section Runs

variable {s : Bytes}

theorem take_of_lineEnd {b : Bytes} (hb : b <+: s) {i : Nat} (h : lineEnd b = some i) :
    b.take i = s.take i := by
  have hlen := lineEnd_add_le h
  obtain ⟨t, rfl⟩ := hb
  rw [List.take_append_of_le_length (by omega)]

/-- **No call throws**: a well-formed line does not, and a malformed one is
refused. -/
theorem DoParseCall.returns (h : RefusesBadLine s) (k : DoParseCall s) :
    ∃ code, k.result.2 = .returned code := by
  apply doParse_returns
  intro i hend l
  rw [take_of_lineEnd k.isPrefix_buf hend]
  by_cases hline : IsStatusLine (s.take i)
  · exact hline.ne_thrown l
  · have hwhole := ((lineEnd_prefix_iff k.isPrefix_buf i).1 hend).1
    rw [(rejected_iff l (s.take i)).2 (h i hwhole hline).1]
    exact fun hf => by cases hf

/-- With the malformed line complete the parser is in error, before that it is
waiting. -/
def Progress (i : Nat) (b : Bytes) (p : Parser) : Prop :=
  (i + 2 ≤ b.length → p.position = .kError) ∧ (b.length < i + 2 → Waiting p)

/-- One call keeps `Progress`. -/
theorem Progress.step {i : Nat} {b c : Bytes} {p : Parser} (h : Progress i b p)
    (hend : lineEnd s = some i) (hb : b ++ c <+: s) (hrefused : Refused (s.take i))
    (hreach : i + 2 ≤ (b ++ c).length → Str.Reaches (Str.strlen (b ++ c)) (i + 2)) :
    Progress i (b ++ c) (Parser.doParse (b ++ c) p).1 := by
  by_cases hbefore : i + 2 ≤ b.length
  · have herr := doParse_of_isError (h.1 hbefore) (b ++ c)
    refine ⟨fun _ => herr, ?_⟩
    intro hshort
    rw [List.length_append] at hshort
    omega
  · have hwait := h.2 (by omega)
    constructor
    · intro hcomplete
      have hbuf := (lineEnd_prefix_iff hb i).2 ⟨hend, hcomplete⟩
      apply doParse_of_refused hwait hbuf (hreach hcomplete)
      rw [take_of_lineEnd hb hbuf]
      exact hrefused
    · intro hshort
      apply doParse_of_missed hwait
      cases hscan : Str.strnstr (b ++ c) HttpParser.crlf (b ++ c).length with
      | none => rfl
      | some j =>
          obtain ⟨hj, hlen⟩ := (lineEnd_prefix_iff hb j).1 (lineEnd_of_strnstr hscan)
          rw [hend] at hj
          cases hj
          omega

/-- All calls keep it. -/
theorem Progress.run {i : Nat} (hend : lineEnd s = some i) (hrefused : Refused (s.take i))
    (hreach : ∀ b, b <+: s → i + 2 ≤ b.length → Str.Reaches (Str.strlen b) (i + 2))
    (chunks : List Bytes) {b : Bytes} {p : Parser} (h : Progress i b p)
    (hb : b ++ chunks.flatten <+: s) :
    Progress i (b ++ chunks.flatten)
      (Lib.feed (fun buf p => (Parser.doParse buf p).1) b p chunks) := by
  induction chunks generalizing b p with
  | nil =>
      rw [List.flatten_nil, List.append_nil]
      exact h
  | cons c chunks ih =>
      rw [List.flatten_cons, ← List.append_assoc] at hb ⊢
      have hbc : b ++ c <+: s := (List.prefix_append _ _).trans hb
      exact ih (h.step hend hbc hrefused (hreach _ hbc)) hb

/-- **A malformed first line is an error** as soon as it is complete. -/
theorem DoParseCall.isError (h : RefusesBadLine s) (k : DoParseCall s) (hbad : BadLine k.buf) :
    k.result.1.position = .kError := by
  obtain ⟨i, hend, hline⟩ := hbad
  obtain ⟨hwhole, hlen⟩ := (lineEnd_prefix_iff k.isPrefix_buf i).1 hend
  rw [take_of_lineEnd k.isPrefix_buf hend] at hline
  obtain ⟨hrefused, hreach⟩ := h i hwhole hline
  have hfresh : Progress i [] Parser.fresh :=
    ⟨fun hle => absurd hle (by simp), fun _ => Or.inl rfl⟩
  have hpre : [] ++ k.pre.flatten <+: s := (List.prefix_append _ k.chunk).trans k.isPrefix_buf
  have hrun := Progress.run hwhole hrefused hreach k.pre hfresh hpre
  exact (hrun.step hwhole k.isPrefix_buf hrefused (hreach _ k.isPrefix_buf)).1 hlen

/-- Calls that report every malformed line refuse it: the calls on one chunk
show it. -/
theorem refusesBadLine_of_calls
    (hret : ∀ k : DoParseCall s, ∃ code, k.result.2 = .returned code)
    (herr : ∀ k : DoParseCall s, BadLine k.buf → k.result.1.position = .kError) :
    RefusesBadLine s := by
  intro i hend hline
  have hbad : ∀ b (hb : b <+: s), i + 2 ≤ b.length →
      lineEnd b = some i ∧ BadLine (firstCall hb).buf := by
    intro b hb hlen
    have hb' := (lineEnd_prefix_iff hb i).2 ⟨hend, hlen⟩
    refine ⟨hb', i, hb', ?_⟩
    show ¬ IsStatusLine (b.take i)
    rw [take_of_lineEnd hb hb']
    exact hline
  constructor
  · have hshort : s.take (i + 2) <+: s := List.take_prefix _ s
    have hlen : (s.take (i + 2)).length = i + 2 := by
      have hle := lineEnd_add_le hend
      rw [List.length_take]
      omega
    obtain ⟨hb, hbadline⟩ := hbad _ hshort (Nat.le_of_eq hlen.symm)
    obtain ⟨code, hcode⟩ := hret (firstCall hshort)
    have hrefused := refused_of_isError (Or.inl rfl) hb hlen
      (fun hcrash => by
        change (Parser.doParse (s.take (i + 2)) Parser.fresh).2 = _ at hcode
        rw [hcrash] at hcode
        cases hcode)
      (herr (firstCall hshort) hbadline)
    rw [take_of_lineEnd hshort hb] at hrefused
    exact hrefused
  · intro b hb hlen
    obtain ⟨hend', hbadline⟩ := hbad b hb hlen
    exact reaches_of_isError (Or.inl rfl) hend' (herr (firstCall hb) hbadline)

end Runs

end Unixtar.Http.Response
