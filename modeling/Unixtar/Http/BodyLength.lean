import Mathlib.Data.List.Induction
import Unixtar.Http.Encoding
import Unixtar.Http.HttpResponse
import Unixtar.Http.Safety
import Unixtar.Http.Segmentation

/-!
# Stated and accepted body lengths

Both `Pack` functions print the length of the body into `char len_str[9]`, so
that from 10⁸ bytes on the packet states a length of its first eight digits.
On the other side `ContentLength` reads the text with `strtoul` and asks for
nothing else: blanks, a sign and whatever stands behind the digits are taken
as well.

## Main results

* `statesSize_iff` — which packets state the size of their body.
* `reads_parseChunks` — a run of the request parser reads its header fields
  from the block between the first CRLF and the first CRLFCRLF behind it.
* `unambiguous_iff` — which requests are accepted under a plain length.
-/

namespace Unixtar

/-! ## Digits -/

namespace Str

theorem foldl_digits_lt (ds : Bytes) (h : ∀ d ∈ ds, isDigit d = true) (v : Nat) :
    ds.foldl (fun v d => v * 10 + (d.toNat - 48)) v < (v + 1) * 10 ^ ds.length := by
  induction ds generalizing v with
  | nil => simp
  | cons d ds ih =>
      have hd := h d List.mem_cons_self
      simp only [isDigit, Bool.and_eq_true, decide_eq_true_eq, UInt8.le_iff_toNat_le] at hd
      have hle : d.toNat ≤ 57 := hd.2
      have hrest := ih (fun e he => h e (List.mem_cons_of_mem d he)) (v * 10 + (d.toNat - 48))
      calc (d :: ds).foldl (fun v d => v * 10 + (d.toNat - 48)) v
          < (v * 10 + (d.toNat - 48) + 1) * 10 ^ ds.length := hrest
        _ ≤ (v + 1) * 10 * 10 ^ ds.length := Nat.mul_le_mul_right _ (by omega)
        _ = (v + 1) * 10 ^ (d :: ds).length := by
          rw [List.length_cons, Nat.pow_succ', Nat.mul_assoc]

/-- `k` digits stay below 10ᵏ. -/
theorem digitsValue_lt {ds : Bytes} (h : ∀ d ∈ ds, isDigit d = true) :
    digitsValue ds < 10 ^ ds.length := by
  have hfold := foldl_digits_lt ds h 0
  rw [Nat.zero_add, Nat.one_mul] at hfold
  exact hfold

end Str

namespace Http

/-- Eight digits of a length are read back as the length exactly when it has
no more. -/
theorem strtoul_take_decimal_eq_iff (n : Nat) :
    Str.strtoul ((decimal n).take 8) = n ↔ n < 10 ^ 8 := by
  have hdigits : ∀ d ∈ (decimal n).take 8, Str.isDigit d = true := fun d hd =>
    isDigit_of_mem_decimal (List.mem_of_mem_take hd)
  have hlen : ((decimal n).take 8).length ≤ 8 := List.length_take_le 8 (decimal n)
  have hlt : Str.digitsValue ((decimal n).take 8) < 10 ^ 8 :=
    Nat.lt_of_lt_of_le (Str.digitsValue_lt hdigits) (Nat.pow_le_pow_right (by decide) hlen)
  rw [strtoul_digits hdigits (by omega)]
  constructor
  · intro h
    omega
  · intro h
    rw [take_decimal (by decide) h]
    exact digitsValue_decimal n

/-! ## What `Pack` states -/

/-- The header fields that `response::Pack` builds for a body. -/
def Response.packedHeaders (headers : List (Bytes × Bytes)) (sendBody : Bytes) : HeaderField :=
  HeaderField.insertOrUpdate (HeaderField.insertAll Lib.OrdMap.empty headers)
    HeaderField.kContentLength ((decimal sendBody.length).take 8)

/-- The packet is a first line, the header fields and the body, and the fields
have a length that is read back as the number of the body's bytes. -/
structure StatesSize (packet line : Bytes) (h : HeaderField) (body : Bytes) : Prop where
  packet_eq : packet = line ++ h.toBytes ++ body
  field : h.HasKey HeaderField.kContentLength
  length : h.contentLength = body.length

theorem statesSize_insert_iff {packet line body : Bytes} {h : HeaderField}
    (hpacket : packet = line ++ HeaderField.toBytes (HeaderField.insertOrUpdate h
      HeaderField.kContentLength ((decimal body.length).take 8)) ++ body) :
    StatesSize packet line (HeaderField.insertOrUpdate h HeaderField.kContentLength
      ((decimal body.length).take 8)) body ↔ body.length < 10 ^ 8 := by
  rw [← strtoul_take_decimal_eq_iff, ← HeaderField.contentLength_insert h]
  constructor
  · intro hstates
    exact hstates.length
  · intro hlength
    exact ⟨hpacket, HeaderField.hasKey_insert_self h _ _, hlength⟩

/-- **The stated length** is the size of the body exactly below 10⁸ bytes, in
requests and in responses, whatever fields the caller adds. -/
theorem statesSize_iff (host url : Bytes) (headers : Option HeaderField)
    (httpVer : THttpVersion) (respCode : Int) (statusDesc : Bytes)
    (fields : List (Bytes × Bytes)) (body : Bytes) :
    (StatesSize (Request.pack host url headers body)
        (RequestLine.toBytes ⟨.kPOST, url, .kHTTP_1_1⟩) (Request.packedHeaders host headers body)
        body ↔ body.length < 10 ^ 8) ∧
      (StatesSize (Response.pack httpVer respCode statusDesc fields (some body))
        (StatusLine.toBytes ⟨httpVer, respCode, statusDesc⟩) (Response.packedHeaders fields body)
        body ↔ body.length < 10 ^ 8) :=
  ⟨statesSize_insert_iff rfl, statesSize_insert_iff rfl⟩

/-- A body of 10⁸ bytes. -/
def hundredMillion : Bytes := List.replicate (10 ^ 8) 97

theorem not_statesSize_hundredMillion :
    ¬ StatesSize (Request.pack (lit "a") (lit "/") none hundredMillion)
        (RequestLine.toBytes ⟨.kPOST, lit "/", .kHTTP_1_1⟩)
        (Request.packedHeaders (lit "a") none hundredMillion) hundredMillion ∧
      ¬ StatesSize (Response.pack .kHTTP_1_1 200 StatusLine.kStatusDescOk [] (some hundredMillion))
        (StatusLine.toBytes ⟨.kHTTP_1_1, 200, StatusLine.kStatusDescOk⟩)
        (Response.packedHeaders [] hundredMillion) hundredMillion := by
  have hlen : ¬ hundredMillion.length < 10 ^ 8 := by
    unfold hundredMillion
    rw [List.length_replicate]
    exact Nat.lt_irrefl _
  constructor
  · intro h
    exact hlen ((statesSize_insert_iff h.packet_eq).1 h)
  · intro h
    exact hlen ((statesSize_insert_iff h.packet_eq).1 h)

/-! ## What the request parser accepts -/

/-- The text of the length field, as it was received. -/
def HeaderField.lengthText (h : HeaderField) : Option Bytes :=
  (h.entries.find? fun e => Str.cstr e.1 = kContentLength).map (·.2)

theorem HeaderField.contentLength_eq (h : HeaderField) :
    h.contentLength = (h.lengthText.map Str.strtoul).getD 0 := by
  unfold contentLength lengthText
  cases h.entries.find? fun e => Str.cstr e.1 = kContentLength with
  | none => rfl
  | some e => rfl

namespace Request

open Safety

/-- The header block begins behind the first CRLF, at `i`, and ends at the
first CRLFCRLF behind that, `j` bytes on. -/
structure BlockAt (input : Bytes) (i j : Nat) : Prop where
  line : Str.find HttpParser.crlf input = some i
  headers : Str.find HttpParser.crlfcrlf (input.drop (i + 2)) = some j

/-- The header fields of the block. -/
def fieldsAt (input : Bytes) (i j : Nat) : HeaderField :=
  (HeaderField.parseFromString Lib.OrdMap.empty ((input.drop (i + 2)).take j)).1

theorem BlockAt.add_le {input : Bytes} {i j : Nat} (h : BlockAt input i j) :
    i + 2 + j + 4 ≤ input.length := by
  have hline : i + 2 ≤ input.length := Str.find_add_le HttpParser.isLiteral_crlf.nonempty h.line
  have hheaders : j + 4 ≤ (input.drop (i + 2)).length :=
    Str.find_add_le HttpParser.isLiteral_crlfcrlf.nonempty h.headers
  rw [List.length_drop] at hheaders
  omega

theorem BlockAt.unique {input : Bytes} {i j i' j' : Nat} (h : BlockAt input i j)
    (h' : BlockAt input i' j') : i = i' ∧ j = j' := by
  have hi : i = i' := Option.some.inj (h.line.symm.trans h'.line)
  subst hi
  exact ⟨rfl, Option.some.inj (h.headers.symm.trans h'.headers)⟩

theorem find_crlf_append {b : Bytes} {i : Nat} (h : Str.find HttpParser.crlf b = some i)
    (c : Bytes) : Str.find HttpParser.crlf (b ++ c) = some i :=
  ((Str.find_prefix_iff HttpParser.isLiteral_crlf.nonempty (List.prefix_append b c) i).1 h).1

/-- Bytes behind the block do not move it. -/
theorem BlockAt.append {b : Bytes} {i j : Nat} (h : BlockAt b i j) (c : Bytes) :
    BlockAt (b ++ c) i j ∧ fieldsAt (b ++ c) i j = fieldsAt b i j := by
  have hlen := h.add_le
  have hdrop : (b ++ c).drop (i + 2) = b.drop (i + 2) ++ c :=
    List.drop_append_of_le_length (by omega)
  refine ⟨⟨find_crlf_append h.line c, ?_⟩, ?_⟩
  · rw [hdrop]
    exact ((Str.find_prefix_iff HttpParser.isLiteral_crlfcrlf.nonempty
      (List.prefix_append (b.drop (i + 2)) c) j).1 h.headers).1
  · unfold fieldsAt
    rw [hdrop, List.take_append_of_le_length (by rw [List.length_drop]; omega)]

/-! ### Where the header fields come from -/

/-- The parser has its header fields and both lengths from the block. -/
structure FromBlock (buf : Bytes) (p : Parser) (i j : Nat) : Prop where
  block : BlockAt buf i j
  firstLineLen : p.firstLineLen = i + 2
  headerLen : p.headerLen = j + 4
  headers : p.headers = fieldsAt buf i j

/-- What the parser has read in each position. -/
def Reads (buf : Bytes) (p : Parser) : Prop :=
  match p.position with
  | .kNone | .kFirstLine => p.headers = Lib.OrdMap.empty
  | .kHeaders => p.headers = Lib.OrdMap.empty ∧
      ∃ i, Str.find HttpParser.crlf buf = some i ∧ p.firstLineLen = i + 2
  | .kBody => ∃ i j, FromBlock buf p i j
  | .kEnd => (∃ i j, FromBlock buf p i j) ∧
      (p.firstLine.method ≠ .kGET → p.headers.contentLength ≠ 0)
  | .kError => True

theorem FromBlock.append {b : Bytes} {p : Parser} {i j : Nat} (h : FromBlock b p i j)
    (c : Bytes) : FromBlock (b ++ c) p i j := by
  obtain ⟨hblock, hfields⟩ := h.block.append c
  exact ⟨hblock, h.firstLineLen, h.headerLen, h.headers.trans hfields.symm⟩

theorem Reads.append {b : Bytes} {p : Parser} (h : Reads b p) (c : Bytes) : Reads (b ++ c) p := by
  unfold Reads at h ⊢
  cases hpos : p.position with
  | kNone =>
      rw [hpos] at h
      exact h
  | kFirstLine =>
      rw [hpos] at h
      exact h
  | kHeaders =>
      rw [hpos] at h
      obtain ⟨hempty, i, hfind, hlen⟩ := h
      exact ⟨hempty, i, find_crlf_append hfind c, hlen⟩
  | kBody =>
      rw [hpos] at h
      obtain ⟨i, j, hblock⟩ := h
      exact ⟨i, j, hblock.append c⟩
  | kEnd =>
      rw [hpos] at h
      obtain ⟨⟨i, j, hblock⟩, hlength⟩ := h
      exact ⟨⟨i, j, hblock.append c⟩, hlength⟩
  | kError => trivial

section Rounds

variable {buf : Bytes} {p : Parser}

theorem resolveFirstLine_reads (hpos : p.position = .kFirstLine)
    (hempty : p.headers = Lib.OrdMap.empty) :
    Reads buf (HttpParser.resolveFirstLine RequestLine.parseFromString buf p).1 := by
  unfold HttpParser.resolveFirstLine
  cases hscan : Str.strnstr buf HttpParser.crlf buf.length with
  | none => exact hempty
  | some off =>
      dsimp only
      unfold HttpParser.takeFirstLine
      split
      · exact ⟨hempty, off, Str.find_of_strnstr HttpParser.isLiteral_crlf hscan, rfl⟩
      · trivial
      · simp only [Reads, hpos]
        exact hempty

theorem resolveHeaders_reads (hinv : Inv buf p) (hpos : p.position = .kHeaders)
    (h : Reads buf p) : Reads buf (resolveHeaders buf p).1 := by
  have hplace := hinv.place
  simp only [Place, hpos] at hplace
  unfold resolveHeaders HttpParser.resolveHeaders
  cases hscan : Str.strnstr (buf.drop p.resolvedLen) HttpParser.crlfcrlf
      (buf.length - p.resolvedLen) with
  | none => exact h
  | some off =>
      simp only [Reads, hpos] at h
      obtain ⟨hempty, i, hfind, hlen⟩ := h
      rw [hplace, hlen] at hscan
      rw [← List.length_drop] at hscan
      have hblock : BlockAt buf i off :=
        ⟨hfind, Str.find_of_strnstr HttpParser.isLiteral_crlfcrlf hscan⟩
      dsimp only
      unfold HttpParser.takeHeaders
      rw [hplace, hlen, hempty]
      split
      · rename_i headers hparse
        have hheaderLen : i + 2 + off + 4 - (i + 2) = off + 4 := by omega
        have hfields : headers = fieldsAt buf i off := by
          unfold fieldsAt
          rw [hparse]
        unfold noteUpgrade
        dsimp only
        split
        · exact ⟨i, off, hblock, rfl, hheaderLen, hfields⟩
        · exact ⟨i, off, hblock, rfl, hheaderLen, hfields⟩
      · exact True.intro

/-- The body changes neither the fields nor the two lengths. -/
theorem resolveBody_reads (hpos : p.position = .kBody) (h : Reads buf p) :
    Reads buf (resolveBody buf p).1 := by
  have hbody := h
  simp only [Reads, hpos] at hbody
  obtain ⟨i, j, hfrom⟩ := hbody
  unfold resolveBody
  split
  · rename_i hget
    split
    · trivial
    · exact ⟨⟨i, j, hfrom.block, hfrom.firstLineLen, hfrom.headerLen, hfrom.headers⟩,
        fun hne => absurd hget hne⟩
  · unfold HttpParser.resolveBody
    dsimp only
    split
    · trivial
    · rename_i hlength
      split
      · trivial
      · split
        · exact ⟨⟨i, j, hfrom.block, hfrom.firstLineLen, hfrom.headerLen, hfrom.headers⟩,
            fun _ => hlength⟩
        · simp only [Reads, hpos]
          exact ⟨i, j, hfrom.block, hfrom.firstLineLen, hfrom.headerLen, hfrom.headers⟩

/-- **One round** reads from the block only. -/
theorem resolve_reads (hinv : Inv buf p) (h : Reads buf p) :
    Reads buf (HttpParser.resolve resolvers buf p).1 := by
  unfold HttpParser.resolve
  cases hpos : p.position with
  | kNone =>
      dsimp only
      split
      · simp only [Reads, hpos] at h
        exact resolveFirstLine_reads rfl h
      · exact h
  | kFirstLine =>
      simp only [Reads, hpos] at h
      exact resolveFirstLine_reads hpos h
  | kHeaders => exact resolveHeaders_reads hinv hpos h
  | kBody => exact resolveBody_reads hpos h
  | kEnd => exact h
  | kError => exact h

theorem loop_reads (n : Nat) (hinv : Inv buf p) (h : Reads buf p) :
    Reads buf (HttpParser.loop resolvers buf n p).1 := by
  induction n generalizing p with
  | zero => exact h
  | succ n ih =>
      have hround := resolve_reads hinv h
      have hkeeps := (resolve_keeps hinv).inv
      rw [HttpParser.loop]
      dsimp only
      split
      · exact hround
      · split
        · exact hround
        · split
          · exact hround
          · split
            · exact hround
            · exact ih hkeeps hround

theorem doParse_reads (hinv : Inv buf p) (h : Reads buf p) :
    Reads buf (Parser.doParse buf p).1 := by
  unfold Parser.doParse HttpParser.doParse
  split
  · exact h
  · split
    · exact h
    · exact loop_reads 4 hinv h

end Rounds

/-! ### Whole runs -/

theorem parseChunks_concat (pre : List Bytes) (last : Bytes) :
    parseChunks (pre ++ [last]) =
      (Parser.doParse (pre.flatten ++ last) (parseChunks pre)).1 := by
  unfold parseChunks
  rw [Lib.feed_concat, List.nil_append]

/-- **Every run** keeps the offsets in order and reads its header fields from
the block. -/
theorem reads_parseChunks (chunks : List Bytes) :
    Inv chunks.flatten (parseChunks chunks) ∧ Reads chunks.flatten (parseChunks chunks) := by
  induction chunks using List.reverseRecOn with
  | nil => exact ⟨inv_start, rfl⟩
  | append_singleton pre last ih =>
      obtain ⟨hinv, hreads⟩ := ih
      rw [parseChunks_concat, List.flatten_append, List.flatten_singleton]
      exact ⟨(post_doParse (hinv.append last)).inv,
        doParse_reads (hinv.append last) (hreads.append last)⟩

/-- What the parser has when a request other than GET has just ended. -/
theorem ended {pre : List Bytes} {last : Bytes} (hpre : (parseChunks pre).position ≠ .kEnd)
    (hend : (parseChunks (pre ++ [last])).position = .kEnd)
    (hmethod : (parseChunks (pre ++ [last])).firstLine.method ≠ .kGET) :
    ∃ i j, BlockAt (pre.flatten ++ last) i j ∧
      (parseChunks (pre ++ [last])).headers = fieldsAt (pre.flatten ++ last) i j ∧
      (fieldsAt (pre.flatten ++ last) i j).contentLength ≠ 0 ∧
      i + 2 + j + 4 + (fieldsAt (pre.flatten ++ last) i j).contentLength =
        (pre.flatten ++ last).length := by
  have hreads := (reads_parseChunks (pre ++ [last])).2
  simp only [Reads, hend, List.flatten_append, List.flatten_singleton] at hreads
  obtain ⟨⟨i, j, hfrom⟩, hpositive⟩ := hreads
  have hpost := post_doParse ((reads_parseChunks pre).1.append last)
  rw [parseChunks_concat] at hend hmethod hfrom hpositive ⊢
  have hlength := (hpost.ends hpre hend).length
  unfold bodyLen at hlength
  rw [if_neg hmethod, hfrom.headers, hfrom.firstLineLen, hfrom.headerLen] at hlength
  refine ⟨i, j, hfrom.block, hfrom.headers, ?_, ?_⟩
  · rw [← hfrom.headers]
    exact hpositive hmethod
  · rw [← hlength]
    omega

/-! ### Plain lengths -/

/-- The header fields state the number of bytes behind the header block by a
text of digits. -/
structure Unambiguous (input : Bytes) (headers : HeaderField) (text : Bytes) (i j : Nat) :
    Prop where
  block : BlockAt input i j
  field : headers.lengthText = some text
  nonempty : text ≠ []
  digits : ∀ d ∈ text, Str.isDigit d = true
  value : Str.digitsValue text = (input.drop (i + 2 + j + 4)).length

/-- The length text in the header block has only digits, and they stand for a
number below 2⁶⁴. -/
structure PlainLength (input : Bytes) (text : Bytes) (i j : Nat) : Prop where
  block : BlockAt input i j
  field : (fieldsAt input i j).lengthText = some text
  digits : ∀ d ∈ text, Str.isDigit d = true
  small : Str.digitsValue text < 2 ^ 64

theorem strtoul_nil : Str.strtoul [] = 0 := by decide

/-- **Accepted lengths.**  A request other than GET that has just ended states
the number of bytes behind its header block by a text of digits exactly when
the length text is plain. -/
theorem unambiguous_iff (pre : List Bytes) (last : Bytes)
    (hpre : (parseChunks pre).position ≠ .kEnd)
    (hend : (parseChunks (pre ++ [last])).position = .kEnd)
    (hmethod : (parseChunks (pre ++ [last])).firstLine.method ≠ .kGET) :
    (∃ text i j, Unambiguous (pre.flatten ++ last) (parseChunks (pre ++ [last])).headers text i j) ↔
      ∃ text i j, PlainLength (pre.flatten ++ last) text i j := by
  obtain ⟨i, j, hblock, hheaders, hpositive, hlength⟩ := ended hpre hend hmethod
  have hbehind : ((pre.flatten ++ last).drop (i + 2 + j + 4)).length =
      (fieldsAt (pre.flatten ++ last) i j).contentLength := by
    rw [List.length_drop]
    omega
  rw [hheaders]
  constructor
  · rintro ⟨text, i', j', h⟩
    obtain ⟨rfl, rfl⟩ := hblock.unique h.block
    refine ⟨text, i, j, hblock, h.field, h.digits, ?_⟩
    have hvalue := h.value
    rw [hbehind, HeaderField.contentLength_eq, h.field, Option.map_some, Option.getD_some,
      strtoul_digits_eq h.digits] at hvalue
    split at hvalue
    · omega
    · omega
  · rintro ⟨text, i', j', h⟩
    obtain ⟨rfl, rfl⟩ := hblock.unique h.block
    have hread : (fieldsAt (pre.flatten ++ last) i j).contentLength = Str.strtoul text := by
      rw [HeaderField.contentLength_eq, h.field, Option.map_some, Option.getD_some]
    refine ⟨text, i, j, hblock, h.field, ?_, h.digits, ?_⟩
    · intro hnil
      rw [hread, hnil, strtoul_nil] at hpositive
      exact hpositive rfl
    · rw [hbehind, hread, strtoul_digits h.digits h.small]

/-- A request with the length text `text` and a body of one byte. -/
def postWithLength (text : Bytes) : Bytes :=
  lit "POST / HTTP/1.1\r\nHost: a\r\nContent-Length: " ++ text ++ lit "\r\n\r\nx"

theorem unambiguous_one :
    ∃ text i j, Unambiguous (postWithLength (lit "1"))
      (parseChunks [postWithLength (lit "1")]).headers text i j := by
  refine (unambiguous_iff [] (postWithLength (lit "1")) (by decide) (by decide +kernel)
    (by decide +kernel)).2 ⟨lit "1", 15, 26, ⟨?_, ?_⟩, ?_, ?_, ?_⟩
  · decide +kernel
  · decide +kernel
  · decide +kernel
  · decide +kernel
  · decide +kernel

/-- A sign is accepted. -/
theorem not_unambiguous_plusOne :
    (parseChunks []).position ≠ .kEnd ∧
      (parseChunks [postWithLength (lit "+1")]).position = .kEnd ∧
      (parseChunks [postWithLength (lit "+1")]).firstLine.method ≠ .kGET ∧
      ¬ ∃ text i j, Unambiguous (postWithLength (lit "+1"))
        (parseChunks [postWithLength (lit "+1")]).headers text i j := by
  have hfield : (parseChunks [postWithLength (lit "+1")]).headers.lengthText =
      some (lit "+1") := by decide +kernel
  refine ⟨by decide, by decide +kernel, by decide +kernel, ?_⟩
  rintro ⟨text, i, j, h⟩
  have htext : text = lit "+1" := Option.some.inj (h.field.symm.trans hfield)
  have hsign := h.digits 43 (by rw [htext]; decide)
  exact absurd hsign (by decide)

end Request

end Http

end Unixtar
