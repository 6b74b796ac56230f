import Unixtar.Http.RequestRoundTrip

/-!
# Header blocks

What the parser makes of the text of header fields, and of a GET request, which
ends with it.  `str::split` finds no piece in a text without a separator, so a
single field is lost; and the end of the fields is looked for behind the CRLF
of the first line, so without a field there is none.

## Main results

* `take_toBytes` — the text of header fields without its CRLFCRLF.
* `loop_of_blank`, `loop_of_fields` — where a GET request without and with
  header lines leads.
-/

namespace Unixtar.Http

/-! ## The text of header fields -/

namespace HeaderField

/-- The header text without its last CRLFCRLF. -/
theorem take_toBytes {h : HeaderField} (hne : h.entries ≠ []) :
    h.toBytes.take (h.toBytes.length - 4) = blockText h.entries := by
  have hlen : h.toBytes.length - 4 = h.text.length := by
    rw [toBytes_eq hne, List.length_append]
    show h.text.length + 4 - 4 = h.text.length
    omega
  rw [hlen, toBytes_eq hne, List.take_left]
  rfl

/-- **Header fields come back** from their text exactly when there is not just
one of them. -/
theorem parseFromString_toBytes_iff (h : HeaderField) (hne : h.entries ≠ [])
    (hclean : ∀ e ∈ h.entries, CleanEntry e) :
    parseFromString Lib.OrdMap.empty (h.toBytes.take (h.toBytes.length - 4)) = (h, true) ↔
      h.entries.length ≠ 1 := by
  rw [take_toBytes hne, parseFromString_lines _ hne hclean]
  constructor
  · intro heq hone
    rw [if_pos hone] at heq
    have hentries := congrArg (fun r => r.1.entries) heq
    exact hne hentries.symm
  · intro hone
    rw [if_neg hone]
    exact congrArg (·, true) (Lib.OrdMap.foldl_insert_entries h)

/-- The fields `Host: a` and `Via: b`. -/
def hostVia : HeaderField :=
  insertOrUpdate (insertOrUpdate Lib.OrdMap.empty kHost (lit "a")) (lit "Via") (lit "b")

theorem parseFromString_hostVia :
    parseFromString Lib.OrdMap.empty (hostVia.toBytes.take (hostVia.toBytes.length - 4)) =
      (hostVia, true) :=
  (parseFromString_toBytes_iff hostVia (by decide)
    (fun e he => by revert e; unfold CleanEntry; decide +kernel)).2 (by decide)

/-- The field `Host: a` alone. -/
theorem parseFromString_host :
    (insertOrUpdate Lib.OrdMap.empty kHost (lit "a")).entries ≠ [] ∧
      (∀ e ∈ (insertOrUpdate Lib.OrdMap.empty kHost (lit "a")).entries, CleanEntry e) ∧
      parseFromString Lib.OrdMap.empty
          ((insertOrUpdate Lib.OrdMap.empty kHost (lit "a")).toBytes.take
            ((insertOrUpdate Lib.OrdMap.empty kHost (lit "a")).toBytes.length - 4)) ≠
        (insertOrUpdate Lib.OrdMap.empty kHost (lit "a"), true) :=
  ⟨by decide, fun e he => by revert e; unfold CleanEntry; decide +kernel, by decide⟩

end HeaderField

namespace Request

/-! ## GET requests -/

/-- The request line of a GET request, without its CRLF. -/
def getLine (url : Bytes) : Bytes := lit "GET" ++ lit " " ++ url ++ lit " " ++ lit "HTTP/1.1"

/-- The header lines, each with its CRLF, and the blank line. -/
def headerLines (fields : List (Bytes × Bytes)) : Bytes :=
  fields.flatMap (fun e => e.1 ++ lit ": " ++ e.2 ++ lit "\r\n") ++ lit "\r\n"

/-- A GET request. -/
def getRequest (url : Bytes) (fields : List (Bytes × Bytes)) : Bytes :=
  getLine url ++ (lit "\r\n" ++ headerLines fields)

/-- The scan for the request line, and the scan for the end of the header
lines, reach it. -/
structure GetReached (url : Bytes) (fields : List (Bytes × Bytes)) : Prop where
  line : Str.Reaches (getRequest url fields).length ((getLine url).length + 2)
  headers : Str.Reaches (headerLines fields).length (headerLines fields).length

/-- A request below 2³² bytes. -/
theorem getReached_of_lt {url : Bytes} {fields : List (Bytes × Bytes)}
    (h : (getRequest url fields).length < 2 ^ 32) : GetReached url fields := by
  have hlen : (getRequest url fields).length =
      (getLine url).length + (2 + (headerLines fields).length) := by
    rw [getRequest, List.length_append, List.length_append]
    rfl
  exact ⟨Str.reaches_of_lt h (by omega), Str.reaches_of_lt (by omega) (Nat.le_refl _)⟩

/-- The parser behind the request line. -/
def behindGetLine (url : Bytes) : Parser :=
  behindLine RequestLine.init ⟨.kGET, url, .kHTTP_1_1⟩ (getLine url)

section Get

variable {url : Bytes} {fields : List (Bytes × Bytes)}

theorem parseFromString_getLine (hurl : CleanUrl url) :
    RequestLine.init.parseFromString (getLine url) = (⟨.kGET, url, .kHTTP_1_1⟩, .accepted) :=
  parseFromString_line .kGET .kHTTP_1_1 hurl

theorem headerLines_eq (hne : fields ≠ []) :
    headerLines fields = HeaderField.blockText fields ++ (HttpParser.crlfcrlf ++ []) := by
  unfold headerLines
  rw [HeaderField.flatMap_lines fields hne, List.append_assoc, List.append_nil]
  rfl

theorem noNul_headerLines (hfields : ∀ e ∈ fields, CleanEntry e) : 0 ∉ headerLines fields := by
  unfold headerLines
  rw [List.mem_append, not_or]
  refine ⟨?_, by decide⟩
  rw [List.mem_flatMap]
  rintro ⟨e, he, hmem⟩
  have hclean := hfields e he
  rw [List.mem_append] at hmem
  rcases hmem with hmem | hmem
  · exact HeaderField.not_mem_line hclean.1.noNul hclean.2.noNul (by decide) hmem
  · exact absurd hmem (by decide)

theorem noNul_getRequest (hurl : CleanUrl url) (hfields : ∀ e ∈ fields, CleanEntry e) :
    0 ∉ getRequest url fields := by
  have hline : 0 ∉ getLine url := by
    simp only [getLine, List.mem_append, not_or]
    exact ⟨⟨⟨⟨by decide, by decide⟩, hurl.noNul⟩, by decide⟩, by decide⟩
  simp only [getRequest, List.mem_append, not_or]
  exact ⟨hline, by decide, noNul_headerLines hfields⟩

/-- The bytes behind the request line. -/
theorem drop_getRequest :
    (getRequest url fields).drop (behindGetLine url).resolvedLen = headerLines fields := by
  show (getLine url ++ (lit "\r\n" ++ headerLines fields)).drop ((getLine url).length + 2) = _
  rw [← List.append_assoc]
  exact List.drop_left' (by rw [List.length_append]; rfl)

theorem getRequest_ne_nil : getRequest url fields ≠ [] := by
  intro hnil
  simp only [getRequest, List.append_eq_nil_iff] at hnil
  exact absurd hnil.2.1 (by decide)

/-- The first round. -/
theorem resolve_getRequest (hurl : CleanUrl url) (hfields : ∀ e ∈ fields, CleanEntry e) :
    HttpParser.resolve resolvers (getRequest url fields) Parser.fresh =
      if Str.Reaches (getRequest url fields).length ((getLine url).length + 2)
        then (behindGetLine url, .success)
        else ({ Parser.fresh with position := .kFirstLine }, .failure) := by
  have hcr : 13 ∉ getLine url := by
    simp only [getLine, List.mem_append, not_or]
    exact ⟨⟨⟨⟨by decide, by decide⟩, hurl.noCr⟩, by decide⟩, by decide⟩
  have hscan := strnstr_crlf hcr (headerLines fields)
  have hfirst : HttpParser.resolve resolvers (getRequest url fields) Parser.fresh =
      HttpParser.resolveFirstLine RequestLine.parseFromString (getRequest url fields)
        { Parser.fresh with position := .kFirstLine } := resolve_init rfl getRequest_ne_nil
  have htake : (getRequest url fields).take (getLine url).length = getLine url := List.take_left
  change Str.strnstr (getRequest url fields) HttpParser.crlf (getRequest url fields).length =
    if Str.Reaches (Str.strlen (getRequest url fields)) _ then _ else _ at hscan
  rw [Str.strlen_of_nulFree (noNul_getRequest hurl hfields)] at hscan
  rw [hfirst, HttpParser.resolveFirstLine, hscan]
  by_cases hreach : Str.Reaches (getRequest url fields).length ((getLine url).length + 2)
  · rw [if_pos hreach, if_pos hreach]
    have hparse : RequestLine.parseFromString Parser.fresh.firstLine (getLine url) = _ :=
      parseFromString_getLine hurl
    simp only [HttpParser.takeFirstLine, htake, hparse]
    rfl
  · rw [if_neg hreach, if_neg hreach]
    rfl

/-- The header lines as `_ResolveHeaders` scans them. -/
theorem resolveHeaders_of_missed
    (h : Str.strnstr (headerLines fields) HttpParser.crlfcrlf (headerLines fields).length = none) :
    HttpParser.resolveHeaders (getRequest url fields) (behindGetLine url) =
      (behindGetLine url, .failure) := by
  unfold HttpParser.resolveHeaders
  rw [← List.length_drop, drop_getRequest, h]

theorem resolveHeaders_of_found (url : Bytes) (hne : fields ≠ [])
    (hfields : ∀ e ∈ fields, CleanEntry e)
    (h : Str.strnstr (headerLines fields) HttpParser.crlfcrlf (headerLines fields).length =
      some (HeaderField.blockText fields).length) :
    ∃ headers headerLen, HttpParser.resolveHeaders (getRequest url fields) (behindGetLine url) =
      ({ behindGetLine url with
          headers, headerLen, position := .kBody
          resolvedLen := (getRequest url fields).length }, .success) := by
  have htake : ((getRequest url fields).drop (behindGetLine url).resolvedLen).take
      (HeaderField.blockText fields).length = HeaderField.blockText fields := by
    rw [drop_getRequest, headerLines_eq hne, List.take_left]
  have htotal : (getRequest url fields).length =
      (behindGetLine url).resolvedLen + (HeaderField.blockText fields).length + 4 := by
    rw [getRequest, headerLines_eq hne, List.length_append, List.length_append,
      List.length_append]
    show (getLine url).length + (2 + (_ + 4)) = (getLine url).length + 2 + _ + 4
    omega
  unfold HttpParser.resolveHeaders
  rw [← List.length_drop, drop_getRequest, h]
  simp only [HttpParser.takeHeaders, htake, HeaderField.parseFromString_lines _ hne hfields,
    htotal]
  exact ⟨_, _, rfl⟩

/-- Behind a request line without header lines one CRLF is left, which is no
CRLFCRLF. -/
theorem loop_of_blank (n : Nat) :
    (HttpParser.loop resolvers (getRequest url []) (n + 1) (behindGetLine url)).1.position =
      .kHeaders := by
  have hround : HttpParser.resolve resolvers (getRequest url []) (behindGetLine url) =
      noteUpgrade (HttpParser.resolveHeaders (getRequest url []) (behindGetLine url)) := rfl
  rw [resolveHeaders_of_missed (by decide)] at hround
  rw [HttpParser.loop_fst_of_last hround (Or.inl (by decide))]
  rfl

/-- A GET request ends when nothing is left behind its header lines. -/
theorem resolve_of_getBody {buf : Bytes} {q : Parser} (hpos : q.position = .kBody)
    (hmethod : q.firstLine.method = .kGET) (hresolved : q.resolvedLen = buf.length) :
    HttpParser.resolve resolvers buf q = ({ q with position := .kEnd }, .success) := by
  have hbody : HttpParser.resolve resolvers buf q = Request.resolveBody buf q := by
    unfold HttpParser.resolve
    rw [hpos]
    rfl
  have hnone : ¬ buf.length - q.resolvedLen > 0 := by omega
  rw [hbody, Request.resolveBody, if_pos hmethod, if_neg hnone]

/-- Behind header lines the request ends, if the scan reaches their end. -/
theorem loop_of_fields (hne : fields ≠ []) (hfields : ∀ e ∈ fields, CleanEntry e) (n : Nat) :
    (HttpParser.loop resolvers (getRequest url fields) (n + 2) (behindGetLine url)).1.position =
      if Str.Reaches (headerLines fields).length (headerLines fields).length then .kEnd
      else .kHeaders := by
  have hlen : (headerLines fields).length = (HeaderField.blockText fields).length + 4 := by
    rw [headerLines_eq hne, List.length_append]
    rfl
  have hscan := strnstr_crlfcrlf hfields []
  rw [← headerLines_eq hne, Str.strlen_of_nulFree (noNul_headerLines hfields), ← hlen] at hscan
  have hround : HttpParser.resolve resolvers (getRequest url fields) (behindGetLine url) =
      noteUpgrade (HttpParser.resolveHeaders (getRequest url fields) (behindGetLine url)) := rfl
  by_cases hreach : Str.Reaches (headerLines fields).length (headerLines fields).length
  · rw [if_pos hreach] at hscan ⊢
    obtain ⟨headers, headerLen, hheaders⟩ :=
      resolveHeaders_of_found url hne hfields hscan
    obtain ⟨upgrade, hupgrade⟩ :=
      noteUpgrade_eq (HttpParser.resolveHeaders (getRequest url fields) (behindGetLine url))
    rw [hupgrade, hheaders] at hround
    rw [HttpParser.loop_of_success hround (fun hf => by cases hf) (fun hf => by cases hf),
      HttpParser.loop_fst_of_last (resolve_of_getBody rfl rfl rfl) (Or.inr (Or.inl rfl))]
  · rw [if_neg hreach] at hscan ⊢
    rw [resolveHeaders_of_missed hscan] at hround
    rw [HttpParser.loop_fst_of_last hround (Or.inl (by decide))]
    rfl

/-- **GET requests.**  One call of `DoParse` on a complete GET request brings a
fresh parser to `kEnd` exactly when there is a header line and both scans
reach their ends. -/
theorem getRequest_isEnd_iff (url : Bytes) (hurl : CleanUrl url)
    (fields : List (Bytes × Bytes)) (hfields : ∀ e ∈ fields, CleanEntry e) :
    (Parser.doParse (getRequest url fields) Parser.fresh).1.position = .kEnd ↔
      fields ≠ [] ∧ GetReached url fields := by
  have hround := resolve_getRequest hurl hfields
  unfold Parser.doParse
  rw [show Parser.fresh = HttpParser.init RequestLine.init from rfl] at hround ⊢
  rw [doParse_init getRequest_ne_nil]
  by_cases hline : Str.Reaches (getRequest url fields).length ((getLine url).length + 2)
  · rw [if_pos hline] at hround
    rw [HttpParser.loop_of_success hround (by simp [behindGetLine, behindLine])
      (by simp [behindGetLine, behindLine])]
    by_cases hne : fields = []
    · subst hne
      rw [loop_of_blank 2]
      exact iff_of_false (by decide) (fun h => h.1 rfl)
    · rw [loop_of_fields hne hfields 1]
      by_cases hreach : Str.Reaches (headerLines fields).length (headerLines fields).length
      · rw [if_pos hreach]
        exact iff_of_true rfl ⟨hne, hline, hreach⟩
      · rw [if_neg hreach]
        exact iff_of_false (by decide) (fun h => hreach h.2.headers)
  · rw [if_neg hline] at hround
    rw [HttpParser.loop_fst_of_last hround (Or.inl (by decide))]
    refine iff_of_false ?_ (fun h => hline h.2.line)
    show ¬ TPosition.kFirstLine = .kEnd
    decide

end Get

/-- `GET / HTTP/1.1` with the one header line `Host: a`. -/
theorem getRequest_isEnd_host :
    (Parser.doParse (getRequest (lit "/") [(lit "Host", lit "a")]) Parser.fresh).1.position =
      .kEnd :=
  (getRequest_isEnd_iff (lit "/")
    ⟨by decide, by decide, by decide, by decide, by decide⟩ [(lit "Host", lit "a")]
    (fun e he => by revert e; unfold CleanEntry; decide +kernel)).2
    ⟨by decide, getReached_of_lt (by decide)⟩

/-- `GET / HTTP/1.1` without header lines. -/
theorem getRequest_not_isEnd_blank :
    getRequest (lit "/") [] = lit "GET / HTTP/1.1\r\n\r\n" ∧
      (Parser.doParse (getRequest (lit "/") []) Parser.fresh).1.position ≠ .kEnd :=
  ⟨by decide, by decide⟩

end Request

end Unixtar.Http
