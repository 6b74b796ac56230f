import Unixtar.Http.Encoding
import Unixtar.Http.HttpRequest

/-!
# Requests: encoding and decoding

What `request::Pack` writes is read back by a fresh `request::Parser` with one
call of `DoParse`, as long as the `int` of `strnstr` does not hide an end.

## Main result

* `roundTrips_iff_endsReached`
-/

namespace Unixtar.Http.Request

/-- A url that can stand in a request line. -/
structure CleanUrl (url : Bytes) : Prop where
  nonempty : url ≠ []
  noSpace : 32 ∉ url
  noCr : 13 ∉ url
  noLf : 10 ∉ url
  noNul : 0 ∉ url

/-- The request line of a packed request, without its CRLF. -/
def packedLine (url : Bytes) : Bytes :=
  lit "POST" ++ lit " " ++ url ++ lit " " ++ lit "HTTP/1.1"

theorem length_packedLine (url : Bytes) : (packedLine url).length = url.length + 14 := by
  have hmethod : (lit "POST").length = 4 := by decide
  have hspace : (lit " ").length = 1 := by decide
  have hversion : (lit "HTTP/1.1").length = 8 := by decide
  simp only [packedLine, List.length_append, hmethod, hspace, hversion]
  omega

/-- A fresh parser gives the packed request back. -/
structure RoundTrips (host url : Bytes) (headers : Option HeaderField) (body : Bytes) : Prop where
  decoded : Decoded ⟨.kPOST, url, .kHTTP_1_1⟩ (packedHeaders host headers body) body
    (Parser.doParse (pack host url headers body) Parser.fresh).1
  contentLength : HeaderField.contentLength
    (Parser.doParse (pack host url headers body) Parser.fresh).1.headers = body.length

/-! ## The two halves fit -/

theorem pack_eq_encode (host url : Bytes) (headers : Option HeaderField) (body : Bytes) :
    pack host url headers body =
      encode (packedLine url) (packedHeaders host headers body) body := by
  have hline : RequestLine.toBytes ⟨.kPOST, url, .kHTTP_1_1⟩ =
      packedLine url ++ HttpParser.crlf := by
    have hmethod : method2string .kPOST = lit "POST" := rfl
    have hversion : version2string .kHTTP_1_1 = lit "HTTP/1.1" := rfl
    simp only [RequestLine.toBytes, packedLine, hmethod, hversion, HttpParser.crlf]
  unfold pack encode
  rw [hline, List.append_assoc, List.append_assoc]

/-- A request line is read back, whatever its method and version. -/
theorem parseFromString_line (method : THttpMethod) (version : THttpVersion) {url : Bytes}
    (hurl : CleanUrl url) :
    RequestLine.init.parseFromString
        (method2string method ++ lit " " ++ url ++ lit " " ++ version2string version) =
      (⟨method, url, version⟩, .accepted) := by
  have hmethod := method2string_spec method
  have hversion := version2string_spec version
  have hsplit := split_words hmethod.1 ⟨hurl.nonempty, hurl.noSpace⟩ hversion.1
  unfold RequestLine.parseFromString
  simp only [List.append_assoc, hsplit, hmethod.2, hversion.2]

theorem parseFromString_packedLine {url : Bytes} (hurl : CleanUrl url) :
    RequestLine.init.parseFromString (packedLine url) =
      (⟨.kPOST, url, .kHTTP_1_1⟩, .accepted) :=
  parseFromString_line .kPOST .kHTTP_1_1 hurl

/-- `Pack` inserts the length behind everything else. -/
theorem packedHeaders_eq (host : Bytes) (headers : Option HeaderField) {body : Bytes}
    (hbody : body.length < 10 ^ 8) :
    packedHeaders host headers body =
      HeaderField.insertOrUpdate
        (HeaderField.insertAll
          (HeaderField.insertOrUpdate
            (HeaderField.insertOrUpdate Lib.OrdMap.empty HeaderField.kHost host)
            HeaderField.kConnection HeaderField.kConnectionClose)
          ((headers.map (·.entries)).getD []))
        HeaderField.kContentLength (decimal body.length) := by
  unfold packedHeaders
  rw [take_decimal (by decide) hbody]
  cases headers with
  | none => rfl
  | some headers => rfl

/-- The parts of the request that the caller gives. -/
structure CleanRequest (host url : Bytes) (headers : Option HeaderField) (body : Bytes) :
    Prop where
  host : CleanField host
  url : CleanUrl url
  headers : ∀ h ∈ headers, ∀ e ∈ h.entries, CleanEntry e
  nonempty : 1 ≤ body.length
  short : body.length ≤ 99999999

theorem encodes_pack {host url : Bytes} {headers : Option HeaderField} {body : Bytes}
    (h : CleanRequest host url headers body) :
    Encodes RequestLine.parseFromString RequestLine.init ⟨.kPOST, url, .kHTTP_1_1⟩
      (packedLine url) (packedHeaders host headers body) body := by
  have hshort : body.length < 10 ^ 8 := Nat.lt_of_le_of_lt h.short (by decide)
  have hgiven : ∀ e ∈ (headers.map (·.entries)).getD [], CleanEntry e := by
    cases headers with
    | none => exact fun e he => absurd he List.not_mem_nil
    | some headers => exact h.headers headers rfl
  have hdefaults := HeaderField.clean_insert
    (HeaderField.clean_insert (h := Lib.OrdMap.empty) (fun e he => absurd he List.not_mem_nil)
      (show CleanField HeaderField.kHost by decide +kernel) h.host)
    (show CleanField HeaderField.kConnection by decide +kernel)
    (show CleanField HeaderField.kConnectionClose by decide +kernel)
  have hbefore := HeaderField.clean_insertAll _ hgiven hdefaults
  rw [packedHeaders_eq host headers hshort]
  constructor
  · simp only [packedLine, List.mem_append, not_or]
    exact ⟨⟨⟨⟨by decide, by decide⟩, h.url.noCr⟩, by decide⟩, by decide⟩
  · simp only [packedLine, List.mem_append, not_or]
    exact ⟨⟨⟨⟨by decide, by decide⟩, h.url.noNul⟩, by decide⟩, by decide⟩
  · exact parseFromString_packedLine h.url
  · exact HeaderField.clean_insert hbefore (by decide +kernel) (cleanField_decimal _)
  · apply HeaderField.two_le_of_hasKey (show HeaderField.kConnection ≠ HeaderField.kContentLength
      by decide)
    · exact ((HeaderField.hasKey_insert_self _ _ _).insertAll _).insert _ _
    · exact HeaderField.hasKey_insert_self _ _ _
  · rw [HeaderField.contentLength_insert]
    exact strtoul_decimal (by omega)

/-- The request parser adds at most its flag to what the base class makes of
the header fields. -/
theorem noteUpgrade_eq (m : Parser × Resolved) :
    ∃ upgrade, noteUpgrade m = ({ m.1 with isUpgradeToWs := upgrade }, m.2) := by
  obtain ⟨q, res⟩ := m
  cases res with
  | success =>
      by_cases hupgrade : HeaderField.isConnectionUpgrade q.headers = true
      · exact ⟨true, by simp [noteUpgrade, hupgrade]⟩
      · exact ⟨q.isUpgradeToWs, by simp [noteUpgrade, hupgrade]⟩
  | failure => exact ⟨q.isUpgradeToWs, rfl⟩
  | thrown => exact ⟨q.isUpgradeToWs, rfl⟩

/-- A POST request is parsed as the base class does. -/
theorem plain_resolvers (url : Bytes) :
    resolvers.Plain RequestLine.parseFromString ⟨.kPOST, url, .kHTTP_1_1⟩ where
  firstLine := rfl
  headers := fun buf p => noteUpgrade_eq (HttpParser.resolveHeaders buf p)
  body := by
    intro buf p hp
    show resolveBody buf p = _
    unfold resolveBody
    rw [if_neg (by rw [hp]; exact THttpMethod.noConfusion)]

/-! ## Main theorem -/

/-- **A packed request comes back** exactly when both scans of the parser
reach the ends they look for. -/
theorem roundTrips_iff_endsReached (host url : Bytes) (headers : Option HeaderField)
    (body : Bytes) (h : CleanRequest host url headers body) :
    RoundTrips host url headers body ↔
      EndsReached (packedLine url) (packedHeaders host headers body) body := by
  have henc := encodes_pack h
  have hne : body ≠ [] := List.ne_nil_of_length_pos h.nonempty
  have hiff : Decoded ⟨.kPOST, url, .kHTTP_1_1⟩ (packedHeaders host headers body) body
      (Parser.doParse (pack host url headers body) Parser.fresh).1 ↔
        body ≠ [] ∧ EndsReached (packedLine url) (packedHeaders host headers body) body := by
    rw [pack_eq_encode]
    exact decodes_iff (plain_resolvers url) henc
  constructor
  · intro hround
    exact (hiff.1 hround.decoded).2
  · intro hends
    have hdecoded := hiff.2 ⟨hne, hends⟩
    refine ⟨hdecoded, ?_⟩
    rw [hdecoded.headers]
    exact henc.length

/-! ## Four gigabytes -/

theorem position_of_pack_missed {host url : Bytes} {headers : Option HeaderField} {body : Bytes}
    (h : CleanRequest host url headers body)
    (hmiss : ¬ Str.Reaches ((packedLine url).length + 2 +
      (packedHeaders host headers body).toBytes.length + Str.strlen body)
      ((packedLine url).length + 2)) :
    (Parser.doParse (pack host url headers body) Parser.fresh).1.position = .kFirstLine := by
  have hstuck := position_of_line_missed (plain_resolvers url) (encodes_pack h) hmiss
  unfold Parser.doParse Parser.fresh
  rw [pack_eq_encode, hstuck]

/-- A small request. -/
theorem roundTrips_small :
    RoundTrips (lit "h") (lit "/a") none (lit "\r\n\r\nx") := by
  have hclean : CleanRequest (lit "h") (lit "/a") none (lit "\r\n\r\nx") :=
    ⟨by decide +kernel, ⟨by decide, by decide, by decide, by decide, by decide⟩,
      fun _ hnone => (by cases hnone), by decide, by decide⟩
  exact (roundTrips_iff_endsReached _ _ _ _ hclean).2 (endsReached_of_lt (by decide +kernel))

/-- A url that makes the packed request 2³² bytes long. -/
def longUrl : Bytes := List.replicate 4294967230 97

theorem length_longUrl : longUrl.length = 4294967230 := List.length_replicate

theorem cleanUrl_longUrl : CleanUrl longUrl where
  nonempty := List.ne_nil_of_length_pos (by rw [length_longUrl]; decide)
  noSpace h := absurd (List.eq_of_mem_replicate h) (by decide)
  noCr h := absurd (List.eq_of_mem_replicate h) (by decide)
  noLf h := absurd (List.eq_of_mem_replicate h) (by decide)
  noNul h := absurd (List.eq_of_mem_replicate h) (by decide)

theorem not_roundTrips_longUrl :
    CleanRequest (lit "h") longUrl none (lit "x") ∧
      ¬ RoundTrips (lit "h") longUrl none (lit "x") := by
  have hclean : CleanRequest (lit "h") longUrl none (lit "x") :=
    ⟨by decide +kernel, cleanUrl_longUrl, fun _ hnone => (by cases hnone), by decide, by decide⟩
  refine ⟨hclean, fun hround => ?_⟩
  have hlen : (packedLine longUrl).length + 2 +
      (packedHeaders (lit "h") none (lit "x")).toBytes.length + Str.strlen (lit "x") = 2 ^ 32 := by
    have hline : (packedLine longUrl).length = 4294967244 := by
      rw [length_packedLine, length_longUrl]
    have hheaders : (packedHeaders (lit "h") none (lit "x")).toBytes.length = 49 := by
      decide +kernel
    have hbody : Str.strlen (lit "x") = 1 := by decide
    omega
  have hmiss : ¬ Str.Reaches ((packedLine longUrl).length + 2 +
      (packedHeaders (lit "h") none (lit "x")).toBytes.length + Str.strlen (lit "x"))
      ((packedLine longUrl).length + 2) := by
    rw [hlen]
    intro hreach
    exact absurd (Nat.le_trans (Nat.le_add_left 2 _) hreach) (by decide)
  have hend := hround.decoded.isEnd.symm.trans (position_of_pack_missed hclean hmiss)
  cases hend

end Unixtar.Http.Request
