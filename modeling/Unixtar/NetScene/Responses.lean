import Unixtar.Http.Encoding
import Unixtar.Http.HttpResponse

/-!
# The responses of a web server: `netscene/netscenedispatcher.cc`

The three places of `NetSceneWorker` that build an HTTP response, and what the
response parser of the reverse proxy makes of them.  A response without a body
text is announced with the length 0, which the parser takes for an error.

The serialised message of `HandleOverload` comes from generated code and is an
argument.

## Main result

* `understood_iff_nonempty`
-/

namespace Unixtar.NetScene

open Unixtar.Http

/-- What `PackHttpRespPacket` asks a scene for. -/
structure NetSceneBase where
  customHttpHeaders : HeaderField
  isUseProtobuf : Bool
  contentType : Bytes
  respBuffer : Bytes

/-- A response, as the three functions hand it to `http::response::Pack`. -/
structure HttpResp where
  respCode : Int
  headers : HeaderField
  sendBody : Bytes

namespace HttpResp

/-- The bytes in the return packet. -/
def bytes (r : HttpResp) : Bytes :=
  Response.pack .kHTTP_1_1 r.respCode StatusLine.kStatusDescOk r.headers.entries (some r.sendBody)

/-- The header fields that `Pack` builds. -/
def packedHeaders (r : HttpResp) : HeaderField :=
  HeaderField.insertOrUpdate (HeaderField.insertAll Lib.OrdMap.empty r.headers.entries)
    HeaderField.kContentLength ((decimal r.sendBody.length).take 8)

end HttpResp

/-- `PackHttpRespPacket`. -/
def packHttpRespPacket (scene : NetSceneBase) : HttpResp :=
  let headers := HeaderField.insertOrUpdate scene.customHttpHeaders HeaderField.kContentType
    (if scene.isUseProtobuf then HeaderField.kOctetStream else scene.contentType)
  { respCode := 200
    headers := HeaderField.insertOrUpdate headers HeaderField.kConnection
      HeaderField.kConnectionClose
    sendBody := scene.respBuffer }

/-- `HandleNetSceneException`. -/
def handleNetSceneException : HttpResp :=
  { respCode := 500
    headers := HeaderField.insertOrUpdate Lib.OrdMap.empty HeaderField.kConnection
      HeaderField.kConnectionClose
    sendBody := lit "Unixtar encounters an exception during handling net scene." }

/-- The HTTP branch of `HandleOverload`, with the serialised message. -/
def handleOverload (isMethodPost : Bool) (resp : Bytes) : HttpResp :=
  { respCode := 200
    headers := HeaderField.insertOrUpdate Lib.OrdMap.empty HeaderField.kContentType
      (if isMethodPost then HeaderField.kOctetStream else HeaderField.kTextPlain)
    sendBody := if isMethodPost then resp else lit "Unixtar is busy now" }

/-- The responses a web server builds, for scenes whose header fields can
stand in header lines. -/
inductive Produced : HttpResp → Prop
  | packHttpRespPacket (scene : NetSceneBase)
      (hheaders : ∀ e ∈ scene.customHttpHeaders.entries, CleanEntry e)
      (hcontentType : CleanField scene.contentType) : Produced (packHttpRespPacket scene)
  | handleNetSceneException : Produced handleNetSceneException
  | handleOverload (isMethodPost : Bool) (resp : Bytes) :
      Produced (handleOverload isMethodPost resp)

/-- The status line of a response, without its CRLF. -/
def statusText (respCode : Int) : Bytes :=
  version2string .kHTTP_1_1 ++ lit " " ++ (decimal (respCode % 4294967296).toNat).take 3 ++
    lit " " ++ StatusLine.kStatusDescOk

/-- The response parser of the proxy ends with what was sent. -/
def Understood (r : HttpResp) : Prop :=
  Decoded ⟨.kHTTP_1_1, r.respCode, StatusLine.kStatusDescOk⟩ r.packedHeaders r.sendBody
    (Response.Parser.doParse r.bytes Response.Parser.fresh).1

/-! ## The two halves fit -/

theorem bytes_eq_encode (r : HttpResp) :
    r.bytes = encode (statusText r.respCode) r.packedHeaders r.sendBody := by
  simp only [HttpResp.bytes, Response.pack, encode, StatusLine.toBytes, statusText, HttpParser.crlf,
    Option.getD_some, List.append_assoc]
  rfl

/-- What the three functions have in common: one of two status codes, and a
clean field beside the length. -/
structure WellFormed (r : HttpResp) : Prop where
  code : r.respCode = 200 ∨ r.respCode = 500
  clean : ∀ e ∈ r.headers.entries, CleanEntry e
  other : ∃ e ∈ r.headers.entries, e.1 ≠ HeaderField.kContentLength

theorem wellFormed_of_produced {r : HttpResp} (h : Produced r) : WellFormed r := by
  have hclose : CleanField HeaderField.kConnection ∧ CleanField HeaderField.kConnectionClose := by
    decide +kernel
  have htype : CleanField HeaderField.kContentType := by decide +kernel
  have hempty : ∀ e ∈ (Lib.OrdMap.empty : HeaderField).entries, CleanEntry e :=
    fun e he => absurd he List.not_mem_nil
  cases h with
  | packHttpRespPacket scene hheaders hcontentType =>
      refine ⟨Or.inl rfl, ?_, ?_⟩
      · apply HeaderField.clean_insert _ hclose.1 hclose.2
        apply HeaderField.clean_insert hheaders htype
        split
        · decide +kernel
        · exact hcontentType
      · obtain ⟨e, he, hkey⟩ := HeaderField.hasKey_insert_self
          (HeaderField.insertOrUpdate scene.customHttpHeaders HeaderField.kContentType
            (if scene.isUseProtobuf then HeaderField.kOctetStream else scene.contentType))
          HeaderField.kConnection HeaderField.kConnectionClose
        refine ⟨e, he, ?_⟩
        rw [hkey]
        decide
  | handleNetSceneException =>
      refine ⟨Or.inr rfl, HeaderField.clean_insert hempty hclose.1 hclose.2, ?_⟩
      exact ⟨_, List.mem_cons_self, by decide⟩
  | handleOverload isMethodPost resp =>
      refine ⟨Or.inl rfl, HeaderField.clean_insert hempty htype ?_, ?_⟩
      · cases isMethodPost <;> decide +kernel
      · refine ⟨_, List.mem_cons_self, ?_⟩
        show HeaderField.kContentType ≠ HeaderField.kContentLength
        decide

theorem packedHeaders_eq {r : HttpResp} (hshort : r.sendBody.length < 10 ^ 8) :
    r.packedHeaders = HeaderField.insertOrUpdate r.headers HeaderField.kContentLength
      (decimal r.sendBody.length) := by
  have hall : HeaderField.insertAll Lib.OrdMap.empty r.headers.entries = r.headers :=
    Lib.OrdMap.foldl_insert_entries r.headers
  unfold HttpResp.packedHeaders
  rw [take_decimal (by decide) hshort, hall]

theorem encodes_bytes {r : HttpResp} (h : WellFormed r) (hshort : r.sendBody.length < 10 ^ 8) :
    Encodes StatusLine.parseFromString StatusLine.init
      ⟨.kHTTP_1_1, r.respCode, StatusLine.kStatusDescOk⟩ (statusText r.respCode) r.packedHeaders
      r.sendBody := by
  have hline : (13 ∉ statusText r.respCode ∧ 0 ∉ statusText r.respCode) ∧
      StatusLine.init.parseFromString (statusText r.respCode) =
        (⟨.kHTTP_1_1, r.respCode, StatusLine.kStatusDescOk⟩, .accepted) := by
    rcases h.code with hcode | hcode
    · rw [hcode]
      decide +kernel
    · rw [hcode]
      decide +kernel
  rw [packedHeaders_eq hshort]
  constructor
  · exact hline.1.1
  · exact hline.1.2
  · exact hline.2
  · exact HeaderField.clean_insert h.clean (by decide +kernel) (cleanField_decimal _)
  · obtain ⟨e, he, hne⟩ := h.other
    have hkey : HeaderField.HasKey r.headers e.1 := ⟨e, he, rfl⟩
    exact HeaderField.two_le_of_hasKey hne (hkey.insert _ _) (HeaderField.hasKey_insert_self _ _ _)
  · rw [HeaderField.contentLength_insert]
    exact strtoul_decimal (Nat.lt_trans hshort (by decide))

theorem plain_resolvers (l : StatusLine) :
    Response.resolvers.Plain StatusLine.parseFromString l where
  firstLine := rfl
  headers buf p := ⟨(HttpParser.resolveHeaders buf p).1.isUpgradeToWs, rfl⟩
  body _ _ _ := rfl

theorem understood_iff {r : HttpResp} (h : WellFormed r) (hshort : r.sendBody.length < 10 ^ 8) :
    Understood r ↔
      r.sendBody ≠ [] ∧ EndsReached (statusText r.respCode) r.packedHeaders r.sendBody := by
  unfold Understood
  rw [bytes_eq_encode]
  exact decodes_iff (plain_resolvers _) (encodes_bytes h hshort)

/-! ## Main theorem -/

/-- **A response is understood** exactly when its body is not empty and both
scans of the parser reach the ends they look for. -/
theorem understood_iff_nonempty (r : HttpResp) (h : Produced r)
    (hshort : r.sendBody.length < 10 ^ 8) :
    Understood r ↔
      r.sendBody ≠ [] ∧ EndsReached (statusText r.respCode) r.packedHeaders r.sendBody :=
  understood_iff (wellFormed_of_produced h) hshort

/-- A scene without header fields of its own. -/
def plainScene (respBuffer : Bytes) : NetSceneBase :=
  { customHttpHeaders := Lib.OrdMap.empty, isUseProtobuf := false,
    contentType := HeaderField.kTextPlain, respBuffer }

theorem produced_plainScene (respBuffer : Bytes) :
    Produced (packHttpRespPacket (plainScene respBuffer)) :=
  Produced.packHttpRespPacket _ (fun _ he => absurd he List.not_mem_nil)
    (show CleanField HeaderField.kTextPlain by decide +kernel)

theorem understood_hello : Understood (packHttpRespPacket (plainScene (lit "hello"))) :=
  (understood_iff_nonempty _ (produced_plainScene _) (by decide)).2
    ⟨by decide, endsReached_of_lt (by decide +kernel)⟩

theorem not_understood_empty :
    Produced (packHttpRespPacket (plainScene [])) ∧
      ¬ Understood (packHttpRespPacket (plainScene [])) := by
  refine ⟨produced_plainScene [], fun hunderstood => ?_⟩
  have hiff := understood_iff (wellFormed_of_produced (produced_plainScene [])) (by decide)
  exact (hiff.1 hunderstood).1 rfl

end Unixtar.NetScene
