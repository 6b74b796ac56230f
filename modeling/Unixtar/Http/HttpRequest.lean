import Unixtar.Http.HttpPacket

/-!
# Requests: `http/httprequest.cc`
-/

namespace Unixtar.Http.Request

/-- `request::Parser` with the `HttpRequest` it fills. -/
abbrev Parser := HttpParser RequestLine

/-- What `request::Parser::_ResolveHeaders` does behind the base class. -/
def noteUpgrade : Parser × Resolved → Parser × Resolved
  | (p, .success) =>
      (if HeaderField.isConnectionUpgrade p.headers then { p with isUpgradeToWs := true }
        else p, .success)
  | (p, resolved) => (p, resolved)

/-- `request::Parser::_ResolveHeaders`. -/
def resolveHeaders (buf : Bytes) (p : Parser) : Parser × Resolved :=
  noteUpgrade (HttpParser.resolveHeaders buf p)

/-- `request::Parser::_ResolveBody`: a GET request ends with its headers. -/
def resolveBody (buf : Bytes) (p : Parser) : Parser × Resolved :=
  if p.firstLine.method = .kGET then
    if buf.length - p.resolvedLen > 0 then ({ p with position := .kError }, .failure)
    else ({ p with position := .kEnd }, .success)
  else HttpParser.resolveBody buf p

/-- The virtual functions of `request::Parser`. -/
def resolvers : Resolvers RequestLine where
  firstLine := HttpParser.resolveFirstLine RequestLine.parseFromString
  headers := resolveHeaders
  body := resolveBody

namespace Parser

/-- A fresh parser on a fresh `HttpRequest`. -/
def fresh : Parser := HttpParser.init RequestLine.init

/-- `DoParse`. -/
def doParse (buf : Bytes) (p : Parser) : Parser × ParseRet :=
  HttpParser.doParse resolvers buf p

end Parser

/-- The header fields that `request::Pack` builds: the caller's fields come
behind the defaults, and the length behind both.  The length text has room
for eight digits. -/
def packedHeaders (host : Bytes) (headers : Option HeaderField) (sendBody : Bytes) :
    HeaderField :=
  let headerField := HeaderField.insertOrUpdate Lib.OrdMap.empty HeaderField.kHost host
  let headerField :=
    HeaderField.insertOrUpdate headerField HeaderField.kConnection HeaderField.kConnectionClose
  let headerField :=
    match headers with
    | none => headerField
    | some headers =>
        headers.entries.foldl (fun h e => HeaderField.insertOrUpdate h e.1 e.2) headerField
  HeaderField.insertOrUpdate headerField HeaderField.kContentLength
    ((decimal sendBody.length).take 8)

/-- `request::Pack`. -/
def pack (host url : Bytes) (headers : Option HeaderField) (sendBody : Bytes) : Bytes :=
  RequestLine.toBytes ⟨.kPOST, url, .kHTTP_1_1⟩ ++
    HeaderField.toBytes (packedHeaders host headers sendBody) ++ sendBody

end Unixtar.Http.Request
