import Unixtar.Http.HttpPacket

/-!
# Responses: `http/httpresponse.cc`
-/

namespace Unixtar.Http.Response

/-- `response::Parser` with the `HttpResponse` it fills. -/
abbrev Parser := HttpParser StatusLine

/-- The virtual functions of `response::Parser`: only the first line is its
own. -/
def resolvers : Resolvers StatusLine where
  firstLine := HttpParser.resolveFirstLine StatusLine.parseFromString
  headers := HttpParser.resolveHeaders
  body := HttpParser.resolveBody

namespace Parser

/-- A fresh parser on a fresh `HttpResponse`. -/
def fresh : Parser := HttpParser.init StatusLine.init

/-- `DoParse`. -/
def doParse (buf : Bytes) (p : Parser) : Parser × ParseRet :=
  HttpParser.doParse resolvers buf p

end Parser

/-- `response::Pack`; the length text has room for eight digits. -/
def pack (httpVer : THttpVersion) (respCode : Int) (statusDesc : Bytes)
    (headers : List (Bytes × Bytes)) (sendBody : Option Bytes) : Bytes :=
  let headerField := headers.foldl
    (fun h e => HeaderField.insertOrUpdate h e.1 e.2) Lib.OrdMap.empty
  let headerField :=
    match sendBody with
    | some body => HeaderField.insertOrUpdate headerField HeaderField.kContentLength
        ((decimal body.length).take 8)
    | none => headerField
  StatusLine.toBytes ⟨httpVer, respCode, statusDesc⟩ ++
    HeaderField.toBytes headerField ++ sendBody.getD []

end Unixtar.Http.Response
