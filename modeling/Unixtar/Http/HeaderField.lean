import Unixtar.Lib.OrdMap
import Unixtar.Utils.StrUtil

/-!
# Header fields: `http/headerfield.cc`

`header_fields_` is a `std::map<std::string, std::string>`, an `OrdMap` over
byte strings.  Keys and values are compared through `c_str()`, so only up to
their first NUL.
-/

namespace Unixtar.Http

open Unixtar.Lib

/-- `HeaderField`. -/
abbrev HeaderField := OrdMap Bytes Bytes

namespace HeaderField

def kHost : Bytes := lit "Host"
def kContentLength : Bytes := lit "Content-Length"
def kContentType : Bytes := lit "Content-Type"
def kConnection : Bytes := lit "Connection"
def kUpgrade : Bytes := lit "Upgrade"
def kSecWebSocketKey : Bytes := lit "Sec-WebSocket-Key"
def kSecWebSocketAccept : Bytes := lit "Sec-WebSocket-Accept"
def kOctetStream : Bytes := lit "application/octet-stream"
def kTextPlain : Bytes := lit "text/plain"
def kConnectionClose : Bytes := lit "close"
def kConnectionUpgrade : Bytes := lit "Upgrade"
def kWebSocket : Bytes := lit "websocket"

/-- `InsertOrUpdate`. -/
def insertOrUpdate (h : HeaderField) (key value : Bytes) : HeaderField :=
  h.insert key value

/-- `Get`: the value, as a C string, of the first field whose key is equal
as a C string. -/
def get (h : HeaderField) (field : Bytes) : Option Bytes :=
  (h.entries.find? fun e => Str.cstr e.1 = field).map fun e => Str.cstr e.2

/-- `ContentLength`: 0 when the field is missing. -/
def contentLength (h : HeaderField) : Nat :=
  match h.entries.find? fun e => Str.cstr e.1 = kContentLength with
  | some e => Str.strtoul e.2
  | none => 0

/-- `__IsConnection`. -/
def isConnection (h : HeaderField) (value : Bytes) : Bool :=
  match get h kConnection with
  | some connection => connection = value
  | none => false

/-- `IsConnectionUpgrade`. -/
def isConnectionUpgrade (h : HeaderField) : Bool := isConnection h kConnectionUpgrade

/-- `ToString`. -/
def toBytes (h : HeaderField) : Bytes :=
  h.entries.flatMap (fun e => e.1 ++ lit ": " ++ e.2 ++ lit "\r\n") ++ lit "\r\n"

/-- The loop of `ParseFromString`: a line that is not a pair stops it, and
the fields inserted before that line stay. -/
def parseLines : HeaderField → List Bytes → HeaderField × Bool
  | h, [] => (h, true)
  | h, line :: lines =>
      match Str.split line (lit ": ") with
      | [key, value] => parseLines (insertOrUpdate h key value) lines
      | _ => (h, false)

/-- `ParseFromString`. -/
def parseFromString (h : HeaderField) (text : Bytes) : HeaderField × Bool :=
  parseLines h (Str.split text (lit "\r\n"))

end HeaderField

end Unixtar.Http
