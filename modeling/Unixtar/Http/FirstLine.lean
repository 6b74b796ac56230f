import Unixtar.Utils.StrUtil

/-!
# Request and status lines: `http/firstline.cc`

`StatusLine::ParseFromString` calls `std::stoi`, which throws on a text that
is not a number of the range of `int`; the three ways a line can be taken
are the constructors of `LineResult`.
-/

namespace Unixtar.Http

/-- `THttpMethod`. -/
inductive THttpMethod
  | kUnknownMethod
  | kGET
  | kPOST
  | kDELETE
deriving DecidableEq, Repr

/-- `THttpVersion`. -/
inductive THttpVersion
  | kUnknownVer
  | kHTTP_0_9
  | kHTTP_1_0
  | kHTTP_1_1
  | kHTTP_2_0
deriving DecidableEq, Repr

/-- `method2string`. -/
def method2string : THttpMethod → Bytes
  | .kUnknownMethod => lit "unknown"
  | .kGET => lit "GET"
  | .kPOST => lit "POST"
  | .kDELETE => lit "DELETE"

/-- `version2string`. -/
def version2string : THttpVersion → Bytes
  | .kUnknownVer => lit "unknown"
  | .kHTTP_0_9 => lit "HTTP/0.9"
  | .kHTTP_1_0 => lit "HTTP/1.0"
  | .kHTTP_1_1 => lit "HTTP/1.1"
  | .kHTTP_2_0 => lit "HTTP/2.0"

/-- `GetHttpMethod`: the first method whose name is equal as a C string. -/
def getHttpMethod (s : Bytes) : THttpMethod :=
  ([.kUnknownMethod, .kGET, .kPOST, .kDELETE].find?
    fun m => Str.cstr s = method2string m).getD .kUnknownMethod

/-- `GetHttpVersion`. -/
def getHttpVersion (s : Bytes) : THttpVersion :=
  ([.kUnknownVer, .kHTTP_0_9, .kHTTP_1_0, .kHTTP_1_1, .kHTTP_2_0].find?
    fun v => Str.cstr s = version2string v).getD .kUnknownVer

/-- How `ParseFromString` of a first line ends. -/
inductive LineResult
  | accepted
  | rejected
  | thrown
deriving DecidableEq, Repr

/-- The decimal digits `%u` and `%zu` print. -/
def decimal (n : Nat) : Bytes := (Nat.toDigits 10 n).map fun c => UInt8.ofNat c.toNat

/-! ## `RequestLine` -/

structure RequestLine where
  method : THttpMethod
  url : Bytes
  version : THttpVersion
deriving DecidableEq

namespace RequestLine

/-- The constructor's values. -/
def init : RequestLine := ⟨.kPOST, [], .kHTTP_1_1⟩

/-- `RequestLine::ParseFromString`. -/
def parseFromString (l : RequestLine) (text : Bytes) : RequestLine × LineResult :=
  match Str.split text (lit " ") with
  | [method, url, version] =>
      (⟨getHttpMethod method, url, getHttpVersion version⟩, .accepted)
  | _ => (l, .rejected)

/-- `RequestLine::ToString`. -/
def toBytes (l : RequestLine) : Bytes :=
  method2string l.method ++ lit " " ++ l.url ++ lit " " ++ version2string l.version ++ lit "\r\n"

/-- A request line never throws. -/
theorem parseFromString_ne_thrown (l : RequestLine) (text : Bytes) :
    (l.parseFromString text).2 ≠ .thrown := by
  unfold parseFromString
  split <;> simp

end RequestLine

/-! ## `StatusLine` -/

structure StatusLine where
  version : THttpVersion
  statusCode : Int
  statusDesc : Bytes
deriving DecidableEq

namespace StatusLine

def kStatusDescOk : Bytes := lit "OK"
def kStatusDescSwitchProtocol : Bytes := lit "Switching Protocols"

/-- The constructor's values. -/
def init : StatusLine := ⟨.kHTTP_1_1, 200, []⟩

/-- `std::stoi`: `none` is `std::invalid_argument` or `std::out_of_range`. -/
def stoi (s : Bytes) : Option Int :=
  let s := (Str.cstr s).dropWhile Str.isSpace
  let (neg, s) : Bool × Bytes :=
    match s with
    | 45 :: rest => (true, rest)
    | 43 :: rest => (false, rest)
    | _ => (false, s)
  let ds := s.takeWhile Str.isDigit
  if ds.isEmpty then none
  else
    let v : Int := if neg then -(Str.digitsValue ds) else Str.digitsValue ds
    if v < -2147483648 ∨ 2147483647 < v then none else some v

/-- `StatusLine::ParseFromString`. -/
def parseFromString (l : StatusLine) (text : Bytes) : StatusLine × LineResult :=
  match Str.split text (lit " ") with
  | [version, code, desc] =>
      let l := { l with version := getHttpVersion version, statusDesc := desc }
      match stoi code with
      | none => (l, .thrown)
      | some v =>
          ({ l with statusCode := v },
            if v < 0 ∨ 1000 < v then .rejected else .accepted)
  | _ => (l, .rejected)

/-- `StatusLine::ToString`; `%u` prints the code as an unsigned number into
a buffer of three characters. -/
def toBytes (l : StatusLine) : Bytes :=
  version2string l.version ++ lit " " ++
    (decimal (l.statusCode % 4294967296).toNat).take 3 ++ lit " " ++
    l.statusDesc ++ lit "\r\n"

end StatusLine

end Unixtar.Http
