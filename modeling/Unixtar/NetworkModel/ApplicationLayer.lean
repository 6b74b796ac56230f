import Mathlib.Data.List.Basic

/-!
# The application layer's common vocabulary: `networkmodel/applicationlayer.h`
-/

namespace Unixtar

/-- `TApplicationProtocol`. -/
inductive TApplicationProtocol
  | kNone
  | kHttp1_1
  | kHttp2_0
  | kHttp3_0
  | kWebSocket
deriving DecidableEq, Repr

/-- How a call of `DoParse` ends: it returns a code, or an assertion fails
or an exception leaves it. -/
inductive ParseRet
  | returned (code : Int)
  | crashed
deriving DecidableEq, Repr

end Unixtar
