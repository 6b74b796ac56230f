import Unixtar.Http.Delivery
import Unixtar.Http.StatusLines
import Unixtar.NetScene.Responses

/-!
# The responses of a web server on their way to the proxy

`HttpParser` is one class for requests and responses, so a response arrives
like a request does.

## Main result

* `response_delivered`
-/

namespace Unixtar.NetScene

open Unixtar.Http Unixtar.Lib

theorem scans_resolvers :
    Response.resolvers.Scans StatusLine.parseFromString fun _ => false where
  firstLine := rfl
  missed _ _ h := h
  found buf p q h hq := by
    show HttpParser.resolveHeaders buf p = _
    rw [h, ← hq]

/-- **Every response that says something arrives**, in whatever segments: the
parser of the proxy is done behind the last of them and not before, and has
what was sent. -/
theorem response_delivered {r : HttpResp} (h : Produced r) (hbody : r.sendBody ≠ [])
    (hshort : r.sendBody.length < 10 ^ 8) (hsize : r.bytes.length < 2 ^ 32)
    {chunks : List Bytes} (hne : ∀ c ∈ chunks, c ≠ []) (hs : chunks.flatten = r.bytes) :
    (∀ pre, pre <+: chunks → pre ≠ chunks → ¬ Terminal (Response.parseChunks pre)) ∧
      Decoded ⟨.kHTTP_1_1, r.respCode, StatusLine.kStatusDescOk⟩ r.packedHeaders r.sendBody
        (Response.parseChunks chunks) := by
  rw [bytes_eq_encode] at hsize hs
  have hfeed := (encodes_bytes (wellFormed_of_produced h) hshort).decoded_feed scans_resolvers
    (plain_resolvers _).body hbody hsize hne hs
  exact ⟨fun pre hpre hproper => hfeed.1.not_stop hpre hproper, hfeed.2.1⟩

/-- A response that is cut in its status line, and again in its body. -/
def helloPieces : List Bytes :=
  [lit "HTTP/1.1 20",
    ((packHttpRespPacket (plainScene (lit "hello"))).bytes.drop 11).dropLast, lit "o"]

theorem response_delivered_helloPieces :
    (Response.parseChunks helloPieces).body = lit "hello" := by
  have hdecoded := (response_delivered (produced_plainScene (lit "hello")) (by decide) (by decide)
    (by decide +kernel) (show ∀ c ∈ helloPieces, c ≠ [] by decide +kernel)
    (by decide +kernel)).2
  exact hdecoded.body

end Unixtar.NetScene
