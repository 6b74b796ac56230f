import Unixtar.NetworkModel.RequestDelivery
import Unixtar.Utils.Base64RoundTrip
import Unixtar.Utils.Sha1Refinement
import Unixtar.WebServer.ReturnPackets

/-!
# The opening handshake, from the client's bytes to the answer

A GET request that asks for WebSocket comes in, in whatever pieces; the
connection changes its parser, and a worker that is not overloaded answers
with the Base64 text of the SHA-1 value of the client's key and the magic key.

## Main result

* `opensWebSocket`
-/

namespace Unixtar.WebServer

open Unixtar.Lib Unixtar.Http ShortLink ConnectionProfile

/-! ## The accept field -/

/-- `md::Sha1::Digest`, and `base64::Encode` of its first twenty bytes. -/
def acceptDigest (text : Bytes) : Bytes := (Base64.encode ((Md.digest text).res.take 20)).getD []

theorem length_sha1 (text : Bytes) : (Sha1.sha1 text).length = 20 := rfl

theorem take_digest {text : Bytes} (h : text.length < 2 ^ 61) :
    (Md.digest text).res.take 20 = Sha1.sha1 text := by
  obtain ⟨n, body, tail, rfl, hbody, htail⟩ := Md.exists_blocks text
  obtain ⟨states, hstates, hdigest⟩ := Md.digest_eq hbody htail
  rw [hdigest, Md.finish_toFive hbody htail hstates h]
  rfl

/-- The text is one of 28 characters, and the Base64 of the hash value. -/
theorem acceptDigest_spec {text : Bytes} (h : text.length < 2 ^ 61) :
    Base64.decode (acceptDigest text) = .returned (Sha1.sha1 text) ∧
      (acceptDigest text).length = 28 := by
  have hlen : (Sha1.sha1 text).length < 2 ^ 31 := by
    rw [length_sha1]
    decide
  unfold acceptDigest
  rw [take_digest h, Base64.encode_eq hlen, Option.getD_some]
  refine ⟨Base64.decode_encodeGroups _, ?_⟩
  rw [Base64.length_encodeGroups, length_sha1]

/-! ## The answer -/

/-- The answer to a handshake that succeeds. -/
def switchingProtocols (accept : Bytes) : Bytes :=
  lit "HTTP/1.1 101 Switching Protocols\r\nConnection: Upgrade\r\nSec-WebSocket-Accept: " ++
    accept ++ lit "\r\nUpgrade: websocket\r\n\r\n"

theorem pack_handshakeFields (accept : Bytes) :
    Response.pack .kHTTP_1_1 101 StatusLine.kStatusDescSwitchProtocol
      (Ws.WebSocketPacket.handshakeFields accept).entries none = switchingProtocols accept := by
  have hentries : (Ws.WebSocketPacket.handshakeFields accept).entries =
      [(HeaderField.kConnection, HeaderField.kUpgrade),
        (HeaderField.kSecWebSocketAccept, accept),
        (HeaderField.kUpgrade, HeaderField.kWebSocket)] := rfl
  have hagain : (Ws.WebSocketPacket.handshakeFields accept).entries.foldl
      (fun h e => HeaderField.insertOrUpdate h e.1 e.2) Lib.OrdMap.empty =
        Ws.WebSocketPacket.handshakeFields accept := Lib.OrdMap.foldl_insert_entries _
  unfold Response.pack
  dsimp only
  rw [hagain, HeaderField.toBytes, hentries]
  have hline : StatusLine.toBytes ⟨.kHTTP_1_1, 101, StatusLine.kStatusDescSwitchProtocol⟩ =
      lit "HTTP/1.1 101 Switching Protocols\r\n" := by
    decide +kernel
  have hfirst : lit "HTTP/1.1 101 Switching Protocols\r\n" ++
      (HeaderField.kConnection ++ lit ": " ++ HeaderField.kUpgrade ++ lit "\r\n" ++
        (HeaderField.kSecWebSocketAccept ++ lit ": ")) =
      lit "HTTP/1.1 101 Switching Protocols\r\nConnection: Upgrade\r\nSec-WebSocket-Accept: " := by
    decide
  have hlast : lit "\r\n" ++ (HeaderField.kUpgrade ++ lit ": " ++ HeaderField.kWebSocket ++
      lit "\r\n" ++ lit "\r\n") = lit "\r\nUpgrade: websocket\r\n\r\n" := by
    decide
  rw [hline, switchingProtocols, ← hfirst, ← hlast]
  simp only [List.flatMap_cons, List.flatMap_nil, List.append_assoc, List.append_nil,
    Option.getD_none]

/-- A handshake whose key is there succeeds. -/
theorem handleWebSocket_of_key (cfg : Config) (visit : Nat) {p : Ws.WebSocketPacket} {key : Bytes}
    (hfresh : p.isHandShaken = false)
    (hkey : HeaderField.get p.handshakeReq HeaderField.kSecWebSocketKey = some key) :
    State.handleWebSocket cfg visit p =
      (.handshake true, .replace (switchingProtocols
        (cfg.digest (key ++ Ws.WebSocketPacket.kHandShakeMagicKey))), visit) := by
  have hshake : p.doHandShake cfg.digest =
      ({ p with
          handshakeResp := Ws.WebSocketPacket.handshakeFields
            (cfg.digest (key ++ Ws.WebSocketPacket.kHandShakeMagicKey))
          isHandShaken := true }, true) := by
    simp only [Ws.WebSocketPacket.doHandShake, hkey]
  unfold State.handleWebSocket
  rw [if_neg (by simp [hfresh]), hshake]
  dsimp only
  rw [if_pos rfl, pack_handshakeFields]

/-! ## The request -/

theorem mem_insertAll {es : List (Bytes × Bytes)} {h : HeaderField} {e : Bytes × Bytes}
    (he : e ∈ (HeaderField.insertAll h es).entries) : e ∈ es ∨ e ∈ h.entries := by
  induction es generalizing h with
  | nil => exact Or.inr he
  | cons d es ih =>
      rcases ih (h := HeaderField.insertOrUpdate h d.1 d.2) he with he | he
      · exact Or.inl (List.mem_cons_of_mem d he)
      · rcases OrdMap.mem_insertEntry he with rfl | he
        · exact Or.inl List.mem_cons_self
        · exact Or.inr he

/-- A field that is found was sent. -/
theorem mem_of_get {es : List (Bytes × Bytes)} {field value : Bytes}
    (h : HeaderField.get (fieldsOf es) field = some value) : ∃ e ∈ es, Str.cstr e.2 = value := by
  unfold HeaderField.get at h
  obtain ⟨e, hfind, hvalue⟩ := Option.map_eq_some_iff.1 h
  have he := List.mem_of_find?_eq_some hfind
  refine ⟨e, ?_, hvalue⟩
  unfold fieldsOf at he
  split_ifs at he
  · exact absurd he List.not_mem_nil
  · exact (mem_insertAll he).resolve_right List.not_mem_nil

theorem length_get_le {url : Bytes} {es : List (Bytes × Bytes)} {field value : Bytes}
    (h : HeaderField.get (fieldsOf es) field = some value) :
    value.length ≤ (Request.getRequest url es).length := by
  obtain ⟨e, he, rfl⟩ := mem_of_get h
  have hcstr : (Str.cstr e.2).length ≤ e.2.length := (List.takeWhile_sublist _).length_le
  have hline : (e.1 ++ lit ": " ++ e.2 ++ lit "\r\n").length ≤
      (es.flatMap fun e => e.1 ++ lit ": " ++ e.2 ++ lit "\r\n").length := by
    rw [List.flatMap_def]
    apply List.Sublist.length_le
    apply List.sublist_flatten_of_mem
    exact List.mem_map.2 ⟨e, he, rfl⟩
  unfold Request.getRequest Request.headerLines
  simp only [List.length_append] at hline ⊢
  omega

/-- **The opening handshake.**  A GET request with a key that asks for an
upgrade is passed on once, as the packet of a handshake; the connection speaks
WebSocket from then on; and what a worker answers is the text of the status
101 with the digest of the key. -/
theorem opensWebSocket {cfg : Config} (hdigest : cfg.digest = acceptDigest) {url key : Bytes}
    {fields : List (Bytes × Bytes)} (hurl : Request.CleanUrl url)
    (hfields : ∀ e ∈ fields, CleanEntry e)
    (hup : HeaderField.isConnectionUpgrade (fieldsOf fields) = true)
    (hkey : HeaderField.get (fieldsOf fields) HeaderField.kSecWebSocketKey = some key)
    (hsize : (Request.getRequest url fields).length < 2 ^ 32) (id : ConnId)
    (uid fd : Nat) (remoteIp : Bytes) (remotePort now : Nat) {events : List ReadInput}
    {t : ShortLink} (hdata : ∀ e ∈ events, OnlyData e)
    (hbytes : events.flatMap (fun e => e.outs.flatMap ReadOutcome.bytes) =
      Request.getRequest url fields)
    (hrun : run (step upgradeApplicationProtocol id) (start uid fd remoteIp remotePort now)
      events = some t) :
    ∃ ctx accept, t.dispatched = [ctx] ∧
      t.conn.parser = some (.webSocket Ws.WebSocketParser.fresh) ∧ t.conn.tcpByteArr = [] ∧
      Base64.decode accept =
        .returned (Sha1.sha1 (key ++ Ws.WebSocketPacket.kHandShakeMagicKey)) ∧
      accept.length = 28 ∧
      ∀ resp visit, State.handlePacket cfg false resp visit ctx.applicationPacket =
        (.handshake true, .replace (switchingProtocols accept), visit) := by
  have hlines : fields ≠ [] := by
    rintro rfl
    cases hkey
  have harrives : Arrives (Request.getRequest url fields)
      (fun p => p.isUpgradeToWs = true ∧ p.headers = fieldsOf fields) := by
    intro chunks hne hs
    obtain ⟨hruns, hend⟩ := Request.feed_getRequest hurl hfields hlines hsize hne hs
    rw [hend]
    exact ⟨hruns, rfl, hup, rfl⟩
  obtain ⟨⟨c, p, x, hp, htype, -, ⟨hws, hheaders⟩, hpassed⟩, -⟩ :=
    harrives.onEvents (pending_start uid fd remoteIp remotePort now Request.getRequest_ne_nil)
      hdata hbytes hrun
  obtain ⟨parser, tcpByteArr, nextNo, packet, packetNo, hdispatch, hpasses, hempty⟩ :=
    dispatch_accepted id x hp htype
  obtain ⟨hconn, hctx⟩ := hpassed _ _ _ hdispatch
  cases hpasses with
  | request _ hstays => exact absurd hws (by rw [hstays]; decide)
  | upgrade _ _ =>
      have hshort : (key ++ Ws.WebSocketPacket.kHandShakeMagicKey).length < 2 ^ 61 := by
        have hle : key.length ≤ (Request.getRequest url fields).length := length_get_le hkey
        rw [List.length_append,
          show Ws.WebSocketPacket.kHandShakeMagicKey.length = 36 by decide]
        omega
      obtain ⟨hdecode, hlen⟩ := acceptDigest_spec hshort
      refine ⟨_, _, hctx, hconn ▸ rfl, hconn ▸ hempty rfl, hdecode, hlen, ?_⟩
      intro resp visit
      have hget : HeaderField.get p.headers HeaderField.kSecWebSocketKey = some key := by
        rw [hheaders, hkey]
      rw [← hdigest]
      exact handleWebSocket_of_key cfg visit rfl hget

/-- A handshake in two read events. -/
def askingFields : List (Bytes × Bytes) :=
  [(lit "Connection", lit "Upgrade"), (lit "Upgrade", lit "websocket"),
    (lit "Sec-WebSocket-Key", lit "dGhlIHNhbXBsZSBub25jZQ==")]

/-- A server whose digest is that of `DoHandShake`. -/
def handshakeConfig : Config := { State.sampleConfig with digest := acceptDigest }

def handshakeInTwo : List ReadInput :=
  [⟨[reads "GET /chat HTTP/1.1\r\nConnection: Upgrade\r\nUpgrade: websocket\r" (by decide)],
      false⟩,
    ⟨[reads "\nSec-WebSocket-Key: dGhlIHNhbXBsZSBub25jZQ==\r\n\r\n" (by decide)], false⟩]

theorem opensWebSocket_handshakeInTwo :
    ∃ t, run (step upgradeApplicationProtocol 0) (start 1 7 (lit "10.0.0.1") 4000 0)
        handshakeInTwo = some t ∧
      ∃ ctx accept, t.dispatched = [ctx] ∧
        Base64.decode accept = .returned (Sha1.sha1 (lit "dGhlIHNhbXBsZSBub25jZQ==" ++
          lit "258EAFA5-E914-47DA-95CA-C5AB0DC85B11")) ∧
        State.handlePacket handshakeConfig false [] 0 ctx.applicationPacket =
          (.handshake true, .replace (switchingProtocols accept), 0) := by
  obtain ⟨t, hrun⟩ := Option.ne_none_iff_exists'.1 (show run (step upgradeApplicationProtocol 0)
    (start 1 7 (lit "10.0.0.1") 4000 0) handshakeInTwo ≠ none by decide +kernel)
  have hdata : ∀ e ∈ handshakeInTwo, OnlyData e := by
    intro e he o ho
    simp only [handshakeInTwo, List.mem_cons, List.not_mem_nil, or_false] at he
    rcases he with rfl | rfl <;> exact ⟨_, List.mem_singleton.1 ho⟩
  obtain ⟨ctx, accept, hctx, -, -, hdecode, -, hhandled⟩ :=
    opensWebSocket (show handshakeConfig.digest = acceptDigest from rfl)
      (show Request.CleanUrl (lit "/chat") from
        ⟨by decide, by decide, by decide, by decide, by decide⟩)
      (show ∀ e ∈ askingFields, CleanEntry e from
        fun e he => by revert e; unfold CleanEntry; decide +kernel) (by decide +kernel)
      (show HeaderField.get (fieldsOf askingFields) HeaderField.kSecWebSocketKey =
        some (lit "dGhlIHNhbXBsZSBub25jZQ==") by decide +kernel) (by decide +kernel)
      0 1 7 (lit "10.0.0.1") 4000 0 hdata (by decide +kernel) hrun
  exact ⟨t, hrun, ctx, accept, hctx, hdecode, hhandled [] 0⟩

end Unixtar.WebServer
