import Unixtar.NetworkModel.Exchange
import Unixtar.ReverseProxy.Heartbeat

/-!
# A heartbeat, from the web server to the load balancer

`SendHeartbeat` of `webserver.cc` packs the port of the web server and the sum
of the backlogs of its network threads into a request, which it writes as far
as the kernel takes it; what is left follows in write events.  The proxy reads
the request in pieces and asks `CheckHeartbeat` about it.

`SerializeAsString` and `ParseFromArray` of the message are parameters.

## Main result

* `heartbeat_noted`
-/

namespace Unixtar.WebServer

open Unixtar.Lib Unixtar.Http

/-- The message of `SendHeartbeat`: the backlogs are added up in a
`uint32_t`. -/
def heartbeatReq (port : UInt16) (backlogs : List Nat) : ReverseProxy.HeartbeatReq :=
  { port := some port.toUInt32
    requestBacklog := some (backlogs.foldl (fun backlog n => backlog + UInt32.ofNat n) 0) }

/-- What `SendHeartbeat` packs. -/
def heartbeatRequest (serialize : ReverseProxy.HeartbeatReq → Bytes) (reverseProxyIp : Bytes)
    (port : UInt16) (backlogs : List Nat) : Bytes :=
  Request.pack reverseProxyIp (lit "/") none (serialize (heartbeatReq port backlogs))

theorem toNat_backlog (backlogs : List Nat) (start : UInt32) :
    (backlogs.foldl (fun backlog n => backlog + UInt32.ofNat n) start).toNat =
      (start.toNat + backlogs.sum) % 2 ^ 32 := by
  induction backlogs generalizing start with
  | nil => simp [Nat.mod_eq_of_lt start.toNat_lt]
  | cons n backlogs ih =>
      rw [List.foldl_cons, ih, UInt32.toNat_add, UInt32.toNat_ofNat', List.sum_cons]
      omega

/-- The request asks for no other protocol. -/
theorem isConnectionUpgrade_heartbeat (host body : Bytes) :
    HeaderField.isConnectionUpgrade (Request.packedHeaders host none body) = false := by
  have hentries : (Request.packedHeaders host none body).entries =
      [(HeaderField.kConnection, HeaderField.kConnectionClose),
        (HeaderField.kContentLength, (decimal body.length).take 8),
        (HeaderField.kHost, host)] := rfl
  have hget : HeaderField.get (Request.packedHeaders host none body) HeaderField.kConnection =
      some HeaderField.kConnectionClose := by
    rw [HeaderField.get, hentries]
    rfl
  unfold HeaderField.isConnectionUpgrade HeaderField.isConnection
  rw [hget]
  decide

end Unixtar.WebServer

namespace Unixtar.ReverseProxy

open Unixtar.Lib Unixtar.Http LoadBalancer

/-- **A heartbeat is noted** as soon as all of it has come: the request is
passed on once, `CheckHeartbeat` says yes, and the load balancer has the
backlog of the web server that has sent it, and no other.  Before its last byte
nothing is passed on. -/
theorem heartbeat_noted {parse : Bytes → Int → HeartbeatReq} {serialize : HeartbeatReq → Bytes}
    {reverseProxyIp ip : Bytes} {port : UInt16} {backlogs : List Nat} {body request : Bytes}
    {lb : LoadBalancer} (hbody : body = serialize (WebServer.heartbeatReq port backlogs))
    (hrequest : request = WebServer.heartbeatRequest serialize reverseProxyIp port backlogs)
    (hparse : parse body (Str.toInt body.length) = WebServer.heartbeatReq port backlogs)
    (hshort : 1 ≤ body.length ∧ body.length ≤ 12) (hhost : CleanField reverseProxyIp)
    (hsize : request.length < 2 ^ 32)
    (hserver : ∃ svr ∈ lb.webServers, svr.ip = ip ∧ svr.port = port.toNat)
    (upgrade : ConnectionProfile → ApplicationPacket → ConnectionProfile) (id : ConnId)
    (uid fd remotePort now now' : Nat) (events : List Exchange.Event) :
    ∀ x ∈ trace (Exchange.step upgrade id) (Exchange.start request uid fd ip remotePort now) events,
      if x.link.received = request then
        ∃ ctx i svr lb', x.link.dispatched = [ctx] ∧ lb.webServers[i]? = some svr ∧ svr.ip = ip ∧
          svr.port = port.toNat ∧
          lb.checkHeartbeat parse now' ctx.fromIp ctx.applicationPacket = some (true, lb') ∧
          Updated now' i (backlogs.sum % 2 ^ 32) lb lb'
      else x.link.dispatched = [] := by
  have hclean : Request.CleanRequest reverseProxyIp (lit "/") none body :=
    ⟨hhost, ⟨by decide, by decide, by decide, by decide, by decide⟩,
      fun _ hnone => (by cases hnone), hshort.1, Nat.le_trans hshort.2 (by decide)⟩
  have hsent := ShortLink.Sent.post _ _ _ _ hclean (WebServer.isConnectionUpgrade_heartbeat _ _)
  have hpack : request = Request.pack reverseProxyIp (lit "/") none body := by
    rw [hrequest, hbody]
    rfl
  rw [← hpack] at hsent
  intro x hx
  obtain ⟨-, hlink⟩ :=
    Exchange.delivered hsent hsize upgrade id uid fd ip remotePort now events x hx
  split_ifs at hlink ⊢
  · obtain ⟨ctx, hctx, hpacket, hip⟩ := hlink
    have hreq : heartbeatOf parse ctx.applicationPacket =
        some (WebServer.heartbeatReq port backlogs) := by
      rw [hpacket, ← hparse]
      rfl
    have hat : ∃ i, lb.addressedServer ip port.toNat = some i := by
      rw [← Option.ne_none_iff_exists', Ne, addressedServer_eq_none]
      push Not
      exact hserver
    obtain ⟨i, hi⟩ := hat
    obtain ⟨svr, hsvr, hsvrIp, hsvrPort⟩ := addressedServer_eq_some hi
    have hsome : ¬ ∀ svr ∈ lb.webServers, svr.ip ≠ ip := by
      push Not
      exact hserver.imp fun svr h => ⟨h.1, h.2.1⟩
    refine ⟨ctx, i, svr, _, hctx, hsvr, hsvrIp, hsvrPort, ?_, updated_onRecvHeartbeat now' i _ lb⟩
    rw [hip, checkHeartbeat_eq, if_neg hsome, hreq]
    have hport : port.toUInt32.toNat % 2 ^ 16 = port.toNat := by
      rw [UInt16.toNat_toUInt32, Nat.mod_eq_of_lt port.toNat_lt]
    have hbacklog := WebServer.toNat_backlog backlogs 0
    simp only [Option.map_some, WebServer.heartbeatReq, hport, hi, Option.getD_some, hbacklog]
    simp
  · exact hlink

/-- The generated code on two small values. -/
def serializeSmall (req : HeartbeatReq) : Bytes :=
  [8, (req.port.getD 0).toUInt8, 16, (req.requestBacklog.getD 0).toUInt8]

def parseSmall (bytes : Bytes) (_ : Int) : HeartbeatReq :=
  match bytes with
  | [8, port, 16, backlog] => ⟨some port.toUInt32, some backlog.toUInt32⟩
  | _ => ⟨none, none⟩

/-- The heartbeat of a web server on port 80 with two network threads. -/
def sampleHeartbeat : Bytes :=
  WebServer.heartbeatRequest serializeSmall (lit "10.0.0.9") 80 [1, 2]

/-- It is written in two pieces and read in two others. -/
def sampleEvents : List Exchange.Event :=
  [.write (.wrote 50),
    .read ⟨[.data ⟨sampleHeartbeat.take 30, by decide +kernel, by decide +kernel⟩], false⟩,
    .write .eagain, .write (.wrote 27),
    .read ⟨[.data ⟨sampleHeartbeat.drop 30, by decide +kernel, by decide +kernel⟩], true⟩]

theorem heartbeat_noted_sampleEvents :
    ∃ x ∈ trace (Exchange.step (fun c _ => c) 0)
        (Exchange.start sampleHeartbeat 1 7 (lit "10.0.1.2") 4000 0) sampleEvents,
      x.link.received = sampleHeartbeat ∧
        ∃ ctx i svr lb', x.link.dispatched = [ctx] ∧ twoServers.webServers[i]? = some svr ∧
          svr.ip = lit "10.0.1.2" ∧ svr.port = 80 ∧
          twoServers.checkHeartbeat parseSmall 5000 ctx.fromIp ctx.applicationPacket =
            some (true, lb') ∧ Updated 5000 i 3 twoServers lb' := by
  have hreached : (trace (Exchange.step (fun c _ => c) 0)
      (Exchange.start sampleHeartbeat 1 7 (lit "10.0.1.2") 4000 0) sampleEvents).any
        (fun x => x.link.received = sampleHeartbeat) = true := by decide +kernel
  obtain ⟨x, hx, hreceived⟩ := List.any_eq_true.1 hreached
  have hwhole := of_decide_eq_true hreceived
  have hnoted := heartbeat_noted rfl (show sampleHeartbeat = WebServer.heartbeatRequest
    serializeSmall (lit "10.0.0.9") 80 [1, 2] from rfl)
    (show parseSmall [8, 80, 16, 3] 4 = WebServer.heartbeatReq 80 [1, 2] from rfl)
    (by decide) (by decide +kernel) (by decide +kernel)
    (show ∃ svr ∈ twoServers.webServers, svr.ip = lit "10.0.1.2" ∧ svr.port = (80 : UInt16).toNat by
      decide +kernel) (fun c _ => c) 0 1 7 4000 0 5000 sampleEvents x hx
  rw [if_pos hwhole] at hnoted
  exact ⟨x, hx, hwhole, hnoted⟩

end Unixtar.ReverseProxy
