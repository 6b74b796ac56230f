import Unixtar.ReverseProxy.LoadBalancer

/-!
# Heartbeats

`CheckHeartbeat` of `reverseproxy/proxyserver.cc` with what it does to the
load balancer, whose web servers are those of the configuration.  Every
request of a client passes through it.

The port of a message is an `uint32_t` and that of a web server an
`uint16_t`.  The body of a GET request is a null pointer, which is followed
as soon as some web server has the address that the request comes from.

## Main results

* `checkHeartbeat_eq` — what `CheckHeartbeat` returns and changes, request by
  request.
* `recognises_iff` — a request is judged as it should be exactly when no GET
  request comes from the address of a web server, and a port from 2¹⁶ on does
  not become that of a web server when it is cut off.
-/

namespace Unixtar.ReverseProxy

open Unixtar.Http

/-- The result is `some none` exactly when the check says no. -/
theorem findHeartbeat_eq_none_iff {cfg : Config} {ctx : RecvContext} :
    findHeartbeat cfg ctx = some none ↔ checkHeartbeat cfg ctx = some false := by
  unfold checkHeartbeat
  cases findHeartbeat cfg ctx with
  | none => simp
  | some found => cases found <;> simp

/-! ## The loop -/

section Loop

variable {parse : Bytes → Int → HeartbeatReq} {ip : Bytes} {i : Nat} {ws : List WebServerProfile}

/-- With the body read, the first web server with the address and the port. -/
theorem checkHeartbeatLoop_parsed (body : Option Bytes) (port : UInt16) (backlog : UInt32) :
    checkHeartbeatLoop parse ip body i (some (port, backlog)) ws =
      some ((ws.findIdx? fun svr => svr.ip = ip ∧ svr.port = port.toNat).map fun j =>
        (i + j, backlog)) := by
  induction ws generalizing i with
  | nil => rfl
  | cons svr rest ih =>
      unfold checkHeartbeatLoop
      rw [List.findIdx?_cons]
      by_cases hip : svr.ip = ip
      · rw [if_neg (by simp [hip])]
        simp only [readHeartbeat, hip, true_and]
        by_cases hport : svr.port = port.toNat
        · simp [hport]
        · rw [if_neg hport, ih, if_neg (by simp [hport]), Option.map_map]
          congr 2
          funext j
          simp only [Function.comp]
          rw [Nat.add_right_comm, Nat.add_assoc]
      · rw [if_pos hip, ih, if_neg (by simp [hip]), Option.map_map]
        congr 2
        funext j
        simp only [Function.comp]
        rw [Nat.add_right_comm, Nat.add_assoc]

/-- Until the body is needed, no web server with the address has been met. -/
theorem checkHeartbeatLoop_unread (body : Option Bytes) :
    checkHeartbeatLoop parse ip body i none ws =
      if ∀ svr ∈ ws, svr.ip ≠ ip then some none
      else
        match readHeartbeat parse body none with
        | none => none
        | some none => some none
        | some (some parsed) => checkHeartbeatLoop parse ip body i (some parsed) ws := by
  induction ws generalizing i with
  | nil => simp [checkHeartbeatLoop]
  | cons svr rest ih =>
      by_cases hip : svr.ip = ip
      · rw [if_neg (fun hall => hall svr List.mem_cons_self hip), checkHeartbeatLoop,
          if_neg (fun hne => hne hip)]
        cases hread : readHeartbeat parse body none with
        | none => rfl
        | some found =>
            cases found with
            | none => rfl
            | some parsed =>
                dsimp only
                conv_rhs => rw [checkHeartbeatLoop, if_neg (fun hne => hne hip)]
                rfl
      · have hall : (∀ s ∈ svr :: rest, s.ip ≠ ip) ↔ ∀ s ∈ rest, s.ip ≠ ip := by
          rw [List.forall_mem_cons]
          exact and_iff_right hip
        rw [checkHeartbeatLoop, if_pos hip, ih]
        simp only [hall]
        split
        · rfl
        · split
          · rfl
          · rfl
          · rw [checkHeartbeatLoop, if_pos hip]

end Loop

/-! ## `CheckHeartbeat` -/

namespace LoadBalancer

/-- The web servers as they were configured. -/
def profiles (lb : LoadBalancer) : List WebServerProfile :=
  lb.webServers.map (·.toWebServerProfile)

/-- `CheckHeartbeat`: its result, and the load balancer behind it. -/
def checkHeartbeat (parse : Bytes → Int → HeartbeatReq) (now : Nat) (ip : Bytes)
    (packet : ApplicationPacket) (lb : LoadBalancer) : Option (Bool × LoadBalancer) :=
  (checkHeartbeatLoop parse ip (requestBody packet) 0 none lb.profiles).map fun
    | none => (false, lb)
    | some (i, backlog) => (true, lb.onRecvHeartbeat now i backlog.toNat)

/-- The network thread sees the result. -/
theorem checkHeartbeat_result {cfg : Config} {lb : LoadBalancer} (now : Nat) (ctx : RecvContext)
    (hregistered : cfg.webservers = lb.profiles) :
    ReverseProxy.checkHeartbeat cfg ctx =
      (lb.checkHeartbeat cfg.parseFromArray now ctx.fromIp ctx.applicationPacket).map
        Prod.fst := by
  unfold ReverseProxy.checkHeartbeat findHeartbeat checkHeartbeat
  rw [hregistered, Option.map_map]
  congr 1
  funext found
  cases found <;> rfl

/-- The message in the body of a request. -/
def heartbeatOf (parse : Bytes → Int → HeartbeatReq) (packet : ApplicationPacket) :
    Option HeartbeatReq :=
  (requestBody packet).map fun bytes => parse bytes (Str.toInt bytes.length)

/-- The first web server with this address and this port. -/
def addressedServer (ip : Bytes) (port : Nat) (lb : LoadBalancer) : Option Nat :=
  lb.webServers.findIdx? fun svr => svr.ip = ip ∧ svr.port = port

variable {parse : Bytes → Int → HeartbeatReq} {now : Nat} {ip : Bytes}
  {packet : ApplicationPacket} {lb : LoadBalancer}

variable (parse now ip packet lb) in
/-- **`CheckHeartbeat`.** -/
theorem checkHeartbeat_eq :
    lb.checkHeartbeat parse now ip packet =
      if ∀ svr ∈ lb.webServers, svr.ip ≠ ip then some (false, lb)
      else
        (heartbeatOf parse packet).map fun req =>
          match req.port with
          | none => (false, lb)
          | some port =>
              match lb.addressedServer ip (port.toNat % 2 ^ 16) with
              | none => (false, lb)
              | some i => (true, lb.onRecvHeartbeat now i (req.requestBacklog.getD 0).toNat) := by
  have hall : (∀ svr ∈ lb.profiles, svr.ip ≠ ip) ↔ ∀ svr ∈ lb.webServers, svr.ip ≠ ip := by
    simp [profiles]
  unfold checkHeartbeat heartbeatOf
  rw [checkHeartbeatLoop_unread]
  simp only [hall]
  split
  · rfl
  · cases hbody : requestBody packet with
    | none => rfl
    | some bytes =>
        simp only [readHeartbeat, Option.map_some]
        cases hport : (parse bytes (Str.toInt bytes.length)).port with
        | none => rfl
        | some port =>
            simp only [Option.map_some, checkHeartbeatLoop_parsed, Nat.zero_add]
            have hat : (lb.profiles.findIdx? fun svr =>
                svr.ip = ip ∧ svr.port = port.toUInt16.toNat) =
                  lb.addressedServer ip (port.toNat % 2 ^ 16) := by
              unfold profiles addressedServer
              rw [List.findIdx?_map, UInt32.toNat_toUInt16]
              rfl
            rw [hat]
            cases lb.addressedServer ip (port.toNat % 2 ^ 16) <;> rfl

/-! ## The property -/

/-- The load balancer `lb'` differs from `lb` in what a heartbeat with this
backlog says about the web server at place `i`. -/
structure Updated (now i backlog : Nat) (lb lb' : LoadBalancer) : Prop where
  server : ∀ svr, lb.webServers[i]? = some svr →
    lb'.webServers[i]? = some { svr with isDown := false, backlog, lastHeartbeatTs := now,
                                         isOverload := decide (backlog > kOverloadBacklog) }
  others : ∀ j, j ≠ i → lb'.webServers[j]? = lb.webServers[j]?
  balanceRule : lb'.balanceRule = lb.balanceRule
  lastSelected : lb'.lastSelected = lb.lastSelected
  currWeight : lb'.currWeight = lb.currWeight

theorem updated_onRecvHeartbeat (now i backlog : Nat) (lb : LoadBalancer) :
    Updated now i backlog lb (lb.onRecvHeartbeat now i backlog) where
  server svr hsvr := by
    show (lb.webServers.modify i _)[i]? = _
    rw [List.getElem?_modify_eq, hsvr]
    rfl
  others j hj := by
    show (lb.webServers.modify i _)[j]? = _
    rw [List.getElem?_modify_ne _ _ hj.symm]
  balanceRule := rfl
  lastSelected := rfl
  currWeight := rfl

/-- The check of a request completes, it says yes exactly when the body carries
the port of a web server with this address, and then the report is noted for
such a web server and for nothing else. -/
def Recognises (parse : Bytes → Int → HeartbeatReq) (now : Nat) (ip : Bytes)
    (packet : ApplicationPacket) (lb : LoadBalancer) : Prop :=
  ∃ found lb', lb.checkHeartbeat parse now ip packet = some (found, lb') ∧
    (found = true ↔ ∃ req port, heartbeatOf parse packet = some req ∧ req.port = some port ∧
      ∃ svr ∈ lb.webServers, svr.ip = ip ∧ svr.port = port.toNat) ∧
    (found = true → ∃ req port i svr, heartbeatOf parse packet = some req ∧
      req.port = some port ∧ lb.webServers[i]? = some svr ∧ svr.ip = ip ∧
      svr.port = port.toNat ∧ Updated now i (req.requestBacklog.getD 0).toNat lb lb') ∧
    (found = false → lb' = lb)

theorem addressedServer_eq_none {port : Nat} :
    lb.addressedServer ip port = none ↔ ∀ svr ∈ lb.webServers, svr.ip = ip → svr.port ≠ port := by
  unfold addressedServer
  rw [List.findIdx?_eq_none_iff]
  simp

theorem addressedServer_eq_some {port i : Nat} (h : lb.addressedServer ip port = some i) :
    ∃ svr, lb.webServers[i]? = some svr ∧ svr.ip = ip ∧ svr.port = port := by
  unfold addressedServer at h
  obtain ⟨hlt, hsvr, -⟩ := List.findIdx?_eq_some_iff_getElem.1 h
  simp only [decide_eq_true_eq] at hsvr
  exact ⟨lb.webServers[i], List.getElem?_eq_getElem hlt, hsvr.1, hsvr.2⟩

/-! ## Main theorem -/

/-- Without a message there is no report. -/
theorem recognises_of_no (h : lb.checkHeartbeat parse now ip packet = some (false, lb))
    (hno : ∀ req port, heartbeatOf parse packet = some req → req.port = some port →
      ∀ svr ∈ lb.webServers, svr.ip = ip → svr.port ≠ port.toNat) :
    Recognises parse now ip packet lb := by
  refine ⟨false, lb, h, ?_, fun hfalse => absurd hfalse (by decide), fun _ => rfl⟩
  apply iff_of_false (by decide)
  rintro ⟨req, port, hreq, hport, svr, hsvr, hip, hsame⟩
  exact hno req port hreq hport svr hsvr hip hsame

/-- A message with a port, from the address of a web server. -/
theorem recognises_of_port {req : HeartbeatReq} {port : UInt32}
    (hip : ¬ ∀ svr ∈ lb.webServers, svr.ip ≠ ip)
    (hports : ∀ svr ∈ lb.webServers, svr.port < 2 ^ 16)
    (hreq : heartbeatOf parse packet = some req) (hport : req.port = some port) :
    Recognises parse now ip packet lb ↔
      port.toNat < 2 ^ 16 ∨
        ∀ svr ∈ lb.webServers, svr.ip = ip → svr.port ≠ port.toNat % 2 ^ 16 := by
  have hcheck := checkHeartbeat_eq parse now ip packet lb
  rw [if_neg hip, hreq, Option.map_some, hport] at hcheck
  dsimp only at hcheck
  cases hserver : lb.addressedServer ip (port.toNat % 2 ^ 16) with
  | none =>
      have hnone := addressedServer_eq_none.1 hserver
      apply iff_of_true _ (Or.inr hnone)
      apply recognises_of_no
      · rw [hcheck, hserver]
      · intro req' port' hreq' hport' svr hsvr hsvrip hsame
        rw [hreq] at hreq'
        cases hreq'
        rw [hport] at hport'
        cases hport'
        have hlt := hports svr hsvr
        apply hnone svr hsvr hsvrip
        rw [hsame, Nat.mod_eq_of_lt (by omega)]
  | some i =>
      obtain ⟨svr, hsvr, hsvrip, hsvrport⟩ := addressedServer_eq_some hserver
      have hmem : svr ∈ lb.webServers := List.mem_of_getElem? hsvr
      simp only [hserver] at hcheck
      by_cases hlt : port.toNat < 2 ^ 16
      · rw [Nat.mod_eq_of_lt hlt] at hsvrport
        apply iff_of_true _ (Or.inl hlt)
        refine ⟨true, _, hcheck, ?_, fun _ => ?_, fun h => absurd h (by decide)⟩
        · exact iff_of_true rfl ⟨req, port, hreq, hport, svr, hmem, hsvrip, hsvrport⟩
        · exact ⟨req, port, i, svr, hreq, hport, hsvr, hsvrip, hsvrport,
            updated_onRecvHeartbeat _ _ _ _⟩
      · -- the upper bits of the port are lost
        apply iff_of_false
        · rintro ⟨found, lb', hfound, hiff, -⟩
          rw [hcheck] at hfound
          cases hfound
          obtain ⟨req', port', hreq', hport', svr', hsvr', -, hsame⟩ := hiff.1 rfl
          rw [hreq] at hreq'
          cases hreq'
          rw [hport] at hport'
          cases hport'
          have hsmall := hports svr' hsvr'
          omega
        · rintro (h | h)
          · exact hlt h
          · exact h svr hmem hsvrip hsvrport

/-- **A heartbeat is recognised** exactly when no GET request comes from the
address of a web server, and the port carried has 16 bits or is not, without
its upper ones, the port of a web server with this address. -/
theorem recognises_iff (parse : Bytes → Int → HeartbeatReq) (now : Nat) (ip : Bytes)
    (p : Request.Parser) (lb : LoadBalancer)
    (hports : ∀ svr ∈ lb.webServers, svr.port < 2 ^ 16) :
    Recognises parse now ip (ApplicationProtocolParser.request p).packet lb ↔
      (p.firstLine.method = .kGET → ∀ svr ∈ lb.webServers, svr.ip ≠ ip) ∧
      (p.firstLine.method ≠ .kGET → ∀ port,
        (parse p.body (Str.toInt p.body.length)).port = some port →
          port.toNat < 2 ^ 16 ∨
            ∀ svr ∈ lb.webServers, svr.ip = ip → svr.port ≠ port.toNat % 2 ^ 16) := by
  by_cases hip : ∀ svr ∈ lb.webServers, svr.ip ≠ ip
  · -- nobody has this address: the body is not looked at
    apply iff_of_true
    · apply recognises_of_no
      · rw [checkHeartbeat_eq, if_pos hip]
      · intro req port _ _ svr hsvr hsame
        exact absurd hsame (hip svr hsvr)
    · exact ⟨fun _ => hip, fun _ port _ => Or.inr fun svr hsvr hsame => absurd hsame (hip svr hsvr)⟩
  have hcheck := checkHeartbeat_eq parse now ip (ApplicationProtocolParser.request p).packet lb
  rw [if_neg hip] at hcheck
  by_cases hget : p.firstLine.method = .kGET
  · -- the null pointer is followed
    have hbody : heartbeatOf parse (ApplicationProtocolParser.request p).packet = none := by
      show (if p.firstLine.method = .kGET then none else some p.body).map _ = _
      rw [if_pos hget]
      rfl
    rw [hbody, Option.map_none] at hcheck
    apply iff_of_false
    · rintro ⟨found, lb', hfound, -⟩
      rw [hcheck] at hfound
      cases hfound
    · exact fun h => hip (h.1 hget)
  · have hbody : heartbeatOf parse (ApplicationProtocolParser.request p).packet =
        some (parse p.body (Str.toInt p.body.length)) := by
      show (if p.firstLine.method = .kGET then none else some p.body).map _ = _
      rw [if_neg hget]
      rfl
    generalize parse p.body (Str.toInt p.body.length) = req at hbody
    rw [hbody, Option.map_some] at hcheck
    cases hport : req.port with
    | none =>
        apply iff_of_true
        · apply recognises_of_no
          · rw [hcheck, hport]
          · intro req' port hreq' hport'
            rw [hbody] at hreq'
            cases hreq'
            rw [hport] at hport'
            cases hport'
        · exact ⟨fun h => absurd h hget, fun _ port h => by cases h⟩
    | some port =>
        rw [recognises_of_port hip hports hbody hport]
        constructor
        · intro h
          refine ⟨fun h => absurd h hget, fun _ port' h' => ?_⟩
          cases h'
          exact h
        · intro h
          exact h.2 hget port rfl

/-! ## Two requests -/

/-- A heartbeat with port 80: field 1 of the message is 80. -/
def port80 : Request.Parser :=
  (Request.Parser.fresh.doParse
    (lit "POST / HTTP/1.1\r\nHost: a\r\nContent-Length: 2\r\n\r\n\x08P")).1

/-- A request without a body. -/
def plainGet : Request.Parser :=
  (Request.Parser.fresh.doParse (lit "GET / HTTP/1.1\r\nA: b\r\n\r\n")).1

/-- The generated code on a message whose only field is a small port. -/
def parseSmallPort (bytes : Bytes) (size : Int) : HeartbeatReq :=
  match bytes with
  | [8, port] => if size = 2 ∧ port < 128 then ⟨some port.toUInt32, none⟩ else ⟨none, none⟩
  | _ => ⟨none, none⟩

theorem recognises_port80 :
    port80.position = .kEnd ∧ (∀ svr ∈ twoServers.webServers, svr.port < 2 ^ 16) ∧
      Recognises parseSmallPort 1000 (lit "10.0.1.2")
        (ApplicationProtocolParser.request port80).packet twoServers := by
  have hports : ∀ svr ∈ twoServers.webServers, svr.port < 2 ^ 16 := by decide +kernel
  refine ⟨by decide +kernel, hports, ?_⟩
  apply (recognises_iff _ _ _ _ _ hports).2
  refine ⟨fun h => absurd h (by decide +kernel), fun _ port hport => Or.inl ?_⟩
  have heq : (parseSmallPort port80.body (Str.toInt port80.body.length)).port = some 80 := by
    decide +kernel
  rw [heq] at hport
  cases hport
  decide

/-- A GET request from the address of a web server. -/
theorem not_recognises_plainGet :
    plainGet.position = .kEnd ∧
      ¬ Recognises parseSmallPort 1000 (lit "10.0.1.2")
        (ApplicationProtocolParser.request plainGet).packet twoServers := by
  refine ⟨by decide +kernel, ?_⟩
  rintro ⟨found, lb', hfound, -⟩
  have hnone : (twoServers.checkHeartbeat parseSmallPort 1000 (lit "10.0.1.2")
      (ApplicationProtocolParser.request plainGet).packet).isNone = true := by
    decide +kernel
  rw [hfound] at hnone
  cases hnone

end LoadBalancer

end Unixtar.ReverseProxy
