import Unixtar.Http.Segmentation
import Unixtar.NetworkModel.Receive

/-!
# Dispatching the requests of a short link

The life of a connection accepted from a client that stays with HTTP: read
events, and what `__OnReadEvent` passes to `HandleApplicationPacket`.  The
parser of a short link is never reset, and at `kEnd` every read event that
does not delete the connection dispatches the packet again.

## Main results

* `fed_of_receive` — while the parser runs, its state is that of a fresh
  parser fed with the bytes received, in some segmentation.
* `inv_step` — a step that does not find the parser at `kEnd` dispatches at
  most the first packet, and only behind a complete request.
-/

namespace Unixtar

open Unixtar.Lib Unixtar.Http

namespace ConnectionProfile

/-! ## Complete requests -/

/-- The bytes `r` are one complete request: in some segmentation they bring
a fresh parser to `kEnd`, and with their last chunk only. -/
def Complete (r : Bytes) : Prop :=
  ∃ chunks : List Bytes, (∀ c ∈ chunks, c ≠ []) ∧ Request.RunsToLast chunks ∧
    chunks.flatten = r ∧ (Request.parseChunks chunks).isEnd = true

/-- The bytes `s` start with `n` complete requests, one behind another. -/
def ContainsRequests (s : Bytes) (n : Nat) : Prop :=
  ∃ requests : List Bytes, requests.length = n ∧ (∀ r ∈ requests, Complete r) ∧
    requests.flatten <+: s

theorem ContainsRequests.zero (s : Bytes) : ContainsRequests s 0 :=
  ⟨[], rfl, by simp, List.nil_prefix⟩

/-- More bytes contain as many requests. -/
theorem ContainsRequests.append {s : Bytes} {n : Nat} (h : ContainsRequests s n)
    (more : Bytes) : ContainsRequests (s ++ more) n := by
  obtain ⟨requests, hlen, hall, hpre⟩ := h
  exact ⟨requests, hlen, hall, hpre.trans (List.prefix_append _ _)⟩

theorem Complete.contains {r s : Bytes} (h : Complete r) (hpre : r <+: s) :
    ContainsRequests s 1 :=
  ⟨[r], rfl, by simpa using h, by simpa using hpre⟩

/-- A complete request has at least one byte. -/
theorem Complete.length_pos {r : Bytes} (h : Complete r) : 0 < r.length := by
  obtain ⟨chunks, hne, -, rfl, hend⟩ := h
  cases chunks with
  | nil => exact absurd hend (by decide)
  | cons c chunks =>
      have hc := List.length_pos_iff.2 (hne c (by simp))
      rw [List.flatten_cons, List.length_append]
      omega

theorem ContainsRequests.le_length {s : Bytes} {n : Nat} (h : ContainsRequests s n) :
    n ≤ s.length := by
  obtain ⟨requests, rfl, hall, hpre⟩ := h
  refine le_trans ?_ hpre.length_le
  clear hpre
  induction requests with
  | nil => simp
  | cons r requests ih =>
      have hr := (hall r (by simp)).length_pos
      have hrest := ih fun r hr => hall r (by simp [hr])
      rw [List.flatten_cons, List.length_append, List.length_cons]
      omega

/-! ## The parser of a live short link -/

/-- The parser has been fed the bytes received so far, in some segmentation;
with `is_eagain_` up, the last of them may not have been parsed. -/
structure Fed (c : ConnectionProfile) (chunks : List Bytes) : Prop where
  nonempty : ∀ d ∈ chunks, d ≠ []
  runs : Request.RunsToLast chunks
  parser : c.parser = some (.request (Request.parseChunks chunks))
  isPrefix : chunks.flatten <+: c.tcpByteArr
  all : c.isEagain = false → chunks.flatten = c.tcpByteArr

theorem Fed.isParseDone {c : ConnectionProfile} {chunks : List Bytes} (h : Fed c chunks) :
    c.isParseDone = (Request.parseChunks chunks).isEnd := by
  simp [ConnectionProfile.isParseDone, h.parser, ApplicationProtocolParser.isEnd]

/-- The packet of a parser at `kEnd` stands behind a complete request. -/
theorem Fed.contains {c : ConnectionProfile} {chunks : List Bytes} (h : Fed c chunks)
    (hend : c.isParseDone = true) : ContainsRequests c.tcpByteArr 1 := by
  have hcomplete : Complete chunks.flatten :=
    ⟨chunks, h.nonempty, h.runs, rfl, h.isParseDone ▸ hend⟩
  exact hcomplete.contains h.isPrefix

theorem not_stopped_iff {p : Request.Parser} :
    ¬ Request.Stopped p ↔ p.isEnd = false ∧ p.isErr = false := by
  simp [Request.Stopped, HttpParser.isEnd, HttpParser.isErr]

/-- `ParseProtocol` on one more segment. -/
theorem fed_parseProtocol {c : ConnectionProfile} {chunks : List Bytes} (seg : Segment)
    (h : Fed c chunks) (hdown : c.isEagain = false)
    (hrun : ¬ Request.Stopped (Request.parseChunks chunks)) :
    Fed (c.read (.data seg)).parseProtocol.1 (chunks ++ [seg.bytes]) ∧
      ((c.read (.data seg)).parseProtocol.2 = .returned 0 →
        (Request.parseChunks (chunks ++ [seg.bytes])).isErr = false) := by
  have hbuf : (c.read (.data seg)).tcpByteArr = chunks.flatten ++ seg.bytes := by
    rw [h.all hdown]
    rfl
  have hparser : (c.read (.data seg)).parser =
      some (.request (Request.parseChunks chunks)) := h.parser
  have hfeed : (Request.Parser.doParse (chunks.flatten ++ seg.bytes)
      (Request.parseChunks chunks)).1 = Request.parseChunks (chunks ++ [seg.bytes]) := by
    simp only [Request.parseChunks, feed_concat, List.nil_append]
  have hne : seg.bytes ≠ [] := List.length_pos_iff.1 seg.nonempty
  obtain ⟨p, hp, -⟩ := parseProtocol_conn (c.read (.data seg))
  have hnew : p = some (.request (Request.parseChunks (chunks ++ [seg.bytes]))) ∧
      ((c.read (.data seg)).parseProtocol.2 = .returned 0 →
        (Request.parseChunks (chunks ++ [seg.bytes])).isErr = false) := by
    have hp' := congrArg ConnectionProfile.parser hp
    simp only [parseProtocol, hparser, ApplicationProtocolParser.doParse, hbuf, hfeed] at hp' ⊢
    cases hret : (Request.Parser.doParse (chunks.flatten ++ seg.bytes)
        (Request.parseChunks chunks)).2 with
    | crashed =>
        simp only [hret] at hp' ⊢
        exact ⟨hp'.symm, by simp⟩
    | returned code =>
        simp only [hret, ApplicationProtocolParser.isErr] at hp' ⊢
        refine ⟨hp'.symm, fun hcode => ?_⟩
        by_contra herr
        simp only [Bool.not_eq_false] at herr
        simp [herr] at hcode
  rw [hp]
  refine ⟨⟨?_, ?_, hnew.1, ?_, ?_⟩, hnew.2⟩
  · intro d hd
    rcases List.mem_append.1 hd with hd | hd
    · exact h.nonempty d hd
    · rw [List.mem_singleton.1 hd]
      exact hne
  · exact unstopped_concat _ h.runs hrun
  · rw [List.flatten_append, hbuf]
    simp
  · intro _
    rw [List.flatten_append, hbuf]
    simp

/-- Bytes that are appended without being parsed. -/
theorem Fed.read_eagain {c : ConnectionProfile} {chunks : List Bytes} {o : ReadOutcome}
    (h : Fed c chunks) (hup : (c.read o).isEagain = true) : Fed (c.read o) chunks where
  nonempty := h.nonempty
  runs := h.runs
  parser := h.parser
  isPrefix := h.isPrefix.trans (List.prefix_append _ _)
  all hdown := by
    rw [hup] at hdown
    cases hdown

/-- One round of `Receive` that neither fails nor crashes. -/
theorem fed_receiveRound {c c' : ConnectionProfile} {chunks : List Bytes} {o : ReadOutcome}
    {ret : Option ReceiveRet} {parsed : Bool} (h : Fed c chunks)
    (hrun : ¬ Request.Stopped (Request.parseChunks chunks))
    (hround : c.receiveRound o = (c', ret, parsed))
    (hret : ∀ code, ret = some code → code = .returned 0) :
    ∃ chunks', Fed c' chunks' ∧ (Request.parseChunks chunks').isErr = false ∧
      (ret = none → (Request.parseChunks chunks').isEnd = false) := by
  have herr := (not_stopped_iff.1 hrun).2
  cases hup : (c.read o).isEagain with
  | true =>
      rw [receiveRound_eagain hup] at hround
      simp only [Prod.mk.injEq] at hround
      obtain ⟨rfl, rfl, -⟩ := hround
      exact ⟨chunks, h.read_eagain hup, herr, by simp⟩
  | false =>
      cases o with
      | data seg =>
          have hdown : c.isEagain = false := hup
          obtain ⟨hfed, hok⟩ := fed_parseProtocol seg h hdown hrun
          simp only [receiveRound] at hround
          rw [if_neg (by rw [hup]; decide)] at hround
          generalize hparse : (c.read (.data seg)).parseProtocol = parse at hfed hok hround
          obtain ⟨d, code⟩ := parse
          cases code with
          | crashed =>
              simp only [Prod.mk.injEq] at hround
              have := hret _ hround.2.1.symm
              cases this
          | returned code =>
              simp only at hround
              split at hround
              · simp only [Prod.mk.injEq] at hround
                have := hret _ hround.2.1.symm
                cases this
              · rename_i hcode
                simp only [ne_eq, Decidable.not_not] at hcode
                have hnoerr := hok (by rw [hcode])
                split at hround
                · simp only [Prod.mk.injEq] at hround
                  obtain ⟨rfl, rfl, -⟩ := hround
                  exact ⟨_, hfed, hnoerr, by simp⟩
                · rename_i hgoes
                  simp only [Prod.mk.injEq] at hround
                  obtain ⟨rfl, rfl, -⟩ := hround
                  refine ⟨_, hfed, hnoerr, fun _ => ?_⟩
                  have hdone := (not_or.1 hgoes).1
                  rw [hfed.isParseDone] at hdone
                  simpa using hdone
      | fin =>
          simp only [receiveRound, hup, Bool.false_eq_true, if_false, Prod.mk.injEq] at hround
          obtain ⟨rfl, rfl, -⟩ := hround
          have hnil : (c.read .fin).tcpByteArr = c.tcpByteArr := List.append_nil _
          refine ⟨chunks, ⟨h.nonempty, h.runs, h.parser, ?_, fun _ => ?_⟩, herr, by simp⟩
          · rw [hnil]
            exact h.isPrefix
          · rw [hnil]
            exact h.all hup
      | eagain => cases hup
      | error =>
          simp only [receiveRound, hup, Bool.false_eq_true, if_false, Prod.mk.injEq] at hround
          have := hret _ hround.2.1.symm
          cases this

/-- **The parser of a running short link.** -/
theorem fed_of_receive {c : ConnectionProfile} {chunks : List Bytes}
    {outs : List ReadOutcome} {r : Received} (h : Fed c chunks)
    (hrun : ¬ Request.Stopped (Request.parseChunks chunks))
    (hr : c.receive outs = some r) (hret : r.ret = .returned 0) :
    ∃ chunks', Fed r.conn chunks' ∧ (Request.parseChunks chunks').isErr = false := by
  induction outs generalizing c chunks r with
  | nil => cases hr
  | cons o outs ih =>
      rcases receive_cases hr with ⟨c', ret, parsed, hround, -, rfl⟩ |
        ⟨c', parsed, r', hround, hrest, rfl⟩
      · obtain ⟨chunks', hfed, herr, -⟩ := fed_receiveRound h hrun hround (by
          intro code hcode
          simp only [Option.some.injEq] at hcode
          exact hcode ▸ hret)
        exact ⟨chunks', hfed, herr⟩
      · obtain ⟨chunks', hfed, herr, hend⟩ := fed_receiveRound h hrun hround (by simp)
        exact ih (r := r') hfed (not_stopped_iff.2 ⟨hend rfl, herr⟩) hrest hret

end ConnectionProfile

/-! ## The life of a short link -/

open ConnectionProfile

/-- A connection that stays with HTTP: its bytes received and the contexts
passed to `HandleApplicationPacket` so far. -/
structure ShortLink where
  conn : ConnectionProfile
  live : Bool
  received : Bytes
  dispatched : List RecvContext
  nextCtx : CtxId

/-- A read event: the outcomes of its reads, and whether
`HandleApplicationPacket` deletes the connection if it is called. -/
structure ReadInput where
  outs : List ReadOutcome
  handlerDeletes : Bool

namespace ShortLink

/-- The link right behind `RegisterConnection`. -/
def start (uid fd : Nat) (remoteIp : Bytes) (remotePort now : Nat) : ShortLink :=
  { conn := accepted uid fd remoteIp remotePort now, live := true, received := [],
    dispatched := [], nextCtx := 0 }

/-- One read event; `upgrade` is the server's `UpgradeApplicationProtocol`. -/
def step (upgrade : ConnectionProfile → ApplicationPacket → ConnectionProfile) (id : ConnId)
    (s : ShortLink) (e : ReadInput) : Option ShortLink :=
  if s.live = false then none
  else
    (s.conn.onReadEvent upgrade id s.nextCtx e.outs).map fun ev =>
      let received := s.received ++ e.outs.flatMap ReadOutcome.bytes
      match ev.stop with
      | .deleted => { s with conn := ev.conn, live := false, received }
      | .crashed => { s with conn := ev.conn, live := false, received }
      | .idle => { s with conn := ev.conn, received }
      | .dispatched ctx =>
          { conn := ev.conn, live := !e.handlerDeletes, received,
            dispatched := s.dispatched ++ [ctx], nextCtx := s.nextCtx + 1 }

/-- The event does not end with a parsed request that asks for another
protocol. -/
def StaysHttp (s : ShortLink) (e : ReadInput) : Prop :=
  ∀ r ∈ s.conn.receive e.outs, r.conn.isUpgradeApplicationProtocol = false

instance (s : ShortLink) (e : ReadInput) : Decidable (StaysHttp s e) :=
  match h : s.conn.receive e.outs with
  | none => isTrue (by simp [StaysHttp, h])
  | some r =>
      decidable_of_iff (r.conn.isUpgradeApplicationProtocol = false) (by simp [StaysHttp, h])

/-- With the parser at `kEnd`, the event is a read error, or a FIN that
`Receive` notes. -/
def EndsAtEnd (s : ShortLink) (e : ReadInput) : Prop :=
  s.conn.isParseDone = true →
    e.outs = [.error] ∨ (e.outs = [.fin] ∧ s.conn.isEagain = false)

instance (s : ShortLink) (e : ReadInput) : Decidable (EndsAtEnd s e) :=
  inferInstanceAs (Decidable (_ → _))

/-- No packet object is dispatched twice, and there are at most as many
dispatches as complete requests in the bytes received. -/
structure DispatchedOnce (s : ShortLink) : Prop where
  distinct : (s.dispatched.map RecvContext.packetNo).Nodup
  requests : ContainsRequests s.received s.dispatched.length

/-- What holds of a live link: the parser has been fed, and stands at `kEnd`
exactly when its one packet has been dispatched. -/
structure Live (s : ShortLink) : Prop where
  type : s.conn.type = .kAcceptFrom
  received : s.received = s.conn.tcpByteArr
  noFin : s.conn.hasReceivedFin = false
  fed : ∃ chunks, Fed s.conn chunks ∧ (Request.parseChunks chunks).isErr = false
  dispatched : if s.conn.isParseDone then s.dispatched.length = 1 else s.dispatched = []

structure Inv (s : ShortLink) : Prop where
  once : DispatchedOnce s
  live : s.live = true → Live s

theorem inv_start (uid fd : Nat) (remoteIp : Bytes) (remotePort now : Nat) :
    Inv (start uid fd remoteIp remotePort now) where
  once := ⟨by simp [start], ContainsRequests.zero _⟩
  live _ :=
    { type := rfl
      received := rfl
      noFin := rfl
      fed := ⟨[], ⟨by simp, by decide, rfl, List.prefix_refl _, fun _ => rfl⟩, by decide⟩
      dispatched := by simp [start, isParseDone, accepted, ApplicationProtocolParser.isEnd,
        HttpParser.isEnd, Request.Parser.fresh, HttpParser.init] }

/-- The packet of a request that asks for no other protocol. -/
theorem dispatch_request {c : ConnectionProfile} {p : Request.Parser}
    (upgrade : ConnectionProfile → ApplicationPacket → ConnectionProfile) (id : ConnId)
    (x : CtxId)
    (hp : c.parser = some (.request p)) (htype : c.type = .kAcceptFrom)
    (hhttp : c.isUpgradeApplicationProtocol = false) :
    ∃ ctx, dispatch upgrade id x (.request p) c =
        ⟨(c.makeSendContext id x).1, .dispatched ctx, some (c.makeSendContext id x).2⟩ ∧
      ctx.packetNo = c.packetNo := by
  have hflag : (ApplicationProtocolParser.request p).isUpgradeProtocol = false := by
    simpa [isUpgradeApplicationProtocol, hp] using hhttp
  have hrecycle : c.recycleParser = c := by simp [recycleParser, hp]
  refine ⟨{ (c.makeRecvContext id (.request p)).2 with returnPacket := some x }, ?_, rfl⟩
  simp only [dispatch, hflag, Bool.false_eq_true, if_false, makeRecvContext, hrecycle, htype]

/-- At `kEnd` the two outcomes of `EndsAtEnd` give the connection up. -/
theorem deleted_of_endsAtEnd {s : ShortLink} {e : ReadInput} {r : Received}
    (hend : EndsAtEnd s e) (hdone : s.conn.isParseDone = true)
    (hr : s.conn.receive e.outs = some r) :
    r.ret = .returned (-1) ∨ r.conn.hasReceivedFin = true := by
  rcases hend hdone with houts | ⟨houts, hdown⟩
  · rw [houts] at hr
    rcases receive_cases hr with ⟨c', ret, parsed, hround, -, rfl⟩ | ⟨c', _, _, hround, -, -⟩
    · rw [receiveRound_error] at hround
      simp only [Prod.mk.injEq, Option.some.injEq] at hround
      exact Or.inl hround.2.1.symm
    · cases hround
  · rw [houts] at hr
    rcases receive_cases hr with ⟨c', ret, parsed, hround, -, rfl⟩ | ⟨c', _, _, hround, -, -⟩
    · rw [receiveRound_fin hdown] at hround
      simp only [Prod.mk.injEq] at hround
      exact Or.inr (by rw [← hround.1])
    · rw [receiveRound_fin hdown] at hround
      cases hround

variable {upgrade : ConnectionProfile → ApplicationPacket → ConnectionProfile} {id : ConnId}

theorem step_cases {s s' : ShortLink} {e : ReadInput} (h : step upgrade id s e = some s') :
    s.live = true ∧ ∃ r, s.conn.receive e.outs = some r ∧
      ((s'.live = false ∧ s'.dispatched = s.dispatched) ∨
        ∃ p, r.ret = .returned 0 ∧ r.conn.hasReceivedFin = false ∧
          r.conn.parser = some p ∧
          ((p.isEnd = false ∧ s'.conn = r.conn ∧ s'.dispatched = s.dispatched) ∨
            (p.isEnd = true ∧ ∀ ctx c made,
              dispatch upgrade id s.nextCtx p r.conn = ⟨c, .dispatched ctx, made⟩ →
              s'.conn = c ∧ s'.dispatched = s.dispatched ++ [ctx]))) ∧
      s'.received = s.received ++ e.outs.flatMap ReadOutcome.bytes := by
  unfold step at h
  split at h
  · cases h
  · rename_i hlive
    refine ⟨by simpa using hlive, ?_⟩
    cases hr : s.conn.receive e.outs with
    | none => simp [onReadEvent, hr] at h
    | some r =>
        simp only [onReadEvent, hr, Option.map_some, Option.some.injEq] at h
        refine ⟨r, rfl, ?_⟩
        rcases afterReceive_cases upgrade id s.nextCtx hr with
          (⟨hdel, -⟩ | hcrash) | ⟨p, hret, hfin, hp, ⟨hend, hidle⟩ | ⟨hend, hdisp⟩⟩
        · rw [hdel] at h
          subst h
          exact ⟨Or.inl ⟨rfl, rfl⟩, rfl⟩
        · rw [hcrash] at h
          subst h
          exact ⟨Or.inl ⟨rfl, rfl⟩, rfl⟩
        · rw [hidle] at h
          subst h
          exact ⟨Or.inr ⟨p, hret, hfin, hp, Or.inl ⟨hend, rfl, rfl⟩⟩, rfl⟩
        · rw [hdisp] at h
          refine ⟨Or.inr ⟨p, hret, hfin, hp, Or.inr ⟨hend, ?_⟩⟩, ?_⟩
          · intro ctx c made hev
            rw [hev] at h
            subst h
            exact ⟨rfl, rfl⟩
          · subst h
            split <;> rfl

/-- **One read event** keeps the invariant, unless it finds the parser at
`kEnd` and leaves the connection alive. -/
theorem inv_step {s s' : ShortLink} {e : ReadInput} (hinv : Inv s)
    (hcond : StaysHttp s e ∧ EndsAtEnd s e) (h : step upgrade id s e = some s') : Inv s' := by
  obtain ⟨hlive, r, hr, hcases, hreceived⟩ := step_cases h
  have hl := hinv.live hlive
  obtain ⟨isEagain, hasReceivedFin, parser, hframe, -⟩ := receive_frame hr
  rcases hcases with ⟨hdead, hsame⟩ | ⟨p, hret, hfin, hp, hcases⟩
  · -- the connection is deleted, or the process is gone
    refine ⟨⟨by rw [hsame]; exact hinv.once.distinct, ?_⟩, fun ht => ?_⟩
    · rw [hsame, hreceived]
      exact hinv.once.requests.append _
    · rw [hdead] at ht
      cases ht
  · have hrunning : s.conn.isParseDone = false := by
      by_contra hdone
      rcases deleted_of_endsAtEnd hcond.2 (by simpa using hdone) hr with hneg | hfin'
      · rw [hret] at hneg
        cases hneg
      · rw [hfin] at hfin'
        cases hfin'
    have hnone : s.dispatched = [] := by
      have := hl.dispatched
      rwa [hrunning, if_neg (by decide)] at this
    obtain ⟨chunks, hfed, herr⟩ := hl.fed
    have hstop : ¬ Request.Stopped (Request.parseChunks chunks) :=
      not_stopped_iff.2 ⟨hfed.isParseDone ▸ hrunning, herr⟩
    obtain ⟨chunks', hfed', herr'⟩ := fed_of_receive hfed hstop hr hret
    have hbytes : s'.received = r.conn.tcpByteArr := by
      rw [hreceived, hl.received, hframe]
    have htype : r.conn.type = .kAcceptFrom := by rw [hframe]; exact hl.type
    have hdone : r.conn.isParseDone = p.isEnd := by simp [isParseDone, hp]
    rcases hcases with ⟨hend, hconn, hsame⟩ | ⟨hend, hdispatch⟩
    · rw [hnone] at hsame
      refine ⟨⟨by simp [hsame], by rw [hsame]; exact ContainsRequests.zero _⟩, fun _ => ?_⟩
      exact
        { type := by rw [hconn]; exact htype
          received := by rw [hconn]; exact hbytes
          noFin := by rw [hconn]; exact hfin
          fed := by rw [hconn]; exact ⟨chunks', hfed', herr'⟩
          dispatched := by rw [hconn, hdone, hend, if_neg (by decide)]; exact hsame }
    · -- the packet is complete, and it is the first one
      have hrequest : p = .request (Request.parseChunks chunks') := by
        rw [hfed'.parser] at hp
        exact (Option.some.inj hp).symm
      subst hrequest
      have hhttp := hcond.1 r hr
      obtain ⟨ctx, hev, -⟩ := dispatch_request upgrade id s.nextCtx hp htype hhttp
      obtain ⟨hconn, hnew⟩ := hdispatch ctx _ _ hev
      rw [hnone, List.nil_append] at hnew
      refine ⟨⟨by simp [hnew], ?_⟩, fun _ => ?_⟩
      · rw [hnew, hbytes]
        exact hfed'.contains (hdone.trans hend)
      · exact
          { type := by rw [hconn]; exact htype
            received := by rw [hconn]; exact hbytes
            noFin := by rw [hconn]; exact hfin
            fed := by
              rw [hconn]
              exact ⟨chunks', ⟨hfed'.nonempty, hfed'.runs, hfed'.parser, hfed'.isPrefix,
                hfed'.all⟩, herr'⟩
            dispatched := by
              have hdone' : s'.conn.isParseDone = true := by
                rw [hconn]
                exact hdone.trans hend
              rw [hdone', if_pos rfl, hnew]
              rfl }

/-- **Each request is dispatched at most once** in every run in which no
read event finds the parser at `kEnd`, except one that ends the
connection. -/
theorem dispatchedOnce_of_endsAtEnd (upgrade : ConnectionProfile → ApplicationPacket →
      ConnectionProfile) (id : ConnId) (uid fd : Nat) (remoteIp : Bytes)
    (remotePort now : Nat) (events : List ReadInput)
    (hhttp : Along (step upgrade id) StaysHttp (start uid fd remoteIp remotePort now) events)
    (hend : Along (step upgrade id) EndsAtEnd (start uid fd remoteIp remotePort now) events) :
    ∀ t ∈ trace (step upgrade id) (start uid fd remoteIp remotePort now) events,
      DispatchedOnce t := by
  have hboth := along_and hhttp hend
  intro t ht
  exact (trace_invariant (fun _ _ _ hs hc h => inv_step hs hc h)
    (inv_start uid fd remoteIp remotePort now) hboth t ht).once

/-- A GET request, cut in two, and the FIN behind it. -/
def getThenFin : List ReadInput :=
  [⟨[reads "GET / HTTP/1.1\r\nA: b" (by decide)], false⟩,
    ⟨[reads "\r\n\r\n" (by decide)], false⟩, ⟨[.fin], false⟩]

theorem dispatchedOnce_getThenFin :
    ∃ t, run (step (fun c _ => c) 0) (start 1 7 (lit "10.0.0.1") 4000 0) getThenFin = some t ∧
      t.dispatched.length = 1 ∧ DispatchedOnce t := by
  have hsome : ((run (step (fun c _ => c) 0) (start 1 7 (lit "10.0.0.1") 4000 0)
      getThenFin).map fun t => t.dispatched.length) = some 1 := by
    decide
  obtain ⟨t, hrun, hlen⟩ := Option.map_eq_some_iff.1 hsome
  exact ⟨t, hrun, hlen, dispatchedOnce_of_endsAtEnd _ 0 1 7 (lit "10.0.0.1") 4000 0 getThenFin
    (by decide) (by decide) t (run_mem_trace hrun)⟩

/-- A complete request, one byte behind it, and 27 read events without
data. -/
def getAndMore : List ReadInput :=
  ⟨[getRequest], false⟩ :: ⟨[reads "x" (by decide)], false⟩ ::
    List.replicate 27 ⟨[.eagain], false⟩

/-- Every event behind the request dispatches the same packet again: there
are more dispatches than bytes. -/
theorem not_dispatchedOnce_getAndMore :
    ∃ t ∈ trace (step (fun c _ => c) 0) (start 1 7 (lit "10.0.0.1") 4000 0) getAndMore,
      ¬ (t.dispatched.map RecvContext.packetNo).Nodup ∧
        ¬ ContainsRequests t.received t.dispatched.length := by
  have hsome : ((run (step (fun c _ => c) 0) (start 1 7 (lit "10.0.0.1") 4000 0)
      getAndMore).map fun t => (t.dispatched.map RecvContext.packetNo, t.received.length)) =
        some (List.replicate 29 0, 25) := by
    decide
  obtain ⟨t, hrun, ht⟩ := Option.map_eq_some_iff.1 hsome
  obtain ⟨hpackets, hbytes⟩ := Prod.mk.inj ht
  refine ⟨t, run_mem_trace hrun, ?_, fun hcontains => ?_⟩
  · rw [hpackets]
    decide
  · have hle := hcontains.le_length
    have hlen := congrArg List.length hpackets
    rw [List.length_map, List.length_replicate] at hlen
    omega

end ShortLink

end Unixtar
