import Unixtar.Lib.Run
import Unixtar.NetworkModel.TcpConnection
import Mathlib.Tactic.SplitIfs

/-!
# What `Receive` does with the outcomes of its reads

`Socket` keeps `is_eagain_` from one call to the next and updates it only
when a read fails, but `Receive` looks at it before anything else.  So one
EAGAIN decides how every later read is treated, until a read fails with
another error.

## Main results

* `heeded_of_not_eagain` — with the flag down, a call of `Receive` heeds
  every one of its reads.
* `heeded_iff_unflagged` — a call heeds its reads exactly when none of them
  delivers data, or a first FIN, while the flag is up.
* `calls_heeded_iff` — the same over the whole life of a connection, as a
  condition on the sequence of its read outcomes alone.
-/

namespace Unixtar

open Unixtar.Lib

namespace ConnectionProfile

/-- No read of the call is ignored: data is parsed before the call returns,
a FIN is noted, and an error is returned. -/
structure Heeded (r : Received) : Prop where
  data : ∀ before round behind seg, r.rounds = before ++ round :: behind →
    round.outcome = .data seg →
    ∃ later ∈ round :: behind, later.parsed = true ∧ round.buffer <+: later.buffer
  fin : ∀ round ∈ r.rounds, round.outcome = .fin → r.conn.hasReceivedFin = true
  error : ∀ round ∈ r.rounds, round.outcome = .error → r.ret = .returned (-1)

/-- No read of the call returns data, or a FIN that is the first one, while
`is_eagain_` is up. -/
def Unflagged (c : ConnectionProfile) (outs : List ReadOutcome) : Prop :=
  c.isEagain = true → ∀ o ∈ outs, o.bytes = [] ∧ (o = .fin → c.hasReceivedFin = true)

instance (c : ConnectionProfile) (outs : List ReadOutcome) : Decidable (Unflagged c outs) :=
  inferInstanceAs (Decidable (_ → _))

/-! ## One round -/

/-- `ParseProtocol` changes the parser only, and leaves one. -/
theorem parseProtocol_conn (c : ConnectionProfile) :
    ∃ p, c.parseProtocol.1 = { c with parser := p } ∧ (c.parser.isSome → p.isSome) := by
  unfold parseProtocol
  split
  · exact ⟨c.parser, rfl, id⟩
  · split
    · exact ⟨_, rfl, fun _ => rfl⟩
    · exact ⟨_, rfl, fun _ => rfl⟩

/-- Data is parsed at once when the flag is down. -/
theorem receiveRound_data {c : ConnectionProfile} (seg : Segment) (h : c.isEagain = false) :
    ∃ p ret, c.receiveRound (.data seg) =
        ({ c.read (.data seg) with parser := p }, ret, true) ∧
      (c.parser.isSome → p.isSome) := by
  have hflag : (c.read (.data seg)).isEagain = false := h
  obtain ⟨p, hp, hsome⟩ := parseProtocol_conn (c.read (.data seg))
  simp only [receiveRound]
  rw [if_neg (by rw [hflag]; decide)]
  generalize hparse : (c.read (.data seg)).parseProtocol = parse at hp
  obtain ⟨c', ret⟩ := parse
  simp only at hp
  subst hp
  cases ret with
  | crashed => exact ⟨p, _, rfl, hsome⟩
  | returned code =>
      simp only
      split
      · exact ⟨p, _, rfl, hsome⟩
      · split
        · exact ⟨p, _, rfl, hsome⟩
        · exact ⟨p, _, rfl, hsome⟩

/-- With the flag up, the first read ends the call. -/
theorem receiveRound_eagain {c : ConnectionProfile} {o : ReadOutcome}
    (h : (c.read o).isEagain = true) :
    c.receiveRound o = (c.read o, some (.returned 0), false) := by
  simp [receiveRound, h]

theorem receiveRound_error (c : ConnectionProfile) :
    c.receiveRound .error = (c.read .error, some (.returned (-1)), false) := rfl

theorem receiveRound_fin {c : ConnectionProfile} (h : c.isEagain = false) :
    c.receiveRound .fin =
      ({ c.read .fin with hasReceivedFin := true }, some (.returned 0), false) := by
  have hflag : (c.read .fin).isEagain = false := h
  simp only [receiveRound]
  rw [if_neg (by rw [hflag]; decide)]

/-- The loop goes on behind data only. -/
theorem receiveRound_none {c c' : ConnectionProfile} {o : ReadOutcome} {parsed : Bool}
    (h : c.receiveRound o = (c', none, parsed)) :
    ∃ seg, o = .data seg ∧ c.isEagain = false := by
  cases o with
  | data seg =>
      refine ⟨seg, rfl, ?_⟩
      by_contra hflag
      rw [receiveRound_eagain (by simpa [read, ReadOutcome.eagainFlag] using hflag)] at h
      cases h
  | fin =>
      simp only [receiveRound] at h
      split at h <;> cases h
  | eagain => simp [receiveRound, read, ReadOutcome.eagainFlag] at h
  | error => simp [receiveRound, read, ReadOutcome.eagainFlag] at h

/-- A round changes the buffer, the two flags and the parser only. -/
theorem receiveRound_frame {c c' : ConnectionProfile} {o : ReadOutcome}
    {ret : Option ReceiveRet} {parsed : Bool} (h : c.receiveRound o = (c', ret, parsed)) :
    ∃ isEagain hasReceivedFin parser,
      c' = { c with tcpByteArr := c.tcpByteArr ++ o.bytes, isEagain, hasReceivedFin, parser } ∧
        (c.parser.isSome → parser.isSome) := by
  cases hflag : (c.read o).isEagain with
  | true =>
      rw [receiveRound_eagain hflag] at h
      simp only [Prod.mk.injEq] at h
      exact ⟨_, c.hasReceivedFin, c.parser, h.1.symm, id⟩
  | false =>
      cases o with
      | data seg =>
          obtain ⟨p, ret', heq, hsome⟩ := receiveRound_data (c := c) seg hflag
          rw [heq] at h
          simp only [Prod.mk.injEq] at h
          exact ⟨_, c.hasReceivedFin, p, h.1.symm, hsome⟩
      | fin =>
          simp only [receiveRound] at h
          rw [if_neg (by rw [hflag]; decide)] at h
          simp only [Prod.mk.injEq] at h
          exact ⟨_, true, c.parser, h.1.symm, id⟩
      | eagain => cases hflag
      | error =>
          simp only [receiveRound] at h
          rw [if_neg (by rw [hflag]; decide)] at h
          simp only [Prod.mk.injEq] at h
          exact ⟨_, c.hasReceivedFin, c.parser, h.1.symm, id⟩

/-! ## One call -/

/-- The two ways a call starts: its first round ends it, or the loop goes
on. -/
theorem receive_cases {c : ConnectionProfile} {o : ReadOutcome} {outs : List ReadOutcome}
    {r : Received} (h : c.receive (o :: outs) = some r) :
    (∃ c' ret parsed, c.receiveRound o = (c', some ret, parsed) ∧ outs = [] ∧
        r = ⟨c', ret, [⟨o, c.tcpByteArr ++ o.bytes, parsed⟩]⟩) ∨
      (∃ c' parsed r', c.receiveRound o = (c', none, parsed) ∧ c'.receive outs = some r' ∧
        r = ⟨r'.conn, r'.ret, ⟨o, c.tcpByteArr ++ o.bytes, parsed⟩ :: r'.rounds⟩) := by
  simp only [receive] at h
  split at h
  · rename_i c' ret parsed hround
    split at h
    · rename_i hnil
      simp only [Option.some.injEq] at h
      exact Or.inl ⟨c', ret, parsed, hround, hnil, h.symm⟩
    · cases h
  · rename_i c' parsed hround
    cases hrest : c'.receive outs with
    | none => simp [hrest] at h
    | some r' =>
        simp only [hrest, Option.map_some, Option.some.injEq] at h
        exact Or.inr ⟨c', parsed, r', hround, hrest, h.symm⟩

/-- A connection without a parser reads once, and gets none. -/
theorem receive_unparsed {c : ConnectionProfile} {outs : List ReadOutcome} {r : Received}
    (hparser : c.parser = none) (h : c.receive outs = some r) : r.conn.parser = none := by
  cases outs with
  | nil => cases h
  | cons o outs =>
      have hround : ∃ c' ret parsed, c.receiveRound o = (c', some ret, parsed) ∧
          c'.parser = none := by
        have hread : (c.read o).parser = none := hparser
        unfold receiveRound
        dsimp only
        split_ifs
        · exact ⟨_, _, _, rfl, hread⟩
        · cases o with
          | data seg =>
              have hparse : (c.read (.data seg)).parseProtocol =
                  (c.read (.data seg), .returned (-1)) := by
                unfold parseProtocol
                rw [hread]
              exact ⟨_, _, _, by rw [hparse]; rfl, hread⟩
          | fin => exact ⟨_, _, _, rfl, hparser⟩
          | eagain => exact ⟨_, _, _, rfl, hread⟩
          | error => exact ⟨_, _, _, rfl, hread⟩
      obtain ⟨c', ret, parsed, hround, hnone⟩ := hround
      rcases receive_cases h with ⟨c'', _, _, hround', -, rfl⟩ | ⟨_, _, _, hround', -⟩
      · rw [hround] at hround'
        cases hround'
        exact hnone
      · rw [hround] at hround'
        cases hround'

/-- **What a call changes**: the buffer, which holds every byte read, the two
flags and the parser. -/
theorem receive_frame {c : ConnectionProfile} {outs : List ReadOutcome} {r : Received}
    (h : c.receive outs = some r) :
    ∃ isEagain hasReceivedFin parser,
      r.conn = { c with tcpByteArr := c.tcpByteArr ++ outs.flatMap ReadOutcome.bytes,
                        isEagain, hasReceivedFin, parser } ∧
        (c.parser.isSome → parser.isSome) := by
  induction outs generalizing c r with
  | nil => cases h
  | cons o outs ih =>
      rcases receive_cases h with ⟨c', ret, parsed, hround, rfl, rfl⟩ |
        ⟨c', parsed, r', hround, hrest, rfl⟩
      · obtain ⟨e, f, p, rfl, hsome⟩ := receiveRound_frame hround
        exact ⟨e, f, p, by simp, hsome⟩
      · obtain ⟨e, f, p, rfl, hsome⟩ := receiveRound_frame hround
        obtain ⟨e', f', p', hconn, hsome'⟩ := ih hrest
        refine ⟨e', f', p', ?_, hsome' ∘ hsome⟩
        rw [hconn, List.flatMap_cons, List.append_assoc]

/-- What a call leaves alone. -/
theorem receive_kept {c : ConnectionProfile} {outs : List ReadOutcome} {r : Received}
    (h : c.receive outs = some r) :
    r.conn.uid = c.uid ∧ r.conn.type = c.type ∧ r.conn.sendCtxSeq = c.sendCtxSeq ∧
      r.conn.sendContexts = c.sendContexts ∧ r.conn.pendingSendCtx = c.pendingSendCtx := by
  obtain ⟨_, _, _, hconn, -⟩ := receive_frame h
  rw [hconn]
  exact ⟨rfl, rfl, rfl, rfl, rfl⟩

section Parser

variable {P : ApplicationProtocolParser → Prop} (hP : ∀ p buf, P p → P (p.doParse buf).1)
include hP

theorem parseProtocol_keeps {c : ConnectionProfile} (hc : ∀ p ∈ c.parser, P p) :
    ∀ p ∈ c.parseProtocol.1.parser, P p := by
  unfold parseProtocol
  split
  · exact hc
  · rename_i p hp
    have hparsed := hP p c.tcpByteArr (hc p hp)
    split
    · rename_i q hq
      rw [hq] at hparsed
      simpa using hparsed
    · rename_i q code hq
      rw [hq] at hparsed
      simpa using hparsed

theorem receiveRound_keeps {c c' : ConnectionProfile} {o : ReadOutcome}
    {ret : Option ReceiveRet} {parsed : Bool} (h : c.receiveRound o = (c', ret, parsed))
    (hc : ∀ p ∈ c.parser, P p) : ∀ p ∈ c'.parser, P p := by
  have hparse := parseProtocol_keeps hP (c := c.read o) hc
  unfold receiveRound at h
  dsimp only at h
  split at h
  · cases h
    exact hc
  · cases o with
    | data seg =>
        dsimp only at h
        split at h
        · rename_i d heq
          rw [heq] at hparse
          cases h
          exact hparse
        · rename_i d code heq
          rw [heq] at hparse
          split_ifs at h <;> cases h <;> exact hparse
    | _ =>
        cases h
        exact hc

/-- **What `DoParse` keeps, `Receive` keeps.** -/
theorem receive_keeps {c : ConnectionProfile} {outs : List ReadOutcome} {r : Received}
    (h : c.receive outs = some r) (hc : ∀ p ∈ c.parser, P p) : ∀ p ∈ r.conn.parser, P p := by
  induction outs generalizing c r with
  | nil => cases h
  | cons o outs ih =>
      rcases receive_cases h with ⟨c', ret, parsed, hround, -, rfl⟩ |
        ⟨c', parsed, r', hround, hrest, rfl⟩
      · exact receiveRound_keeps hP hround hc
      · exact ih (r := r') hrest (receiveRound_keeps hP hround hc)

end Parser

/-- `Receive` returns 0 or -1. -/
theorem receiveRound_ret {c c' : ConnectionProfile} {o : ReadOutcome} {ret : ReceiveRet}
    {parsed : Bool} (h : c.receiveRound o = (c', some ret, parsed)) :
    ret = .returned 0 ∨ ret = .returned (-1) ∨ ret = .crashed := by
  unfold receiveRound at h
  dsimp only at h
  split_ifs at h with hflag
  · simp_all
  · cases o with
    | data seg =>
        dsimp only at h
        split at h
        · simp_all
        · split_ifs at h <;> simp_all
    | _ => simp_all

theorem receive_ret {c : ConnectionProfile} {outs : List ReadOutcome} {r : Received}
    (h : c.receive outs = some r) :
    r.ret = .returned 0 ∨ r.ret = .returned (-1) ∨ r.ret = .crashed := by
  induction outs generalizing c r with
  | nil => cases h
  | cons o outs ih =>
      rcases receive_cases h with ⟨c', ret, parsed, hround, rfl, rfl⟩ |
        ⟨c', parsed, r', hround, hrest, rfl⟩
      · exact receiveRound_ret hround
      · exact ih (r := r') hrest

/-- The two ways `__OnReadEvent` goes on behind `Receive`: the connection is
given up, or its packet is complete or not. -/
theorem afterReceive_cases {c : ConnectionProfile} {outs : List ReadOutcome} {r : Received}
    (upgrade : ConnectionProfile → ApplicationPacket → ConnectionProfile) (id : ConnId)
    (x : CtxId) (h : c.receive outs = some r) :
    ((afterReceive upgrade id x r.ret r.conn = ⟨r.conn, .deleted, none⟩ ∧
        (r.ret = .returned (-1) ∨ r.conn.hasReceivedFin = true)) ∨
      afterReceive upgrade id x r.ret r.conn = ⟨r.conn, .crashed, none⟩) ∨
      ∃ p, r.ret = .returned 0 ∧ r.conn.hasReceivedFin = false ∧ r.conn.parser = some p ∧
        ((p.isEnd = false ∧ afterReceive upgrade id x r.ret r.conn = ⟨r.conn, .idle, none⟩) ∨
          (p.isEnd = true ∧
            afterReceive upgrade id x r.ret r.conn = dispatch upgrade id x p r.conn)) := by
  rcases receive_ret h with hret | hret | hret
  · rw [hret]
    cases hfin : r.conn.hasReceivedFin with
    | true => exact Or.inl (Or.inl ⟨by simp [afterReceive, hfin], Or.inr rfl⟩)
    | false =>
        cases hp : r.conn.parser with
        | none => exact Or.inl (Or.inr (by simp [afterReceive, hfin, hp]))
        | some p =>
            refine Or.inr ⟨p, rfl, rfl, rfl, ?_⟩
            cases hend : p.isEnd with
            | false => exact Or.inl ⟨rfl, by simp [afterReceive, hfin, hp, hend]⟩
            | true => exact Or.inr ⟨rfl, by simp [afterReceive, hfin, hp, hend]⟩
  · rw [hret]
    exact Or.inl (Or.inl ⟨by simp [afterReceive], Or.inl rfl⟩)
  · rw [hret]
    exact Or.inl (Or.inr rfl)

theorem dispatch_stop_ne_deleted
    (upgrade : ConnectionProfile → ApplicationPacket → ConnectionProfile) (id : ConnId)
    (x : CtxId) (p : ApplicationProtocolParser) (c : ConnectionProfile) :
    (dispatch upgrade id x p c).stop ≠ .deleted := by
  unfold dispatch
  dsimp only
  split
  · split <;> simp
  · split <;> simp

theorem heeded_single {c : ConnectionProfile} {ret : ReceiveRet} {round : Round}
    (hdata : ∀ seg, round.outcome = .data seg → round.parsed = true)
    (hfin : round.outcome = .fin → c.hasReceivedFin = true)
    (herror : round.outcome = .error → ret = .returned (-1)) :
    Heeded ⟨c, ret, [round]⟩ where
  data before rd behind seg hsplit hout := by
    cases before with
    | nil =>
        simp only [List.nil_append, List.cons.injEq] at hsplit
        obtain ⟨rfl, rfl⟩ := hsplit
        exact ⟨round, by simp, hdata seg hout, List.prefix_refl _⟩
    | cons b before => simp at hsplit
  fin rd hmem hout := by
    simp only [List.mem_singleton] at hmem
    exact hfin (hmem ▸ hout)
  error rd hmem hout := by
    simp only [List.mem_singleton] at hmem
    exact herror (hmem ▸ hout)

theorem heeded_cons {r : Received} {round : Round} {seg : Segment}
    (hround : round.outcome = .data seg) (hparsed : round.parsed = true) (h : Heeded r) :
    Heeded ⟨r.conn, r.ret, round :: r.rounds⟩ where
  data before rd behind seg' hsplit hout := by
    cases before with
    | nil =>
        simp only [List.nil_append, List.cons.injEq] at hsplit
        obtain ⟨rfl, rfl⟩ := hsplit
        exact ⟨round, by simp, hparsed, List.prefix_refl _⟩
    | cons b before =>
        simp only [List.cons_append, List.cons.injEq] at hsplit
        exact h.data before rd behind seg' hsplit.2 hout
  fin rd hmem hout := by
    rcases List.mem_cons.1 hmem with rfl | hmem
    · rw [hround] at hout
      cases hout
    · exact h.fin rd hmem hout
  error rd hmem hout := by
    rcases List.mem_cons.1 hmem with rfl | hmem
    · rw [hround] at hout
      cases hout
    · exact h.error rd hmem hout

/-- **With the flag down every read is heeded.** -/
theorem heeded_of_not_eagain {c : ConnectionProfile} {outs : List ReadOutcome} {r : Received}
    (hflag : c.isEagain = false) (h : c.receive outs = some r) : Heeded r := by
  induction outs generalizing c r with
  | nil => cases h
  | cons o outs ih =>
      rcases receive_cases h with ⟨c', ret, parsed, hround, -, rfl⟩ |
        ⟨c', parsed, r', hround, hrest, rfl⟩
      · cases o with
        | data seg =>
            obtain ⟨p, ret', heq, -⟩ := receiveRound_data seg hflag
            rw [heq] at hround
            simp only [Prod.mk.injEq] at hround
            exact heeded_single (fun _ _ => hround.2.2.symm) (by simp) (by simp)
        | fin =>
            simp only [receiveRound, read, ReadOutcome.eagainFlag, hflag, Bool.false_eq_true,
              if_false, Prod.mk.injEq] at hround
            exact heeded_single (by simp) (fun _ => by rw [← hround.1]) (by simp)
        | eagain => exact heeded_single (by simp) (by simp) (by simp)
        | error =>
            simp only [receiveRound, read, ReadOutcome.eagainFlag, Bool.false_eq_true,
              if_false, Prod.mk.injEq, Option.some.injEq] at hround
            exact heeded_single (by simp) (by simp) (fun _ => hround.2.1.symm)
      · -- the loop goes on: the data was parsed, the flag is still down
        obtain ⟨seg, rfl, -⟩ := receiveRound_none hround
        obtain ⟨p, ret', heq, -⟩ := receiveRound_data seg hflag
        rw [heq] at hround
        simp only [Prod.mk.injEq] at hround
        obtain ⟨rfl, -, rfl⟩ := hround
        exact heeded_cons rfl rfl (ih (by exact hflag) hrest)

/-- **One call.** -/
theorem heeded_iff_unflagged {c : ConnectionProfile} {outs : List ReadOutcome} {r : Received}
    (h : c.receive outs = some r) : Heeded r ↔ Unflagged c outs := by
  cases hflag : c.isEagain with
  | false =>
      refine iff_of_true (heeded_of_not_eagain hflag h) ?_
      intro hup
      rw [hflag] at hup
      cases hup
  | true =>
      cases outs with
      | nil => cases h
      | cons o outs =>
          rcases receive_cases h with ⟨c', ret, parsed, hround, rfl, rfl⟩ |
            ⟨c', parsed, r', hround, -, -⟩
          · simp only [Unflagged, hflag, forall_const, List.mem_singleton, forall_eq]
            cases o with
            | data seg =>
                rw [receiveRound_eagain (by simpa [read, ReadOutcome.eagainFlag] using hflag)]
                  at hround
                simp only [Prod.mk.injEq] at hround
                refine iff_of_false (fun hheeded => ?_) (fun hbytes => ?_)
                · obtain ⟨later, hmem, hparsed, -⟩ := hheeded.data [] _ [] seg rfl rfl
                  simp only [List.mem_singleton] at hmem
                  rw [hmem, ← hround.2.2] at hparsed
                  cases hparsed
                · have hpos := seg.nonempty
                  have hnil : seg.bytes = [] := hbytes.1
                  rw [hnil] at hpos
                  exact absurd hpos (by decide)
            | fin =>
                rw [receiveRound_eagain (by simpa [read, ReadOutcome.eagainFlag] using hflag)]
                  at hround
                simp only [Prod.mk.injEq] at hround
                obtain ⟨rfl, -, -⟩ := hround
                constructor
                · intro hheeded
                  exact ⟨rfl, fun _ => hheeded.fin _ (List.mem_singleton_self _) rfl⟩
                · intro hfin
                  exact heeded_single (by simp) (fun _ => hfin.2 rfl) (by simp)
            | eagain =>
                refine iff_of_true (heeded_single (by simp) (by simp) (by simp)) ?_
                exact ⟨rfl, by simp⟩
            | error =>
                simp only [receiveRound, read, ReadOutcome.eagainFlag, Bool.false_eq_true,
                  if_false, Prod.mk.injEq, Option.some.injEq] at hround
                refine iff_of_true
                  (heeded_single (by simp) (by simp) (fun _ => hround.2.1.symm)) ?_
                exact ⟨rfl, by simp⟩
          · obtain ⟨seg, -, hdown⟩ := receiveRound_none hround
            rw [hflag] at hdown
            cases hdown

/-! ## The whole life of a connection -/

/-- A connection and the calls of `Receive` made on it so far. -/
structure Life where
  conn : ConnectionProfile
  calls : List Received

/-- One more call; a call that does not return is the last one. -/
def Life.receive (l : Life) (outs : List ReadOutcome) : Option Life :=
  if ∃ r ∈ l.calls, r.ret = .crashed then none
  else (l.conn.receive outs).map fun r => ⟨r.conn, l.calls ++ [r]⟩

theorem heeded_iff_along {c : ConnectionProfile} {history : List (List ReadOutcome)}
    {l : Life} (hrun : run Life.receive ⟨c, []⟩ history = some l) :
    (∀ r ∈ l.calls, Heeded r) ↔
      Along Life.receive (fun l outs => Unflagged l.conn outs) ⟨c, []⟩ history := by
  have hstep : ∀ (s : Life) (outs : List ReadOutcome) (s' : Life), True →
      Life.receive s outs = some s' →
      True ∧ ∃ r, s'.calls = s.calls ++ [r] ∧ (Heeded r ↔ Unflagged s.conn outs) := by
    intro s outs s' _ h
    unfold Life.receive at h
    split at h
    · cases h
    · cases hreceive : s.conn.receive outs with
      | none => simp [hreceive] at h
      | some r =>
          simp only [hreceive, Option.map_some, Option.some.injEq] at h
          subst h
          exact ⟨trivial, r, rfl, heeded_iff_unflagged hreceive⟩
  rw [log_iff_along hstep trivial hrun]
  simp

/-- No read in the sequence returns data, or a FIN that is the first one,
while `is_eagain_` is up: `flag` and `fin` are `is_eagain_` and
`has_received_Fin_` in front of it. -/
def NeverFlagged : Bool → Bool → List ReadOutcome → Prop
  | _, _, [] => True
  | flag, fin, o :: outs =>
      (flag = true → o.bytes = [] ∧ (o = .fin → fin = true)) ∧
        NeverFlagged (o.eagainFlag flag) (fin || (o = .fin && !flag)) outs

instance NeverFlagged.decidable : ∀ flag fin outs, Decidable (NeverFlagged flag fin outs)
  | _, _, [] => isTrue trivial
  | flag, fin, o :: outs =>
      have := NeverFlagged.decidable (o.eagainFlag flag) (fin || (o = .fin && !flag)) outs
      inferInstanceAs (Decidable ((_ → _) ∧ _))

/-- The two flags behind one round. -/
theorem receiveRound_flags {c c' : ConnectionProfile} {o : ReadOutcome}
    {ret : Option ReceiveRet} {parsed : Bool} (h : c.receiveRound o = (c', ret, parsed)) :
    c'.isEagain = o.eagainFlag c.isEagain ∧
      c'.hasReceivedFin = (c.hasReceivedFin || (o = .fin && !c.isEagain)) := by
  cases hflag : (c.read o).isEagain with
  | true =>
      rw [receiveRound_eagain hflag] at h
      simp only [Prod.mk.injEq] at h
      obtain ⟨rfl, -, -⟩ := h
      refine ⟨rfl, ?_⟩
      cases o with
      | fin =>
          have hup : c.isEagain = true := hflag
          simp [read, hup]
      | _ => simp [read]
  | false =>
      cases o with
      | data seg =>
          have hdown : c.isEagain = false := hflag
          obtain ⟨p, ret', heq, -⟩ := receiveRound_data seg hdown
          rw [heq] at h
          simp only [Prod.mk.injEq] at h
          obtain ⟨rfl, -, -⟩ := h
          exact ⟨rfl, by simp [read]⟩
      | fin =>
          have hdown : c.isEagain = false := hflag
          simp only [receiveRound, hflag, Bool.false_eq_true, if_false, Prod.mk.injEq] at h
          obtain ⟨rfl, -, -⟩ := h
          exact ⟨by simp [ReadOutcome.eagainFlag, hdown], by simp [hdown]⟩
      | eagain => cases hflag
      | error =>
          simp only [receiveRound, hflag, Bool.false_eq_true, if_false, Prod.mk.injEq] at h
          obtain ⟨rfl, -, -⟩ := h
          exact ⟨rfl, by simp [read]⟩

/-- A call's part of the sequence. -/
theorem neverFlagged_append {c : ConnectionProfile} {outs rest : List ReadOutcome}
    {r : Received} (h : c.receive outs = some r) :
    NeverFlagged c.isEagain c.hasReceivedFin (outs ++ rest) ↔
      Unflagged c outs ∧ NeverFlagged r.conn.isEagain r.conn.hasReceivedFin rest := by
  induction outs generalizing c r with
  | nil => cases h
  | cons o outs ih =>
      rcases receive_cases h with ⟨c', ret, parsed, hround, rfl, rfl⟩ |
        ⟨c', parsed, r', hround, hrest, rfl⟩
      · obtain ⟨hflag, hfin⟩ := receiveRound_flags hround
        simp only [List.singleton_append, NeverFlagged, Unflagged, List.mem_singleton,
          forall_eq, hflag, hfin]
      · obtain ⟨seg, rfl, hdown⟩ := receiveRound_none hround
        obtain ⟨hflag, hfin⟩ := receiveRound_flags hround
        have hfree : Unflagged c (.data seg :: outs) := by simp [Unflagged, hdown]
        have hfree' : Unflagged c' outs := by simp [Unflagged, hflag, hdown,
          ReadOutcome.eagainFlag]
        have hnext := ih hrest
        rw [hflag, hfin] at hnext
        rw [List.cons_append, NeverFlagged, hnext]
        simp only [hdown, Bool.false_eq_true, false_imp_iff, hfree, hfree', true_and]

theorem along_iff_neverFlagged {s l : Life} {history : List (List ReadOutcome)}
    (hrun : run Life.receive s history = some l) :
    Along Life.receive (fun l outs => Unflagged l.conn outs) s history ↔
      NeverFlagged s.conn.isEagain s.conn.hasReceivedFin history.flatten := by
  induction history generalizing s with
  | nil => simp [Along, NeverFlagged]
  | cons outs history ih =>
      simp only [run] at hrun
      cases hstep : Life.receive s outs with
      | none => simp [hstep] at hrun
      | some s' =>
          simp only [hstep, Option.bind_some] at hrun
          rw [along_cons_some hstep, ih hrun, List.flatten_cons]
          unfold Life.receive at hstep
          split at hstep
          · cases hstep
          · cases hreceive : s.conn.receive outs with
            | none => simp [hreceive] at hstep
            | some r =>
                simp only [hreceive, Option.map_some, Option.some.injEq] at hstep
                subst hstep
                rw [neverFlagged_append hreceive]

/-- **No read is ignored.**  Over the whole life of a connection, however
its reads are spread over calls of `Receive`, every call heeds all of its
reads exactly when no read delivers data, or a first FIN, behind an EAGAIN
that no other error followed. -/
theorem calls_heeded_iff {c : ConnectionProfile} {history : List (List ReadOutcome)}
    {l : Life} (hrun : run Life.receive ⟨c, []⟩ history = some l) :
    (∀ r ∈ l.calls, Heeded r) ↔
      NeverFlagged c.isEagain c.hasReceivedFin history.flatten := by
  rw [heeded_iff_along hrun, along_iff_neverFlagged hrun]

/-- A connection before its first byte. -/
def sample : ConnectionProfile := accepted 1 7 (lit "10.0.0.1") 4000 0

/-- A read that delivers the bytes of a text. -/
def reads (s : String) (h : 0 < (lit s).length ∧ (lit s).length ≤ kBufferSize) : ReadOutcome :=
  .data ⟨lit s, h.1, h.2⟩

/-- A read that delivers a whole request. -/
def getRequest : ReadOutcome := reads "GET / HTTP/1.1\r\nA: b\r\n\r\n" (by decide)

/-- A read that delivers a request for the upgrade to WebSocket. -/
def upgradeRequest : ReadOutcome :=
  reads "GET / HTTP/1.1\r\nConnection: Upgrade\r\nSec-WebSocket-Key: k\r\n\r\n" (by decide)

/-- Two segments of a request, then a FIN. -/
def plainHistory : List (List ReadOutcome) :=
  [[reads "GET / HT" (by decide)], [reads "TP/1.1\r\n" (by decide)], [.fin]]

theorem calls_heeded_plainHistory :
    ∃ l, run Life.receive ⟨sample, []⟩ plainHistory = some l ∧ ∀ r ∈ l.calls, Heeded r := by
  have hsome : (run Life.receive ⟨sample, []⟩ plainHistory).isSome = true := by decide
  obtain ⟨l, hrun⟩ := Option.isSome_iff_exists.1 hsome
  exact ⟨l, hrun, (calls_heeded_iff hrun).2 (by decide)⟩

/-- An EAGAIN, then a segment, then a FIN. -/
def eagainHistory : List (List ReadOutcome) :=
  [[.eagain], [reads "GET / HT" (by decide)], [.fin]]

/-- Behind an EAGAIN the next segment of the request is not parsed, and the
FIN behind it is not noted. -/
theorem calls_not_heeded_eagainHistory :
    ∃ l, run Life.receive ⟨sample, []⟩ eagainHistory = some l ∧
      ¬ ∀ r ∈ l.calls, Heeded r := by
  have hsome : (run Life.receive ⟨sample, []⟩ eagainHistory).isSome = true := by decide
  obtain ⟨l, hrun⟩ := Option.isSome_iff_exists.1 hsome
  refine ⟨l, hrun, ?_⟩
  rw [heeded_iff_along hrun]
  decide

end ConnectionProfile

end Unixtar
