import Unixtar.NetworkModel.Effects

/-!
# Whose a send context is

A send context is listed, and waits to be sent, only at the connection that has
made it, and its connection is gone once it is invalid.  Unlike `Sound`, which
also says that no context is missed by the destructor, this needs nothing of the
numbers of the contexts: they may wrap around.

## Main results

* `Loyal.direct`, `Loyal.pending` — both ways of sending keep this.
* `Loyal.destroy`, `Loyal.clearTimeout`, `Loyal.addConnection`,
  `Loyal.newContext` — so does everything else.
* `pendingEffects_pending`, `untouched_pending` — a write event is for the
  contexts that wait at its connection.
-/

namespace Unixtar.NetState

/-- The connection that has made a context. -/
def ownerOf (s : NetState) (x : CtxId) : Option ConnId := (s.ctxs x).map (·.owner)

theorem ownerOf_of_ctxs {s : NetState} {x : CtxId} {k : SendContext} (h : s.ctxs x = some k) :
    s.ownerOf x = some k.owner := by
  unfold ownerOf
  rw [h]
  rfl

/-- A connection has the context in one of its two lists. -/
def InLists (c : ConnectionProfile) (x : CtxId) : Prop := x ∈ c.sendContexts ∨ x ∈ c.pendingSendCtx

/-- Contexts are listed by their makers, and invalid ones have none any more. -/
structure Owners (s : NetState) : Prop where
  ctx_lt : ∀ x k, s.ctxs x = some k → x < s.nextCtx
  socket : ∀ x k, s.ctxs x = some k → k.socket = k.owner
  owner_lt : ∀ x k, s.ctxs x = some k → k.owner < s.nextConn
  invalid : ∀ x k, s.ctxs x = some k → k.isTcpConnValid = false → s.isLive k.owner = false
  conn_lt : ∀ id c, s.mgr.conns id = some c → id < s.nextConn
  listed : ∀ id c, s.mgr.conns id = some c → ∀ x, InLists c x → s.ownerOf x = some id

theorem owners_init (v : VectorImpl) : Owners (init v) where
  ctx_lt x k h := by cases h
  socket x k h := by cases h
  owner_lt x k h := by cases h
  invalid x k h := by cases h
  conn_lt id c h := by cases h
  listed id c h := by cases h

/-- From `s` to `t` contexts keep their makers, and what is gone stays gone. -/
structure Buries (s t : NetState) : Prop where
  owners : KeepsOwners s t
  nextConn : s.nextConn ≤ t.nextConn
  gone : ∀ id, id < s.nextConn → s.isLive id = false → t.isLive id = false

/-- A change that leaves the contexts with their makers. -/
def Loyal (s t : NetState) : Prop := s.Owners → t.Owners ∧ Buries s t

namespace Loyal

theorem refl (s : NetState) : Loyal s s :=
  fun h => ⟨h, KeepsOwners.refl s, Nat.le_refl _, fun _ _ hid => hid⟩

theorem trans {s t u : NetState} (h : Loyal s t) (h' : Loyal t u) : Loyal s u := by
  intro hs
  obtain ⟨ht, howners, hnext, hgone⟩ := h hs
  obtain ⟨hu, howners', hnext', hgone'⟩ := h' ht
  refine ⟨hu, howners.trans howners', Nat.le_trans hnext hnext', ?_⟩
  intro id hid hdead
  exact hgone' id (Nat.lt_of_lt_of_le hid hnext) (hgone id hid hdead)

/-- Nothing new appears: contexts change in their buffers and become invalid,
and connections list fewer contexts, or their own ones. -/
theorem of_changes {s t : NetState} (hnextConn : t.nextConn = s.nextConn)
    (hnextCtx : t.nextCtx = s.nextCtx) (hkeeps : KeepsOwners s t)
    (hctxs : ∀ x l, t.ctxs x = some l → ∃ k, s.ctxs x = some k ∧ l.owner = k.owner ∧
      l.socket = k.socket ∧
      (l.isTcpConnValid = false → k.isTcpConnValid = false ∨ t.isLive k.owner = false))
    (hconns : ∀ id d, t.mgr.conns id = some d → ∃ c, s.mgr.conns id = some c ∧
      ∀ x, InLists d x → InLists c x ∨ s.ownerOf x = some id) : Loyal s t := by
  intro h
  have hgone : ∀ id, s.isLive id = false → t.isLive id = false := by
    intro id hdead
    cases hd : t.mgr.conns id with
    | none =>
        unfold isLive
        rw [hd]
        rfl
    | some d =>
        obtain ⟨c, hc, -⟩ := hconns id d hd
        rw [isLive_of_conns hc] at hdead
        cases hdead
  refine ⟨⟨?_, ?_, ?_, ?_, ?_, ?_⟩, hkeeps, Nat.le_of_eq hnextConn.symm, fun id _ => hgone id⟩
  · intro x l hl
    obtain ⟨k, hk, -⟩ := hctxs x l hl
    rw [hnextCtx]
    exact h.ctx_lt x k hk
  · intro x l hl
    obtain ⟨k, hk, howner, hsocket, -⟩ := hctxs x l hl
    rw [hsocket, howner]
    exact h.socket x k hk
  · intro x l hl
    obtain ⟨k, hk, howner, -⟩ := hctxs x l hl
    rw [howner, hnextConn]
    exact h.owner_lt x k hk
  · intro x l hl hinvalid
    obtain ⟨k, hk, howner, -, hvalid⟩ := hctxs x l hl
    rw [howner]
    rcases hvalid hinvalid with hold | hdead
    · exact hgone _ (h.invalid x k hk hold)
    · exact hdead
  · intro id d hd
    obtain ⟨c, hc, -⟩ := hconns id d hd
    rw [hnextConn]
    exact h.conn_lt id c hc
  · intro id d hd x hx
    obtain ⟨c, hc, hlists⟩ := hconns id d hd
    have howner : s.ownerOf x = some id :=
      (hlists x hx).elim (h.listed id c hc x) fun howner => howner
    obtain ⟨k, hk, rfl⟩ := Option.map_eq_some_iff.1 howner
    obtain ⟨l, hl, hlk⟩ := hkeeps x k hk
    rw [ownerOf_of_ctxs hl, hlk]

/-- A connection lists fewer contexts, or its own ones. -/
theorem setConn {s : NetState} {id : ConnId} {c d : ConnectionProfile}
    (hc : s.mgr.conns id = some c)
    (hlists : ∀ x, InLists d x → InLists c x ∨ s.ownerOf x = some id) :
    Loyal s (s.setConn id d) := by
  refine of_changes rfl rfl (KeepsOwners.refl s)
    (fun x l hl => ⟨l, hl, rfl, rfl, fun hinvalid => Or.inl hinvalid⟩) ?_
  intro id' e he
  rw [setConn_conns] at he
  by_cases hid : id' = id
  · rw [hid, Function.update_self] at he
    cases he
    rw [hid]
    exact ⟨c, hc, hlists⟩
  · rw [Function.update_of_ne hid] at he
    exact ⟨e, he, fun x hx => Or.inl hx⟩

/-- A change that leaves the connections alone, and of the contexts one buffer. -/
theorem buffer {s t : NetState} {x : CtxId} {k : SendContext} {b : AutoBuffer}
    (hk : s.ctxs x = some k)
    (hctxs : t.ctxs = Function.update s.ctxs x (some { k with buffer := b }))
    (hmgr : t.mgr = s.mgr) (hnextConn : t.nextConn = s.nextConn)
    (hnextCtx : t.nextCtx = s.nextCtx) : Loyal s t := by
  have hkeeps : KeepsOwners s t :=
    KeepsOwners.of_update (l := { k with buffer := b }) hk rfl hctxs
  refine of_changes hnextConn hnextCtx hkeeps ?_ ?_
  · intro y l hl
    rw [hctxs] at hl
    by_cases hy : y = x
    · rw [hy, Function.update_self] at hl
      cases hl
      rw [hy]
      exact ⟨k, hk, rfl, rfl, fun hinvalid => Or.inl hinvalid⟩
    · rw [Function.update_of_ne hy] at hl
      exact ⟨l, hl, rfl, rfl, fun hinvalid => Or.inl hinvalid⟩
  · intro id d hd
    rw [hmgr] at hd
    exact ⟨d, hd, fun y hy => Or.inl hy⟩

/-- A change of nothing that matters here. -/
theorem of_eq {s t : NetState} (hctxs : t.ctxs = s.ctxs) (hmgr : t.mgr = s.mgr)
    (hnextConn : t.nextConn = s.nextConn) (hnextCtx : t.nextCtx = s.nextCtx) : Loyal s t := by
  refine of_changes hnextConn hnextCtx (fun x k hk => ⟨k, by rw [hctxs]; exact hk, rfl⟩) ?_ ?_
  · intro x l hl
    rw [hctxs] at hl
    exact ⟨l, hl, rfl, rfl, fun hinvalid => Or.inl hinvalid⟩
  · intro id d hd
    rw [hmgr] at hd
    exact ⟨d, hd, fun x hx => Or.inl hx⟩

/-! ## Sending -/

theorem trySend {s t : NetState} {x : CtxId} {w : WriteOutcome} {done : Bool}
    (h : s.trySend x w = some (t, done)) : Loyal s t := by
  cases hk : s.ctxs x with
  | none => simp [NetState.trySend, hk] at h
  | some k =>
      obtain ⟨-, -, rfl⟩ := trySend_eq hk h
      exact buffer hk rfl rfl rfl rfl

theorem onSendDone (x : CtxId) (s : NetState) : Loyal s (s.onSendDone x) := by
  cases hk : s.ctxs x with
  | none =>
      unfold NetState.onSendDone
      rw [hk]
      exact refl s
  | some k =>
      cases hc : s.mgr.conns k.owner with
      | none =>
          unfold NetState.onSendDone
          simp only [hk, hc]
          exact refl s
      | some c =>
          obtain ⟨timeoutTs, sendContexts, hdone, hless, -⟩ := onSendDone_eq hk hc
          rw [hdone]
          exact setConn hc fun y hy => Or.inl (hy.imp_left (hless y))

theorem markAsPendingPacket (x : CtxId) (s : NetState) : Loyal s (s.markAsPendingPacket x) := by
  cases hk : s.ctxs x with
  | none =>
      unfold NetState.markAsPendingPacket
      rw [hk]
      exact refl s
  | some k =>
      cases hc : s.mgr.conns k.owner with
      | none =>
          unfold NetState.markAsPendingPacket
          simp only [hk, hc]
          exact refl s
      | some c =>
          rw [markAsPendingPacket_eq hk hc]
          refine setConn hc fun y hy => ?_
          rcases hy with hy | hy
          · exact Or.inl (Or.inl hy)
          · rcases List.mem_append.1 hy with hy | hy
            · exact Or.inl (Or.inr hy)
            · rw [List.mem_singleton.1 hy]
              exact Or.inr (ownerOf_of_ctxs hk)

theorem popPending (id : ConnId) (s : NetState) : Loyal s (s.popPending id) := by
  cases hc : s.mgr.conns id with
  | none =>
      unfold NetState.popPending
      rw [hc]
      exact refl s
  | some c =>
      rw [popPending_eq hc]
      exact setConn hc fun y hy => Or.inl (hy.imp_right List.mem_of_mem_tail)

/-- **The direct path.** -/
theorem direct {s t : NetState} {x : CtxId} {w : WriteOutcome} {done : Bool}
    (h : s.trySendAndMarkPendingIfUndone x w = some (t, done)) : Loyal s t := by
  cases trySendAndMarkPendingIfUndone_cases h with
  | done k s₁ _ _ htry => exact (trySend htry).trans (onSendDone x s₁)
  | undone k s₁ _ _ htry => exact (trySend htry).trans (markAsPendingPacket x s₁)
  | skipped => exact refl s

/-- **The deferred path.** -/
theorem pending {s t : NetState} {id : ConnId} {ws : List WriteOutcome}
    (h : s.trySendPendingPackets id ws = some t) : Loyal s t := by
  induction ws generalizing s with
  | nil =>
      rw [trySendPendingPackets_nil h]
      exact refl s
  | cons w ws ih =>
      obtain ⟨c, x, rest, -, -, ⟨s₁, htry, hnext⟩ | ⟨htry, -⟩⟩ := trySendPendingPackets_cons h
      · exact (trySend htry).trans
          ((onSendDone x s₁).trans ((popPending id _).trans (ih hnext)))
      · exact trySend htry

/-! ## The end of a connection -/

/-- **The destructor**: what becomes invalid is the connection's own. -/
theorem destroy {s : NetState} {id : ConnId} {c : ConnectionProfile} (slot uid : Nat)
    (hc : s.mgr.conns id = some c) : Loyal s (s.destroy slot uid id c) := by
  intro h
  refine of_changes rfl rfl (Frame.destroy slot uid id c s).owners ?_ ?_ h
  · intro x l hl
    replace hl : invalidate c.sendContexts s.ctxs x = some l := hl
    unfold invalidate at hl
    split at hl
    · rename_i hx
      obtain ⟨k, hk, rfl⟩ := Option.map_eq_some_iff.1 hl
      have howner := h.listed id c hc x (Or.inl hx)
      rw [ownerOf_of_ctxs hk] at howner
      refine ⟨k, hk, rfl, rfl, fun _ => Or.inr ?_⟩
      rw [Option.some.inj howner]
      show (Function.update s.mgr.conns id none id).isSome = false
      rw [Function.update_self]
      rfl
    · exact ⟨l, hl, rfl, rfl, fun hinvalid => Or.inl hinvalid⟩
  · intro id' d hd
    exact ⟨d, (ConnectionManager.conns_of_release hd).2, fun x hx => Or.inl hx⟩

theorem delConnection {s t : NetState} {uid : Nat} (h : s.delConnection uid = some t) :
    Loyal s t := by
  obtain ⟨id, c, -, hc, rfl⟩ := delConnection_cases h
  exact destroy uid uid hc

theorem clearTimeout (s : NetState) : Loyal s s.clearTimeout := by
  refine clearTimeout_keeps (P := Loyal s) (fun t slot ht => ht.trans ?_) (refl s)
  unfold NetState.clearSlot
  split
  · rename_i id c hexpired
    exact destroy slot c.uid (ConnectionManager.expired_iff.1 hexpired).2.1
  · exact refl t

/-! ## New connections and new contexts -/

theorem addConnection {v : VectorImpl} {c : ConnectionProfile} {s t : NetState} {id : ConnId}
    (hcontexts : c.sendContexts = []) (hpending : c.pendingSendCtx = [])
    (hadd : s.addConnection v c = some (t, id)) : Loyal s t := by
  intro h
  obtain ⟨mgr, hmgr, heq⟩ := Option.map_eq_some_iff.1 hadd
  obtain ⟨uid, hconns⟩ := ConnectionManager.addConnection_conns hmgr
  cases heq
  have hlive : ∀ id, id < s.nextConn → (mgr.conns id).isSome = s.isLive id := by
    intro id hid
    rw [hconns, Function.update_of_ne (Nat.ne_of_lt hid)]
    rfl
  refine ⟨⟨h.ctx_lt, h.socket, ?_, ?_, ?_, ?_⟩, KeepsOwners.refl _, Nat.le_succ _, ?_⟩
  · exact fun x k hk => Nat.lt_succ_of_lt (h.owner_lt x k hk)
  · intro x k hk hinvalid
    exact (hlive _ (h.owner_lt x k hk)).trans (h.invalid x k hk hinvalid)
  · intro id d hd
    replace hd : mgr.conns id = some d := hd
    rw [hconns] at hd
    by_cases hid : id = s.nextConn
    · rw [hid]
      exact Nat.lt_succ_self _
    · rw [Function.update_of_ne hid] at hd
      exact Nat.lt_succ_of_lt (h.conn_lt id d hd)
  · intro id d hd x hx
    replace hd : mgr.conns id = some d := hd
    rw [hconns] at hd
    by_cases hid : id = s.nextConn
    · rw [hid, Function.update_self] at hd
      cases hd
      simp [InLists, hcontexts, hpending] at hx
    · rw [Function.update_of_ne hid] at hd
      exact h.listed id d hd x hx
  · exact fun id hid hdead => (hlive id hid).trans hdead

/-- **A new context** of a connection, which lists it. -/
theorem newContext {s : NetState} {id : ConnId} {c d : ConnectionProfile} {k : SendContext}
    (hc : s.mgr.conns id = some c) (howner : k.owner = id) (hsocket : k.socket = id)
    (hvalid : k.isTcpConnValid = true) (hlists : ∀ x, InLists d x → InLists c x ∨ x = s.nextCtx) :
    Loyal s ((s.setConn id d).allocCtx (some k)) := by
  intro h
  generalize ht : (s.setConn id d).allocCtx (some k) = t
  have hctxs : t.ctxs = Function.update s.ctxs s.nextCtx (some k) := by rw [← ht]; rfl
  have hconns : t.mgr.conns = Function.update s.mgr.conns id (some d) := by rw [← ht]; rfl
  have hnextCtx : t.nextCtx = s.nextCtx + 1 := by rw [← ht]; rfl
  have hnextConn : t.nextConn = s.nextConn := by rw [← ht]; rfl
  have hlive : ∀ id', t.isLive id' = s.isLive id' := by
    intro id'
    unfold isLive
    rw [hconns]
    by_cases hid : id' = id
    · rw [hid, Function.update_self, hc]
      rfl
    · rw [Function.update_of_ne hid]
  have hold : ∀ x l, t.ctxs x = some l → (x = s.nextCtx ∧ l = k) ∨ s.ctxs x = some l := by
    intro x l hl
    rw [hctxs] at hl
    by_cases hx : x = s.nextCtx
    · rw [hx, Function.update_self] at hl
      exact Or.inl ⟨hx, (Option.some.inj hl).symm⟩
    · rw [Function.update_of_ne hx] at hl
      exact Or.inr hl
  have hkept : ∀ x l, s.ctxs x = some l → t.ctxs x = some l := by
    intro x l hl
    rw [hctxs, Function.update_of_ne (Nat.ne_of_lt (h.ctx_lt x l hl))]
    exact hl
  have hownerOf : ∀ x id', s.ownerOf x = some id' → t.ownerOf x = some id' := by
    intro x id' hx
    obtain ⟨l, hl, rfl⟩ := Option.map_eq_some_iff.1 hx
    exact ownerOf_of_ctxs (hkept x l hl)
  refine ⟨⟨?_, ?_, ?_, ?_, ?_, ?_⟩, fun x l hl => ⟨l, hkept x l hl, rfl⟩,
    Nat.le_of_eq hnextConn.symm, fun id' _ hdead => (hlive id').trans hdead⟩
  · intro x l hl
    rw [hnextCtx]
    rcases hold x l hl with ⟨rfl, -⟩ | hl
    · exact Nat.lt_succ_self _
    · exact Nat.lt_succ_of_lt (h.ctx_lt x l hl)
  · intro x l hl
    rcases hold x l hl with ⟨-, rfl⟩ | hl
    · exact hsocket.trans howner.symm
    · exact h.socket x l hl
  · intro x l hl
    rw [hnextConn]
    rcases hold x l hl with ⟨-, rfl⟩ | hl
    · exact howner ▸ h.conn_lt id c hc
    · exact h.owner_lt x l hl
  · intro x l hl hinvalid
    rcases hold x l hl with ⟨-, rfl⟩ | hl
    · rw [hvalid] at hinvalid
      cases hinvalid
    · exact (hlive _).trans (h.invalid x l hl hinvalid)
  · intro id' e he
    rw [hnextConn]
    rw [hconns] at he
    by_cases hid : id' = id
    · exact hid ▸ h.conn_lt id c hc
    · rw [Function.update_of_ne hid] at he
      exact h.conn_lt id' e he
  · intro id' e he x hx
    rw [hconns] at he
    by_cases hid : id' = id
    · rw [hid, Function.update_self] at he
      cases he
      rw [hid]
      rcases hlists x hx with hx | rfl
      · exact hownerOf x id (h.listed id c hc x hx)
      · rw [ownerOf_of_ctxs (hctxs ▸ Function.update_self _ _ _), howner]
    · rw [Function.update_of_ne hid] at he
      exact hownerOf x id' (h.listed id' e he x hx)

end Loyal

/-! ## Write events -/

/-- `OnSendDone` takes nothing from the queues. -/
theorem pending_onSendDone {s : NetState} {id : ConnId} {c : ConnectionProfile}
    (hc : s.mgr.conns id = some c) (x : CtxId) :
    ∃ d, (s.onSendDone x).mgr.conns id = some d ∧ d.pendingSendCtx = c.pendingSendCtx := by
  unfold onSendDone
  split
  · exact ⟨c, hc, rfl⟩
  · rename_i k hk
    split
    · exact ⟨c, hc, rfl⟩
    · rename_i d hd
      rw [setConn_conns]
      by_cases hid : id = k.owner
      · rw [← hid] at hd
        rw [hc] at hd
        cases hd
        refine ⟨c.sendContextSendDoneCallback s.now k.seq s.seqOf, ?_, rfl⟩
        rw [← hid, Function.update_self]
      · exact ⟨c, (Function.update_of_ne hid _ _).trans hc, rfl⟩

/-- **A write event** is for the contexts that wait at its connection, by
induction on the outcomes: the queue gets shorter. -/
theorem pendingEffects_pending {id : ConnId} {ws : List WriteOutcome} {s : NetState}
    {c : ConnectionProfile} (hc : s.mgr.conns id = some c) :
    ∀ e ∈ s.pendingEffects id ws, e.ctx ∈ c.pendingSendCtx := by
  induction ws generalizing s c with
  | nil =>
      intro e he
      cases he
  | cons w ws ih =>
      intro e he
      simp only [pendingEffects, hc] at he
      cases hpending : c.pendingSendCtx with
      | nil =>
          simp only [hpending] at he
          cases he
      | cons x rest =>
          simp only [hpending] at he
          rcases List.mem_append.1 he with he | he
          · rw [trySendEffects_ctx e he]
            exact List.mem_cons_self
          · right
            split at he
            · rename_i s₁ htry
              obtain ⟨k, -, -, -, -, -, -, hmgr, -⟩ := trySend_cases htry
              have hc₁ : s₁.mgr.conns id = some c := hmgr ▸ hc
              obtain ⟨d, hd, hqueue⟩ := pending_onSendDone hc₁ x
              have hpop : ((s₁.onSendDone x).popPending id).mgr.conns id =
                  some { d with pendingSendCtx := d.pendingSendCtx.tail } := by
                rw [popPending_eq hd]
                exact Function.update_self _ _ _
              have hmem := ih hpop e he
              rw [hqueue, hpending] at hmem
              exact hmem
            · cases he

theorem exists_conn_of_pending {s t : NetState} {id : ConnId} {ws : List WriteOutcome}
    (h : s.trySendPendingPackets id ws = some t) : ∃ c, s.mgr.conns id = some c := by
  cases hc : s.mgr.conns id with
  | none => cases ws <;> simp [trySendPendingPackets, hc] at h
  | some c => exact ⟨c, rfl⟩

/-- It leaves alone what does not wait there. -/
theorem untouched_pending {x : CtxId} {id : ConnId} {ws : List WriteOutcome} {s t : NetState}
    {c : ConnectionProfile} (hc : s.mgr.conns id = some c) (hx : x ∉ c.pendingSendCtx)
    (hsend : s.trySendPendingPackets id ws = some t) : Untouched x s t := by
  induction ws generalizing s c with
  | nil =>
      rw [trySendPendingPackets_nil hsend]
      exact Untouched.of_eq rfl rfl x
  | cons w ws ih =>
      obtain ⟨c', y, rest, hc', hpending, hcase⟩ := trySendPendingPackets_cons hsend
      rw [hc] at hc'
      cases hc'
      have hne : y ≠ x := by
        rintro rfl
        rw [hpending] at hx
        exact hx List.mem_cons_self
      rcases hcase with ⟨s₁, htry, hnext⟩ | ⟨htry, -⟩
      · obtain ⟨k, -, -, -, -, -, -, hmgr, -⟩ := trySend_cases htry
        have hc₁ : s₁.mgr.conns id = some c := hmgr ▸ hc
        obtain ⟨d, hd, hqueue⟩ := pending_onSendDone hc₁ y
        have hpop : ((s₁.onSendDone y).popPending id).mgr.conns id =
            some { d with pendingSendCtx := d.pendingSendCtx.tail } := by
          rw [popPending_eq hd]
          exact Function.update_self _ _ _
        have hdone : Untouched x s₁ ((s₁.onSendDone y).popPending id) :=
          Untouched.of_eq ((popPending_ctxs id _).trans (onSendDone_ctxs y s₁))
            ((popPending_writes id _).trans (onSendDone_writes y s₁)) x
        refine ((Untouched.trySend hne htry).trans hdone).trans (ih hpop ?_ hnext)
        intro hmem
        apply hx
        rw [← hqueue]
        exact List.mem_of_mem_tail hmem
      · exact Untouched.trySend hne htry

end Unixtar.NetState
