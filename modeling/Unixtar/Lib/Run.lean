import Mathlib.Data.List.Basic
import Mathlib.Tactic.Tauto

/-!
# Runs of a partial step function

A system is given by `step : σ → ι → Option σ`: the input `ι` carries every
choice the environment makes, and `none` means that the input is not
enabled in that state.  A run is a list of inputs; `trace` lists the states
it passes through.

## Main results

* `trace_invariant` — the invariant rule for runs whose steps all meet a
  side condition `C`: what holds at the start and is kept by every step
  that meets `C` holds in every state of such a run.
* `trace_iff_along` — when that side condition is also necessary for a
  property of the states, it is exact.
* `log_iff_along` — for a run that writes a log, one entry for each step:
  every entry is good exactly when every step meets its condition.
* `run_append` — runs compose, which is how long runs are built from
  cycles that are proved once.
* `run_project`, `mem_trace_project` — a system that watches another one goes
  through that one's states.
-/

namespace Unixtar.Lib

universe u v

variable {σ : Type u} {ι : Type v}

/-- The state a run ends in, or `none` once some input is not enabled. -/
def run (step : σ → ι → Option σ) : σ → List ι → Option σ
  | s, [] => some s
  | s, e :: es => (step s e).bind fun s' => run step s' es

/-- The states a run passes through, the first one included, up to the
first input that is not enabled. -/
def trace (step : σ → ι → Option σ) : σ → List ι → List σ
  | s, [] => [s]
  | s, e :: es =>
      s :: match step s e with
        | none => []
        | some s' => trace step s' es

/-- Every step the run takes meets the side condition `C`, which looks at
the state before the step and at the input. -/
def Along (step : σ → ι → Option σ) (C : σ → ι → Prop) : σ → List ι → Prop
  | _, [] => True
  | s, e :: es =>
      match step s e with
      | none => True
      | some s' => C s e ∧ Along step C s' es

instance Along.decidable (step : σ → ι → Option σ) (C : σ → ι → Prop)
    [∀ s e, Decidable (C s e)] : ∀ s es, Decidable (Along step C s es)
  | _, [] => isTrue trivial
  | s, e :: es =>
      match h : step s e with
      | none => isTrue (by simp [Along, h])
      | some s' =>
          match Along.decidable step C s' es with
          | isTrue ht =>
              if hc : C s e then isTrue (by simp [Along, h, hc, ht])
              else isFalse (by simp [Along, h, hc])
          | isFalse hf => isFalse (by simp [Along, h, hf])

@[simp] theorem run_nil (step : σ → ι → Option σ) (s : σ) :
    run step s [] = some s := rfl

theorem run_cons_some {step : σ → ι → Option σ} {s s' : σ} {e : ι}
    (h : step s e = some s') (es : List ι) :
    run step s (e :: es) = run step s' es := by
  simp [run, h]

theorem along_cons_some {step : σ → ι → Option σ} {C : σ → ι → Prop}
    {s s' : σ} {e : ι} (h : step s e = some s') (es : List ι) :
    Along step C s (e :: es) ↔ C s e ∧ Along step C s' es := by
  simp [Along, h]

theorem along_and {step : σ → ι → Option σ} {C D : σ → ι → Prop} {s : σ} {es : List ι}
    (hC : Along step C s es) (hD : Along step D s es) :
    Along step (fun s e => C s e ∧ D s e) s es := by
  induction es generalizing s with
  | nil => trivial
  | cons e es ih =>
      unfold Along at hC hD ⊢
      split
      · trivial
      · rename_i s' hstep
        simp only [hstep] at hC hD
        exact ⟨⟨hC.1, hD.1⟩, ih hC.2 hD.2⟩

/-- Runs compose. -/
theorem run_append (step : σ → ι → Option σ) (s : σ) (es fs : List ι) :
    run step s (es ++ fs) = (run step s es).bind fun t => run step t fs := by
  induction es generalizing s with
  | nil => rfl
  | cons e es ih =>
      simp only [List.cons_append, run]
      cases hstep : step s e with
      | none => rfl
      | some s' => simp only [Option.bind_some]; exact ih s'

theorem run_append_some {step : σ → ι → Option σ} {s t u : σ} {es fs : List ι}
    (hes : run step s es = some t) (hfs : run step t fs = some u) :
    run step s (es ++ fs) = some u := by
  rw [run_append, hes]
  exact hfs

theorem mem_trace_self (step : σ → ι → Option σ) (s : σ) (es : List ι) :
    s ∈ trace step s es := by
  cases es <;> simp [trace]

/-- The state a run ends in is one of the states it passes through. -/
theorem run_mem_trace {step : σ → ι → Option σ} {s t : σ} {es : List ι}
    (h : run step s es = some t) : t ∈ trace step s es := by
  induction es generalizing s with
  | nil =>
      simp only [run_nil, Option.some.injEq] at h
      simp [trace, h]
  | cons e es ih =>
      simp only [run] at h
      cases hstep : step s e with
      | none => simp [hstep] at h
      | some s' =>
          simp only [hstep, Option.bind_some] at h
          simp only [trace, hstep, List.mem_cons]
          exact Or.inr (ih h)

section Projection

variable {τ : Type u} {step : σ → ι → Option σ} {step' : τ → ι → Option τ} {f : σ → τ}
  (h : ∀ s e s', step s e = some s' → step' (f s) e = some (f s'))
include h

/-- A run of a system that watches another one is a run of that one. -/
theorem run_project {s t : σ} {es : List ι} (hrun : run step s es = some t) :
    run step' (f s) es = some (f t) := by
  induction es generalizing s with
  | nil =>
      cases hrun
      rfl
  | cons e es ih =>
      obtain ⟨s', hs', hrest⟩ := Option.bind_eq_some_iff.1 hrun
      rw [run_cons_some (h s e s' hs')]
      exact ih hrest

/-- So are the states on the way. -/
theorem mem_trace_project {s t : σ} {es : List ι} (ht : t ∈ trace step s es) :
    f t ∈ trace step' (f s) es := by
  induction es generalizing s with
  | nil =>
      rw [List.mem_singleton.1 ht]
      exact List.mem_cons_self
  | cons e es ih =>
      rcases List.mem_cons.1 ht with rfl | ht
      · exact mem_trace_self step' (f t) (e :: es)
      · cases hstep : step s e with
        | none =>
            rw [hstep] at ht
            cases ht
        | some s' =>
            rw [hstep] at ht
            simp only [trace, h s e s' hstep]
            exact List.mem_cons_of_mem (f s) (ih ht)

end Projection

/-- **Invariant rule.**  An invariant that every step meeting `C` preserves
holds in every state of a run all of whose steps meet `C`. -/
theorem trace_invariant {step : σ → ι → Option σ} {C : σ → ι → Prop}
    {Inv : σ → Prop}
    (hstep : ∀ s e s', Inv s → C s e → step s e = some s' → Inv s')
    {s : σ} {es : List ι} (hs : Inv s) (hes : Along step C s es) :
    ∀ t ∈ trace step s es, Inv t := by
  induction es generalizing s with
  | nil =>
      intro t ht
      simp only [trace, List.mem_singleton] at ht
      exact ht ▸ hs
  | cons e es ih =>
      intro t ht
      simp only [trace, List.mem_cons] at ht
      rcases ht with rfl | ht
      · exact hs
      · cases h : step s e with
        | none => simp [h] at ht
        | some s' =>
            simp only [h] at ht
            obtain ⟨hc, hrest⟩ := (along_cons_some h es).1 hes
            exact ih (hstep s e s' hs hc h) hrest t ht

theorem along_of_forall {step : σ → ι → Option σ} {C : σ → ι → Prop} (h : ∀ s e, C s e) (s : σ)
    (es : List ι) : Along step C s es := by
  induction es generalizing s with
  | nil => trivial
  | cons e es ih =>
      unfold Along
      split
      · trivial
      · exact ⟨h s e, ih _⟩

/-- A condition on the events alone. -/
theorem along_of_mem {step : σ → ι → Option σ} {C : ι → Prop} {es : List ι}
    (h : ∀ e ∈ es, C e) (s : σ) : Along step (fun _ e => C e) s es := by
  induction es generalizing s with
  | nil => trivial
  | cons e es ih =>
      unfold Along
      split
      · trivial
      · exact ⟨h e List.mem_cons_self, ih (fun d hd => h d (List.mem_cons_of_mem e hd)) _⟩

/-- The invariant rule for an invariant that every step preserves. -/
theorem trace_invariant_of_forall {step : σ → ι → Option σ} {Inv : σ → Prop}
    (hstep : ∀ s e s', Inv s → step s e = some s' → Inv s') {s : σ} {es : List ι} (hs : Inv s) :
    ∀ t ∈ trace step s es, Inv t :=
  trace_invariant (fun s e s' hinv _ h => hstep s e s' hinv h) hs
    (along_of_forall (fun _ _ => trivial) s es)

/-- **Exact condition.**  If a state that satisfies the invariant has the
property, a step that meets `C` keeps the invariant and a step that does not
loses the property, then the property holds all along a run exactly when
every step meets `C`. -/
theorem trace_iff_along {step : σ → ι → Option σ} {C : σ → ι → Prop} {I P : σ → Prop}
    (hgood : ∀ s, I s → P s)
    (hstep : ∀ s e s', I s → C s e → step s e = some s' → I s')
    (hbad : ∀ s e s', I s → ¬ C s e → step s e = some s' → ¬ P s')
    {s : σ} {es : List ι} (hs : I s) :
    (∀ t ∈ trace step s es, P t) ↔ Along step C s es := by
  constructor
  · intro hall
    induction es generalizing s with
    | nil => trivial
    | cons e es ih =>
        cases h : step s e with
        | none => simp [Along, h]
        | some s' =>
            have htail : ∀ t ∈ trace step s' es, P t := by
              intro t ht
              apply hall
              simp only [trace, h]
              exact List.mem_cons_of_mem s ht
            have hc : C s e := by
              by_contra hc
              exact hbad s e s' hs hc h (htail s' (mem_trace_self step s' es))
            exact (along_cons_some h es).2 ⟨hc, ih (hstep s e s' hs hc h) htail⟩
  · intro halong t ht
    exact hgood t (trace_invariant hstep hs halong t ht)

/-- **Log rule.**  If every step appends one entry to a log, and the entry
is good exactly when the step meets `C`, then the whole log is good exactly
when the whole run meets `C`. -/
theorem log_iff_along {step : σ → ι → Option σ} {C : σ → ι → Prop} {Inv : σ → Prop}
    {κ : Type v} {log : σ → List κ} {P : κ → Prop}
    (hstep : ∀ s e s', Inv s → step s e = some s' →
      Inv s' ∧ ∃ x, log s' = log s ++ [x] ∧ (P x ↔ C s e))
    {s t : σ} {es : List ι} (hs : Inv s) (hrun : run step s es = some t) :
    (∀ x ∈ log t, P x) ↔ (∀ x ∈ log s, P x) ∧ Along step C s es := by
  induction es generalizing s with
  | nil =>
      simp only [run_nil, Option.some.injEq] at hrun
      subst hrun
      simp [Along]
  | cons e es ih =>
      simp only [run] at hrun
      cases h : step s e with
      | none => simp [h] at hrun
      | some s' =>
          simp only [h, Option.bind_some] at hrun
          obtain ⟨hs', x, hlog, hx⟩ := hstep s e s' hs h
          rw [ih hs' hrun, along_cons_some h, hlog, ← hx]
          simp only [List.mem_append, List.mem_singleton, or_imp, forall_and, forall_eq]
          tauto

end Unixtar.Lib
