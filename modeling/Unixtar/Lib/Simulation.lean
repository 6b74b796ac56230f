import Unixtar.Lib.Run

/-!
# Simulations between partial step functions

A concrete system simulates an abstract one if each of its steps is matched
by a run of the abstract system, of any length.

## Main result

* `Simulates.run` — a run is matched by a run.
-/

namespace Unixtar.Lib

universe u v w x

variable {σ : Type u} {ι : Type v} {τ : Type w} {κ : Type x}

/-- Every step of the concrete system between related states is matched by a
run of the abstract one. -/
def Simulates (stepC : σ → ι → Option σ) (stepA : τ → κ → Option τ) (R : σ → τ → Prop) : Prop :=
  ∀ s e s' t, R s t → stepC s e = some s' → ∃ fs t', run stepA t fs = some t' ∧ R s' t'

namespace Simulates

variable {stepC : σ → ι → Option σ} {stepA : τ → κ → Option τ} {R : σ → τ → Prop}

/-- A run is matched by a run. -/
theorem run (h : Simulates stepC stepA R) {s s' : σ} {t : τ} {es : List ι} (hR : R s t)
    (hrun : Lib.run stepC s es = some s') :
    ∃ fs t', Lib.run stepA t fs = some t' ∧ R s' t' := by
  induction es generalizing s t with
  | nil =>
      cases hrun
      exact ⟨[], t, rfl, hR⟩
  | cons e es ih =>
      cases hstep : stepC s e with
      | none => simp [Lib.run, hstep] at hrun
      | some s₁ =>
          rw [run_cons_some hstep] at hrun
          obtain ⟨fs, t₁, hfs, hR₁⟩ := h s e s₁ t hR hstep
          obtain ⟨gs, t', hgs, hR'⟩ := ih hR₁ hrun
          exact ⟨fs ++ gs, t', run_append_some hfs hgs, hR'⟩

end Simulates

end Unixtar.Lib
