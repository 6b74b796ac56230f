import Unixtar.Lib.Run

/-!
# Components that run side by side

A list of components, each with the same step function, and runs in which each
step is one of some component.  Components share nothing, so a run is one run
of each, and the order between different components does not matter.

## Main result

* `run_iff` — a run of the list is a run of each component.
-/

namespace Unixtar.Lib.Interleave

universe u v

variable {σ : Type u} {ι : Type v}

/-- One step of the component `e.1`. -/
def step (one : σ → ι → Option σ) (ss : List σ) (e : Nat × ι) : Option (List σ) :=
  match ss[e.1]? with
  | none => none
  | some s => (one s e.2).map fun s' => ss.set e.1 s'

/-- The steps of one component, in their order. -/
def eventsOf (i : Nat) (es : List (Nat × ι)) : List ι :=
  es.filterMap fun e => if e.1 = i then some e.2 else none

theorem eventsOf_cons (i : Nat) (e : Nat × ι) (es : List (Nat × ι)) :
    eventsOf i (e :: es) = if e.1 = i then e.2 :: eventsOf i es else eventsOf i es := by
  unfold eventsOf
  by_cases h : e.1 = i <;> simp [h]

variable {one : σ → ι → Option σ} {ss ss' : List σ}

/-- **One step** moves one component. -/
theorem step_iff {e : Nat × ι} :
    step one ss e = some ss' ↔
      ∃ s s', ss[e.1]? = some s ∧ one s e.2 = some s' ∧ ss' = ss.set e.1 s' := by
  unfold step
  cases hs : ss[e.1]? with
  | none => simp
  | some s => simp [Option.map_eq_some_iff, eq_comm]

theorem getElem?_step {e : Nat × ι} (h : step one ss e = some ss') (i : Nat) :
    ss'[i]? = if e.1 = i then ss[i]?.bind fun s => one s e.2 else ss[i]? := by
  obtain ⟨s, s', hs, hone, rfl⟩ := step_iff.1 h
  by_cases hi : e.1 = i
  · subst hi
    obtain ⟨hlt, -⟩ := List.getElem?_eq_some_iff.1 hs
    rw [if_pos rfl, hs, Option.bind_some, hone, List.getElem?_set_self hlt]
  · rw [if_neg hi, List.getElem?_set_ne hi]

theorem length_step {e : Nat × ι} (h : step one ss e = some ss') : ss'.length = ss.length := by
  obtain ⟨s, s', -, -, rfl⟩ := step_iff.1 h
  exact List.length_set

/-- **A run of the list** is a run of each component on its own steps. -/
theorem run_iff {es : List (Nat × ι)} :
    Lib.run (step one) ss es = some ss' ↔
      ss'.length = ss.length ∧ (∀ e ∈ es, e.1 < ss.length) ∧
        ∀ i s, ss[i]? = some s → Lib.run one s (eventsOf i es) = ss'[i]? := by
  induction es generalizing ss with
  | nil =>
      simp only [Lib.run, Option.some.injEq, List.not_mem_nil, false_imp_iff, implies_true,
        true_and]
      constructor
      · rintro rfl
        exact ⟨rfl, fun i s hs => hs.symm⟩
      · rintro ⟨hlen, hall⟩
        apply List.ext_getElem hlen.symm
        intro i hi hi'
        have hsame := hall i ss[i] (List.getElem?_eq_getElem hi)
        rw [List.getElem?_eq_getElem hi'] at hsame
        exact Option.some.inj hsame
  | cons e es ih =>
      constructor
      · intro hrun
        cases hstep : step one ss e with
        | none => simp [Lib.run, hstep] at hrun
        | some ss₁ =>
            rw [run_cons_some hstep] at hrun
            obtain ⟨hlen, hbound, hall⟩ := ih.1 hrun
            rw [length_step hstep] at hlen hbound
            obtain ⟨s, s₁, hs, hone, -⟩ := step_iff.1 hstep
            refine ⟨hlen, ?_, ?_⟩
            · intro d hd
              rcases List.mem_cons.1 hd with rfl | hd
              · exact (List.getElem?_eq_some_iff.1 hs).1
              · exact hbound d hd
            · intro i u hu
              have hnext := getElem?_step hstep i
              rw [hu, Option.bind_some] at hnext
              rw [eventsOf_cons]
              by_cases hi : e.1 = i
              · have hus : u = s := by
                  rw [← hi, hs] at hu
                  exact (Option.some.inj hu).symm
                rw [if_pos hi, hus, hone] at hnext
                rw [if_pos hi, hus, run_cons_some hone]
                exact hall i s₁ hnext
              · rw [if_neg hi] at hnext
                rw [if_neg hi]
                exact hall i u hnext
      · rintro ⟨hlen, hbound, hall⟩
        have hlt := hbound e List.mem_cons_self
        have hs : ss[e.1]? = some ss[e.1] := List.getElem?_eq_getElem hlt
        have hfirst := hall e.1 ss[e.1] hs
        rw [eventsOf_cons, if_pos rfl] at hfirst
        cases hone : one ss[e.1] e.2 with
        | none =>
            -- the component would have no run, but it has a last state
            rw [List.getElem?_eq_getElem (hlen.symm ▸ hlt)] at hfirst
            simp [Lib.run, hone] at hfirst
        | some s₁ =>
            have hstep : step one ss e = some (ss.set e.1 s₁) :=
              step_iff.2 ⟨_, s₁, hs, hone, rfl⟩
            rw [run_cons_some hstep]
            refine ih.2 ⟨by rw [hlen, List.length_set], ?_, ?_⟩
            · intro d hd
              rw [List.length_set]
              exact hbound d (List.mem_cons_of_mem e hd)
            · intro i u hu
              have hnext := getElem?_step hstep i
              rw [hu] at hnext
              by_cases hi : e.1 = i
              · subst hi
                rw [if_pos rfl, hs, Option.bind_some, hone] at hnext
                rw [run_cons_some hone] at hfirst
                rw [Option.some.inj hnext]
                exact hfirst
              · rw [if_neg hi] at hnext
                have hrest := hall i u hnext.symm
                rwa [eventsOf_cons, if_neg hi] at hrest

end Unixtar.Lib.Interleave
