import Mathlib.Data.List.Basic

/-!
# Turns

Several parties act one after the other on a common state. A turn may be impossible, because
what it reports does not fit the state; a run is a list of turns that were all possible.
-/

namespace TcpLoadBalancer.Lib.Turns

variable {σ ι : Type} {step : σ → ι → Option σ}

/-- A run of turns; `none` when one of them is not possible. -/
def run (step : σ → ι → Option σ) (s : σ) (ios : List ι) : Option σ := ios.foldlM step s

/-- Every turn of a run meets a condition, in the state that it starts from. -/
def all (step : σ → ι → Option σ) (p : σ → ι → Bool) : σ → List ι → Bool
  | _, [] => true
  | s, io :: ios => p s io && (step s io).all fun s' ↦ all step p s' ios

/-- What every turn that meets a condition keeps, every run of such turns keeps. -/
theorem run_invariant_of_all {I : σ → Prop} {p : σ → ι → Bool}
    (hstep : ∀ {s io s'}, I s → p s io = true → step s io = some s' → I s') {ios : List ι}
    {s s' : σ} (h : I s) (hall : all step p s ios = true) (hrun : run step s ios = some s') :
    I s' := by
  induction ios generalizing s with
  | nil =>
    obtain rfl := Option.some.inj hrun
    exact h
  | cons io ios ih =>
    obtain ⟨mid, hfirst, hrest⟩ := Option.bind_eq_some_iff.mp hrun
    obtain ⟨hp, hall⟩ := Bool.and_eq_true_iff.mp hall
    rw [hfirst] at hall
    exact ih (hstep h hp hfirst) hall hrest

/-- Every turn meets the empty condition. -/
theorem all_true (s : σ) (ios : List ι) : all step (fun _ _ ↦ true) s ios = true := by
  induction ios generalizing s with
  | nil => rfl
  | cons io ios ih =>
    rw [all, Bool.true_and]
    cases step s io with
    | none => rfl
    | some s' => exact ih s'

/-- What every turn keeps, every run keeps. -/
theorem run_invariant {I : σ → Prop} (hstep : ∀ {s io s'}, I s → step s io = some s' → I s')
    {ios : List ι} {s s' : σ} (h : I s) (hrun : run step s ios = some s') : I s' :=
  run_invariant_of_all (fun h _ ↦ hstep h) h (all_true s ios) hrun

end TcpLoadBalancer.Lib.Turns
