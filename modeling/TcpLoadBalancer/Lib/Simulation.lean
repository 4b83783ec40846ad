import TcpLoadBalancer.Lib.Action

/-!
# Forward simulation

An abstract machine is a step relation with labels. A fallible action is simulated by it when
the labels that its log tells of lead from the abstraction of the state before to that of the
state after, whether the action succeeds or fails. Sequences, `for` loops and runs of simulated
actions are simulated, so what holds along every run of the machine holds along theirs.
-/

namespace TcpLoadBalancer.Lib

variable {M μ : Type}

/-- The machine gets from one state to another by steps with the given labels. -/
def Run (step : M → μ → M → Prop) : M → List μ → M → Prop
  | m, [], m' => m = m'
  | m, l :: ls, m' => ∃ mid, step m l mid ∧ Run step mid ls m'

/-- A run goes on from where another one ended. -/
theorem Run.append {step : M → μ → M → Prop} {m mid m' : M} {ls ls' : List μ}
    (h : Run step m ls mid) (h' : Run step mid ls' m') : Run step m (ls ++ ls') m' := by
  induction ls generalizing m with
  | nil =>
    obtain rfl : m = mid := h
    exact h'
  | cons l ls ih =>
    obtain ⟨next, hstep, hrest⟩ := h
    exact ⟨next, hstep, ih hrest⟩

/-- A step is a run. -/
theorem Run.single {step : M → μ → M → Prop} {m m' : M} {l : μ} (h : step m l m') :
    Run step m [l] m' :=
  ⟨m', h, rfl⟩

namespace Action

variable {χ σ ω α ι : Type} {step : M → μ → M → Prop} {abs : σ → M} {read : ω → Option μ}

/-- Whatever the state, the log of the action tells of a run between the abstractions. -/
def Simulated (step : M → μ → M → Prop) (abs : σ → M) (read : ω → Option μ)
    (a : Action χ σ ω) : Prop :=
  ∀ s, Run step (abs s) ((a s).log.filterMap read) (abs (a s).state)

/-- Doing nothing is simulated. -/
theorem simulated_skip : Simulated step abs read (skip : Action χ σ ω) := fun _ ↦ rfl

/-- An action that tells of nothing and keeps the abstraction is simulated. -/
theorem simulated_of_silent {a : Action χ σ ω} (hlog : ∀ s, ∀ e ∈ (a s).log, read e = none)
    (habs : ∀ s, abs (a s).state = abs s) : Simulated step abs read a := by
  intro s
  rw [List.filterMap_eq_nil_iff.mpr (hlog s), habs]
  rfl

/-- A sequence of simulated actions is simulated. -/
theorem Simulated.andThen {a b : Action χ σ ω} (ha : Simulated step abs read a)
    (hb : Simulated step abs read b) : Simulated step abs read (a.andThen b) := by
  intro s
  cases hr : (a s).result with
  | error e => rw [andThen_of_error hr]; exact ha s
  | ok u =>
    cases u
    rw [andThen_of_ok hr, List.filterMap_append]
    exact (ha s).append (hb _)

/-- A `for` loop with a simulated body is simulated. -/
theorem simulated_forEach {body : α → Action χ σ ω} {xs : List α}
    (hbody : ∀ x ∈ xs, Simulated step abs read (body x)) :
    Simulated step abs read (forEach body xs) := by
  induction xs with
  | nil => exact simulated_skip
  | cons x xs ih =>
    exact (hbody x (by simp)).andThen (ih fun y hy ↦ hbody y (by simp [hy]))

/-- A run of simulated rounds is simulated. -/
theorem simulated_loop {body : ι → Action χ σ ω} (hbody : ∀ i, Simulated step abs read (body i))
    (is : List ι) : Simulated step abs read (loop body is) := by
  induction is with
  | nil => exact simulated_skip
  | cons i is ih =>
    intro s
    rw [loop, List.filterMap_append]
    exact (hbody i s).append (ih _)

end Action
end TcpLoadBalancer.Lib
