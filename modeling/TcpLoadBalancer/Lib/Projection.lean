import Mathlib.Data.List.Forall2
import TcpLoadBalancer.Lib.Action

/-!
# Parts of a system

A system holds parts that make rounds of their own. An action of the system follows a part when
all it does to the part is a run of the part's rounds, and its log tells of the part exactly
what that run logs. Whatever the rest of the system does, the part then behaves in a run of the
system as it does on its own, so what is known of its runs holds of it inside the system.
-/

namespace TcpLoadBalancer.Lib

/-- A part of a state, when it is there, and what an event tells of it. -/
structure Part (σ ω τ υ : Type) where
  view : σ → Option τ
  own : ω → List υ

namespace Part

variable {χ ξ σ τ ω υ α ι κ : Type}

/-- All that the action does to the part are rounds, whose inputs `R` allows. -/
def Follows (p : Part σ ω τ υ) (step : κ → Action ξ τ υ) (R : List κ → Prop)
    (a : Action χ σ ω) : Prop :=
  ∀ s t, p.view s = some t → ∃ is, R is ∧
    p.view (a s).state = some (Action.loop step is t).state ∧
    (a s).log.flatMap p.own = (Action.loop step is t).log

variable {p : Part σ ω τ υ} {step : κ → Action ξ τ υ} {R R₁ R₂ : List κ → Prop}

/-- An action that leaves the part alone follows it without a round. -/
theorem follows_of_rests {a : Action χ σ ω}
    (h : ∀ s t, p.view s = some t →
      p.view (a s).state = some t ∧ (a s).log.flatMap p.own = []) :
    p.Follows step (· = []) a := by
  intro s t ht
  obtain ⟨hview, hlog⟩ := h s t ht
  exact ⟨[], rfl, hview, hlog⟩

/-- Fewer constraints on the rounds. -/
theorem Follows.mono {a : Action χ σ ω} (h : p.Follows step R₁ a) (hR : ∀ is, R₁ is → R is) :
    p.Follows step R a := by
  intro s t ht
  obtain ⟨is, his, hview, hlog⟩ := h s t ht
  exact ⟨is, hR is his, hview, hlog⟩

/-- The rounds of a sequence are those of its parts; after an error there are none. -/
theorem Follows.andThen {a b : Action χ σ ω} (ha : p.Follows step R₁ a)
    (hb : p.Follows step R₂ b) (hR : ∀ is js, R₁ is → js = [] ∨ R₂ js → R (is ++ js)) :
    p.Follows step R (a.andThen b) := by
  intro s t ht
  obtain ⟨is, his, hview, hlog⟩ := ha s t ht
  cases hr : (a s).result with
  | error e =>
    rw [Action.andThen_of_error hr]
    have hall := hR is [] his (.inl rfl)
    rw [List.append_nil] at hall
    exact ⟨is, hall, hview, hlog⟩
  | ok u =>
    obtain ⟨js, hjs, hview', hlog'⟩ := hb _ _ hview
    cases u
    rw [Action.andThen_of_ok hr]
    refine ⟨is ++ js, hR is js his (.inr hjs), ?_, ?_⟩
    · rw [Action.loop_append, hview']
    · rw [Action.loop_append, List.flatMap_append, hlog, hlog']

/-- A `for` loop whose elements may all concern the part. -/
theorem follows_forEach {body : α → Action χ σ ω} {xs : List α} (hnil : R [])
    (happend : ∀ is js, R is → R js → R (is ++ js))
    (hbody : ∀ x ∈ xs, p.Follows step R (body x)) :
    p.Follows step R (Action.forEach body xs) := by
  induction xs with
  | nil => exact fun s t ht ↦ ⟨[], hnil, ht, rfl⟩
  | cons x xs ih =>
    refine (hbody x (by simp)).andThen (ih fun y hy ↦ hbody y (by simp [hy])) ?_
    rintro is js his (rfl | hjs)
    · exact happend is [] his hnil
    · exact happend is js his hjs

/-- A `for` loop over distinct elements of which only one concerns the part. -/
theorem follows_forEach_one {body : α → Action χ σ ω} {xs : List α} {k : α}
    (hself : p.Follows step R (body k))
    (hother : ∀ x, x ≠ k → p.Follows step (· = []) (body x)) (hnodup : xs.Nodup) :
    p.Follows step (fun is ↦ is = [] ∨ R is) (Action.forEach body xs) := by
  induction xs with
  | nil => exact fun s t ht ↦ ⟨[], .inl rfl, ht, rfl⟩
  | cons x xs ih =>
    obtain ⟨hx, hnodup⟩ := List.nodup_cons.mp hnodup
    by_cases hk : x = k
    · subst k
      -- the part has had its turn
      have hrest : p.Follows step (· = []) (Action.forEach body xs) :=
        follows_forEach rfl (by rintro is js rfl rfl; rfl) fun y hy ↦
          hother y fun he ↦ hx (he ▸ hy)
      refine hself.andThen hrest ?_
      rintro is js his (rfl | rfl) <;> exact .inr (by simpa using his)
    · refine (hother x hk).andThen (ih hnodup) ?_
      rintro is js rfl (rfl | hjs)
      · exact .inl rfl
      · exact hjs

/-- In a run of the system the part, which is `t` at the start, makes a run of its own: each
round of the system contributes the part's rounds that `R` allows, and after any number of them
the part and all that the log tells of it are those of the part's run so far. -/
structure Traced (p : Part σ ω τ υ) (body : ι → Action χ σ ω) (step : κ → Action ξ τ υ)
    (R : ι → List κ → Prop) (is : List ι) (s : σ) (t : τ) (moves : List (List κ)) : Prop where
  inputs : List.Forall₂ R is moves
  state : ∀ n, p.view (Action.loop body (is.take n) s).state =
    some (Action.loop step (moves.take n).flatten t).state
  log : ∀ n, (Action.loop body (is.take n) s).log.flatMap p.own =
    (Action.loop step (moves.take n).flatten t).log

/-- A part that every round follows makes a run of its own in every run. -/
theorem traced_loop {body : ι → Action χ σ ω} {R : ι → List κ → Prop}
    (hbody : ∀ i, p.Follows step (R i) (body i)) (is : List ι) {s : σ} {t : τ}
    (ht : p.view s = some t) : ∃ moves, p.Traced body step R is s t moves := by
  induction is generalizing s t with
  | nil =>
    refine ⟨[], .nil, fun n ↦ ?_, fun n ↦ ?_⟩
    · rw [List.take_nil, List.take_nil]
      exact ht
    · rw [List.take_nil, List.take_nil]
      rfl
  | cons i is ih =>
    obtain ⟨js, hjs, hview, hlog⟩ := hbody i s t ht
    obtain ⟨moves, hinputs, hstate, hlogs⟩ := ih hview
    refine ⟨js :: moves, .cons hjs hinputs, fun n ↦ ?_, fun n ↦ ?_⟩
    · cases n with
      | zero => exact ht
      | succ n =>
        simp only [List.take_succ_cons, List.flatten_cons, Action.loop]
        rw [Action.loop_append]
        exact hstate n
    · cases n with
      | zero => rfl
      | succ n =>
        simp only [List.take_succ_cons, List.flatten_cons, Action.loop]
        rw [Action.loop_append, List.flatMap_append, hlog, hlogs]

/-- After its last round a run adds nothing. -/
theorem traced_of_le {body : ι → Action χ σ ω} {R : ι → List κ → Prop} {is : List ι} {s : σ}
    {t : τ} {moves : List (List κ)} (hinputs : List.Forall₂ R is moves)
    (h : ∀ n ≤ is.length,
      p.view (Action.loop body (is.take n) s).state =
          some (Action.loop step (moves.take n).flatten t).state ∧
        (Action.loop body (is.take n) s).log.flatMap p.own =
          (Action.loop step (moves.take n).flatten t).log) :
    p.Traced body step R is s t moves := by
  have hall : ∀ n, ∃ m ≤ is.length, is.take n = is.take m ∧ moves.take n = moves.take m := by
    intro n
    rcases Nat.le_total n is.length with hle | hge
    · exact ⟨n, hle, rfl, rfl⟩
    · have hmoves : moves.length ≤ n := hinputs.length_eq ▸ hge
      exact ⟨is.length, Nat.le_refl _, by rw [List.take_of_length_le hge, List.take_length],
        by rw [List.take_of_length_le hmoves, hinputs.length_eq, List.take_length]⟩
  refine ⟨hinputs, fun n ↦ ?_, fun n ↦ ?_⟩
  · obtain ⟨m, hm, his, hmoves⟩ := hall n
    rw [his, hmoves]
    exact (h m hm).1
  · obtain ⟨m, hm, his, hmoves⟩ := hall n
    rw [his, hmoves]
    exact (h m hm).2

/-- The whole run. -/
theorem Traced.total {body : ι → Action χ σ ω} {R : ι → List κ → Prop} {is : List ι} {s : σ}
    {t : τ} {moves : List (List κ)} (h : p.Traced body step R is s t moves) :
    p.view (Action.loop body is s).state = some (Action.loop step moves.flatten t).state ∧
      (Action.loop body is s).log.flatMap p.own = (Action.loop step moves.flatten t).log := by
  have hlength := h.inputs.length_eq
  have hstate := h.state is.length
  have hlog := h.log is.length
  rw [List.take_length, hlength, List.take_length] at hstate hlog
  exact ⟨hstate, hlog⟩

end Part
end TcpLoadBalancer.Lib
