import Mathlib.Data.List.Basic
import Mathlib.Data.List.Nodup

/-!
# Fallible actions with a log

A fallible action changes a state, logs what it did and may stop early with an error;
the state and the log reached so far survive the error. `andThen` is statement
sequencing under the `?` operator, `forEach` a `for` loop whose body may stop it, and
`loop` a driver that drops each result and goes on.
`Keeps` is the induction rule for all of them: a relation between everything logged so
far and the current state.
-/

namespace TcpLoadBalancer.Lib

/-- How an action ended: its result, the state it left and the events it logged. -/
structure Outcome (χ σ ω : Type) where
  result : Except χ Unit
  state : σ
  log : List ω

/-- A fallible action on a state. -/
abbrev Action (χ σ ω : Type) := σ → Outcome χ σ ω

/-- The success test of a result. -/
def succeeded {χ : Type} : Except χ Unit → Bool
  | .ok () => true
  | .error _ => false

/-- A success. -/
@[simp] theorem succeeded_ok {χ : Type} (u : Unit) : succeeded (.ok u : Except χ Unit) = true := rfl

/-- A failure. -/
@[simp] theorem succeeded_error {χ : Type} (e : χ) : succeeded (.error e) = false := rfl

/-- A value is a success. -/
@[simp] theorem isOk_ok {χ α : Type} (a : α) : (.ok a : Except χ α).isOk = true := rfl

/-- An error is no success. -/
@[simp] theorem isOk_error {χ α : Type} (e : χ) : (.error e : Except χ α).isOk = false := rfl

namespace Outcome

variable {χ σ τ ω υ : Type}

/-- Success without any event. -/
def done (s : σ) : Outcome χ σ ω := ⟨.ok (), s, []⟩

/-- The same outcome seen from a larger state and log. -/
def lift (f : σ → τ) (g : ω → υ) (r : Outcome χ σ ω) : Outcome χ τ υ :=
  ⟨r.result, f r.state, r.log.map g⟩

end Outcome

namespace Action

variable {χ σ ω α ι : Type}

/-- The action that does nothing. -/
def skip : Action χ σ ω := fun s ↦ .done s

/-- `a?; b`: the second action runs only when the first succeeded. -/
def andThen (a b : Action χ σ ω) : Action χ σ ω := fun s ↦
  match (a s).result with
  | .error e => ⟨.error e, (a s).state, (a s).log⟩
  | .ok () =>
    ⟨(b (a s).state).result, (b (a s).state).state, (a s).log ++ (b (a s).state).log⟩

/-- `for x in xs { body(x)?; }`. -/
def forEach (body : α → Action χ σ ω) : List α → Action χ σ ω
  | [] => skip
  | x :: xs => (body x).andThen (forEach body xs)

/-- `for i in is { let _ = body(i); }`: every result is dropped. -/
def loop (body : ι → Action χ σ ω) : List ι → Action χ σ ω
  | [] => skip
  | i :: is => fun s ↦
    ⟨.ok (), (loop body is (body i s).state).state,
      (body i s).log ++ (loop body is (body i s).state).log⟩

/-! ### Sequencing -/

/-- After a success the sequence is the second action on the state reached. -/
theorem andThen_of_ok {a b : Action χ σ ω} {s : σ} (h : (a s).result = .ok ()) :
    a.andThen b s =
      ⟨(b (a s).state).result, (b (a s).state).state, (a s).log ++ (b (a s).state).log⟩ := by
  simp only [andThen, h]

/-- After an error the sequence is the first action alone. -/
theorem andThen_of_error {a b : Action χ σ ω} {s : σ} {e : χ} (h : (a s).result = .error e) :
    a.andThen b s = a s := by
  simp only [andThen, h]
  rw [← h]

/-- What the first action establishes and the second keeps holds after the sequence. -/
theorem andThen_state {P : σ → Prop} {a b : Action χ σ ω} {s : σ} (ha : P (a s).state)
    (hb : ∀ s, P s → P (b s).state) : P (a.andThen b s).state := by
  cases h : (a s).result with
  | ok u => rw [andThen_of_ok h]; exact hb _ ha
  | error e => rw [andThen_of_error h]; exact ha

/-- The state of a loop over a concatenation of runs. -/
theorem loop_append (body : ι → Action χ σ ω) (is js : List ι) (s : σ) :
    loop body (is ++ js) s =
      ⟨.ok (), (loop body js (loop body is s).state).state,
        (loop body is s).log ++ (loop body js (loop body is s).state).log⟩ := by
  induction is generalizing s with
  | nil => cases js <;> simp [loop, skip, Outcome.done]
  | cons i is ih => simp only [List.cons_append, loop, ih, List.append_assoc]

/-- One more round of a run. -/
theorem loop_concat (body : ι → Action χ σ ω) (is : List ι) (i : ι) (s : σ) :
    loop body (is ++ [i]) s =
      ⟨.ok (), (body i (loop body is s).state).state,
        (loop body is s).log ++ (body i (loop body is s).state).log⟩ := by
  rw [loop_append]
  simp [loop, skip, Outcome.done]

/-- The round after the first `n` of a run. -/
theorem loop_take_succ (body : ι → Action χ σ ω) (is : List ι) (s : σ) {n : Nat}
    (hn : n < is.length) :
    loop body (is.take (n + 1)) s =
      ⟨.ok (), (body is[n] (loop body (is.take n) s).state).state,
        (loop body (is.take n) s).log ++ (body is[n] (loop body (is.take n) s).state).log⟩ := by
  rw [List.take_succ_eq_append_getElem hn, loop_concat]

/-- A run none of whose rounds changes the state. -/
theorem loop_fixed {body : ι → Action χ σ ω} {is : List ι} {s : σ}
    (h : ∀ i ∈ is, (body i s).state = s) :
    loop body is s = ⟨.ok (), s, is.flatMap fun i ↦ (body i s).log⟩ := by
  induction is with
  | nil => rfl
  | cons i is ih =>
    simp only [loop]
    rw [h i (by simp), ih fun j hj ↦ h j (by simp [hj]), List.flatMap_cons]

/-- A run none of whose rounds does anything. -/
theorem loop_done {body : ι → Action χ σ ω} {is : List ι} {s : σ}
    (h : ∀ i ∈ is, body i s = .done s) : loop body is s = .done s := by
  have hlog : (is.flatMap fun i ↦ (body i s).log) = [] := by
    apply List.flatMap_eq_nil_iff.mpr
    intro i hi
    rw [h i hi]
    rfl
  have hfixed : ∀ i ∈ is, (body i s).state = s := by
    intro i hi
    rw [h i hi]
    rfl
  rw [loop_fixed hfixed, hlog]
  rfl

/-- Every round of a run meets `P` in the state in which it starts. -/
def Along (body : ι → Action χ σ ω) (P : σ → ι → Prop) : List ι → σ → Prop
  | [], _ => True
  | i :: is, s => P s i ∧ Along body P is (body i s).state

/-- The rounds of a run, each with the state in which it starts. -/
def steps (body : ι → Action χ σ ω) : List ι → σ → List (σ × ι)
  | [], _ => []
  | i :: is, s => (s, i) :: steps body is (body i s).state

/-- Round `n` of a run, with the state to which the rounds before it lead. -/
theorem mem_steps {body : ι → Action χ σ ω} {is : List ι} {n : Nat} (hn : n < is.length) (s : σ) :
    ((loop body (is.take n) s).state, is[n]) ∈ steps body is s := by
  induction is generalizing n s with
  | nil => cases hn
  | cons i is ih =>
    cases n with
    | zero => exact List.mem_cons_self
    | succ n => exact List.mem_cons_of_mem _ (ih (Nat.lt_of_succ_lt_succ hn) (body i s).state)

/-- `Along` speaks of every round of a run. -/
theorem along_iff (body : ι → Action χ σ ω) (P : σ → ι → Prop) (is : List ι) (s : σ) :
    Along body P is s ↔ ∀ e ∈ steps body is s, P e.1 e.2 := by
  induction is generalizing s with
  | nil => simp [Along, steps]
  | cons i is ih => simp [Along, steps, ih]

/-- The log of a run is the logs of its rounds. -/
theorem loop_log (body : ι → Action χ σ ω) (is : List ι) (s : σ) :
    (loop body is s).log = (steps body is s).flatMap fun e ↦ (body e.2 e.1).log := by
  induction is generalizing s with
  | nil => rfl
  | cons i is ih => simp only [loop, steps, List.flatMap_cons, ih]

/-- A `for` loop whose body never fails does not fail. -/
theorem forEach_ok {body : α → Action χ σ ω} (hok : ∀ x s, (body x s).result = .ok ())
    (xs : List α) (s : σ) : (forEach body xs s).result = .ok () := by
  induction xs generalizing s with
  | nil => rfl
  | cons x xs ih =>
    rw [forEach, andThen_of_ok (hok x s)]
    exact ih _

/-- A `for` loop whose body never fails is a run. -/
theorem forEach_eq_loop {body : α → Action χ σ ω} (hok : ∀ x s, (body x s).result = .ok ())
    (xs : List α) (s : σ) : forEach body xs s = loop body xs s := by
  induction xs generalizing s with
  | nil => rfl
  | cons x xs ih =>
    rw [forEach, andThen_of_ok (hok x s), ih]
    cases xs <;> rfl

/-! ### Invariants over the history -/

/-- `I` relates everything logged so far to the current state, and the action keeps it,
whether it succeeds or fails. -/
def Keeps (I : List ω → σ → Prop) (a : Action χ σ ω) : Prop :=
  ∀ h s, I h s → I (h ++ (a s).log) (a s).state

/-- Doing nothing keeps every relation. -/
theorem keeps_skip (I : List ω → σ → Prop) : Keeps I (skip : Action χ σ ω) := by
  intro h s hI
  simpa [skip, Outcome.done] using hI

/-- A sequence keeps what both of its parts keep. -/
theorem Keeps.andThen {I : List ω → σ → Prop} {a b : Action χ σ ω} (ha : Keeps I a)
    (hb : Keeps I b) : Keeps I (a.andThen b) := by
  intro h s hI
  have hmid := ha h s hI
  cases hr : (a s).result with
  | error e => rw [andThen_of_error hr]; exact hmid
  | ok u =>
    cases u
    rw [andThen_of_ok hr]
    simpa only [List.append_assoc] using hb _ _ hmid

/-- A `for` loop keeps what its body keeps at every element. -/
theorem keeps_forEach {I : List ω → σ → Prop} {body : α → Action χ σ ω} {xs : List α}
    (hbody : ∀ x ∈ xs, Keeps I (body x)) : Keeps I (forEach body xs) := by
  induction xs with
  | nil => exact keeps_skip I
  | cons x xs ih =>
    exact (hbody x (by simp)).andThen (ih fun y hy ↦ hbody y (by simp [hy]))

/-- A run keeps what each of its rounds keeps. -/
theorem keeps_loop {I : List ω → σ → Prop} {body : ι → Action χ σ ω} {is : List ι}
    (hbody : ∀ i ∈ is, Keeps I (body i)) : Keeps I (loop body is) := by
  induction is with
  | nil => exact keeps_skip I
  | cons i is ih =>
    intro h s hI
    have hmid := hbody i (by simp) h s hI
    have hrest := ih (fun j hj ↦ hbody j (by simp [hj])) _ _ hmid
    simpa only [loop, List.append_assoc] using hrest

/-- What every event of both parts satisfies, every event of a sequence satisfies. -/
theorem andThen_log {Q : ω → Prop} {a b : Action χ σ ω} (ha : ∀ s, ∀ e ∈ (a s).log, Q e)
    (hb : ∀ s, ∀ e ∈ (b s).log, Q e) (s : σ) : ∀ e ∈ (a.andThen b s).log, Q e := by
  cases hr : (a s).result with
  | error e => rw [andThen_of_error hr]; exact ha s
  | ok u =>
    rw [andThen_of_ok hr]
    intro e he
    exact (List.mem_append.mp he).elim (ha s e) (hb _ e)

/-- What every event of the body satisfies, every event of a `for` loop satisfies. -/
theorem forEach_log {Q : ω → Prop} {body : α → Action χ σ ω}
    (hbody : ∀ x s, ∀ e ∈ (body x s).log, Q e) (xs : List α) (s : σ) :
    ∀ e ∈ (forEach body xs s).log, Q e := by
  induction xs generalizing s with
  | nil => simp [forEach, skip, Outcome.done]
  | cons x xs ih => exact andThen_log (hbody x) ih s

/-- A run started in a state that satisfies `I` with nothing logged yet satisfies it at
its end. -/
theorem loop_invariant {I : List ω → σ → Prop} {body : ι → Action χ σ ω} {is : List ι} {s : σ}
    (hbody : ∀ i ∈ is, Keeps I (body i)) (hI : I [] s) :
    I (loop body is s).log (loop body is s).state := by
  simpa using keeps_loop hbody [] s hI

/-- Every round of a run starts in a state that the rounds before it have kept, with a history
that the log of the round continues. -/
theorem steps_invariant {I : List ω → σ → Prop} {body : ι → Action χ σ ω} {is : List ι}
    (hbody : ∀ i ∈ is, Keeps I (body i)) {h : List ω} {s : σ} (hI : I h s) :
    ∀ e ∈ steps body is s, e.2 ∈ is ∧
      ∃ h', I h' e.1 ∧ h' ++ (body e.2 e.1).log <+: h ++ (loop body is s).log := by
  induction is generalizing h s with
  | nil => simp [steps]
  | cons i is ih =>
    intro e he
    rcases List.mem_cons.mp he with rfl | he
    · refine ⟨by simp, h, hI, ?_⟩
      rw [loop, List.prefix_append_right_inj]
      exact List.prefix_append _ _
    · obtain ⟨hmem, h', hprev, hlog⟩ :=
        ih (fun j hj ↦ hbody j (by simp [hj])) (hbody i (by simp) h s hI) e he
      refine ⟨by simp [hmem], h', hprev, ?_⟩
      rw [loop, ← List.append_assoc]
      exact hlog

/-- A relation between the rounds done so far, each with the state in which it starts, and the
current state holds along a run when every round keeps it. -/
theorem loop_steps {I : List (σ × ι) → σ → Prop} {body : ι → Action χ σ ω}
    (hbody : ∀ es s i, I es s → I (es ++ [(s, i)]) (body i s).state) (is : List ι) {s : σ}
    (hI : I [] s) : I (steps body is s) (loop body is s).state := by
  have hfrom : ∀ es s, I es s → I (es ++ steps body is s) (loop body is s).state := by
    induction is with
    | nil => simp [steps, loop, skip, Outcome.done]
    | cons i is ih =>
      intro es s hI
      simpa [steps, loop] using ih _ _ (hbody es s i hI)
  exact hfrom [] s hI

/-- A `for` loop keeps a property of the state that its body keeps at every element. -/
theorem forEach_state {P : σ → Prop} {body : α → Action χ σ ω} {xs : List α} {s : σ}
    (hbody : ∀ x ∈ xs, ∀ s, P s → P (body x s).state) (hP : P s) :
    P (forEach body xs s).state :=
  keeps_forEach (I := fun _ s ↦ P s) (fun x hx _ s hs ↦ hbody x hx s hs) [] s hP

end Action
end TcpLoadBalancer.Lib
