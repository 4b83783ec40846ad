import Mathlib.Data.List.Perm.Subperm
import TcpLoadBalancer.Lib.Action

/-!
# Passes that a failure cuts short

A `for` loop over distinct elements whose body may fail visits them up to and including the
first one that fails. Every element is visited exactly when nothing follows a failing one.
-/

namespace TcpLoadBalancer.Lib

variable {α β : Type}

/-- The elements that a pass visits: up to and including the first failing one. -/
def visited (fails : α → Bool) : List α → List α
  | [] => []
  | x :: xs => if fails x then [x] else x :: visited fails xs

/-- Without a failing element everything is visited. -/
theorem visited_eq_self {fails : α → Bool} {xs : List α} (h : ∀ x ∈ xs, fails x = false) :
    visited fails xs = xs := by
  induction xs with
  | nil => rfl
  | cons x xs ih =>
    rw [visited, h x (by simp), ih fun y hy ↦ h y (by simp [hy])]
    rfl

/-- A failing element in the first part hides the second part. -/
theorem visited_append (fails : α → Bool) (xs ys : List α) :
    visited fails (xs ++ ys) =
      if xs.any fails then visited fails xs else xs ++ visited fails ys := by
  induction xs with
  | nil => rfl
  | cons x xs ih =>
    by_cases hx : fails x = true
    · simp [visited, hx]
    · simp only [List.cons_append, visited, hx, ih, List.any_cons, Bool.false_or,
        Bool.false_eq_true, if_false]
      split <;> rfl

/-- Visiting the images of elements. -/
theorem visited_map (fails : α → Bool) (f : β → α) (xs : List β) :
    visited fails (xs.map f) = (visited (fun x ↦ fails (f x)) xs).map f := by
  induction xs with
  | nil => rfl
  | cons x xs ih =>
    simp only [List.map_cons, visited, ih]
    split <;> rfl

/-- A pass over groups of elements fails in a group that holds a failing element. -/
theorem visited_flatMap (fails : α → Bool) (f : β → List α) (xs : List β) :
    visited fails (xs.flatMap f) =
      (visited (fun x ↦ (f x).any fails) xs).flatMap fun x ↦ visited fails (f x) := by
  induction xs with
  | nil => rfl
  | cons x xs ih =>
    rw [List.flatMap_cons, visited_append, visited]
    split
    · rw [List.flatMap_singleton]
    · next h =>
      have hfirst : visited fails (f x) = f x := by
        apply visited_eq_self
        intro y hy
        by_contra hfails
        exact h (List.any_eq_true.mpr ⟨y, hy, by simpa using hfails⟩)
      rw [List.flatMap_cons, ← ih, hfirst]

/-- A pass visits an initial part. -/
theorem visited_initial (fails : α → Bool) (xs : List α) : visited fails xs <+: xs := by
  induction xs with
  | nil => exact List.prefix_rfl
  | cons x xs ih =>
    rw [visited]
    split
    · exact List.prefix_append [x] xs
    · rw [List.prefix_cons_inj]
      exact ih

/-- A pass is complete exactly when nothing follows a failing element. -/
theorem visited_eq_self_iff {fails : α → Bool} {xs : List α} :
    visited fails xs = xs ↔
      ∀ pre x post, xs = pre ++ x :: post → fails x = true → post = [] := by
  induction xs with
  | nil => simp [visited]
  | cons y ys ih =>
    constructor
    · intro h pre x post hsplit hx
      rw [visited] at h
      cases pre with
      | nil =>
        obtain ⟨rfl, rfl⟩ := List.cons.inj hsplit
        rw [if_pos hx] at h
        exact (List.cons.inj h).2.symm
      | cons z pre =>
        obtain ⟨rfl, rfl⟩ := List.cons.inj hsplit
        split at h
        · have hnil := (List.cons.inj h).2
          simp at hnil
        · exact ih.mp (List.cons.inj h).2 pre x post rfl hx
    · intro h
      rw [visited]
      split
      · next hy => rw [h [] y ys rfl hy]
      · rw [ih.mpr fun pre x post hsplit ↦ h (y :: pre) x post (by rw [hsplit]; rfl)]

/-- Every one of distinct elements is visited exactly when nothing follows a failing one. -/
theorem mem_visited_iff (fails : α → Bool) {xs : List α} (hnodup : xs.Nodup) :
    (∀ x ∈ xs, x ∈ visited fails xs) ↔
      ∀ pre x post, xs = pre ++ x :: post → fails x = true → post = [] := by
  rw [← visited_eq_self_iff]
  constructor
  · intro h
    exact (visited_initial fails xs).eq_of_length_le (hnodup.subperm h).length_le
  · intro h x hx
    rwa [h]

/-- A `for` loop over distinct elements, each with a result and a log that the others do not
change, is a pass. -/
theorem forEach_visited {χ σ ω κ : Type} (body : α → Action χ σ ω) (fails : α → Bool)
    (key : ω → Option κ) (keys : α → List κ) (P : α → σ → Prop)
    (hbody : ∀ x s, P x s → ((body x s).result = .ok () ↔ fails x = false) ∧
      (body x s).log.filterMap key = keys x)
    (hframe : ∀ x y s, x ≠ y → P y s → P y (body x s).state) (xs : List α) (hnodup : xs.Nodup)
    (s : σ) (hP : ∀ x ∈ xs, P x s) :
    ((Action.forEach body xs s).result = .ok () ↔ ∀ x ∈ xs, fails x = false) ∧
      (Action.forEach body xs s).log.filterMap key = (visited fails xs).flatMap keys := by
  induction xs generalizing s with
  | nil => simp [Action.forEach, Action.skip, Outcome.done, visited]
  | cons x xs ih =>
    obtain ⟨hx, hnodup⟩ := List.nodup_cons.mp hnodup
    obtain ⟨hresult, hlog⟩ := hbody x s (hP x (by simp))
    rw [Action.forEach]
    cases hr : (body x s).result with
    | error e =>
      have hfails : fails x = true := by simpa [hr] using hresult
      simp [Action.andThen_of_error hr, hr, visited, hfails, hlog]
    | ok u =>
      have hfails : fails x = false := by simpa [hr] using hresult
      obtain ⟨hrest, hlogs⟩ := ih hnodup (body x s).state fun y hy ↦
        hframe x y s (fun he ↦ hx (he ▸ hy)) (hP y (by simp [hy]))
      simp [Action.andThen_of_ok hr, visited, hfails, hlog, hrest, hlogs]

end TcpLoadBalancer.Lib
