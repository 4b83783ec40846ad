import Mathlib.Data.List.Basic
import Mathlib.Data.List.InsertIdx
import Mathlib.Data.Multiset.AddSub

/-!
# Removing recorded positions from a vector

A first pass over a vector records the positions of the marked elements; a second pass
walks the record backwards and removes each position. Walking backwards keeps the
positions still to come valid, so the second pass removes exactly the marked elements.
A removal out of range is `none`, where the program would panic. A second batch, recorded
before the first one is removed, still finds its elements as far as none of the first batch
stands before one of them.
-/

namespace TcpLoadBalancer.Lib

variable {α σ : Type}

/-- Mapping what an indexed pass computed is part of the pass. -/
theorem map_mapIdx {β γ : Type} (f : Nat → α → β) (g : β → γ) (xs : List α) :
    (xs.mapIdx f).map g = xs.mapIdx fun i x ↦ g (f i x) := by
  ext i : 1
  simp [Function.comp_def]

/-- `Vec::remove`: the element at a position and the vector without it. -/
def vecRemove (xs : List α) (i : Nat) : Option (α × List α) :=
  if h : i < xs.length then some (xs[i], xs.eraseIdx i) else none

/-- The marked elements with their positions, counted from `n`. -/
def markedFrom (p : α → Bool) : Nat → List α → List (Nat × α)
  | _, [] => []
  | n, x :: xs => if p x then (n, x) :: markedFrom p (n + 1) xs else markedFrom p (n + 1) xs

/-- The marked elements of a vector with their positions. -/
def marked (p : α → Bool) (xs : List α) : List (Nat × α) := markedFrom p 0 xs

/-- The positions recorded by an enumerating pass. -/
def positions (p : α → Bool) (xs : List α) : List Nat := (marked p xs).map Prod.fst

/-- `for i in is { let x = xs.remove(i); body(i, x); }`, with the state the body changes. -/
def removeEach (body : Nat → α → σ → σ) : List Nat → List α → σ → Option (List α × σ)
  | [], xs, s => some (xs, s)
  | i :: is, xs, s =>
    match vecRemove xs i with
    | none => none
    | some (x, rest) => removeEach body is rest (body i x s)

/-- Removing a further batch of positions goes on from what the first batch left. -/
theorem removeEach_append (body : Nat → α → σ → σ) (is js : List Nat) (xs : List α) (s : σ) :
    removeEach body (is ++ js) xs s =
      match removeEach body is xs s with
      | none => none
      | some (rest, s') => removeEach body js rest s' := by
  induction is generalizing xs s with
  | nil => rfl
  | cons i is ih =>
    simp only [List.cons_append, removeEach]
    cases vecRemove xs i with
    | none => rfl
    | some e => exact ih e.2 (body i e.1 s)

/-- The element right after a list of `n` elements is the one at position `n`. -/
theorem vecRemove_append (pre : List α) (x : α) (xs : List α) :
    vecRemove (pre ++ x :: xs) pre.length = some (x, pre ++ xs) := by
  have h : pre.length < (pre ++ x :: xs).length := by simp
  rw [vecRemove, dif_pos h, List.eraseIdx_append_of_length_le (Nat.le_refl _)]
  simp

private theorem removeEach_markedFrom (body : Nat → α → σ → σ) (p : α → Bool)
    (pre xs : List α) (s : σ) :
    removeEach body ((markedFrom p pre.length xs).map Prod.fst).reverse (pre ++ xs) s =
      some (pre ++ xs.filter (fun x ↦ !p x),
        (markedFrom p pre.length xs).reverse.foldl (fun s e ↦ body e.1 e.2 s) s) := by
  -- The passed-over elements grow from the left, so the recursion is on the rest.
  induction xs generalizing pre s with
  | nil => rfl
  | cons x xs ih =>
    have hpre : pre ++ x :: xs = (pre ++ [x]) ++ xs := by simp
    have hlen : (pre ++ [x]).length = pre.length + 1 := by simp
    have hrest := ih (pre ++ [x]) s
    rw [hlen] at hrest
    rw [hpre]
    by_cases hx : p x = true
    · simp only [markedFrom, hx, if_true, List.map_cons, List.reverse_cons, List.foldl_append]
      rw [removeEach_append, hrest]
      have hmid : (pre ++ [x]) ++ xs.filter (fun x ↦ !p x) =
          pre ++ x :: xs.filter (fun x ↦ !p x) := by simp
      simp only [removeEach, hmid, vecRemove_append]
      simp [hx]
    · simp only [markedFrom, hx, if_false, Bool.false_eq_true]
      rw [hrest]
      simp [hx]

/-- Removing the recorded positions from the last to the first never leaves the vector,
keeps the unmarked elements in their order and hands each marked element to the body once,
from the last to the first. -/
theorem removeEach_positions (body : Nat → α → σ → σ) (p : α → Bool) (xs : List α) (s : σ) :
    removeEach body (positions p xs).reverse xs s =
      some (xs.filter (fun x ↦ !p x),
        (marked p xs).reverse.foldl (fun s e ↦ body e.1 e.2 s) s) :=
  removeEach_markedFrom body p [] xs s

/-- The marked elements are the filtered vector. -/
theorem marked_map_snd (p : α → Bool) (xs : List α) :
    (marked p xs).map Prod.snd = xs.filter p := by
  suffices h : ∀ n, (markedFrom p n xs).map Prod.snd = xs.filter p from h 0
  induction xs with
  | nil => intro n; rfl
  | cons x xs ih =>
    intro n
    by_cases hx : p x = true
    · simp [markedFrom, hx, ih]
    · simp [markedFrom, hx, ih]

/-- Marking after a map is marking before it. -/
theorem marked_map {β : Type} (f : β → α) (p : α → Bool) (xs : List β) :
    marked p (xs.map f) = (marked (fun x ↦ p (f x)) xs).map fun e ↦ (e.1, f e.2) := by
  suffices h : ∀ n, markedFrom p n (xs.map f) =
      (markedFrom (fun x ↦ p (f x)) n xs).map fun e ↦ (e.1, f e.2) from h 0
  induction xs with
  | nil => intro n; rfl
  | cons x xs ih =>
    intro n
    by_cases hx : p (f x) = true
    · simp [markedFrom, hx, ih]
    · simp [markedFrom, hx, ih]

/-- Marks that agree on the vector record the same positions. -/
theorem marked_congr {p q : α → Bool} {xs : List α} (h : ∀ x ∈ xs, p x = q x) :
    marked p xs = marked q xs := by
  suffices hn : ∀ n, markedFrom p n xs = markedFrom q n xs from hn 0
  induction xs with
  | nil => intro n; rfl
  | cons x xs ih =>
    intro n
    have hrest := ih fun y hy ↦ h y (List.mem_cons_of_mem _ hy)
    simp only [markedFrom, h x (by simp), hrest]

private theorem markedFrom_eq_nil {p : α → Bool} {xs : List α} (h : ∀ x ∈ xs, p x = false)
    (n : Nat) : markedFrom p n xs = [] := by
  induction xs generalizing n with
  | nil => rfl
  | cons x xs ih =>
    rw [markedFrom, h x (by simp), if_neg Bool.false_ne_true]
    exact ih (fun y hy ↦ h y (by simp [hy])) (n + 1)

/-- Nothing is recorded when nothing is marked. -/
theorem marked_eq_nil {p : α → Bool} {xs : List α} (h : ∀ x ∈ xs, p x = false) :
    marked p xs = [] :=
  markedFrom_eq_nil h 0

/-- A recorded element is one of the vector and is marked. -/
theorem mem_of_mem_marked {p : α → Bool} {xs : List α} {e : Nat × α} (h : e ∈ marked p xs) :
    e.2 ∈ xs ∧ p e.2 = true := by
  have hmem : e.2 ∈ (marked p xs).map Prod.snd := List.mem_map_of_mem h
  rw [marked_map_snd] at hmem
  exact List.mem_filter.mp hmem

/-- A removed element was one of the vector. -/
theorem mem_of_vecRemove {xs : List α} {i : Nat} {e : α × List α} (h : vecRemove xs i = some e) :
    e.1 ∈ xs := by
  unfold vecRemove at h
  split at h
  · rw [← Option.some.inj h]
    exact List.getElem_mem _
  · cases h

/-- What the body keeps, a pass of removals keeps. -/
theorem removeEach_invariant {P : σ → Prop} {body : Nat → α → σ → σ}
    (hbody : ∀ i x s, P s → P (body i x s)) {is : List Nat} {xs : List α} {s : σ}
    {r : List α × σ} (h : removeEach body is xs s = some r) (hP : P s) : P r.2 := by
  induction is generalizing xs s with
  | nil =>
    rw [← Option.some.inj h]
    exact hP
  | cons i is ih =>
    rw [removeEach] at h
    split at h
    · cases h
    · next x rest _ => exact ih h (hbody i x s hP)

/-! ### A second batch -/

/-- Removing from a mapped vector is removing before the map. -/
theorem vecRemove_map {β : Type} (f : β → α) (xs : List β) (i : Nat) :
    vecRemove (xs.map f) i = (vecRemove xs i).map fun e ↦ (f e.1, e.2.map f) := by
  unfold vecRemove
  by_cases h : i < xs.length
  · rw [dif_pos h, dif_pos (by rwa [List.length_map]), Option.map_some, List.getElem_map,
      List.eraseIdx_map]
  · rw [dif_neg h, dif_neg (by rwa [List.length_map]), Option.map_none]

/-- A pass of removals over a mapped vector. -/
theorem removeEach_map {β : Type} (f : β → α) (body : Nat → α → σ → σ) (is : List Nat)
    (xs : List β) (s : σ) :
    removeEach body is (xs.map f) s =
      (removeEach (fun i x ↦ body i (f x)) is xs s).map fun r ↦ (r.1.map f, r.2) := by
  induction is generalizing xs s with
  | nil => rfl
  | cons i is ih =>
    simp only [removeEach, vecRemove_map]
    cases vecRemove xs i with
    | none => rfl
    | some e => exact ih e.2 _

/-- The removal pass that collects what it removes, with positions recorded in a pass over what
the vector was computed from. -/
theorem removeEach_collect {β : Type} (f : β → α) (p : β → Bool) (xs : List β) :
    removeEach (fun _ x out ↦ out ++ [x]) (positions p xs).reverse (xs.map f) [] =
      some ((xs.filter fun x ↦ !p x).map f, ((xs.filter p).map f).reverse) := by
  have hfold : ∀ (es : List (Nat × β)) (out : List α),
      es.foldl (fun out e ↦ out ++ [f e.2]) out = out ++ es.map fun e ↦ f e.2 := by
    intro es
    induction es with
    | nil => simp
    | cons e es ih => intro out; simp [ih]
  rw [removeEach_map, removeEach_positions, Option.map_some, hfold, List.nil_append,
    List.map_reverse, ← marked_map_snd p xs, List.map_map]
  rfl

private theorem markedFrom_append (p : α → Bool) (n : Nat) (xs ys : List α) :
    markedFrom p n (xs ++ ys) = markedFrom p n xs ++ markedFrom p (n + xs.length) ys := by
  induction xs generalizing n with
  | nil => rfl
  | cons x xs ih =>
    have hlen : n + 1 + xs.length = n + (x :: xs).length := by
      rw [List.length_cons]
      omega
    simp only [List.cons_append, markedFrom, ih, hlen]
    split <;> rfl

/-- When no element of a first batch stands before one of a second batch, the second batch has
the same positions after the first one is removed. -/
theorem marked_filter {p q : α → Bool} {xs : List α} (hpq : ∀ x, q x = true → p x = false)
    (h : xs.Pairwise fun x y ↦ p x = true → q y = false) :
    marked q (xs.filter fun x ↦ !p x) = marked q xs := by
  suffices hn : ∀ n, markedFrom q n (xs.filter fun x ↦ !p x) = markedFrom q n xs from hn 0
  induction xs with
  | nil => exact fun _ ↦ rfl
  | cons x xs ih =>
    intro n
    obtain ⟨hx, hxs⟩ := List.pairwise_cons.mp h
    cases hp : p x with
    | true =>
      have hnone : ∀ y ∈ xs, q y = false := fun y hy ↦ hx y hy hp
      have hq : q x = false := by
        cases hq : q x with
        | true => rw [hpq x hq] at hp; cases hp
        | false => rfl
      rw [List.filter_cons_of_neg (by simp [hp]), markedFrom, hq, if_neg Bool.false_ne_true,
        markedFrom_eq_nil hnone,
        markedFrom_eq_nil fun y hy ↦ hnone y (List.mem_filter.mp hy).1]
    | false =>
      rw [List.filter_cons_of_pos (by simp [hp])]
      simp only [markedFrom, ih hxs]

private theorem exists_last {p : α → Bool} {xs : List α} (h : ∃ x ∈ xs, p x = true) :
    ∃ pre x post, xs = pre ++ x :: post ∧ p x = true ∧ ∀ y ∈ post, p y = false := by
  induction xs with
  | nil => simp at h
  | cons a xs ih =>
    by_cases hxs : ∃ x ∈ xs, p x = true
    · obtain ⟨pre, x, post, rfl, hx, hpost⟩ := ih hxs
      exact ⟨a :: pre, x, post, rfl, hx, hpost⟩
    · refine ⟨[], a, xs, rfl, ?_, fun y hy ↦ ?_⟩
      · obtain ⟨x, hx, hpx⟩ := h
        rcases List.mem_cons.mp hx with rfl | hx
        · exact hpx
        · exact absurd ⟨x, hx, hpx⟩ hxs
      · cases hy' : p y with
        | true => exact absurd ⟨y, hy, hy'⟩ hxs
        | false => rfl

private theorem exists_last_behind {p q : α → Bool} {xs : List α}
    (h : ¬xs.Pairwise fun x y ↦ p x = true → q y = false) :
    ∃ pre x post, xs = pre ++ x :: post ∧ q x = true ∧ (∀ y ∈ post, q y = false) ∧
      ∃ y ∈ pre, p y = true := by
  induction xs with
  | nil => exact absurd List.Pairwise.nil h
  | cons a xs ih =>
    by_cases hxs : xs.Pairwise fun x y ↦ p x = true → q y = false
    · have ha : ∃ y ∈ xs, p a = true ∧ q y = true := by
        by_contra hnone
        apply h
        refine List.pairwise_cons.mpr ⟨fun y hy hpa ↦ ?_, hxs⟩
        cases hq : q y with
        | true => exact absurd ⟨y, hy, hpa, hq⟩ hnone
        | false => rfl
      obtain ⟨y, hy, hpa, hqy⟩ := ha
      obtain ⟨pre, x, post, rfl, hx, hpost⟩ := exists_last ⟨y, hy, hqy⟩
      exact ⟨a :: pre, x, post, rfl, hx, hpost, a, by simp, hpa⟩
    · obtain ⟨pre, x, post, rfl, hx, hpost, y, hy, hpy⟩ := ih hxs
      exact ⟨a :: pre, x, post, rfl, hx, hpost, y, by simp [hy], hpy⟩

private theorem positions_last {p : α → Bool} {pre post : List α} {x : α} (hx : p x = true)
    (hpost : ∀ y ∈ post, p y = false) :
    positions p (pre ++ x :: post) = positions p pre ++ [pre.length] := by
  rw [positions, marked, markedFrom_append, markedFrom, if_pos hx, markedFrom_eq_nil hpost,
    List.map_append, Nat.zero_add]
  rfl

private theorem mem_of_vecRemove_behind {pre rest : List α} {x : α} {i : Nat}
    {e : α × List α} (hi : pre.length < i) (h : vecRemove (pre ++ x :: rest) i = some e) :
    e.1 ∈ rest := by
  unfold vecRemove at h
  split at h
  · have hsplit : pre ++ x :: rest = (pre ++ [x]) ++ rest := by simp
    rw [← Option.some.inj h]
    simp only [hsplit]
    rw [List.getElem_append_right (by rw [List.length_append, List.length_singleton]; omega)]
    exact List.getElem_mem _
  · cases h

/-- When an element of a first batch stands before one of a second batch, the last recorded
position of the second batch does not find an element of it after the first one is removed:
it is out of range, or it finds an unmarked element. -/
theorem positions_stale {p q : α → Bool} {xs : List α} (hpq : ∀ x, q x = true → p x = false)
    (h : ¬xs.Pairwise fun x y ↦ p x = true → q y = false) :
    ∃ i is, (positions q xs).reverse = i :: is ∧
      ∀ e, vecRemove (xs.filter fun x ↦ !p x) i = some e → q e.1 = false := by
  obtain ⟨pre, x, post, rfl, hx, hpost, y, hy, hpy⟩ := exists_last_behind h
  refine ⟨pre.length, (positions q pre).reverse, ?_, ?_⟩
  · rw [positions_last hx hpost, List.reverse_append]
    rfl
  · -- fewer elements than before stand to the left, so the position lies in the rest
    intro e he
    have hshort : (pre.filter fun x ↦ !p x).length < pre.length :=
      List.length_filter_lt_length_iff_exists.mpr ⟨y, hy, by simp [hpy]⟩
    have hrest : (pre ++ x :: post).filter (fun x ↦ !p x) =
        (pre.filter fun x ↦ !p x) ++ x :: post.filter fun x ↦ !p x := by
      simp [hpq x hx]
    rw [hrest] at he
    exact hpost _ (List.mem_filter.mp (mem_of_vecRemove_behind hshort he)).1

/-! ### What goes and what stays -/

/-- The elements that are removed, from the last to the first, and those that stay are those that
were there. -/
theorem coe_map_split {β : Type} (p : α → Bool) (f : α → β) (xs : List α) :
    (↑(xs.map f) : Multiset β) =
      ↑((xs.filter p).reverse.map f) + ↑((xs.filter fun x ↦ !p x).map f) := by
  rw [Multiset.coe_add, ← List.map_append]
  have hsplit := List.filter_append_perm p xs
  exact Quotient.sound ((hsplit.symm.trans ((List.reverse_perm _).symm.append_right _)).map f)

/-- The same with the positions of the elements that are removed. -/
theorem coe_map_marked_split {β : Type} (p : α → Bool) (f : α → β) (xs : List α) :
    (↑(xs.map f) : Multiset β) =
      ↑((marked p xs).reverse.map fun e ↦ f e.2) + ↑((xs.filter fun x ↦ !p x).map f) := by
  rw [coe_map_split p, ← marked_map_snd, ← List.map_reverse, List.map_map]
  rfl

end TcpLoadBalancer.Lib
