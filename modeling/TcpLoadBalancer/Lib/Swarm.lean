import Mathlib.Algebra.Order.Group.Multiset
import Mathlib.Data.List.ReduceOption
import TcpLoadBalancer.Lib.Simulation

/-!
# Swarms

A swarm is a number of individuals of one species that live side by side: a move of the swarm
is the birth of an individual or an act of one of them, which may be its last, and the others do
not notice. So every run of a swarm is woven of lives: its labels can be given to individuals in
such a way that the labels of each of them are a life, from its birth on.
-/

namespace TcpLoadBalancer.Lib

/-- What begins an individual, and what each label does to one; `none` when it is gone. -/
structure Species (E μ : Type) where
  born : μ → E → Prop
  acts : E → μ → Option E → Prop

namespace Species

variable {E μ : Type} (species : Species E μ)

/-- A move of a swarm: a birth, or the act of one individual. -/
def Step (present : Multiset E) (m : μ) (present' : Multiset E) : Prop :=
  (∃ e, species.born m e ∧ present' = e ::ₘ present) ∨
    ∃ e e' rest, species.acts e m e' ∧ present = e ::ₘ rest ∧ present' = ↑e'.toList + rest

/-- The acts of one individual; nothing follows once it is gone. -/
def Acts : E → List μ → Option E → Prop
  | e, [], e' => e' = some e
  | e, m :: ms, e' =>
    (species.acts e m none ∧ ms = [] ∧ e' = none) ∨
      ∃ mid, species.acts e m (some mid) ∧ Acts mid ms e'

/-- A life: a birth, and the acts of the individual from there on. -/
def Life (ms : List μ) (e' : Option E) : Prop :=
  ∃ m e rest, ms = m :: rest ∧ species.born m e ∧ species.Acts e rest e'

/-- The labels given to individual `i`. -/
def labelsOf (i : Nat) (tagged : List (Nat × μ)) : List μ :=
  (tagged.filter fun t ↦ t.1 = i).map Prod.snd

/-- The labels are given to individuals, counted in the order of their birth, whose lives lead to
the given ends. -/
structure Woven (tagged : List (Nat × μ)) (ends : List (Option E)) : Prop where
  bounded : ∀ t ∈ tagged, t.1 < ends.length
  lives : ∀ i e, ends[i]? = some e → species.Life (labelsOf i tagged) e

variable {species}

/-- One more act. -/
theorem Acts.snoc {e mid : E} {e' : Option E} {ms : List μ} {m : μ}
    (h : species.Acts e ms (some mid)) (hact : species.acts mid m e') :
    species.Acts e (ms ++ [m]) e' := by
  induction ms generalizing e with
  | nil =>
    obtain rfl : mid = e := Option.some.inj h
    cases e' with
    | none => exact .inl ⟨hact, rfl, rfl⟩
    | some e' => exact .inr ⟨e', hact, rfl⟩
  | cons m' ms ih =>
    rcases h with ⟨-, -, hgone⟩ | ⟨next, hfirst, hrest⟩
    · cases hgone
    · exact .inr ⟨next, hfirst, ih hrest⟩

/-- One more act in a life. -/
theorem Life.snoc {ms : List μ} {m : μ} {e : E} {e' : Option E} (h : species.Life ms (some e))
    (hact : species.acts e m e') : species.Life (ms ++ [m]) e' := by
  obtain ⟨first, e₀, rest, rfl, hborn, hacts⟩ := h
  exact ⟨first, e₀, rest ++ [m], rfl, hborn, hacts.snoc hact⟩

/-- The labels that are added for one individual. -/
theorem labelsOf_append (i j : Nat) (tagged : List (Nat × μ)) (m : μ) :
    labelsOf i (tagged ++ [(j, m)]) =
      labelsOf i tagged ++ if j = i then [m] else [] := by
  by_cases h : j = i <;> simp [labelsOf, h]

/-- An individual that was not born has no labels. -/
theorem labelsOf_eq_nil {i : Nat} {tagged : List (Nat × μ)} (h : ∀ t ∈ tagged, t.1 < i) :
    labelsOf i tagged = [] := by
  rw [labelsOf, List.map_eq_nil_iff, List.filter_eq_nil_iff]
  intro t ht
  have hlt := h t ht
  simp only [decide_eq_true_eq]
  omega

/-- Before any move. -/
theorem woven_nil : species.Woven [] [] where
  bounded _ h := by cases h
  lives _ _ h := by simp at h

/-- A birth. -/
theorem Woven.birth {tagged : List (Nat × μ)} {ends : List (Option E)} {m : μ} {e : E}
    (h : species.Woven tagged ends) (hborn : species.born m e) :
    species.Woven (tagged ++ [(ends.length, m)]) (ends ++ [some e]) where
  bounded t ht := by
    rw [List.length_append, List.length_singleton]
    rcases List.mem_append.mp ht with hold | hnew
    · exact Nat.lt_succ_of_lt (h.bounded t hold)
    · rw [List.mem_singleton.mp hnew]
      exact Nat.lt_succ_self _
  lives i e' hi := by
    rw [labelsOf_append]
    rcases Nat.lt_trichotomy i ends.length with hlt | rfl | hgt
    · rw [if_neg (Nat.ne_of_gt hlt), List.append_nil]
      rw [List.getElem?_append_left hlt] at hi
      exact h.lives i e' hi
    · rw [if_pos rfl, labelsOf_eq_nil h.bounded, List.nil_append]
      obtain rfl : some e = e' := by simpa using hi
      exact ⟨m, e, [], rfl, hborn, rfl⟩
    · rw [List.getElem?_eq_none (by simp; omega)] at hi
      cases hi

/-- An act. -/
theorem Woven.act {tagged : List (Nat × μ)} {before after : List (Option E)} {m : μ} {e : E}
    {e' : Option E} (h : species.Woven tagged (before ++ some e :: after))
    (hact : species.acts e m e') :
    species.Woven (tagged ++ [(before.length, m)]) (before ++ e' :: after) where
  bounded t ht := by
    rcases List.mem_append.mp ht with hold | hnew
    · simpa using h.bounded t hold
    · rw [List.mem_singleton.mp hnew]
      simp
  lives i end' hi := by
    rw [labelsOf_append]
    by_cases hself : before.length = i
    · subst hself
      obtain rfl : e' = end' := by simpa using hi
      rw [if_pos rfl]
      exact (h.lives before.length (some e) (by simp)).snoc hact
    · have hsame : (before ++ some e :: after)[i]? = some end' := by
        rw [← hi]
        rcases Nat.lt_or_gt_of_ne hself with hgt | hlt
        · obtain ⟨j, rfl⟩ : ∃ j, i = before.length + (j + 1) :=
            ⟨i - before.length - 1, by omega⟩
          rw [List.getElem?_append_right (by omega), List.getElem?_append_right (by omega)]
          simp
        · rw [List.getElem?_append_left hlt, List.getElem?_append_left hlt]
      rw [if_neg hself, List.append_nil]
      exact h.lives i end' hsame

/-- The individuals that are there after an act. -/
theorem present_act {before after : List (Option E)} {e : E} {e' : Option E} {rest : Multiset E}
    (h : (↑(before ++ some e :: after).reduceOption : Multiset E) = e ::ₘ rest) :
    (↑(before ++ e' :: after).reduceOption : Multiset E) = ↑e'.toList + rest := by
  have hrest : rest = ↑(before.reduceOption ++ after.reduceOption) := by
    apply (Multiset.cons_inj_right e).mp
    rw [← h, List.reduceOption_append, List.reduceOption_cons_of_some, Multiset.cons_coe]
    exact Quotient.sound List.perm_middle
  rw [hrest]
  cases e' with
  | none =>
    rw [List.reduceOption_append, List.reduceOption_cons_of_none]
    simp
  | some e' =>
    rw [List.reduceOption_append, List.reduceOption_cons_of_some, Multiset.coe_add]
    exact Quotient.sound List.perm_middle

/-- Every run of a swarm is woven of lives. -/
theorem run_woven {present present' : Multiset E} {ms : List μ} {tagged : List (Nat × μ)}
    {ends : List (Option E)} (h : species.Woven tagged ends)
    (hpresent : present = ↑ends.reduceOption) (hrun : Run species.Step present ms present') :
    ∃ tags ends', species.Woven (tagged ++ tags) ends' ∧ tags.map Prod.snd = ms ∧
      present' = ↑ends'.reduceOption := by
  induction ms generalizing present tagged ends with
  | nil =>
    obtain rfl : present = present' := hrun
    exact ⟨[], ends, by rwa [List.append_nil], rfl, hpresent⟩
  | cons m ms ih =>
    obtain ⟨mid, hstep, hrest⟩ := hrun
    rcases hstep with ⟨e, hborn, rfl⟩ | ⟨e, e', rest, hact, hbefore, rfl⟩
    · have hmid : e ::ₘ present = ↑(ends ++ [some e]).reduceOption := by
        rw [hpresent, List.reduceOption_append, Multiset.cons_coe]
        exact Quotient.sound (List.perm_append_singleton _ _).symm
      obtain ⟨tags, ends', hwoven, hlabels, hends⟩ := ih (h.birth hborn) hmid hrest
      refine ⟨(ends.length, m) :: tags, ends', ?_, by rw [List.map_cons, hlabels], hends⟩
      rwa [List.append_assoc] at hwoven
    · -- the individual that acts is one of those that are there
      have hmem : e ∈ ends.reduceOption := by
        rw [← Multiset.mem_coe, ← hpresent, hbefore]
        exact Multiset.mem_cons_self e rest
      obtain ⟨before, after, rfl⟩ := List.append_of_mem (List.reduceOption_mem_iff.mp hmem)
      have hmid : (↑(before ++ e' :: after).reduceOption : Multiset E) = ↑e'.toList + rest :=
        present_act (hpresent.symm.trans hbefore)
      obtain ⟨tags, ends', hwoven, hlabels, hends⟩ := ih (h.act hact) hmid.symm hrest
      refine ⟨(before.length, m) :: tags, ends', ?_, by rw [List.map_cons, hlabels], hends⟩
      rwa [List.append_assoc] at hwoven

/-! ### Passes -/

/-- A pass over some of the individuals, of whom each acts once and none goes. -/
theorem run_pass {α : Type} {before : α → E} {label : Nat → α → μ} {after : Nat → α → E}
    (h : ∀ i a, species.acts (before a) (label i a) (some (after i a))) (xs : List α)
    (rest : Multiset E) :
    Run species.Step (↑(xs.map before) + rest) (xs.mapIdx label) (↑(xs.mapIdx after) + rest) := by
  induction xs generalizing label after rest with
  | nil => rfl
  | cons a xs ih =>
    have hrest := ih (fun i a ↦ h (i + 1) a) (after 0 a ::ₘ rest)
    rw [List.mapIdx_cons, List.mapIdx_cons, List.map_cons]
    refine ⟨↑(xs.map before) + (after 0 a ::ₘ rest),
      .inr ⟨before a, some (after 0 a), ↑(xs.map before) + rest, h 0 a, ?_, ?_⟩, ?_⟩
    · rw [← Multiset.cons_coe, Multiset.cons_add]
    · rw [Option.toList_some, Multiset.coe_singleton, Multiset.singleton_add, Multiset.add_cons]
    · rwa [← Multiset.cons_coe, Multiset.cons_add, ← Multiset.add_cons]

/-- A pass over some of the individuals, whose last act it is. -/
theorem run_leave {α : Type} {before : α → E} {label : α → μ} {xs : List α}
    (h : ∀ a ∈ xs, species.acts (before a) (label a) none) (rest : Multiset E) :
    Run species.Step (↑(xs.map before) + rest) (xs.map label) rest := by
  induction xs with
  | nil => exact zero_add rest
  | cons a xs ih =>
    refine ⟨↑(xs.map before) + rest,
      .inr ⟨before a, none, ↑(xs.map before) + rest, h a (by simp), ?_, ?_⟩,
      ih fun a ha ↦ h a (by simp [ha])⟩
    · rw [List.map_cons, ← Multiset.cons_coe, Multiset.cons_add]
    · simp

end Species
end TcpLoadBalancer.Lib
