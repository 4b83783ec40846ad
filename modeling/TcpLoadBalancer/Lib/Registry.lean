import Mathlib.Algebra.Order.Group.Multiset
import Mathlib.Logic.Function.Basic
import TcpLoadBalancer.Lib.Simulation

/-!
# Registries of sessions

A session arrives, waits, and is then refused or admitted for an owner, for whom it stays open
until it is closed. Admission adds data of its own to a session; what was admitted knows its
origin. Along every run of a registry a session is in one place at a time: what has arrived is
what waits, what was refused and what was admitted, and what was admitted for an owner is what
the owner has open and what was closed.
-/

namespace TcpLoadBalancer.Lib

/-- The sessions that wait, and the admitted ones that each owner has open. -/
@[ext] structure Registry (K S L : Type) where
  waiting : Multiset S
  opened : K → Multiset L

namespace Registry

variable {K S L : Type}

/-- What can happen to a session. -/
inductive Move (K S L : Type) where
  | arrive (s : S)
  | refuse (s : S)
  | enroll (k : K) (l : L)
  | close (k : K) (l : L)
  deriving DecidableEq

namespace Move

/-- The session that arrives. -/
def arrival : Move K S L → Option S
  | .arrive s => some s
  | _ => none

/-- The session that is refused. -/
def refusal : Move K S L → Option S
  | .refuse s => some s
  | _ => none

/-- The session that is admitted, with its owner. -/
def admission : Move K S L → Option (K × L)
  | .enroll k l => some (k, l)
  | _ => none

/-- The session that is closed, with its owner. -/
def closing : Move K S L → Option (K × L)
  | .close k l => some (k, l)
  | _ => none

end Move

/-- Nothing waits and nothing is open. -/
def empty : Registry K S L := ⟨0, fun _ ↦ 0⟩

/-- Every session is in one place only: it waits, or one owner has it open, once. -/
structure Exclusive (origin : L → S) (r : Registry K S L) : Prop where
  waiting : r.waiting.Nodup
  opened : ∀ k, ((r.opened k).map origin).Nodup
  apart : ∀ k, ∀ l ∈ r.opened k, origin l ∉ r.waiting
  owners : ∀ k k', k ≠ k' → ∀ l ∈ r.opened k, ∀ l' ∈ r.opened k', origin l ≠ origin l'

/-- The session is nowhere in the registry. -/
def Unknown (origin : L → S) (r : Registry K S L) (s : S) : Prop :=
  s ∉ r.waiting ∧ ∀ k, ∀ l ∈ r.opened k, origin l ≠ s

/-- An empty registry holds nothing twice. -/
theorem exclusive_empty (origin : L → S) : Exclusive origin (empty : Registry K S L) where
  waiting := Multiset.nodup_zero
  opened _ := Multiset.nodup_zero
  apart _ _ hl := absurd hl (Multiset.notMem_zero _)
  owners _ _ _ _ hl := absurd hl (Multiset.notMem_zero _)

variable [DecidableEq K] (origin : L → S)

/-- A move takes a session from where it is to where it goes; no other session moves. -/
def Step (r : Registry K S L) : Move K S L → Registry K S L → Prop
  | .arrive s, r' => r'.waiting = s ::ₘ r.waiting ∧ r'.opened = r.opened
  | .refuse s, r' => r.waiting = s ::ₘ r'.waiting ∧ r'.opened = r.opened
  | .enroll k l, r' =>
    r.waiting = origin l ::ₘ r'.waiting ∧
      r'.opened = Function.update r.opened k (l ::ₘ r.opened k)
  | .close k l, r' =>
    r'.waiting = r.waiting ∧ r.opened = Function.update r'.opened k (l ::ₘ r'.opened k)

/-- The sessions of an owner among some moves. -/
def ofOwner (k : K) (read : Move K S L → Option (K × L)) (ms : List (Move K S L)) : List L :=
  ((ms.filterMap read).filter fun e ↦ e.1 = k).map Prod.snd

variable {origin} {r r' : Registry K S L} {ms : List (Move K S L)}

/-- Sessions that were waiting or have arrived are waiting, refused or admitted. -/
theorem waiting_run (h : Run (Step origin) r ms r') :
    r.waiting + ↑(ms.filterMap Move.arrival) =
      r'.waiting + ↑(ms.filterMap Move.refusal) +
        ↑((ms.filterMap Move.admission).map fun e ↦ origin e.2) := by
  induction ms generalizing r with
  | nil =>
    obtain rfl : r = r' := h
    simp
  | cons m ms ih =>
    obtain ⟨mid, hstep, hrest⟩ := h
    have hmid := ih hrest
    cases m with
    | arrive s =>
      rw [hstep.1, Multiset.cons_add] at hmid
      simpa [List.filterMap_cons, Move.arrival, Move.refusal, Move.admission,
        ← Multiset.cons_coe] using hmid
    | refuse s =>
      rw [hstep.1]
      simpa [List.filterMap_cons, Move.arrival, Move.refusal, Move.admission,
        ← Multiset.cons_coe] using hmid
    | enroll k l =>
      rw [hstep.1]
      simpa [List.filterMap_cons, Move.arrival, Move.refusal, Move.admission,
        ← Multiset.cons_coe] using hmid
    | close k l =>
      rw [hstep.1] at hmid
      simpa [List.filterMap_cons, Move.arrival, Move.refusal, Move.admission] using hmid

/-- What an owner had open or was admitted for it is open or was closed. -/
theorem opened_run (h : Run (Step origin) r ms r') (k : K) :
    r.opened k + ↑(ofOwner k Move.admission ms) =
      r'.opened k + ↑(ofOwner k Move.closing ms) := by
  induction ms generalizing r with
  | nil =>
    obtain rfl : r = r' := h
    simp [ofOwner]
  | cons m ms ih =>
    obtain ⟨mid, hstep, hrest⟩ := h
    have hmid := ih hrest
    cases m with
    | arrive s =>
      rw [hstep.2] at hmid
      exact hmid
    | refuse s =>
      rw [hstep.2] at hmid
      exact hmid
    | enroll k' l =>
      rw [hstep.2] at hmid
      by_cases hk : k = k'
      · subst k'
        rw [Function.update_self, Multiset.cons_add] at hmid
        simpa [ofOwner, List.filterMap_cons, Move.admission, Move.closing,
          ← Multiset.cons_coe] using hmid
      · rw [Function.update_of_ne hk] at hmid
        simpa [ofOwner, List.filterMap_cons, Move.admission, Move.closing, Ne.symm hk] using hmid
    | close k' l =>
      rw [hstep.2]
      by_cases hk : k = k'
      · subst k'
        rw [Function.update_self, Multiset.cons_add]
        simpa [ofOwner, List.filterMap_cons, Move.admission, Move.closing,
          ← Multiset.cons_coe] using hmid
      · rw [Function.update_of_ne hk]
        simpa [ofOwner, List.filterMap_cons, Move.admission, Move.closing, Ne.symm hk] using hmid

/-- From an empty registry, what waits or is open has arrived. -/
theorem mem_arrivals (h : Run (Step origin) (empty : Registry K S L) ms r) :
    (∀ s ∈ r.waiting, s ∈ ms.filterMap Move.arrival) ∧
      ∀ k, ∀ l ∈ r.opened k, origin l ∈ ms.filterMap Move.arrival := by
  have hwaiting := waiting_run h
  simp only [empty, zero_add] at hwaiting
  constructor
  · intro s hs
    rw [← Multiset.mem_coe, hwaiting]
    exact Multiset.mem_add.mpr (.inl (Multiset.mem_add.mpr (.inl hs)))
  · intro k l hl
    have hopened := opened_run h k
    simp only [empty, zero_add] at hopened
    have hadmitted : l ∈ ofOwner k Move.admission ms := by
      rw [← Multiset.mem_coe, hopened]
      exact Multiset.mem_add.mpr (.inl hl)
    obtain ⟨e, he, rfl⟩ := List.mem_map.mp hadmitted
    rw [← Multiset.mem_coe, hwaiting]
    exact Multiset.mem_add.mpr (.inr (List.mem_map.mpr ⟨e, (List.mem_filter.mp he).1, rfl⟩))

/-! ### Closing -/

/-- Several sessions of one owner are closed one after the other. -/
theorem run_close (k : K) (ls : List L) (hwaiting : r'.waiting = r.waiting)
    (hopened : r.opened = Function.update r'.opened k (↑ls + r'.opened k)) :
    Run (Step origin) r (ls.map (.close k)) r' := by
  induction ls generalizing r with
  | nil =>
    rw [Multiset.coe_nil, zero_add, Function.update_eq_self] at hopened
    exact Registry.ext hwaiting.symm hopened
  | cons l ls ih =>
    refine ⟨⟨r.waiting, Function.update r'.opened k (↑ls + r'.opened k)⟩, ⟨rfl, ?_⟩,
      ih hwaiting rfl⟩
    simp only [hopened, Function.update_self, Function.update_idem, ← Multiset.cons_coe,
      Multiset.cons_add]

/-! ### Exclusiveness -/

/-- Whenever a session arrives it is nowhere in the registry. -/
def FreshArrivals (origin : L → S) (r : Registry K S L) (ms : List (Move K S L)) : Prop :=
  ∀ pre s post mid, ms = pre ++ .arrive s :: post → Run (Step origin) r pre mid →
    Unknown origin mid s

/-- Arrivals that all differ are fresh. -/
theorem freshArrivals_of_nodup (h : (ms.filterMap Move.arrival).Nodup) :
    FreshArrivals origin (empty : Registry K S L) ms := by
  intro pre s post mid hsplit hpre
  have harrival : (Move.arrive s : Move K S L).arrival = some s := rfl
  have hnew : s ∉ pre.filterMap Move.arrival := by
    rw [hsplit, List.filterMap_append, List.filterMap_cons_some harrival] at h
    exact fun hmem ↦ (List.nodup_append.mp h).2.2 s hmem s (by simp) rfl
  obtain ⟨hwaiting, hopened⟩ := mem_arrivals hpre
  exact ⟨fun hs ↦ hnew (hwaiting s hs), fun k l hl he ↦ hnew (he ▸ hopened k l hl)⟩

/-- A move keeps the sessions apart, if what arrives is not there yet. -/
theorem Exclusive.step {m : Move K S L} (h : Exclusive origin r)
    (hfresh : ∀ s, m = .arrive s → Unknown origin r s) (hstep : Step origin r m r') :
    Exclusive origin r' := by
  cases m with
  | arrive s =>
    obtain ⟨hwaiting, hopened⟩ := hstep
    obtain ⟨hnew, hother⟩ := hfresh s rfl
    refine ⟨?_, by rw [hopened]; exact h.opened, ?_, by rw [hopened]; exact h.owners⟩
    · rw [hwaiting]
      exact Multiset.nodup_cons.mpr ⟨hnew, h.waiting⟩
    · intro k l hl
      rw [hopened] at hl
      rw [hwaiting, Multiset.mem_cons, not_or]
      exact ⟨hother k l hl, h.apart k l hl⟩
  | refuse s =>
    obtain ⟨hwaiting, hopened⟩ := hstep
    have hnodup := h.waiting
    rw [hwaiting] at hnodup
    refine ⟨(Multiset.nodup_cons.mp hnodup).2, by rw [hopened]; exact h.opened, ?_,
      by rw [hopened]; exact h.owners⟩
    intro k l hl hmem
    rw [hopened] at hl
    apply h.apart k l hl
    rw [hwaiting]
    exact Multiset.mem_cons_of_mem hmem
  | enroll k l =>
    obtain ⟨hwaiting, hopened⟩ := hstep
    have hnodup := h.waiting
    have hapart := h.apart
    rw [hwaiting] at hnodup hapart
    obtain ⟨hnew, hrest⟩ := Multiset.nodup_cons.mp hnodup
    -- what any owner has open is the admitted session or was open before
    have hcases : ∀ k' l', l' ∈ r'.opened k' → (k' = k ∧ l' = l) ∨ l' ∈ r.opened k' := by
      intro k' l' hl'
      rw [hopened] at hl'
      by_cases hk : k' = k
      · subst k'
        rw [Function.update_self, Multiset.mem_cons] at hl'
        exact hl'.imp_left fun he ↦ ⟨rfl, he⟩
      · rw [Function.update_of_ne hk] at hl'
        exact .inr hl'
    have hbefore : ∀ k' l', l' ∈ r.opened k' → origin l' ≠ origin l := by
      intro k' l' hl' he
      apply hapart k' l' hl'
      rw [he]
      exact Multiset.mem_cons_self _ _
    refine ⟨hrest, fun k' ↦ ?_, fun k' l' hl' ↦ ?_, fun k₁ k₂ hne l₁ h₁ l₂ h₂ ↦ ?_⟩
    · rw [hopened]
      by_cases hk : k' = k
      · subst k'
        rw [Function.update_self, Multiset.map_cons]
        refine Multiset.nodup_cons.mpr ⟨fun hmem ↦ ?_, h.opened k⟩
        obtain ⟨l', hl', he⟩ := Multiset.mem_map.mp hmem
        exact hbefore k l' hl' he
      · rw [Function.update_of_ne hk]
        exact h.opened k'
    · rcases hcases k' l' hl' with ⟨-, rfl⟩ | hold
      · exact hnew
      · exact fun hmem ↦ hapart k' l' hold (Multiset.mem_cons_of_mem hmem)
    · rcases hcases k₁ l₁ h₁ with ⟨rfl, rfl⟩ | hold₁
      · rcases hcases k₂ l₂ h₂ with ⟨rfl, -⟩ | hold₂
        · exact absurd rfl hne
        · exact (hbefore k₂ l₂ hold₂).symm
      · rcases hcases k₂ l₂ h₂ with ⟨-, rfl⟩ | hold₂
        · exact hbefore k₁ l₁ hold₁
        · exact h.owners k₁ k₂ hne l₁ hold₁ l₂ hold₂
  | close k l =>
    obtain ⟨hwaiting, hopened⟩ := hstep
    have hle : ∀ k', r'.opened k' ≤ r.opened k' := by
      intro k'
      rw [hopened]
      by_cases hk : k' = k
      · subst k'
        rw [Function.update_self]
        exact Multiset.le_cons_self _ _
      · rw [Function.update_of_ne hk]
    refine ⟨by rw [hwaiting]; exact h.waiting, fun k' ↦ ?_, fun k' l' hl' ↦ ?_,
      fun k₁ k₂ hne l₁ h₁ l₂ h₂ ↦ ?_⟩
    · exact Multiset.nodup_of_le (Multiset.map_le_map (hle k')) (h.opened k')
    · rw [hwaiting]
      exact h.apart k' l' (Multiset.mem_of_le (hle k') hl')
    · exact h.owners k₁ k₂ hne l₁ (Multiset.mem_of_le (hle k₁) h₁) l₂
        (Multiset.mem_of_le (hle k₂) h₂)

/-- A run whose arrivals are fresh keeps the sessions apart. -/
theorem Exclusive.run (h : Exclusive origin r) (hrun : Run (Step origin) r ms r')
    (hfresh : FreshArrivals origin r ms) : Exclusive origin r' := by
  induction ms generalizing r with
  | nil =>
    obtain rfl : r = r' := hrun
    exact h
  | cons m ms ih =>
    obtain ⟨mid, hstep, hrest⟩ := hrun
    have hfirst : ∀ s, m = .arrive s → Unknown origin r s := by
      rintro s rfl
      exact hfresh [] s ms r rfl rfl
    refine ih (h.step hfirst hstep) hrest fun pre s post mid' hsplit hpre ↦ ?_
    exact hfresh (m :: pre) s post mid' (by rw [hsplit]; rfl) ⟨mid, hstep, hpre⟩

end Registry
end TcpLoadBalancer.Lib
