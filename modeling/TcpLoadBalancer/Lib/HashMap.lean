import Mathlib.Data.List.AList
import Mathlib.Algebra.BigOperators.Group.List.Basic
import Mathlib.Tactic.Abel

/-!
# Finite maps with unspecified iteration order

A hash map is an association list without duplicate keys. `modify` is an update through a
mutable reference to an entry, and every traversal takes its order from an `IterOrder`,
an arbitrary rearrangement of the keys, so that nothing proved about a traversal depends on
the order in which the entries happen to be stored.
-/

namespace TcpLoadBalancer.Lib

/-- A finite map; each key is stored once. -/
abbrev HashMap (K V : Type) : Type := AList fun _ : K ↦ V

/-- An iteration order: some rearrangement of every list of keys. -/
structure IterOrder (K : Type) where
  arrange : List K → List K
  perm : ∀ keys, (arrange keys).Perm keys

/-- Iteration in storage order. -/
def IterOrder.stored {K : Type} : IterOrder K := ⟨id, fun keys ↦ .refl keys⟩

namespace IterOrder

variable {K : Type} (ord : IterOrder K)

/-- An order visits exactly the keys it is given. -/
@[simp] theorem mem_arrange {keys : List K} {k : K} : k ∈ ord.arrange keys ↔ k ∈ keys :=
  (ord.perm keys).mem_iff

/-- An order visits each key once. -/
theorem nodup_arrange {keys : List K} (h : keys.Nodup) : (ord.arrange keys).Nodup :=
  (ord.perm keys).nodup_iff.mpr h

end IterOrder

namespace HashMap

variable {K V : Type} [DecidableEq K]

/-- Update the value stored under a key through a mutable reference; an absent key leaves
the map as it is. -/
def modify (m : HashMap K V) (k : K) (f : V → V) : HashMap K V :=
  match m.lookup k with
  | none => m
  | some v => m.replace k (f v)

/-- The visited entries of a traversal, in its order. -/
def iter (ord : IterOrder K) (m : HashMap K V) : List (K × V) :=
  (ord.arrange m.keys).filterMap fun k ↦ (m.lookup k).map fun v ↦ (k, v)

/-- The total weight of the values of a map. -/
def total {M : Type} [AddCommMonoid M] (w : V → M) (m : HashMap K V) : M :=
  (m.keys.map fun k ↦ (m.lookup k).elim 0 w).sum

/-! ### Lookups after an update -/

private theorem dlookup_kreplace_self (k : K) (v : V) :
    ∀ l : List (Sigma fun _ : K ↦ V), k ∈ l.keys → (l.kreplace k v).dlookup k = some v
  | [], h => by simp at h
  | ⟨k', v'⟩ :: l, h => by
    by_cases hk : k = k'
    · subst k'
      simp [List.kreplace]
    · have hl : k ∈ l.keys := by simpa [hk] using h
      have ih := dlookup_kreplace_self k v l hl
      rw [List.kreplace, List.lookmap_cons_none _ _ (by simp [hk]), List.dlookup_cons_ne _ _ hk]
      exact ih

private theorem dlookup_kreplace_ne {k k' : K} (v : V) (hne : k' ≠ k) :
    ∀ l : List (Sigma fun _ : K ↦ V), (l.kreplace k v).dlookup k' = l.dlookup k'
  | [] => rfl
  | ⟨a, b⟩ :: l => by
    by_cases hk : k = a
    · subst a
      simp [List.kreplace, List.dlookup_cons_ne, hne]
    · have ih := dlookup_kreplace_ne v hne l
      rw [List.kreplace, List.lookmap_cons_none _ _ (by simp [hk])]
      by_cases ha : k' = a
      · subst a
        rw [List.dlookup_cons_eq, List.dlookup_cons_eq]
      · simpa [List.kreplace, List.dlookup_cons_ne, ha] using ih

private theorem lookup_replace_self (m : HashMap K V) {k : K} (v : V) (h : k ∈ m) :
    (m.replace k v).lookup k = some v :=
  dlookup_kreplace_self k v m.entries (AList.mem_keys.mp h)

private theorem lookup_replace_ne (m : HashMap K V) {k k' : K} (v : V) (h : k' ≠ k) :
    (m.replace k v).lookup k' = m.lookup k' :=
  dlookup_kreplace_ne v h m.entries

/-- The updated key holds the updated value. -/
@[simp] theorem lookup_modify_self (m : HashMap K V) (k : K) (f : V → V) :
    (m.modify k f).lookup k = (m.lookup k).map f := by
  unfold modify
  cases h : m.lookup k with
  | none => simp [h]
  | some v => simpa using lookup_replace_self m (f v) (AList.lookup_isSome.mp (by simp [h]))

/-- Every other key keeps its value. -/
theorem lookup_modify_ne (m : HashMap K V) {k k' : K} (f : V → V) (h : k' ≠ k) :
    (m.modify k f).lookup k' = m.lookup k' := by
  unfold modify
  cases m.lookup k with
  | none => rfl
  | some v => exact lookup_replace_ne m (f v) h

/-- Lookups after an update, at any key. -/
theorem lookup_modify (m : HashMap K V) (k k' : K) (f : V → V) :
    (m.modify k f).lookup k' = if k' = k then (m.lookup k).map f else m.lookup k' := by
  split
  · next h => rw [h, lookup_modify_self]
  · next h => exact lookup_modify_ne m f h

/-- An update does what it does to the stored value. -/
theorem modify_congr {m : HashMap K V} {k : K} {v : V} {f g : V → V} (h : m.lookup k = some v)
    (hv : f v = g v) : m.modify k f = m.modify k g := by
  simp only [modify, h, hv]

/-- An absent key is not updated. -/
theorem modify_of_none {m : HashMap K V} {k : K} (h : m.lookup k = none) (f : V → V) :
    m.modify k f = m := by
  simp only [modify, h]

/-- An update that keeps a view of the updated value keeps the view of every lookup. -/
theorem map_lookup_modify {W : Type} {view : V → W} {m : HashMap K V} {k : K} {f : V → V}
    (h : ∀ v, m.lookup k = some v → view (f v) = view v) (k' : K) :
    ((m.modify k f).lookup k').map view = (m.lookup k').map view := by
  by_cases hk : k' = k
  · subst k'
    rw [lookup_modify_self]
    cases hv : m.lookup k with
    | none => rfl
    | some v => exact congrArg some (h v hv)
  · rw [lookup_modify_ne m f hk]

/-- An update adds and removes no key. -/
@[simp] theorem keys_modify (m : HashMap K V) (k : K) (f : V → V) :
    (m.modify k f).keys = m.keys := by
  unfold modify
  split
  · rfl
  · exact AList.keys_replace k _ m

/-- A key is listed exactly when a lookup finds it. -/
theorem mem_keys_iff {m : HashMap K V} {k : K} : k ∈ m.keys ↔ ∃ v, m.lookup k = some v := by
  rw [AList.mem_keys.symm, ← AList.lookup_isSome, Option.isSome_iff_exists]

private theorem entries_ext :
    ∀ l l' : List (Sigma fun _ : K ↦ V), l.NodupKeys → l.keys = l'.keys →
      (∀ k, l.dlookup k = l'.dlookup k) → l = l'
  | [], [], _, _, _ => rfl
  | [], _ :: _, _, hkeys, _ => by simp at hkeys
  | _ :: _, [], _, hkeys, _ => by simp at hkeys
  | ⟨k, v⟩ :: l, ⟨k', v'⟩ :: l', hnodup, hkeys, hlookup => by
    obtain ⟨rfl, hrest⟩ : k = k' ∧ l.keys = l'.keys := by simpa using hkeys
    obtain ⟨hnotin, hnodup⟩ := List.nodupKeys_cons.mp hnodup
    have hv : v = v' := by simpa using hlookup k
    have hl : l = l' := by
      apply entries_ext l l' hnodup hrest
      intro a
      by_cases ha : a = k
      · rw [ha, List.dlookup_eq_none.mpr hnotin, List.dlookup_eq_none.mpr (hrest ▸ hnotin)]
      · have hlookup := hlookup a
        rwa [List.dlookup_cons_ne _ _ ha, List.dlookup_cons_ne _ _ ha] at hlookup
    rw [hv, hl]

/-- Maps with the same keys in the same order are equal when their lookups are. -/
theorem ext_lookup {m m' : HashMap K V} (hkeys : m.keys = m'.keys)
    (hlookup : ∀ k ∈ m.keys, m.lookup k = m'.lookup k) : m = m' := by
  apply AList.ext
  apply entries_ext _ _ m.nodupKeys hkeys
  intro k
  show m.lookup k = m'.lookup k
  by_cases hk : k ∈ m.keys
  · exact hlookup k hk
  · rw [AList.lookup_eq_none.mpr hk, AList.lookup_eq_none.mpr fun hk' ↦ hk (by
      rw [hkeys]
      exact AList.mem_keys.mp hk')]

/-! ### Traversals -/

/-- A traversal visits exactly the entries of the map. -/
theorem mem_iter {ord : IterOrder K} {m : HashMap K V} {k : K} {v : V} :
    (k, v) ∈ m.iter ord ↔ m.lookup k = some v := by
  simp only [iter, List.mem_filterMap, IterOrder.mem_arrange, Option.map_eq_some_iff,
    Prod.mk.injEq]
  constructor
  · rintro ⟨a, _, b, hb, rfl, rfl⟩
    exact hb
  · intro h
    exact ⟨k, mem_keys_iff.mpr ⟨v, h⟩, v, h, rfl, rfl⟩

/-! ### Totals -/

/-- The total is the weight of one value and of a rest that no update of this value changes. -/
theorem total_split {M : Type} [AddCommMonoid M] (w : V → M) {m : HashMap K V} {k : K} {v : V}
    (h : m.lookup k = some v) :
    ∃ rest, total w m = w v + rest ∧ ∀ f : V → V, total w (m.modify k f) = w (f v) + rest := by
  have hk : k ∈ m.keys := mem_keys_iff.mpr ⟨v, h⟩
  refine ⟨((m.keys.erase k).map fun a ↦ (m.lookup a).elim 0 w).sum, ?_, fun f ↦ ?_⟩
  · rw [total, ← List.sum_map_erase (fun a ↦ (m.lookup a).elim 0 w) hk, h, Option.elim_some]
  · have hrest : ((m.keys.erase k).map fun a ↦ ((m.modify k f).lookup a).elim 0 w) =
        (m.keys.erase k).map fun a ↦ (m.lookup a).elim 0 w := by
      apply List.map_congr_left
      intro a ha
      rw [lookup_modify_ne m f (m.keys_nodup.mem_erase_iff.mp ha).1]
    rw [total, keys_modify,
      ← List.sum_map_erase (fun a ↦ ((m.modify k f).lookup a).elim 0 w) hk, hrest,
      lookup_modify_self, h, Option.map_some, Option.elim_some]

/-- An update changes the total by what it changes at its own key. -/
theorem total_modify {M : Type} [AddCommMonoid M] (w : V → M) (m : HashMap K V) {k : K} {v : V}
    (f : V → V) (h : m.lookup k = some v) :
    total w (m.modify k f) + w v = total w m + w (f v) := by
  obtain ⟨rest, hbefore, hafter⟩ := total_split w h
  rw [hbefore, hafter]
  abel

/-- A map whose values all weigh nothing has no weight. -/
theorem total_eq_zero {M : Type} [AddCommMonoid M] {w : V → M} {m : HashMap K V}
    (h : ∀ k v, m.lookup k = some v → w v = 0) : total w m = 0 := by
  apply List.sum_eq_zero
  intro x hx
  obtain ⟨k, _, rfl⟩ := List.mem_map.mp hx
  cases hk : m.lookup k with
  | none => rfl
  | some v => exact h k v hk

end HashMap
end TcpLoadBalancer.Lib
