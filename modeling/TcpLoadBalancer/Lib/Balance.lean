import Mathlib.Algebra.BigOperators.Group.Finset.Piecewise

/-!
# Balanced loads

Work is given out one piece at a time, each piece to an element of least load; ties are
broken in any way. Loads that differ by at most one at the start differ by at most one
ever after, and the total load counts the pieces.
-/

namespace TcpLoadBalancer.Lib

variable {K : Type}

/-- Of the elements of `s`, `k` has the least load. -/
def LeastLoaded (s : Finset K) (load : K → Nat) (k : K) : Prop :=
  k ∈ s ∧ ∀ j ∈ s, load k ≤ load j

/-- The loads of any two elements of `s` differ by at most one. -/
def Balanced (s : Finset K) (load : K → Nat) : Prop :=
  ∀ i ∈ s, ∀ j ∈ s, load i ≤ load j + 1

/-- Equal loads are balanced. -/
theorem balanced_const (s : Finset K) (n : Nat) : Balanced s fun _ ↦ n :=
  fun _ _ _ _ ↦ Nat.le_succ n

variable [DecidableEq K] {s : Finset K} {load : K → Nat} {k : K}

/-- A piece of work for an element of least load keeps the loads balanced. -/
theorem Balanced.assign (h : Balanced s load) (hk : LeastLoaded s load k) :
    Balanced s (Function.update load k (load k + 1)) := by
  intro i hi j hj
  have hij := h i hi j hj
  have hkj := hk.2 j hj
  by_cases hik : i = k
  · subst i
    rw [Function.update_self]
    by_cases hjk : j = k
    · subst j
      rw [Function.update_self]
      omega
    · rw [Function.update_of_ne hjk]
      omega
  · rw [Function.update_of_ne hik]
    by_cases hjk : j = k
    · subst j
      rw [Function.update_self]
      omega
    · rw [Function.update_of_ne hjk]
      exact hij

/-- A piece of work raises the total load by one. -/
theorem sum_assign (hk : k ∈ s) :
    ∑ i ∈ s, Function.update load k (load k + 1) i = (∑ i ∈ s, load i) + 1 := by
  rw [Finset.sum_update_of_mem hk, Finset.sum_eq_add_sum_sdiff_singleton_of_mem hk load]
  omega

end TcpLoadBalancer.Lib
