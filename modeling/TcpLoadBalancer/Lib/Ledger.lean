import Mathlib.Logic.Function.Basic
import Mathlib.Data.List.Count

/-!
# Lease ledgers

A ledger keeps, for every resource, a usage counter next to the number of leases really
held. Acquiring a lease raises both and releasing one lowers both; a leak raises the
counter alone. After any run of such moves from an empty ledger the counter exceeds the
held leases by exactly the number of leaks.
-/

namespace TcpLoadBalancer.Lib

/-- Counters next to held leases, by resource. -/
@[ext] structure Ledger (K : Type) where
  counts : K → Nat
  held : K → Nat

namespace Ledger

variable {K : Type}

/-- One change of a ledger. -/
inductive Move (K : Type) where
  | acquire (k : K)
  | leak (k : K)
  | release (k : K)
  deriving DecidableEq

/-- Nothing counted and nothing held. -/
def empty : Ledger K := ⟨fun _ ↦ 0, fun _ ↦ 0⟩

variable [DecidableEq K]

/-- Make a move; a lease that nobody holds cannot be released. -/
def move (l : Ledger K) : Move K → Option (Ledger K)
  | .acquire k =>
    some ⟨Function.update l.counts k (l.counts k + 1), Function.update l.held k (l.held k + 1)⟩
  | .leak k => some ⟨Function.update l.counts k (l.counts k + 1), l.held⟩
  | .release k =>
    if l.held k = 0 then none
    else some ⟨Function.update l.counts k (l.counts k - 1),
      Function.update l.held k (l.held k - 1)⟩

/-- Make a sequence of moves. -/
def replay (l : Ledger K) : List (Move K) → Option (Ledger K)
  | [] => some l
  | m :: ms => (l.move m).bind fun l' ↦ replay l' ms

/-- The number of leaks of a resource among some moves. -/
def leaks (k : K) (ms : List (Move K)) : Nat := ms.count (.leak k)

/-- The moves that raise a counter. -/
def Move.raises : Move K → Bool
  | .acquire _ => true
  | .leak _ => true
  | .release _ => false

/-- Replaying a concatenation goes on from the ledger reached. -/
theorem replay_append (l : Ledger K) (ms ms' : List (Move K)) :
    l.replay (ms ++ ms') = (l.replay ms).bind fun l' ↦ l'.replay ms' := by
  induction ms generalizing l with
  | nil => rfl
  | cons m ms ih =>
    simp only [List.cons_append, replay]
    cases l.move m with
    | none => rfl
    | some l' => exact ih l'

/-- Releasing leases that are all held lowers counters and held leases alike. -/
theorem replay_release {l : Ledger K} {ks : List K} (h : ∀ k, ks.count k ≤ l.held k) :
    l.replay (ks.map .release) =
      some ⟨fun k ↦ l.counts k - ks.count k, fun k ↦ l.held k - ks.count k⟩ := by
  induction ks generalizing l with
  | nil => simp [replay]
  | cons k ks ih =>
    have hk := h k
    rw [List.count_cons_self] at hk
    have hpos : l.held k ≠ 0 := by omega
    rw [List.map_cons, replay, move, if_neg hpos, Option.bind_some, ih]
    · have hsub : ∀ (n : K → Nat) (k' : K),
          Function.update n k (n k - 1) k' - ks.count k' = n k' - (k :: ks).count k' := by
        intro n k'
        by_cases hk' : k' = k
        · subst k'
          rw [Function.update_self, List.count_cons_self]
          omega
        · rw [Function.update_of_ne hk', List.count_cons_of_ne (Ne.symm hk')]
      simp only [hsub]
    · intro k'
      by_cases hk' : k' = k
      · subst k'
        simp only [Function.update_self]
        omega
      · have hle := h k'
        rw [List.count_cons_of_ne (Ne.symm hk')] at hle
        simpa only [Function.update_of_ne hk'] using hle

/-- One legal move raises the excess of a counter by one exactly when it is a leak. -/
theorem counts_move {l l' : Ledger K} {m : Move K} {k : K} {n : Nat}
    (hl : l.counts k = l.held k + n) (h : l.move m = some l') :
    l'.counts k = l'.held k + n + leaks k [m] := by
  cases m with
  | acquire k' =>
    obtain rfl := Option.some.inj h
    by_cases hk : k = k'
    · subst k'
      simp [leaks, hl]
      omega
    · simp [leaks, Function.update_of_ne hk, hl]
  | leak k' =>
    obtain rfl := Option.some.inj h
    by_cases hk : k = k'
    · subst k'
      simp [leaks, hl]
    · simp [leaks, Function.update_of_ne hk, hl, Ne.symm hk]
  | release k' =>
    simp only [move] at h
    split at h
    · cases h
    · next hheld =>
      obtain rfl := Option.some.inj h
      by_cases hk : k = k'
      · subst k'
        simp [leaks, hl]
        omega
      · simp [leaks, Function.update_of_ne hk, hl]

/-- After a legal run a counter exceeds the held leases by what it did before the run and
the leaks of the run. -/
theorem counts_replay {l l' : Ledger K} {ms : List (Move K)} {k : K} {n : Nat}
    (hl : l.counts k = l.held k + n) (h : l.replay ms = some l') :
    l'.counts k = l'.held k + n + leaks k ms := by
  induction ms generalizing l n with
  | nil =>
    obtain rfl := Option.some.inj h
    simpa [leaks] using hl
  | cons m ms ih =>
    cases hm : l.move m with
    | none => simp [replay, hm] at h
    | some mid =>
      have hmid := counts_move hl hm
      have hrest := ih (l := mid) (n := n + leaks k [m]) (by omega) (by simpa [replay, hm] using h)
      have hsplit : leaks k (m :: ms) = leaks k [m] + leaks k ms := by
        simp only [leaks, List.count_cons, List.count_nil]
        omega
      omega

/-- From an empty ledger a counter is what is held and what has leaked. -/
theorem counts_of_empty {l : Ledger K} {ms : List (Move K)}
    (h : (empty : Ledger K).replay ms = some l) (k : K) :
    l.counts k = l.held k + leaks k ms := by
  simpa using counts_replay (n := 0) rfl h

/-- A move raises a counter by one at most, and a release raises none. -/
theorem counts_move_le {l l' : Ledger K} {m : Move K} (h : l.move m = some l') (k : K) :
    l'.counts k ≤ l.counts k + [m].countP Move.raises := by
  have hupdate : ∀ k' n, n ≤ l.counts k' + 1 →
      Function.update l.counts k' n k ≤ l.counts k + 1 := by
    intro k' n hn
    by_cases hk : k = k'
    · subst k'
      rwa [Function.update_self]
    · rw [Function.update_of_ne hk]
      omega
  cases m with
  | acquire k' =>
    obtain rfl := Option.some.inj h
    exact hupdate k' _ (Nat.le_refl _)
  | leak k' =>
    obtain rfl := Option.some.inj h
    exact hupdate k' _ (Nat.le_refl _)
  | release k' =>
    simp only [move] at h
    split at h
    · cases h
    · obtain rfl := Option.some.inj h
      by_cases hk : k = k'
      · subst k'
        simp only [Function.update_self]
        omega
      · simp only [Function.update_of_ne hk]
        omega

/-- A run raises no counter above what it had and the raising moves. -/
theorem counts_replay_le {l l' : Ledger K} {ms : List (Move K)} (h : l.replay ms = some l')
    (k : K) : l'.counts k ≤ l.counts k + ms.countP Move.raises := by
  induction ms generalizing l with
  | nil =>
    obtain rfl := Option.some.inj h
    simp
  | cons m ms ih =>
    cases hm : l.move m with
    | none => simp [replay, hm] at h
    | some mid =>
      have hone := counts_move_le hm k
      have hrest := ih (l := mid) (by simpa [replay, hm] using h)
      have hsplit : (m :: ms).countP Move.raises =
          [m].countP Move.raises + ms.countP Move.raises := by
        rw [← List.singleton_append, List.countP_append]
      omega

end Ledger
end TcpLoadBalancer.Lib
