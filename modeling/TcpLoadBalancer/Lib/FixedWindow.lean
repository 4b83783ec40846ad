import Mathlib.Data.List.Count
import Mathlib.Order.Lattice

/-!
# Fixed-window rate limiting

A limiter that keeps one counter for the current period and starts it again when the
period changes. Fed with periods that never go back, its counter is the number of grants of
the current period, and every period is granted exactly its first requests, up to the limit.
Requests may also be made in one period and decided in a later one; it is then known how many of
them find the limit of their period reached when they are made.
-/

namespace TcpLoadBalancer.Lib

/-- The state of a limiter: the period it counts and the grants counted in it. -/
structure FixedWindow (P : Type) where
  period : P
  used : Nat

namespace FixedWindow

variable {P : Type}

/-- A request is refused when its period is the counted one and the limit is reached. -/
def full [DecidableEq P] (limit : Nat) (w : FixedWindow P) (p : P) : Bool :=
  decide (p = w.period) && decide (limit ≤ w.used)

/-- Count a granted request. -/
def grant [DecidableEq P] (w : FixedWindow P) (p : P) : FixedWindow P :=
  ⟨p, (if p = w.period then w.used else 0) + 1⟩

/-- The verdicts on the requests of a run, each with its period. -/
def verdicts [DecidableEq P] (limit : Nat) : FixedWindow P → List P → List (P × Bool)
  | _, [] => []
  | w, p :: ps =>
    if full limit w p then (p, false) :: verdicts limit w ps
    else (p, true) :: verdicts limit (w.grant p) ps

/-- The verdicts given in one period, in order. -/
def verdictsIn [DecidableEq P] (p : P) (vs : List (P × Bool)) : List Bool :=
  (vs.filter fun v ↦ v.1 = p).map Prod.snd

/-- The verdicts on `n` requests of which exactly the first ones are granted, up to `budget`. -/
def firstGranted (budget n : Nat) : List Bool :=
  List.replicate (min budget n) true ++ List.replicate (n - budget) false

/-- Decide a request: it is counted unless it is refused. -/
def ask [DecidableEq P] (limit : Nat) (w : FixedWindow P) (p : P) : FixedWindow P :=
  if full limit w p then w else w.grant p

/-- The limiter after requests, each with the period in which it was made and the one in which
it is decided. -/
def after [DecidableEq P] (limit : Nat) (w : FixedWindow P) (rs : List (P × P)) : FixedWindow P :=
  rs.foldl (fun w r ↦ w.ask limit r.2) w

/-- Whether each request, when it is made, finds the limit of its period reached. -/
def reached [DecidableEq P] (limit : Nat) : FixedWindow P → List (P × P) → List (P × Bool)
  | _, [] => []
  | w, r :: rs => (r.1, full limit w r.1) :: reached limit (w.ask limit r.2) rs

/-- The times of requests: each is made and then decided. -/
def times (rs : List (P × P)) : List P := rs.flatMap fun r ↦ [r.1, r.2]

/-- The number of requests made in a period. -/
def madeIn [DecidableEq P] (p : P) (rs : List (P × P)) : Nat := rs.countP fun r ↦ decide (r.1 = p)

/-- The number of requests made before a period and decided in it. -/
def carriedInto [LT P] [DecidableLT P] [DecidableEq P] (p : P) (rs : List (P × P)) : Nat :=
  rs.countP fun r ↦ decide (r.1 < p) && decide (r.2 = p)

/-- The limiter agrees with the periods granted so far. -/
structure Accounts [LinearOrder P] (limit : Nat) (w : FixedWindow P) (granted : List P) :
    Prop where
  used_eq : granted.count w.period = w.used
  bound : ∀ p, granted.count p ≤ limit
  latest : ∀ q ∈ granted, q ≤ w.period ∧ w.period ∈ granted

variable [LinearOrder P] {limit : Nat} {w : FixedWindow P} {granted : List P}

/-- A limiter with an empty counter agrees with no grants at all. -/
theorem accounts_new (limit : Nat) (p : P) : Accounts limit ⟨p, 0⟩ [] :=
  ⟨rfl, fun _ ↦ Nat.zero_le _, fun _ hq ↦ absurd hq List.not_mem_nil⟩

/-- No grant lies in a period other than the counted one that is not in the past. -/
theorem Accounts.count_of_ne (h : Accounts limit w granted) {p : P}
    (hp : ∀ q ∈ granted, q ≤ p) (hne : p ≠ w.period) : granted.count p = 0 := by
  apply List.count_eq_zero.mpr
  intro hmem
  obtain ⟨hle, hlast⟩ := h.latest p hmem
  exact hne (le_antisymm hle (hp _ hlast))

/-- The counter consulted for a request is the number of grants of its period. -/
theorem Accounts.count_eq (h : Accounts limit w granted) {p : P}
    (hp : ∀ q ∈ granted, q ≤ p) :
    granted.count p = if p = w.period then w.used else 0 := by
  split
  · next he => rw [he, h.used_eq]
  · next hne => exact h.count_of_ne hp hne

/-- A refused request finds its period at the limit. -/
theorem Accounts.count_of_full (h : Accounts limit w granted) {p : P}
    (hfull : full limit w p = true) : granted.count p = limit := by
  simp only [full, Bool.and_eq_true, decide_eq_true_eq] at hfull
  have hused := h.used_eq
  have hbound := h.bound w.period
  rw [hfull.1]
  omega

/-- A grant that is not refused keeps the agreement. -/
theorem Accounts.grant (h : Accounts limit w granted) (hlimit : 0 < limit) {p : P}
    (hp : ∀ q ∈ granted, q ≤ p) (hfree : full limit w p = false) :
    Accounts limit (w.grant p) (granted ++ [p]) := by
  have hcount := h.count_eq hp
  refine ⟨?_, ?_, ?_⟩
  · simp only [FixedWindow.grant, List.count_append, List.count_singleton_self, hcount]
  · intro q
    by_cases hq : q = p
    · subst q
      have hlt : granted.count p < limit := by
        rw [hcount]
        split
        · next he =>
          have hused : ¬limit ≤ w.used := by simpa [full, he] using hfree
          omega
        · exact hlimit
      rw [List.count_append, List.count_singleton_self]
      omega
    · rw [List.count_append, List.count_singleton, if_neg (by simpa using Ne.symm hq)]
      exact h.bound q
  · intro q hq
    refine ⟨?_, by simp [FixedWindow.grant]⟩
    rcases List.mem_append.mp hq with hold | hnew
    · exact hp q hold
    · exact le_of_eq (List.mem_singleton.mp hnew)

/-! ### Runs -/

/-- A verdict of the period comes first. -/
theorem verdictsIn_cons_self (p : P) (granted : Bool) (vs : List (P × Bool)) :
    verdictsIn p ((p, granted) :: vs) = granted :: verdictsIn p vs := by
  simp [verdictsIn]

/-- A verdict of another period does not show. -/
theorem verdictsIn_cons_ne {p q : P} (h : p ≠ q) (granted : Bool) (vs : List (P × Bool)) :
    verdictsIn q ((p, granted) :: vs) = verdictsIn q vs := by
  simp [verdictsIn, h]

/-- A request within the budget is granted before the others. -/
theorem firstGranted_succ (budget n : Nat) :
    firstGranted (budget + 1) (n + 1) = true :: firstGranted budget n := by
  rw [firstGranted, firstGranted, Nat.add_min_add_right, Nat.add_sub_add_right,
    List.replicate_succ, List.cons_append]

/-- Without a budget every request is refused. -/
theorem firstGranted_zero (n : Nat) : firstGranted 0 n = List.replicate n false := by
  rw [firstGranted, Nat.zero_min, List.replicate_zero, List.nil_append, Nat.sub_zero]

/-- No more requests are granted than the budget allows. -/
theorem count_firstGranted_le (budget n : Nat) :
    (firstGranted budget n).count true ≤ budget := by
  rw [firstGranted, List.count_append, List.count_replicate_self,
    List.count_eq_zero_of_not_mem fun hmem ↦ by cases List.eq_of_mem_replicate hmem]
  omega

/-- A run that follows the grants so far: each period is granted exactly its first requests,
up to what is left of the limit. -/
theorem Accounts.verdictsIn_eq (h : Accounts limit w granted) (hlimit : 0 < limit) {ps : List P}
    (hps : ps.Pairwise (· ≤ ·)) (hafter : ∀ q ∈ granted, ∀ p ∈ ps, q ≤ p) (q : P) :
    verdictsIn q (verdicts limit w ps) = firstGranted (limit - granted.count q) (ps.count q) := by
  induction ps generalizing w granted with
  | nil => simp [verdicts, verdictsIn, firstGranted]
  | cons p ps ih =>
    obtain ⟨hp, hps⟩ := List.pairwise_cons.mp hps
    have hbefore : ∀ q ∈ granted, q ≤ p := fun q hq ↦ hafter q hq p (by simp)
    have hrest : ∀ q ∈ granted, ∀ p' ∈ ps, q ≤ p' := fun q hq p' hp' ↦
      hafter q hq p' (by simp [hp'])
    cases hfull : full limit w p with
    | true =>
      have hcount := h.count_of_full hfull
      have hverdicts := ih h hps hrest
      rw [verdicts, if_pos hfull]
      by_cases hq : p = q
      · subst q
        rw [hcount, Nat.sub_self, firstGranted_zero] at hverdicts ⊢
        rw [List.count_cons_self, List.replicate_succ, verdictsIn_cons_self, hverdicts]
      · rw [List.count_cons_of_ne hq, verdictsIn_cons_ne hq, hverdicts]
    | false =>
      have hgrant := h.grant hlimit hbefore hfull
      have hbound := hgrant.bound p
      rw [List.count_append, List.count_singleton_self] at hbound
      have hverdicts := ih hgrant hps (by
        intro q hq p' hp'
        rcases List.mem_append.mp hq with hold | hnew
        · exact hrest q hold p' hp'
        · rw [List.mem_singleton.mp hnew]
          exact hp p' hp')
      rw [verdicts, if_neg (by simp [hfull])]
      by_cases hq : p = q
      · subst q
        rw [List.count_append, List.count_singleton_self] at hverdicts
        have hbudget : limit - granted.count p = limit - (granted.count p + 1) + 1 := by omega
        rw [List.count_cons_self, hbudget, firstGranted_succ, verdictsIn_cons_self, hverdicts]
      · rw [List.count_append, List.count_singleton, if_neg (by simpa using hq),
          Nat.add_zero] at hverdicts
        rw [List.count_cons_of_ne hq, verdictsIn_cons_ne hq, hverdicts]

/-- A new limiter fed with periods that never go back grants exactly the first requests of
each period, up to the limit. -/
theorem verdictsIn_verdicts (hlimit : 0 < limit) (start : P) {ps : List P}
    (hps : ps.Pairwise (· ≤ ·)) (q : P) :
    verdictsIn q (verdicts limit ⟨start, 0⟩ ps) = firstGranted limit (ps.count q) :=
  (accounts_new limit start).verdictsIn_eq hlimit hps (fun _ hq ↦ absurd hq List.not_mem_nil) q

/-! ### Requests that wait for their verdict -/

/-- One more request. -/
theorem after_concat (limit : Nat) (w : FixedWindow P) (rs : List (P × P)) (r : P × P) :
    after limit w (rs ++ [r]) = (after limit w rs).ask limit r.2 := by
  rw [after, List.foldl_append]
  rfl

/-- One more request meets the limiter that the others leave. -/
theorem reached_concat (limit : Nat) (w : FixedWindow P) (rs : List (P × P)) (r : P × P) :
    reached limit w (rs ++ [r]) =
      reached limit w rs ++ [(r.1, full limit (after limit w rs) r.1)] := by
  induction rs generalizing w with
  | nil => rfl
  | cons r' rs ih => rw [List.cons_append, reached, reached, ih, List.cons_append]; rfl

/-- The limit of a period that is not in the past is reached when all of it was granted. -/
theorem Accounts.full_eq (h : Accounts limit w granted) (hlimit : 0 < limit) {p : P}
    (hp : ∀ q ∈ granted, q ≤ p) : full limit w p = decide (granted.count p = limit) := by
  rw [Bool.eq_iff_iff, decide_eq_true_eq]
  refine ⟨h.count_of_full, fun hcount ↦ ?_⟩
  rw [h.count_eq hp] at hcount
  split at hcount
  · next he => simp [full, he, hcount]
  · omega

/-- The periods granted after a request is decided. -/
def grantsAfter (limit : Nat) (granted : List P) (p : P) : List P :=
  if granted.count p = limit then granted else granted ++ [p]

/-- Nothing else than the request is granted. -/
theorem mem_grantsAfter {p q : P} (h : q ∈ grantsAfter limit granted p) :
    q ∈ granted ∨ q = p := by
  unfold grantsAfter at h
  split at h
  · exact .inl h
  · simpa using h

/-- A request is counted in its period only, and below the limit. -/
theorem count_grantsAfter (limit : Nat) (granted : List P) (q p : P) :
    (grantsAfter limit granted q).count p =
      granted.count p + if q = p ∧ granted.count p ≠ limit then 1 else 0 := by
  unfold grantsAfter
  by_cases hp : q = p
  · subst p
    by_cases hfull : granted.count q = limit <;> simp [hfull]
  · split <;> simp [hp]

/-- Deciding a request keeps the agreement. -/
theorem Accounts.ask (h : Accounts limit w granted) (hlimit : 0 < limit) {p : P}
    (hp : ∀ q ∈ granted, q ≤ p) : Accounts limit (w.ask limit p) (grantsAfter limit granted p) := by
  have hfull := h.full_eq hlimit hp
  by_cases hcount : granted.count p = limit
  · rw [FixedWindow.ask, grantsAfter, if_pos hcount, if_pos (by simp [hfull, hcount])]
    exact h
  · rw [FixedWindow.ask, grantsAfter, if_neg hcount, if_neg (by simp [hfull, hcount])]
    exact h.grant hlimit hp (by simp [hfull, hcount])

/-- The first request may be made in the period. -/
theorem madeIn_cons (p : P) (r : P × P) (rs : List (P × P)) :
    madeIn p (r :: rs) = madeIn p rs + if r.1 = p then 1 else 0 := by
  simp [madeIn, List.countP_cons]

/-- The first request may be carried into the period. -/
theorem carriedInto_cons (p : P) (r : P × P) (rs : List (P × P)) :
    carriedInto p (r :: rs) = carriedInto p rs + if r.1 < p ∧ r.2 = p then 1 else 0 := by
  simp [carriedInto, List.countP_cons]

/-- What a sequence of times that never goes back says about its first request. -/
theorem times_cons {r : P × P} {rs : List (P × P)} (h : (times (r :: rs)).Pairwise (· ≤ ·)) :
    r.1 ≤ r.2 ∧ (times rs).Pairwise (· ≤ ·) ∧ ∀ r' ∈ rs, r.2 ≤ r'.1 := by
  have hcons : times (r :: rs) = r.1 :: r.2 :: times rs := rfl
  rw [hcons, List.pairwise_cons, List.pairwise_cons] at h
  obtain ⟨hmade, hdecided, hrest⟩ := h
  refine ⟨hmade r.2 (by simp), hrest, fun r' hr' ↦ ?_⟩
  exact hdecided r'.1 (List.mem_flatMap.mpr ⟨r', hr', by simp⟩)

/-- Later requests are not made in a period. -/
theorem madeIn_of_lt {p : P} {rs : List (P × P)} (h : ∀ r ∈ rs, p < r.1) : madeIn p rs = 0 := by
  apply List.countP_eq_zero.mpr
  intro r hr
  simpa using (h r hr).ne'

/-- Requests that are not made before a period are not carried into it. -/
theorem carriedInto_of_le {p : P} {rs : List (P × P)} (h : ∀ r ∈ rs, p ≤ r.1) :
    carriedInto p rs = 0 := by
  apply List.countP_eq_zero.mpr
  intro r hr
  simp [(h r hr).not_gt]

/-- At most one request is carried into a period. -/
theorem carriedInto_le_one {rs : List (P × P)} (hrs : (times rs).Pairwise (· ≤ ·)) (p : P) :
    carriedInto p rs ≤ 1 := by
  induction rs with
  | nil => exact Nat.zero_le 1
  | cons r rs ih =>
    obtain ⟨-, hrest, hlater⟩ := times_cons hrs
    rw [carriedInto_cons]
    by_cases hcarried : r.1 < p ∧ r.2 = p
    · rw [if_pos hcarried, carriedInto_of_le (hcarried.2 ▸ hlater)]
    · rw [if_neg hcarried]
      exact ih hrest

/-- Among the requests made in a period, those that find its limit reached are the ones beyond
what is left of the limit, of which the requests carried into the period take their part. -/
theorem Accounts.count_reached (h : Accounts limit w granted) (hlimit : 0 < limit)
    {rs : List (P × P)} (hrs : (times rs).Pairwise (· ≤ ·))
    (hafter : ∀ q ∈ granted, ∀ r ∈ rs, q ≤ r.1) (p : P) :
    (reached limit w rs).count (p, true) =
      madeIn p rs + carriedInto p rs - (limit - granted.count p) := by
  induction rs generalizing w granted with
  | nil => simp [reached, madeIn, carriedInto]
  | cons r rs ih =>
    obtain ⟨hle, hrest, hlater⟩ := times_cons hrs
    have hmade : ∀ q ∈ granted, q ≤ r.1 := fun q hq ↦ hafter q hq r (by simp)
    have hdecided : ∀ q ∈ granted, q ≤ r.2 := fun q hq ↦ (hmade q hq).trans hle
    have hbound := h.bound p
    have hverdicts := ih (h.ask hlimit hdecided) hrest (by
      intro q hq r' hr'
      rcases mem_grantsAfter hq with hold | rfl
      · exact hafter q hold r' (by simp [hr'])
      · exact hlater r' hr')
    have hflag : ((r.1, decide (granted.count r.1 = limit)) == (p, true)) =
        decide (r.1 = p ∧ granted.count p = limit) := by
      by_cases hp : r.1 = p
      · subst p
        simp [beq_eq_decide]
      · simp [beq_eq_decide, hp]
    rw [reached, List.count_cons, hverdicts, count_grantsAfter, h.full_eq hlimit hmade, hflag,
      madeIn_cons, carriedInto_cons]
    simp only [decide_eq_true_eq]
    rcases lt_trichotomy r.2 p with hbefore | heq | hbeyond
    · -- neither made nor decided in the period
      have hne : r.1 ≠ p := (lt_of_le_of_lt hle hbefore).ne
      simp [hne, hbefore.ne]
    · have hnone : carriedInto p rs = 0 := carriedInto_of_le (heq ▸ hlater)
      by_cases hp : r.1 = p
      · by_cases hfull : granted.count p = limit
        · simp [hp, heq, hnone, hfull]
        · simp only [hp, heq, hnone, hfull, lt_irrefl, ne_eq, not_false_eq_true, and_true,
            and_false, if_true, if_false]
          omega
      · -- carried into the period, so nothing was granted in it yet
        have hcarried : r.1 < p := lt_of_le_of_ne (heq ▸ hle) hp
        have hzero : granted.count p = 0 :=
          List.count_eq_zero.mpr fun hmem ↦ (hmade p hmem).not_gt hcarried
        simp only [hp, heq, hnone, hzero, hcarried, hlimit.ne, ne_eq, not_false_eq_true,
          and_true, and_false, if_true, if_false]
        omega
    · have hunmade : madeIn p rs = 0 :=
        madeIn_of_lt fun r' hr' ↦ lt_of_lt_of_le hbeyond (hlater r' hr')
      have hnone : carriedInto p rs = 0 :=
        carriedInto_of_le fun r' hr' ↦ hbeyond.le.trans (hlater r' hr')
      simp only [hunmade, hnone, hbeyond.ne', false_and, and_false, if_false]
      by_cases hp : r.1 = p
      · simp only [hp, true_and, if_true]
        split <;> omega
      · simp [hp]

end FixedWindow
end TcpLoadBalancer.Lib
