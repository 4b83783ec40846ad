import Mathlib.Data.Int.Order.Basic
import TcpLoadBalancer.Balancer.Rounds

/-!
# The rate limit and upstream connections

The upstream connection is opened before the rate limit is asked, which reads the clock only
then. The limiter of each client runs over the connections opened for it alone, so under a clock
that does not go back it is known exactly how many of them are opened in a period although the
client is at its limit: as many as there are beyond the limit, counting the one that is opened
before the period but decided in it.
-/

namespace TcpLoadBalancer
open Lib

namespace Admission

/-- The client on whose behalf the admission successfully opens an upstream connection. -/
def opensFor (x : Externals) (a : Admission) : Option String :=
  match a.lb.route a.parCxn a.io with
  | .ok r =>
    match Connection.fromPartialConnection x a.parCxn r.group r.server r.address a.io.dial with
    | .ok _ => some r.clientId
    | .error _ => none
  | .error _ => none

/-- The client of the admission has already reached its limit for the period in which the
upstream connection is opened. -/
def overLimit (a : Admission) : Bool :=
  match a.lb.route a.parCxn a.io with
  | .ok r => r.client.rateLimitHit a.io.connectedAt
  | .error _ => false

/-- The periods in which the upstream connection is opened and the rate limit is asked. -/
def periods (a : Admission) : Int × Int := (periodOf a.io.connectedAt, periodOf a.io.now)

end Admission

namespace LoadBalancer

/-- The number of upstream connections a run opens for client `k` in period `p`. -/
def upstreamOpens (x : Externals) (ios : List RoundIo) (lb : LoadBalancer) (k : String) (p : Int) :
    Nat :=
  (admissions x ios lb).countP fun a ↦
    decide (a.opensFor x = some k) && decide (periodOf a.io.connectedAt = p)

/-- The number of them that are opened although the client is at its limit for the period. -/
def overLimitOpens (x : Externals) (ios : List RoundIo) (lb : LoadBalancer) (k : String)
    (p : Int) : Nat :=
  (admissions x ios lb).countP fun a ↦
    decide (a.opensFor x = some k) && decide (periodOf a.io.connectedAt = p) && a.overLimit

/-- The number of upstream connections for client `k` that are opened before period `p`, in which
the rate limit is asked. -/
def carriedOpens (x : Externals) (ios : List RoundIo) (lb : LoadBalancer) (k : String) (p : Int) :
    Nat :=
  (admissions x ios lb).countP fun a ↦
    decide (a.opensFor x = some k) &&
      (decide (periodOf a.io.connectedAt < p) && decide (periodOf a.io.now = p))

/-- The times of the upstream connections that a run opens: each is opened, and then the clock is
read for the rate limit. -/
def openTimes (x : Externals) (ios : List RoundIo) (lb : LoadBalancer) : List Int :=
  ((admissions x ios lb).filter fun a ↦ (a.opensFor x).isSome).flatMap fun a ↦
    [a.io.connectedAt, a.io.now]

/-! ### The limiter of a client -/

/-- The admissions that open an upstream connection for a client. -/
def opensOf (x : Externals) (k : String) (as : List Admission) : List Admission :=
  as.filter fun a ↦ a.opensFor x = some k

/-- The limiter of client `k` runs over the connections opened for it, and it is this limiter
that each of them finds at its limit or not. -/
def Metered (x : Externals) (k : String) (as : List Admission) (lb : LoadBalancer) : Prop :=
  (∀ c, lb.clients.lookup k = some c → c.window =
      FixedWindow.after clientLimit ⟨i64Min, 0⟩ ((opensOf x k as).map Admission.periods)) ∧
    (opensOf x k as).map (fun a ↦ (periodOf a.io.connectedAt, a.overLimit)) =
      FixedWindow.reached clientLimit ⟨i64Min, 0⟩ ((opensOf x k as).map Admission.periods)

private theorem window_of_same {lb lb' : LoadBalancer} {k : String} {w : FixedWindow Int}
    (hw : ∀ c, lb.clients.lookup k = some c → c.window = w)
    (hsame : (lb'.clients.lookup k).map Client.window = (lb.clients.lookup k).map Client.window)
    (c : Client) (hc : lb'.clients.lookup k = some c) : c.window = w := by
  rw [hc, Option.map_some] at hsame
  obtain ⟨c', hc', hwindow⟩ := Option.map_eq_some_iff.mp hsame.symm
  rw [← hwindow]
  exact hw c' hc'

variable {x : Externals} {k : String}

private theorem opensOf_other {as : List Admission} {a : Admission}
    (ha : a.opensFor x ≠ some k) : opensOf x k (as ++ [a]) = opensOf x k as := by
  simp [opensOf, List.filter_append, ha]

private theorem metered_complete (pc : PartialConnection) (io : CompletionIo) (as : List Admission)
    (lb : LoadBalancer) (hJ : Metered x k as lb) :
    Metered x k (as ++ [⟨lb, pc, io⟩]) (complete x pc io lb).state := by
  have hadm := completeConnection_admitted x lb pc io
  unfold complete
  generalize lb.completeConnection x pc io = r at hadm
  cases hadm with
  | unrouted o hroute =>
    rw [Metered, opensOf_other (by simp [Admission.opensFor, hroute])]
    exact hJ
  | unconverted r e hroute hconvert =>
    rw [Metered, opensOf_other (by simp [Admission.opensFor, hroute, hconvert])]
    exact hJ
  | offered r cxn hroute hconvert =>
    have hopens : (Admission.mk lb pc io).opensFor x = some r.clientId := by
      simp [Admission.opensFor, hroute, hconvert]
    have hclient := (route_eq_ok hroute).2.1
    by_cases hk : r.clientId = k
    · subst hk
      have hwindow := hJ.1 r.client hclient
      have hlist : opensOf x r.clientId (as ++ [⟨lb, pc, io⟩]) =
          opensOf x r.clientId as ++ [⟨lb, pc, io⟩] := by
        simp [opensOf, List.filter_append, hopens]
      have hover : (Admission.mk lb pc io).overLimit =
          r.client.window.full clientLimit (periodOf io.connectedAt) := by
        simp [Admission.overLimit, hroute, Client.rateLimitHit_eq_full]
      constructor
      · intro c hc
        rw [HashMap.lookup_modify_self, hclient, Option.map_some] at hc
        rw [← Option.some.inj hc, Client.window_addConnection, hwindow, hlist, List.map_append,
          List.map_singleton, FixedWindow.after_concat]
        rfl
      · rw [hlist, List.map_append, List.map_append, List.map_singleton, List.map_singleton,
          FixedWindow.reached_concat, ← hJ.2, hover, hwindow]
        rfl
    · rw [Metered, opensOf_other (by simpa [hopens] using hk),
        HashMap.lookup_modify_ne _ _ (Ne.symm hk)]
      exact hJ

/-- The limiter of a client runs along every run. -/
theorem follows_metered (x : Externals) (k : String) : Follows x (Metered x k) where
  blind _ _ _ hJ := hJ
  service ios id as lb hJ := by
    refine ⟨window_of_same hJ.1 ?_, hJ.2⟩
    rw [(serviceClient_frame ios id lb).2.1]
    exact HashMap.map_lookup_modify (f := serviced ios) (fun _ _ ↦ rfl) k
  check ord ios group as lb hJ := by
    refine ⟨window_of_same hJ.1 ?_, hJ.2⟩
    rw [(pollGroup_frame x ord ios group lb).1]
  admission := metered_complete

private theorem metered_start (x : Externals) (k : String) (cfg : Configuration) :
    Metered x k [] cfg.load := by
  refine ⟨fun c hc ↦ ?_, rfl⟩
  rw [cfg.initial_load.clients k c hc]
  rfl

/-! ### Opened upstream connections -/

private theorem times_opensOf {ios : List RoundIo} {lb : LoadBalancer} (k : String)
    (hclock : (openTimes x ios lb).Pairwise (· ≤ ·)) :
    (FixedWindow.times ((opensOf x k (admissions x ios lb)).map Admission.periods)).Pairwise
      (· ≤ ·) := by
  have hsub : (opensOf x k (admissions x ios lb)).Sublist
      ((admissions x ios lb).filter fun a ↦ (a.opensFor x).isSome) := by
    apply List.monotone_filter_right
    intro a ha
    simp only [decide_eq_true_eq] at ha
    rw [ha, Option.isSome_some]
  have htimes := hclock.sublist (hsub.flatMap fun a ↦ [a.io.connectedAt, a.io.now])
  have hperiods := htimes.map periodOf fun _ _ ↦ periodOf_mono
  rw [List.map_flatMap] at hperiods
  rw [FixedWindow.times, List.flatMap_map]
  exact hperiods

private theorem countP_opensOf {q : Admission → Bool} (k : String) (as : List Admission) :
    as.countP (fun a ↦ decide (a.opensFor x = some k) && q a) = (opensOf x k as).countP q := by
  rw [opensOf, List.countP_filter]
  simp only [Bool.and_comm]

variable {cfg : Configuration} {ios : List RoundIo}

/-- At most one connection is opened before a period and decided in it. -/
theorem carriedOpens_le_one (hclock : (openTimes x ios cfg.load).Pairwise (· ≤ ·)) (k : String)
    (p : Int) : carriedOpens x ios cfg.load k p ≤ 1 := by
  have hone := FixedWindow.carriedInto_le_one (times_opensOf k hclock) p
  rw [FixedWindow.carriedInto, List.countP_map, ← countP_opensOf] at hone
  exact hone

/-- The connections opened although the client is at its limit are those beyond the limit, of
which the one carried into the period takes its part. -/
theorem overLimitOpens_eq (hclock : (openTimes x ios cfg.load).Pairwise (· ≤ ·)) (k : String)
    (p : Int) :
    overLimitOpens x ios cfg.load k p =
      upstreamOpens x ios cfg.load k p + carriedOpens x ios cfg.load k p - clientLimit := by
  have hmetered := ((follows_metered x k).serve ios (metered_start x k cfg)).2
  have hcount := (FixedWindow.accounts_new clientLimit i64Min).count_reached (by decide)
    (times_opensOf k hclock) (fun _ hq ↦ absurd hq List.not_mem_nil) p
  have hover : overLimitOpens x ios cfg.load k p =
      ((opensOf x k (admissions x ios cfg.load)).map fun a ↦
        (periodOf a.io.connectedAt, a.overLimit)).count (p, true) := by
    rw [List.count, List.countP_map, ← countP_opensOf, overLimitOpens]
    congr 1
    ext a
    simp [beq_eq_decide, Prod.ext_iff, Bool.and_assoc]
  rw [hover, hmetered, hcount, List.count_nil, Nat.sub_zero, FixedWindow.madeIn,
    FixedWindow.carriedInto, List.countP_map, List.countP_map, ← countP_opensOf, ← countP_opensOf]
  rfl

/-- When no period ends between opening an upstream connection and asking the rate limit for it,
the bound holds if and only if no connection is opened for a client at its limit. -/
theorem upstreamOpens_bounded_of_prompt
    (hclock : (openTimes x ios cfg.load).Pairwise (· ≤ ·))
    (hprompt : ∀ a ∈ admissions x ios cfg.load, (a.opensFor x).isSome = true →
      periodOf a.io.connectedAt = periodOf a.io.now) :
    (∀ k p, upstreamOpens x ios cfg.load k p ≤ clientLimit) ↔
      ∀ a ∈ admissions x ios cfg.load, (a.opensFor x).isSome = true → a.overLimit = false := by
  have hnone : ∀ k p, carriedOpens x ios cfg.load k p = 0 := by
    intro k p
    apply List.countP_eq_zero.mpr
    intro a ha
    simp only [Bool.and_eq_true, decide_eq_true_eq]
    rintro ⟨hopens, hbefore, rfl⟩
    exact hbefore.ne (hprompt a ha (by simp [hopens]))
  have hbound : ∀ k p, upstreamOpens x ios cfg.load k p ≤ clientLimit ↔
      overLimitOpens x ios cfg.load k p = 0 := by
    intro k p
    rw [overLimitOpens_eq hclock, hnone]
    omega
  simp only [hbound, overLimitOpens, List.countP_eq_zero]
  constructor
  · intro h a ha hopens
    obtain ⟨k, hk⟩ := Option.isSome_iff_exists.mp hopens
    simpa [hk] using h k (periodOf a.io.connectedAt) a ha
  · intro h k p a ha hover
    simp only [Bool.and_eq_true, decide_eq_true_eq] at hover
    simp [h a ha (by simp [hover.1.1])] at hover

end LoadBalancer
end TcpLoadBalancer
