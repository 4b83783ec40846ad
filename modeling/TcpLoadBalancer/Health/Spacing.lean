import TcpLoadBalancer.Health.Recovery

/-!
# The spacing of health checks

A poll that leaves IDLE remembers when it did so in the timestamp of the next IDLE, with one
exception: a fresh stream whose socket options fail is dropped by `?`, and the checker is left
as it was. Under a clock that does not go back the connect attempts of a run are therefore more
than 30 seconds apart exactly as far as the polls after such a failure are.
-/

namespace TcpLoadBalancer
open Lib

/-- An attempt to connect to the upstream server. -/
def HealthEvent.isConnect : HealthEvent → Bool
  | .connected _ => true
  | .connectFailed _ => true
  | _ => false

namespace HealthChecker

variable (x : Externals) (hc : HealthChecker) (ios : List HealthIo)

/-- Poll `n` of a run attempts a connect. -/
def ConnectsAt (n : Nat) : Prop := ∃ e ∈ operationsAt x hc ios n, e.isConnect = true

/-- Poll `n` of a run returns an error: the socket options of its fresh stream fail. -/
def OptionsFailAt (n : Nat) : Prop :=
  ∃ io, ios[n]? = some io ∧ (stateAt x hc ios n).optionsFail x io = true

/-- Any two connect attempts of a run are more than 30 seconds apart. -/
def Spaced : Prop :=
  ∀ i j t t', i < j → ConnectsAt x hc ios i → ConnectsAt x hc ios j → ClockAt ios i t →
    ClockAt ios j t' → t' > t + 30

/-- The timestamp of an IDLE checker is not before any attempt of the polls so far, unless
the last one failed at its socket options. -/
def Refreshed (n : Nat) : Prop :=
  ∀ i t ts, i < n → ConnectsAt x hc ios i → ClockAt ios i t →
    (stateAt x hc ios n).pingState = .idle ts →
    t ≤ ts ∨ ∃ m, n = m + 1 ∧ OptionsFailAt x hc ios m

variable {x hc ios}

/-- A connect is attempted from IDLE, when the check is due and the address parses. -/
theorem connects_iff {io : HealthIo} :
    (∃ e ∈ (hc.poll x io).log, e.isConnect = true) ↔
      ∃ ts, hc.pingState = .idle ts ∧ io.now > ts + 30 ∧ (x.parseAddr hc.address).isOk = true := by
  unfold poll
  cases hs : hc.pingState with
  | connected =>
    simp only [pollConnected, Outcome.done]
    repeat' split
    all_goals simp [HealthEvent.isConnect]
  | pingSent ts =>
    simp only [pollPingSent, Outcome.done]
    repeat' split
    all_goals simp [HealthEvent.isConnect]
  | idle ts =>
    by_cases hdue : io.now > ts + 30
    · cases hp : x.parseAddr hc.address with
      | error e => simp [pollIdle, hdue, hp]
      | ok sockAddr =>
        cases hconnect : io.connect with
        | error k => simp [pollIdle, hdue, hp, hconnect, HealthEvent.isConnect]
        | ok fd =>
          cases ho : io.options.set with
          | error e => simp [pollIdle, hdue, hp, hconnect, ho, HealthEvent.isConnect]
          | ok u => simp [pollIdle, hdue, hp, hconnect, ho, HealthEvent.isConnect]
    · simp [pollIdle, hdue, Outcome.done]

/-- A failure of the socket options comes after a connect attempt and changes nothing. -/
theorem optionsFail_cases {io : HealthIo} (h : hc.optionsFail x io = true) :
    (∃ e ∈ (hc.poll x io).log, e.isConnect = true) ∧ (hc.poll x io).state = hc := by
  unfold optionsFail at h
  split at h
  · next ts hidle =>
    simp only [Bool.and_eq_true, decide_eq_true_eq] at h
    obtain ⟨⟨⟨hdue, hparse⟩, hconnect⟩, hoptions⟩ := h
    refine ⟨connects_iff.mpr ⟨ts, hidle, hdue, hparse⟩, ?_⟩
    cases hp : x.parseAddr hc.address with
    | error e => simp [hp] at hparse
    | ok sockAddr =>
      cases hc' : io.connect with
      | error k => simp [hc'] at hconnect
      | ok fd =>
        cases ho : io.options.set with
        | ok u => simp [ho] at hoptions
        | error e => simp [poll, hidle, pollIdle, hdue, hp, hc', ho]
  · cases h

/-- The connect attempts of a run, by the state before the poll. -/
theorem connectsAt_iff {n : Nat} (hn : n < ios.length) :
    ConnectsAt x hc ios n ↔
      ∃ ts, (stateAt x hc ios n).pingState = .idle ts ∧ ios[n].now > ts + 30 ∧
        (x.parseAddr (stateAt x hc ios n).address).isOk = true := by
  rw [ConnectsAt, operationsAt_of_lt hn]
  exact connects_iff

/-- A poll that reads the clock is one of the run. -/
theorem clockAt_iff {n : Nat} {t : Int} :
    ClockAt ios n t ↔ ∃ hn : n < ios.length, ios[n].now = t := by
  rw [ClockAt, Option.map_eq_some_iff]
  constructor
  · rintro ⟨io, hio, rfl⟩
    obtain ⟨hn, rfl⟩ := List.getElem?_eq_some_iff.mp hio
    exact ⟨hn, rfl⟩
  · rintro ⟨hn, rfl⟩
    exact ⟨ios[n], List.getElem?_eq_getElem hn, rfl⟩

/-- A poll that fails at its socket options attempts a connect, and the next poll starts in
the same state. -/
theorem OptionsFailAt.connects {n : Nat} (h : OptionsFailAt x hc ios n) :
    ConnectsAt x hc ios n ∧ stateAt x hc ios (n + 1) = stateAt x hc ios n := by
  obtain ⟨io, hio, hfail⟩ := h
  obtain ⟨hn, rfl⟩ := List.getElem?_eq_some_iff.mp hio
  obtain ⟨hconnects, hstate⟩ := optionsFail_cases hfail
  rw [ConnectsAt, operationsAt_of_lt hn, stateAt_succ hn]
  exact ⟨hconnects, hstate⟩

private theorem due_of_optionsFailAt {n : Nat} {t ts : Int} (hfail : OptionsFailAt x hc ios n)
    (hmono : (ios.map HealthIo.now).Pairwise (· ≤ ·)) (ht : ClockAt ios (n + 1) t)
    (hidle : (stateAt x hc ios (n + 1)).pingState = .idle ts) : t > ts + 30 := by
  obtain ⟨hconnects, hsame⟩ := hfail.connects
  obtain ⟨hn, -⟩ := clockAt_iff.mp ht
  have hlt : n < ios.length := by omega
  obtain ⟨ts', hidle', hdue, -⟩ := (connectsAt_iff hlt).mp hconnects
  rw [hsame, hidle'] at hidle
  obtain rfl : ts' = ts := PingState.idle.inj hidle
  have hle := clock_mono hmono (Nat.le_succ n) (clockAt_of_lt hlt) ht
  omega

private theorem Refreshed.succ {n : Nat} (hn : n < ios.length) (h : Refreshed x hc ios n)
    (hmono : (ios.map HealthIo.now).Pairwise (· ≤ ·)) : Refreshed x hc ios (n + 1) := by
  intro i t ts hi hconnects ht hidle
  have ht' : Transition x (stateAt x hc ios n) ios[n] _ _ := transition_at hn
  have hclock := clockAt_of_lt hn
  have hnow : t ≤ ios[n].now := clock_mono hmono (by omega) ht hclock
  generalize hs : stateAt x hc ios (n + 1) = s at ht' hidle
  generalize operationsAt x hc ios n = log at ht'
  cases ht' with
  | rest hrest =>
    have hdue : ¬ios[n].now > ts + 30 := by
      rcases hrest with ⟨ts', hidle', hdue⟩ | ⟨hbusy, -⟩
      · obtain rfl : ts' = ts := PingState.idle.inj (hidle'.symm.trans hidle)
        exact hdue
      · exact absurd hidle (hbusy ts)
    have hnot : ¬ConnectsAt x hc ios n := by
      intro hconnects
      obtain ⟨ts', hidle', hdue', -⟩ := (connectsAt_iff hn).mp hconnects
      obtain rfl : ts' = ts := PingState.idle.inj (hidle'.symm.trans hidle)
      exact hdue hdue'
    have hin : i < n := by
      rcases Nat.lt_succ_iff_lt_or_eq.mp hi with hlt | rfl
      · exact hlt
      · exact absurd hconnects hnot
    rcases h i t ts hin hconnects ht hidle with hle | ⟨m, rfl, hfail⟩
    · exact .inl hle
    · exact absurd (due_of_optionsFailAt hfail hmono hclock hidle) hdue
  | connectFail ts' hidle' hdue hfail log hlog =>
    obtain rfl : ios[n].now = ts := PingState.idle.inj hidle
    exact .inl hnow
  | optionsFail ts' stream hidle' hconnect hfail =>
    exact .inr ⟨n, rfl, ios[n], List.getElem?_eq_getElem hn, hfail⟩
  | connect ts' stream hidle' hdue hconnect => cases hidle
  | ping stream hconnected hstream => cases hidle
  | blocked stream hbusy hstream log hlog => exact absurd hidle (hbusy ts)
  | giveUp hbusy log hlog =>
    obtain rfl : ios[n].now = ts := PingState.idle.inj hidle
    exact .inl hnow
  | answer ts' stream buf hsent htime hstream hread =>
    obtain rfl : ios[n].now = ts := PingState.idle.inj hidle
    exact .inl hnow

private theorem refreshed {n : Nat} (hn : n ≤ ios.length)
    (hmono : (ios.map HealthIo.now).Pairwise (· ≤ ·)) : Refreshed x hc ios n := by
  induction n with
  | zero => exact fun i _ _ hi ↦ absurd hi (Nat.not_lt_zero i)
  | succ n ih => exact (ih (by omega)).succ (by omega) hmono

/-- In a run under a clock that never goes back, any two connect attempts are more than 30
seconds apart exactly when every poll whose socket options fail is followed, if at all, by a
poll more than 30 seconds later. -/
theorem spaced_iff (x : Externals) (serverId : UInt32) (address : String) (ios : List HealthIo)
    (hmono : (ios.map HealthIo.now).Pairwise (· ≤ ·)) :
    Spaced x (.new serverId address) ios ↔
      ∀ n t t', OptionsFailAt x (.new serverId address) ios n → ClockAt ios n t →
        ClockAt ios (n + 1) t' → t' > t + 30 := by
  constructor
  · intro hspaced n t t' hfail ht ht'
    obtain ⟨hconnects, hsame⟩ := hfail.connects
    obtain ⟨hn, hnow⟩ := clockAt_iff.mp ht'
    obtain ⟨ts, hidle, -, hparse⟩ := (connectsAt_iff (by omega)).mp hconnects
    -- the next poll starts in the same state, so it attempts a connect as well
    have hdue := due_of_optionsFailAt hfail hmono ht' (by rw [hsame, hidle])
    have hnext : ConnectsAt x (.new serverId address) ios (n + 1) := by
      rw [connectsAt_iff hn, hsame]
      exact ⟨ts, hidle, by omega, hparse⟩
    exact hspaced n (n + 1) t t' (Nat.lt_succ_self n) hconnects hnext ht ht'
  · intro hgaps i j t t' hij hconnects hconnects' ht ht'
    obtain ⟨hj, hnow⟩ := clockAt_iff.mp ht'
    obtain ⟨ts, hidle, hdue, -⟩ := (connectsAt_iff hj).mp hconnects'
    rcases refreshed (Nat.le_of_lt hj) hmono i t ts hij hconnects ht hidle with
      hle | ⟨m, rfl, hfail⟩
    · omega
    · have hlt : m < ios.length := by omega
      have hm := clockAt_of_lt hlt
      have hgap := hgaps m _ t' hfail hm ht'
      have hle := clock_mono hmono (by omega : i ≤ m) ht hm
      omega

/-- Two polls at the clock value 31 that connect but cannot make the stream non-blocking. -/
def optionsFailing : List HealthIo :=
  let io : HealthIo :=
    { now := 31, connect := .ok 3, options := { nonblocking := .error (.other 9) }, writes := []
      read := .error .wouldBlock }
  [io, io]

/-- Both polls of the run connect. -/
theorem spaced_example :
    Spaced localhost (.new 0 "127.0.0.1:2006") optionsFailing ↔
      ∀ n t t', OptionsFailAt localhost (.new 0 "127.0.0.1:2006") optionsFailing n →
        ClockAt optionsFailing n t → ClockAt optionsFailing (n + 1) t' → t' > t + 30 :=
  spaced_iff localhost 0 "127.0.0.1:2006" optionsFailing (by decide)

/-- After a failure of its socket options the checker connects again in the next poll. -/
theorem reconnects_at_once :
    ¬∀ (x : Externals) (serverId : UInt32) (address : String) (ios : List HealthIo),
      (ios.map HealthIo.now).Pairwise (· ≤ ·) → Spaced x (.new serverId address) ios := by
  intro h
  have hconnects : ∀ n < 2, ConnectsAt localhost (.new 0 "127.0.0.1:2006") optionsFailing n := by
    unfold ConnectsAt
    decide
  have hlate := h localhost 0 "127.0.0.1:2006" optionsFailing (by decide) 0 1 31 31 (by decide)
    (hconnects 0 (by decide)) (hconnects 1 (by decide)) rfl rfl
  omega

end HealthChecker
end TcpLoadBalancer
