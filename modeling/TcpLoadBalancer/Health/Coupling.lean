import TcpLoadBalancer.Health.Recovery

/-!
# The coupling of stream, state and clock

A health checker keeps its stream, its state and its timestamps in separate fields, which a poll
sets in separate branches. Along every run they fit together: the stream is there exactly while
a check is in progress, and no timestamp lies in the future or, in PING_SENT, too far back. So
the branches that find no stream where they need one are never taken.
-/

namespace TcpLoadBalancer
open Lib

namespace HealthChecker

/-- What holds between the fields of a checker after a poll at the clock value `now`. -/
structure Coupled (now : Int) (hc : HealthChecker) : Prop where
  stream : hc.upStream.isSome = true ↔
    hc.pingState = .connected ∨ ∃ ts, hc.pingState = .pingSent ts
  past : ∀ ts, hc.pingState = .idle ts ∨ hc.pingState = .pingSent ts → ts ≤ now
  inTime : ∀ ts, hc.pingState = .pingSent ts → now ≤ ts + 1

/-- The poll looks for a stream, finds none and does nothing: the `if let Some(stream)` without
an `else` of `src/server.rs:475,515`. -/
def MissesStream (hc : HealthChecker) (io : HealthIo) : Prop :=
  hc.upStream = none ∧
    (hc.pingState = .connected ∨ ∃ ts, hc.pingState = .pingSent ts ∧ ¬io.now > ts + 1)

variable {x : Externals} {hc : HealthChecker} {io : HealthIo} {ios : List HealthIo}

/-! ### Missing streams -/

/-- A poll that misses its stream does nothing. -/
theorem poll_of_missesStream (h : MissesStream hc io) : hc.poll x io = .done hc := by
  obtain ⟨hnone, hconnected | ⟨ts, hsent, htime⟩⟩ := h
  · simp only [poll, hconnected, pollConnected, hnone]
  · simp only [poll, hsent, pollPingSent, if_neg htime, hnone]

/-- A CONNECTED checker without a stream never does anything again; one in PING_SENT waits for
its time to be over (`poll_of_late`). -/
theorem stuck_of_connected (hconnected : hc.pingState = .connected) (hnone : hc.upStream = none)
    (ios : List HealthIo) : Action.loop (step x) ios hc = .done hc := by
  apply Action.loop_done
  intro io _
  exact poll_of_missesStream ⟨hnone, .inl hconnected⟩

/-! ### One poll -/

/-- A poll after the time for PONG is over gives the check up. -/
theorem poll_of_late {ts : Int} (hsent : hc.pingState = .pingSent ts) (hlate : io.now > ts + 1) :
    hc.poll x io = ⟨.ok (), hc.fail io.now, []⟩ := by
  simp only [poll, hsent, pollPingSent, if_pos hlate]

private theorem coupled_idle {now ts : Int} (hidle : hc.pingState = .idle ts)
    (hnone : hc.upStream = none) (hle : ts ≤ now) : Coupled now hc := by
  constructor
  · simp [hidle, hnone]
  · intro ts' hts
    rw [hidle] at hts
    rcases hts with h | h
    · cases h
      exact hle
    · cases h
  · intro ts' hsent
    rw [hidle] at hsent
    cases hsent

private theorem Coupled.same {now : Int} (h : Coupled now hc) (hle : now ≤ io.now)
    (hsame : (hc.poll x io).state = hc) : Coupled io.now hc := by
  refine ⟨h.stream, fun ts hts ↦ le_trans (h.past ts hts) hle, fun ts hsent ↦ ?_⟩
  -- past the time for PONG the poll would have left PING_SENT
  by_contra hlate
  rw [poll_of_late hsent (by omega)] at hsame
  have hidle : .idle io.now = hc.pingState := congrArg pingState hsame
  rw [hsent] at hidle
  cases hidle

/-- Every poll at a later clock value keeps the fields coupled. -/
theorem Coupled.poll {now : Int} (h : Coupled now hc) (hle : now ≤ io.now) :
    Coupled io.now (hc.poll x io).state := by
  have ht := poll_transition x hc io
  generalize hs : (hc.poll x io).state = s at ht ⊢
  generalize (hc.poll x io).log = log at ht
  cases ht with
  | rest hrest => exact h.same hle hs
  | connectFail ts hidle hdue hfail log hlog =>
    have hnone : hc.upStream = none := by
      rw [← Option.not_isSome_iff_eq_none, h.stream, hidle]
      simp
    exact coupled_idle rfl hnone le_rfl
  | optionsFail ts stream hidle hconnect hfail => exact h.same hle hs
  | connect ts stream hidle hdue hconnect => constructor <;> simp
  | ping stream hconnected hstream =>
    constructor
    · simp [hstream]
    · intro ts hts
      rcases hts with h | h
      · cases h
      · cases h
        exact le_rfl
    · intro ts hsent
      cases hsent
      omega
  | blocked stream hbusy hstream log hlog => exact h.same hle hs
  | giveUp hbusy log hlog => exact coupled_idle rfl rfl le_rfl
  | answer ts stream buf hsent htime hstream hread => exact coupled_idle rfl rfl le_rfl

/-- A coupled checker finds its stream. -/
theorem Coupled.not_missesStream {now : Int} (h : Coupled now hc) : ¬MissesStream hc io := by
  rintro ⟨hnone, hbusy⟩
  have hsome : hc.upStream.isSome = true := by
    apply h.stream.mpr
    rcases hbusy with hconnected | ⟨ts, hsent, -⟩
    · exact .inl hconnected
    · exact .inr ⟨ts, hsent⟩
  rw [hnone] at hsome
  cases hsome

/-! ### Runs -/

/-- A clock that starts at a nonnegative value and never goes back shows no negative value. -/
theorem clock_nonneg (hmono : (ios.map HealthIo.now).Pairwise (· ≤ ·))
    (hstart : ∀ io ∈ ios.head?, 0 ≤ io.now) {n : Nat} {t : Int} (ht : ClockAt ios n t) :
    0 ≤ t := by
  cases ios with
  | nil => cases ht
  | cons io ios =>
    have hfirst : ClockAt (io :: ios) 0 io.now := rfl
    have hnonneg : 0 ≤ io.now := hstart io rfl
    have hle := clock_mono hmono (Nat.zero_le n) hfirst ht
    omega

private theorem coupled_before (x : Externals) (serverId : UInt32) (address : String)
    (hmono : (ios.map HealthIo.now).Pairwise (· ≤ ·)) (hstart : ∀ io ∈ ios.head?, 0 ≤ io.now)
    {n : Nat} (hn : n ≤ ios.length) :
    ∃ now, Coupled now (stateAt x (.new serverId address) ios n) ∧
      ∀ m t, n ≤ m → ClockAt ios m t → now ≤ t := by
  induction n with
  | zero =>
    refine ⟨0, coupled_idle rfl rfl le_rfl, fun m t _ ht ↦ ?_⟩
    exact clock_nonneg hmono hstart ht
  | succ n ih =>
    obtain ⟨now, hcoupled, hlater⟩ := ih (by omega)
    have hclock := clockAt_of_lt hn
    refine ⟨ios[n].now, ?_, fun m t hm ht ↦ clock_le hmono hm hclock ht⟩
    rw [stateAt_succ hn]
    apply hcoupled.poll
    exact hlater n _ le_rfl hclock

/-- In every run from a new checker, under a clock that starts at a nonnegative value and never
goes back, whatever the outcomes of the network are and whether the polls succeed or not: after
every poll the stream, the state and the timestamps are coupled at its clock value, and no poll
misses its stream. -/
theorem coupled_along_run (x : Externals) (serverId : UInt32) (address : String)
    (ios : List HealthIo) (hmono : (ios.map HealthIo.now).Pairwise (· ≤ ·))
    (hstart : ∀ io ∈ ios.head?, 0 ≤ io.now) (n : Nat) (hn : n < ios.length) :
    Coupled ios[n].now (stateAt x (.new serverId address) ios (n + 1)) ∧
      ¬MissesStream (stateAt x (.new serverId address) ios n) ios[n] := by
  obtain ⟨now, hcoupled, hlater⟩ :=
    coupled_before x serverId address hmono hstart (Nat.le_of_lt hn)
  have hle : now ≤ ios[n].now := hlater n _ le_rfl (clockAt_of_lt hn)
  rw [stateAt_succ hn]
  exact ⟨hcoupled.poll hle, hcoupled.not_missesStream⟩

/-- The poll that sends PING after a refused check. -/
theorem coupled_along_run_example :
    let ios := refusedThenChecked 63
    Coupled 63 (stateAt localhost (.new 0 "127.0.0.1:2006") ios 3) ∧
      ¬MissesStream (stateAt localhost (.new 0 "127.0.0.1:2006") ios 2) ios[2] :=
  coupled_along_run localhost 0 "127.0.0.1:2006" (refusedThenChecked 63) (by decide)
    (by rintro io ⟨⟩; decide) 2 (by decide)

end HealthChecker
end TcpLoadBalancer
