import TcpLoadBalancer.Balancer.Selection
import TcpLoadBalancer.Health.Verdict

/-!
# Recovery of a server

A run of a health checker is followed poll by poll: what each poll performed, and which check
it belongs to. `Begun` ties a check in progress to the polls that connected its stream and
sent its PING; it holds along every run, so the poll that turns an unhealthy server healthy
completes a whole check, and the forwarder passes over the server until then.
-/

namespace TcpLoadBalancer
open Lib

namespace HealthChecker

variable (x : Externals) (hc : HealthChecker) (ios : List HealthIo)

/-- The checker after the first `n` polls of a run. -/
def stateAt (n : Nat) : HealthChecker := (Action.loop (step x) (ios.take n) hc).state

/-- The operations that poll `n` of a run performs. -/
def operationsAt (n : Nat) : List HealthEvent :=
  match ios[n]? with
  | some io => ((stateAt x hc ios n).poll x io).log
  | none => []

/-- Poll `n` of a run reads the clock at `t`. -/
def ClockAt (n : Nat) (t : Int) : Prop := ios[n]?.map HealthIo.now = some t

/-- From after poll `a` until before poll `c` one check is in progress on one stream. -/
def Ongoing (stream : TcpStream) (a c : Nat) : Prop :=
  ∀ k, a < k → k ≤ c →
    (stateAt x hc ios k).upStream = some stream ∧ ∀ ts, (stateAt x hc ios k).pingState ≠ .idle ts

/-- One check on one stream: poll `a` connects, poll `b` writes the whole PING at the clock
`t` and poll `c` reads PONG at the clock `t'`, with no end of the check in between. -/
structure CompleteCycle (stream : TcpStream) (a b c : Nat) (t t' : Int) : Prop where
  order : a < b ∧ b < c
  connects : .connected stream ∈ operationsAt x hc ios a
  pings : .wrote stream pingBytes (.ok ()) ∈ operationsAt x hc ios b ∧ ClockAt ios b t
  answers : .received stream pongBytes ∈ operationsAt x hc ios c ∧ ClockAt ios c t'
  ongoing : Ongoing x hc ios stream a c

/-- What is known of a check in progress before poll `n`. -/
def Begun (n : Nat) : Prop :=
  match (stateAt x hc ios n).pingState with
  | .idle _ => True
  | .connected => ∃ stream a, a < n ∧ .connected stream ∈ operationsAt x hc ios a ∧
      Ongoing x hc ios stream a n
  | .pingSent t => ∃ stream a b, a < b ∧ b < n ∧ .connected stream ∈ operationsAt x hc ios a ∧
      .wrote stream pingBytes (.ok ()) ∈ operationsAt x hc ios b ∧ ClockAt ios b t ∧
      Ongoing x hc ios stream a n

/-- A complete check ends after poll `i` and not after poll `j`. Its PONG is read no later
than its PING was sent, and at the same clock value when the clock never goes back. -/
def RecoversBetween (i j : Nat) : Prop :=
  ∃ stream a b c t t', i < c ∧ c ≤ j ∧ CompleteCycle x hc ios stream a b c t t' ∧ t' ≤ t ∧
    ((ios.map HealthIo.now).Pairwise (· ≤ ·) → t' = t)

variable {x hc ios}

/-- One poll takes the run from one state to the next. -/
theorem stateAt_succ {n : Nat} (hn : n < ios.length) :
    stateAt x hc ios (n + 1) = ((stateAt x hc ios n).poll x ios[n]).state := by
  rw [stateAt, Action.loop_take_succ _ _ _ hn]
  rfl

/-- The operations of a poll of the run. -/
theorem operationsAt_of_lt {n : Nat} (hn : n < ios.length) :
    operationsAt x hc ios n = ((stateAt x hc ios n).poll x ios[n]).log := by
  rw [operationsAt, List.getElem?_eq_getElem hn]

/-- The clock of a poll of the run. -/
theorem clockAt_of_lt {n : Nat} (hn : n < ios.length) : ClockAt ios n ios[n].now := by
  rw [ClockAt, List.getElem?_eq_getElem hn]
  rfl

/-- The next poll of a run is one of the transitions. -/
theorem transition_at {n : Nat} (hn : n < ios.length) :
    Transition x (stateAt x hc ios n) ios[n] (stateAt x hc ios (n + 1))
      (operationsAt x hc ios n) := by
  rw [stateAt_succ hn, operationsAt_of_lt hn]
  exact poll_transition x _ _

/-- A check stays in progress over a poll that keeps its stream and does not end it. -/
theorem Ongoing.succ {stream : TcpStream} {a n : Nat} (h : Ongoing x hc ios stream a n)
    (hstream : (stateAt x hc ios (n + 1)).upStream = some stream)
    (hbusy : ∀ ts, (stateAt x hc ios (n + 1)).pingState ≠ .idle ts) :
    Ongoing x hc ios stream a (n + 1) := by
  intro k hak hk
  rcases Nat.lt_or_eq_of_le hk with hlt | heq
  · exact h k hak (by omega)
  · rw [heq]
    exact ⟨hstream, hbusy⟩

/-- The stream of a check in progress is the checker's. -/
theorem Ongoing.stream_eq {stream stream' : TcpStream} {a n : Nat}
    (h : Ongoing x hc ios stream a n) (han : a < n)
    (hstream : (stateAt x hc ios n).upStream = some stream') : stream' = stream := by
  have hup := (h n han le_rfl).1
  rw [hstream] at hup
  exact Option.some.inj hup

private theorem Begun.same {n : Nat} (h : Begun x hc ios n)
    (hsame : stateAt x hc ios (n + 1) = stateAt x hc ios n) : Begun x hc ios (n + 1) := by
  unfold Begun at h ⊢
  rw [hsame]
  split at h
  · trivial
  · next hp =>
    obtain ⟨stream, a, han, hconnect, hongoing⟩ := h
    have hlast := hongoing n han le_rfl
    exact ⟨stream, a, by omega, hconnect, hongoing.succ (by rw [hsame]; exact hlast.1)
      (by rw [hsame]; exact hlast.2)⟩
  · next t hp =>
    obtain ⟨stream, a, b, hab, hbn, hconnect, hping, hclock, hongoing⟩ := h
    have hlast := hongoing n (by omega) le_rfl
    exact ⟨stream, a, b, hab, by omega, hconnect, hping, hclock,
      hongoing.succ (by rw [hsame]; exact hlast.1) (by rw [hsame]; exact hlast.2)⟩

/-- Every poll keeps track of the check in progress. -/
theorem Begun.succ {n : Nat} (hn : n < ios.length) (h : Begun x hc ios n) :
    Begun x hc ios (n + 1) := by
  have ht : Transition x (stateAt x hc ios n) ios[n] _ _ := transition_at hn
  have hclock := clockAt_of_lt hn
  generalize hs : stateAt x hc ios (n + 1) = s at ht
  generalize hl : operationsAt x hc ios n = log at ht
  cases ht with
  | rest hrest => exact h.same hs
  | connectFail ts hidle hdue hfail log hlog => simp [Begun, hs]
  | optionsFail ts stream hidle hconnect hfail => exact h.same hs
  | connect ts stream hidle hdue hconnect =>
    rw [Begun, hs]
    refine ⟨stream, n, by omega, by rw [hl]; exact List.mem_singleton_self _, ?_⟩
    intro k hnk hk
    have hkn : k = n + 1 := by omega
    rw [hkn, hs]
    exact ⟨rfl, by simp⟩
  | ping stream hconnected hstream =>
    rw [Begun, hconnected] at h
    obtain ⟨stream', a, han, hconnect, hongoing⟩ := h
    obtain rfl := hongoing.stream_eq han hstream
    rw [Begun, hs]
    refine ⟨stream, a, n, han, by omega, hconnect, by rw [hl]; exact List.mem_singleton_self _,
      hclock, hongoing.succ ?_ ?_⟩
    · rw [hs]
      exact hstream
    · rw [hs]
      simp
  | blocked stream hbusy hstream log hlog => exact h.same hs
  | giveUp hbusy log hlog => simp [Begun, hs, fail]
  | answer ts stream buf hsent htime hstream hread => simp [Begun, hs]

/-- Every check in progress in a run from a new checker began in it. -/
theorem begun {serverId : UInt32} {address : String} {n : Nat} (hn : n ≤ ios.length) :
    Begun x (.new serverId address) ios n := by
  induction n with
  | zero => simp [Begun, stateAt, Action.loop, Action.skip, Outcome.done, new]
  | succ n ih => exact (ih (by omega)).succ (by omega)

/-- A property that is lost between two positions is lost at one of the steps. -/
theorem exists_lost {P : Nat → Prop} {i j : Nat} (hij : i ≤ j) (hi : P i) (hj : ¬P j) :
    ∃ k, i ≤ k ∧ k < j ∧ P k ∧ ¬P (k + 1) := by
  induction j, hij using Nat.le_induction with
  | base => exact absurd hi hj
  | succ j hij ih =>
    by_cases hP : P j
    · exact ⟨j, hij, by omega, hP, hj⟩
    · obtain ⟨k, hik, hkj, hk⟩ := ih hP
      exact ⟨k, hik, by omega, hk⟩

/-- Only a PONG that is not late turns an unhealthy server healthy. -/
theorem heals {io : HealthIo} {s : HealthChecker} {log : List HealthEvent}
    (ht : Transition x hc io s log) (hun : hc.upstreamState = .unhealthy)
    (hheals : s.upstreamState ≠ .unhealthy) :
    ∃ ts stream, hc.pingState = .pingSent ts ∧ hc.upStream = some stream ∧ io.now ≤ ts ∧
      .received stream pongBytes ∈ log := by
  cases ht with
  | rest hrest => exact absurd hun hheals
  | connectFail ts hidle hdue hfail log hlog => exact absurd rfl hheals
  | optionsFail ts stream hidle hconnect hfail => exact absurd hun hheals
  | connect ts stream hidle hdue hconnect => exact absurd hun hheals
  | ping stream hconnected hstream => exact absurd hun hheals
  | blocked stream hbusy hstream log hlog => exact absurd hun hheals
  | giveUp hbusy log hlog => exact absurd rfl hheals
  | answer ts stream buf hsent htime hstream hread =>
    have hbuf : buf.val = pongBytes := by
      by_contra hbuf
      exact hheals (by simp only [if_neg hbuf, hun])
    have hlate : ¬io.now > ts := fun hlate ↦ hheals (by simp only [if_pos hbuf, if_pos hlate])
    exact ⟨ts, stream, hsent, hstream, by omega, by rw [hbuf]; exact List.mem_singleton_self _⟩

/-- Between two polls of a run the clock does not go back when it never does. -/
theorem clock_le {b c : Nat} {t t' : Int} (hmono : (ios.map HealthIo.now).Pairwise (· ≤ ·))
    (hbc : b < c) (hb : ClockAt ios b t) (hc' : ClockAt ios c t') : t ≤ t' := by
  rw [ClockAt, ← List.getElem?_map] at hb hc'
  obtain ⟨hblt, hb⟩ := List.getElem?_eq_some_iff.mp hb
  obtain ⟨hclt, hc'⟩ := List.getElem?_eq_some_iff.mp hc'
  rw [← hb, ← hc']
  exact List.pairwise_iff_getElem.mp hmono b c hblt hclt hbc

/-- By a clock that never goes back a poll is not before an earlier one. -/
theorem clock_mono {b c : Nat} {t t' : Int} (hmono : (ios.map HealthIo.now).Pairwise (· ≤ ·))
    (hbc : b ≤ c) (hb : ClockAt ios b t) (hc' : ClockAt ios c t') : t ≤ t' := by
  rcases Nat.lt_or_eq_of_le hbc with hlt | rfl
  · exact clock_le hmono hlt hb hc'
  · rw [ClockAt] at hb hc'
    exact le_of_eq (Option.some.inj (hb.symm.trans hc'))

/-- A server that is unhealthy after poll `i` and not after poll `j` has passed a complete
check in between. -/
theorem recoversBetween {serverId : UInt32} {address : String} {i j : Nat} (hij : i ≤ j)
    (hj : j < ios.length)
    (hun : (stateAt x (.new serverId address) ios (i + 1)).upstreamState = .unhealthy)
    (hheals : (stateAt x (.new serverId address) ios (j + 1)).upstreamState ≠ .unhealthy) :
    RecoversBetween x (.new serverId address) ios i j := by
  obtain ⟨c, hic, hcj, hunc, hhealc⟩ := exists_lost
    (P := fun n ↦ (stateAt x (.new serverId address) ios n).upstreamState = .unhealthy)
    (by omega : i + 1 ≤ j + 1) hun hheals
  have hclt : c < ios.length := by omega
  obtain ⟨t, stream, hsent, hstream, htime, hpong⟩ := heals (transition_at hclt) hunc hhealc
  have hbegun : Begun x (.new serverId address) ios c := begun (Nat.le_of_lt hclt)
  rw [Begun, hsent] at hbegun
  obtain ⟨stream', a, b, hab, hbc, hconnect, hping, hclock, hongoing⟩ := hbegun
  obtain rfl := hongoing.stream_eq (by omega) hstream
  have hclock' := clockAt_of_lt hclt
  refine ⟨stream, a, b, c, t, ios[c].now, by omega, by omega,
    ⟨⟨hab, hbc⟩, hconnect, ⟨hping, hclock⟩, ⟨hpong, hclock'⟩, hongoing⟩, htime, ?_⟩
  intro hmono
  have hle := clock_le hmono hbc hclock hclock'
  omega

/-- In every run of a new checker, a server that is unhealthy after poll `i` and healthy after
poll `j` has passed a complete check in between, and so has one that the forwarder returns
after poll `j`. -/
theorem recovers_only_through_cycle (x : Externals) (serverId : UInt32) (address : String)
    (ios : List HealthIo) (i j : Nat) (hij : i ≤ j) (hj : j < ios.length)
    (hun : (stateAt x (.new serverId address) ios (i + 1)).upstreamState = .unhealthy) :
    ((stateAt x (.new serverId address) ios (j + 1)).upstreamState = .healthy →
      RecoversBetween x (.new serverId address) ios i j) ∧
    ∀ (g : ServerGroup) (diffOrder cntrOrder : IterOrder UInt32) (id : UInt32),
      g.serverHealth.lookup id = some (stateAt x (.new serverId address) ios (j + 1)) →
      g.findMinAndHealthy diffOrder cntrOrder = some id →
      RecoversBetween x (.new serverId address) ios i j := by
  have hrecovers : (stateAt x (.new serverId address) ios (j + 1)).upstreamState = .healthy →
      RecoversBetween x (.new serverId address) ios i j := by
    intro hhealthy
    apply recoversBetween hij hj hun
    rw [hhealthy]
    decide
  refine ⟨hrecovers, fun g diffOrder cntrOrder id hg hfind ↦ ?_⟩
  obtain ⟨hc, hlookup, hhealthy⟩ :=
    ServerGroup.healthyServer_iff.mp (ServerGroup.findMinAndHealthy_healthy hfind)
  rw [hg] at hlookup
  obtain rfl := Option.some.inj hlookup
  exact hrecovers hhealthy

/-- A refused connect, and then a check whose PONG is read at the clock value `pong`. -/
def refusedThenChecked (pong : Int) : List HealthIo :=
  let io (now : Int) (connect : Except ErrorKind Nat) : HealthIo :=
    { now, connect, options := {}, writes := [.wrote 4], read := .ok ⟨pongBytes, by decide⟩ }
  [io 31 (.error (.other 111)), io 62 (.ok 3), io 63 (.ok 3), io pong (.ok 3)]

/-- `127.0.0.1:2006` for every address. -/
def localhost : Externals := ⟨fun _ ↦ .ok [], fun _ ↦ .ok ⟨[127, 0, 0, 1], 2006⟩⟩

/-- The check after the refused one heals the server. -/
theorem recovers_only_through_cycle_example :
    RecoversBetween localhost (.new 0 "127.0.0.1:2006") (refusedThenChecked 63) 0 3 :=
  (recovers_only_through_cycle localhost 0 "127.0.0.1:2006" (refusedThenChecked 63) 0 3
    (by decide) (by decide) (by decide)).1 (by decide)

/-- By a clock that goes back a PONG read before its PING was sent heals the server. -/
theorem recovers_by_clock_going_back :
    ¬∀ (x : Externals) (serverId : UInt32) (address : String) (ios : List HealthIo) (i j : Nat),
      i ≤ j → j < ios.length →
      (stateAt x (.new serverId address) ios (i + 1)).upstreamState = .unhealthy →
      (stateAt x (.new serverId address) ios (j + 1)).upstreamState = .healthy →
      ∃ stream a b c t, i < c ∧ c ≤ j ∧
        CompleteCycle x (.new serverId address) ios stream a b c t t := by
  intro h
  obtain ⟨stream, a, b, c, t, -, hcj, ⟨⟨hab, hbc⟩, -, ⟨hping, hb⟩, ⟨hpong, hc⟩, -⟩⟩ :=
    h localhost 0 "127.0.0.1:2006" (refusedThenChecked 62) 0 3 (by decide) (by decide)
      (by decide) (by decide)
  -- only poll 2 writes and only poll 3 receives, at different clock values
  have hc3 : c = 3 := by
    have hcases : c = 2 ∨ c = 3 := by omega
    rcases hcases with rfl | rfl
    · have hops : operationsAt localhost (.new 0 "127.0.0.1:2006") (refusedThenChecked 62) 2 =
        [.wrote ⟨3, ⟨[127, 0, 0, 1], 2006⟩⟩ pingBytes (.ok ())] := rfl
      simp [hops] at hpong
    · rfl
  have hb2 : b = 2 := by
    have hcases : b = 1 ∨ b = 2 := by omega
    rcases hcases with rfl | rfl
    · have hops : operationsAt localhost (.new 0 "127.0.0.1:2006") (refusedThenChecked 62) 1 =
        [.connected ⟨3, ⟨[127, 0, 0, 1], 2006⟩⟩] := rfl
      simp [hops] at hping
    · rfl
  subst hc3 hb2
  have h63 : (63 : Int) = t := Option.some.inj hb
  have h62 : (62 : Int) = t := Option.some.inj hc
  omega

end HealthChecker
end TcpLoadBalancer
