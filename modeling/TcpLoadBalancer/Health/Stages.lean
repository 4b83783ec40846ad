import TcpLoadBalancer.Health.Coupling

/-!
# The stages of a check

When the checks of a server can end in one verdict only, because it is silent or because it
answers every PING in time, the verdict is a matter of time: a check that is due connects, sends
its PING and ends. What a poll can do then is said once (`HeadsFor`), each stage of the check is
a property that such polls keep, and the stages together are a bound on when the verdict stands.
So a server that falls silent is dropped, and one that works again is taken back.
-/

namespace TcpLoadBalancer
open Lib

/-- Nothing is received in this poll, whether a connect succeeds or not; a stream that it opens
takes its socket options, and a PING that it writes does not block. -/
structure HealthIo.Silent (io : HealthIo) : Prop where
  options : ∀ fd, io.connect = .ok fd → io.options.set = .ok ()
  ping : (writeAll io.writes pingBytes).2 ≠ .error .wouldBlock
  read : ∀ buf, io.read ≠ .ok buf

/-- A connect and a PING go through, and nothing but PONG is received. -/
structure HealthIo.Responsive (io : HealthIo) : Prop where
  connect : ∃ fd, io.connect = .ok fd
  options : io.options.set = .ok ()
  ping : (writeAll io.writes pingBytes).2 = .ok ()
  read : io.read = .error .wouldBlock ∨ ∃ buf, io.read = .ok buf ∧ buf.val = pongBytes

namespace HealthChecker

variable {x : Externals} {hc hc' : HealthChecker} {io : HealthIo} {ios : List HealthIo}
  {v : UpstreamState}

/-- What a poll can do when the checks of the server can end in the verdict `v` only. -/
inductive HeadsFor (v : UpstreamState) (hc : HealthChecker) (io : HealthIo) :
    HealthChecker → Prop where
  | ends (hc' : HealthChecker) (hverdict : hc'.upstreamState = v) : HeadsFor v hc io hc'
  | rests (ts : Int) (hidle : hc.pingState = .idle ts) (hdue : ¬io.now > ts + 30) :
      HeadsFor v hc io hc
  | connects (ts : Int) (stream : TcpStream) (hidle : hc.pingState = .idle ts) :
      HeadsFor v hc io { hc with upStream := some stream, pingState := .connected }
  | pings (hconnected : hc.pingState = .connected) :
      HeadsFor v hc io { hc with pingState := .pingSent io.now }
  | waits (ts : Int) (hsent : hc.pingState = .pingSent ts) (htime : ¬io.now > ts + 1)
      (hread : io.read = .error .wouldBlock) : HeadsFor v hc io hc

/-- The verdict stands, or the checker was not idle after `t`. -/
def IdleUntil (v : UpstreamState) (t : Int) (hc : HealthChecker) : Prop :=
  hc.upstreamState = v ∨ ∀ ts, hc.pingState = .idle ts → ts ≤ t

/-- The verdict stands, or a check is in progress. -/
def Checking (v : UpstreamState) (hc : HealthChecker) : Prop :=
  hc.upstreamState = v ∨ ∀ ts, hc.pingState ≠ .idle ts

/-- The verdict stands, or the PING was sent by the time `t`. -/
def AskedBy (v : UpstreamState) (t : Int) (hc : HealthChecker) : Prop :=
  hc.upstreamState = v ∨ ∃ ts, ts ≤ t ∧ hc.pingState = .pingSent ts

/-- A verdict that stands is kept. -/
theorem HeadsFor.verdict (h : HeadsFor v hc io hc') (hv : hc.upstreamState = v) :
    hc'.upstreamState = v := by
  cases h with
  | ends hc' hverdict => exact hverdict
  | rests ts hidle hdue => exact hv
  | connects ts stream hidle => exact hv
  | pings hconnected => exact hv
  | waits ts hsent htime hread => exact hv

/-- No poll lets the checker idle anew without a verdict. -/
theorem HeadsFor.idleUntil {t : Int} (h : HeadsFor v hc io hc') (hidle : IdleUntil v t hc) :
    IdleUntil v t hc' := by
  rcases hidle with hv | hold
  · exact .inl (h.verdict hv)
  · cases h with
    | ends hc' hverdict => exact .inl hverdict
    | rests ts hidle hdue => exact .inr hold
    | connects ts stream hidle => exact .inr (by simp)
    | pings hconnected => exact .inr (by simp)
    | waits ts hsent htime hread => exact .inr hold

/-- A check ends with a verdict. -/
theorem HeadsFor.checking (h : HeadsFor v hc io hc') (hchecking : Checking v hc) :
    Checking v hc' := by
  rcases hchecking with hv | hbusy
  · exact .inl (h.verdict hv)
  · cases h with
    | ends hc' hverdict => exact .inl hverdict
    | rests ts hidle hdue => exact absurd hidle (hbusy ts)
    | connects ts stream hidle => exact .inr (by simp)
    | pings hconnected => exact .inr (by simp)
    | waits ts hsent htime hread => exact .inr hbusy

/-- The PING stays the last one until the verdict. -/
theorem HeadsFor.askedBy {t : Int} (h : HeadsFor v hc io hc') (hasked : AskedBy v t hc) :
    AskedBy v t hc' := by
  rcases hasked with hv | ⟨ts, hts, hsent⟩
  · exact .inl (h.verdict hv)
  · cases h with
    | ends hc' hverdict => exact .inl hverdict
    | rests ts' hidle hdue => exact .inr ⟨ts, hts, hsent⟩
    | connects ts' stream hidle =>
      rw [hsent] at hidle
      cases hidle
    | pings hconnected =>
      rw [hsent] at hconnected
      cases hconnected
    | waits ts' hsent' htime hread => exact .inr ⟨ts, hts, hsent⟩

/-- When the idle time is over, the next poll starts a check. -/
theorem HeadsFor.starts {t : Int} (h : HeadsFor v hc io hc') (hidle : IdleUntil v t hc)
    (hdue : io.now > t + 30) : Checking v hc' := by
  rcases hidle with hv | hold
  · exact .inl (h.verdict hv)
  · cases h with
    | ends hc' hverdict => exact .inl hverdict
    | rests ts hidle hnot =>
      have hle := hold ts hidle
      omega
    | connects ts stream hidle => exact .inr (by simp)
    | pings hconnected => exact .inr (by simp)
    | waits ts hsent htime hread => exact .inr (by simp [hsent])

/-- The poll after the start of a check finds the PING sent, or sends it. -/
theorem HeadsFor.asks {now : Int} (h : HeadsFor v hc io hc') (hchecking : Checking v hc)
    (hcoupled : Coupled now hc) (hle : now ≤ io.now) : AskedBy v io.now hc' := by
  rcases hchecking with hv | hbusy
  · exact .inl (h.verdict hv)
  · cases h with
    | ends hc' hverdict => exact .inl hverdict
    | rests ts hidle hdue => exact absurd hidle (hbusy ts)
    | connects ts stream hidle => exact absurd hidle (hbusy ts)
    | pings hconnected => exact .inr ⟨io.now, le_rfl, rfl⟩
    | waits ts hsent htime hread =>
      exact .inr ⟨ts, (hcoupled.past ts (.inr hsent)).trans hle, hsent⟩

/-- A poll that reads an answer, or for which the time for PONG is over, ends the check. -/
theorem HeadsFor.settles {t : Int} (h : HeadsFor v hc io hc') (hasked : AskedBy v t hc)
    (hend : io.now > t + 1 ∨ ∃ buf, io.read = .ok buf) : hc'.upstreamState = v := by
  rcases hasked with hv | ⟨ts, hts, hsent⟩
  · exact h.verdict hv
  · cases h with
    | ends hc' hverdict => exact hverdict
    | rests ts' hidle hdue =>
      rw [hsent] at hidle
      cases hidle
    | connects ts' stream hidle =>
      rw [hsent] at hidle
      cases hidle
    | pings hconnected =>
      rw [hsent] at hconnected
      cases hconnected
    | waits ts' hsent' htime hread =>
      rw [hsent] at hsent'
      cases hsent'
      rcases hend with hlate | ⟨buf, hbuf⟩
      · omega
      · rw [hread] at hbuf
        cases hbuf

/-! ### Runs -/

/-- From a coupled checker on, by a clock that never goes back, the checker is coupled before
every poll at a clock value that no poll still to come goes back behind. -/
theorem Coupled.stateAt {t₀ : Int} (hstart : Coupled t₀ hc)
    (hclock : (t₀ :: ios.map HealthIo.now).Pairwise (· ≤ ·)) {n : Nat} (hn : n ≤ ios.length) :
    ∃ now, Coupled now (stateAt x hc ios n) ∧
      ∀ m (hm : m < ios.length), n ≤ m → now ≤ ios[m].now := by
  obtain ⟨hfirst, hmono⟩ := List.pairwise_cons.mp hclock
  induction n with
  | zero =>
    refine ⟨t₀, hstart, fun m hm _ ↦ hfirst _ ?_⟩
    exact List.mem_map_of_mem (List.getElem_mem hm)
  | succ n ih =>
    obtain ⟨now, hcoupled, hlater⟩ := ih (by omega)
    refine ⟨ios[n].now, ?_, fun m hm hnm ↦ ?_⟩
    · rw [stateAt_succ hn]
      exact hcoupled.poll (hlater n hn le_rfl)
    · exact clock_le hmono hnm (clockAt_of_lt hn) (clockAt_of_lt hm)

/-- From poll `p` on every poll of a run heads for the verdict `v`. -/
def HeadsFrom (v : UpstreamState) (x : Externals) (hc : HealthChecker) (ios : List HealthIo)
    (p : Nat) : Prop :=
  ∀ n (hn : n < ios.length), p ≤ n →
    HeadsFor v (stateAt x hc ios n) ios[n] (stateAt x hc ios (n + 1))

/-- What every such poll keeps is kept from one of them to a later one. -/
theorem HeadsFrom.induction {P : HealthChecker → Prop} {p : Nat} (h : HeadsFrom v x hc ios p)
    (hP : ∀ hc io hc', HeadsFor v hc io hc' → P hc → P hc') {n m : Nat} (hpn : p ≤ n)
    (hnm : n ≤ m) (hm : m ≤ ios.length) (hn : P (HealthChecker.stateAt x hc ios n)) :
    P (HealthChecker.stateAt x hc ios m) := by
  induction m, hnm using Nat.le_induction with
  | base => exact hn
  | succ m hnm ih => exact hP _ _ _ (h m (by omega) (by omega)) (ih (by omega))

/-- In a run from a coupled checker, by a clock that never goes back, whose polls head for the
verdict `v` from poll `p` on: once a poll `a` was more than 30 seconds after poll `p`, a poll `b`
came after it and a poll `c` after that which reads an answer or is more than a second after poll
`b`, the verdict stands and stays. -/
theorem HeadsFrom.settled {t₀ : Int} {p : Nat} (h : HeadsFrom v x hc ios p)
    (hstart : Coupled t₀ hc) (hclock : (t₀ :: ios.map HealthIo.now).Pairwise (· ≤ ·))
    {a b c n : Nat} (hpa : p ≤ a) (hab : a < b) (hbc : b < c) (hcn : c < n)
    (hn : n ≤ ios.length) (hdue : ios[a].now > ios[p].now + 30)
    (hend : ios[c].now > ios[b].now + 1 ∨ ∃ buf, ios[c].read = .ok buf) :
    (HealthChecker.stateAt x hc ios n).upstreamState = v := by
  -- before poll `p` the checker is not idle from a later time on
  have hidle : IdleUntil v ios[p].now (HealthChecker.stateAt x hc ios p) := by
    obtain ⟨now, hcoupled, hlater⟩ :=
      hstart.stateAt (x := x) hclock (show p ≤ ios.length by omega)
    exact .inr fun ts hts ↦ (hcoupled.past ts (.inl hts)).trans (hlater p (by omega) le_rfl)
  have hidle' : IdleUntil v ios[p].now (HealthChecker.stateAt x hc ios a) :=
    h.induction (fun _ _ _ h ↦ h.idleUntil) le_rfl hpa (by omega) hidle
  have hchecking : Checking v (HealthChecker.stateAt x hc ios (a + 1)) :=
    (h a (by omega) hpa).starts hidle' hdue
  have hchecking' : Checking v (HealthChecker.stateAt x hc ios b) :=
    h.induction (fun _ _ _ h ↦ h.checking) (by omega) hab (by omega) hchecking
  obtain ⟨now, hcoupled, hlater⟩ :=
    hstart.stateAt (x := x) hclock (show b ≤ ios.length by omega)
  have hasked : AskedBy v ios[b].now (HealthChecker.stateAt x hc ios (b + 1)) :=
    (h b (by omega) (by omega)).asks hchecking' hcoupled (hlater b (by omega) le_rfl)
  have hasked' : AskedBy v ios[b].now (HealthChecker.stateAt x hc ios c) :=
    h.induction (fun _ _ _ h ↦ h.askedBy) (by omega) hbc (by omega) hasked
  have hverdict : (HealthChecker.stateAt x hc ios (c + 1)).upstreamState = v :=
    (h c (by omega) (by omega)).settles hasked' hend
  exact h.induction (P := fun hc ↦ hc.upstreamState = v) (fun _ _ _ h ↦ h.verdict) (by omega)
    hcn hn hverdict

/-! ### Silent servers -/

/-- A poll of a silent server heads for unhealthy. -/
theorem poll_silent {now : Int} (hcoupled : Coupled now hc) (hsilent : io.Silent) :
    HeadsFor .unhealthy hc io (hc.poll x io).state := by
  cases hs : hc.pingState with
  | idle ts =>
    simp only [poll, hs, pollIdle]
    split
    · next hdue =>
      cases hp : x.parseAddr hc.address with
      | error e => exact .ends _ rfl
      | ok sockAddr =>
        cases hconnect : io.connect with
        | error k => exact .ends _ rfl
        | ok fd =>
          simp only [hsilent.options fd hconnect]
          exact .connects ts _ hs
    · next hdue => exact .rests ts hs hdue
  | connected =>
    have hsome : hc.upStream.isSome = true := hcoupled.stream.mpr (.inl hs)
    obtain ⟨stream, hstream⟩ := Option.isSome_iff_exists.mp hsome
    simp only [poll, hs, pollConnected, hstream]
    split
    · have hpings : HeadsFor .unhealthy hc io { hc with pingState := .pingSent io.now } :=
        .pings hs
      rw [hstream] at hpings
      exact hpings
    · next hblocked => exact absurd (congrArg Prod.snd hblocked) hsilent.ping
    · exact .ends _ rfl
  | pingSent ts =>
    have hsome : hc.upStream.isSome = true := hcoupled.stream.mpr (.inr ⟨ts, hs⟩)
    obtain ⟨stream, hstream⟩ := Option.isSome_iff_exists.mp hsome
    simp only [poll, hs, pollPingSent, hstream]
    split
    · exact .ends _ rfl
    · next htime =>
      cases hread : io.read with
      | ok buf => exact absurd hread (hsilent.read buf)
      | error k =>
        cases k with
        | wouldBlock => exact .waits ts hs htime hread
        | interrupted => exact .ends _ rfl
        | writeZero => exact .ends _ rfl
        | other code => exact .ends _ rfl

/-- In a run from a coupled checker, by a clock that never goes back, whose server is silent from
poll `p` on: once a poll `a` was more than 30 seconds after poll `p`, and a poll `c` more than a
second after a poll `b` between them, the server is unhealthy and stays so. -/
theorem silent_unhealthy {t₀ : Int} (hstart : Coupled t₀ hc)
    (hclock : (t₀ :: ios.map HealthIo.now).Pairwise (· ≤ ·)) {p a b c n : Nat}
    (hsilent : ∀ k (hk : k < ios.length), p ≤ k → ios[k].Silent) (hpa : p ≤ a) (hab : a < b)
    (hbc : b < c) (hcn : c < n) (hn : n ≤ ios.length) (hdue : ios[a].now > ios[p].now + 30)
    (hlate : ios[c].now > ios[b].now + 1) :
    (stateAt x hc ios n).upstreamState = .unhealthy := by
  have hheads : HeadsFrom .unhealthy x hc ios p := by
    intro k hk hpk
    obtain ⟨now, hcoupled, -⟩ := hstart.stateAt (x := x) hclock (Nat.le_of_lt hk)
    rw [stateAt_succ hk]
    exact poll_silent hcoupled (hsilent k hk hpk)
  exact hheads.settled hstart hclock hpa hab hbc hcn hn hdue (.inl hlate)

/-! ### Responsive servers -/

/-- The address of a checker never changes. -/
theorem poll_address (x : Externals) (hc : HealthChecker) (io : HealthIo) :
    (hc.poll x io).state.address = hc.address := by
  have ht := poll_transition x hc io
  generalize (hc.poll x io).state = s at ht ⊢
  generalize (hc.poll x io).log = log at ht
  cases ht with
  | rest hrest => rfl
  | connectFail ts hidle hdue hfail log hlog => rfl
  | optionsFail ts stream hidle hconnect hfail => rfl
  | connect ts stream hidle hdue hconnect => rfl
  | ping stream hconnected hstream => rfl
  | blocked stream hbusy hstream log hlog => rfl
  | giveUp hbusy log hlog => rfl
  | answer ts stream buf hsent htime hstream hread => rfl

/-- The address of a checker never changes along a run. -/
theorem stateAt_address {n : Nat} (hn : n ≤ ios.length) :
    (stateAt x hc ios n).address = hc.address := by
  induction n with
  | zero => rfl
  | succ n ih =>
    rw [stateAt_succ hn, poll_address]
    exact ih (by omega)

/-- A poll of a responsive server heads for healthy, unless it finds the clock past the second in
which its PING was sent. -/
theorem poll_responsive {now : Int} (hcoupled : Coupled now hc) (hresponsive : io.Responsive)
    {sockAddr : SocketAddr} (haddr : x.parseAddr hc.address = .ok sockAddr)
    (hprompt : ∀ ts, hc.pingState = .pingSent ts → io.now = ts) :
    HeadsFor .healthy hc io (hc.poll x io).state := by
  cases hs : hc.pingState with
  | idle ts =>
    obtain ⟨fd, hconnect⟩ := hresponsive.connect
    simp only [poll, hs, pollIdle, haddr, hconnect, hresponsive.options]
    split
    · exact .connects ts _ hs
    · next hdue => exact .rests ts hs hdue
  | connected =>
    have hsome : hc.upStream.isSome = true := hcoupled.stream.mpr (.inl hs)
    obtain ⟨stream, hstream⟩ := Option.isSome_iff_exists.mp hsome
    have hwrite : writeAll io.writes pingBytes = (pingBytes, .ok ()) :=
      Prod.ext (writeAll_ok hresponsive.ping) hresponsive.ping
    simp only [poll, hs, pollConnected, hstream, hwrite]
    rw [← hstream]
    exact .pings hs
  | pingSent ts =>
    have hsome : hc.upStream.isSome = true := hcoupled.stream.mpr (.inr ⟨ts, hs⟩)
    obtain ⟨stream, hstream⟩ := Option.isSome_iff_exists.mp hsome
    have hnow : io.now = ts := hprompt ts hs
    have htime : ¬io.now > ts + 1 := by omega
    rcases hresponsive.read with hread | ⟨buf, hread, hpong⟩
    · simp only [poll, hs, pollPingSent, if_neg htime, hstream, hread, Outcome.done]
      exact .waits ts hs htime hread
    · have hlate : ¬io.now > ts := by omega
      rw [poll_answer x hs (by omega : io.now ≤ ts + 1) hstream hread]
      exact .ends _ (by rw [if_pos hpong, if_neg hlate])

/-- From poll `p` on no poll finds the clock past the second in which the PING was sent that
waits for its PONG. -/
def PromptFrom (x : Externals) (hc : HealthChecker) (ios : List HealthIo) (p : Nat) : Prop :=
  ∀ k (hk : k < ios.length), p ≤ k →
    ∀ ts, (stateAt x hc ios k).pingState = .pingSent ts → ios[k].now = ts

/-- In a run from a coupled checker, by a clock that never goes back, whose server is responsive
from poll `p` on and answers in the second of each PING: once a poll `a` was more than 30 seconds
after poll `p`, a poll `b` came after it and a poll `c` after that reads PONG, the server is
healthy and stays so. -/
theorem responsive_healthy {t₀ : Int} (hstart : Coupled t₀ hc)
    (hclock : (t₀ :: ios.map HealthIo.now).Pairwise (· ≤ ·)) {sockAddr : SocketAddr}
    (haddr : x.parseAddr hc.address = .ok sockAddr) {p a b c n : Nat}
    (hresponsive : ∀ k (hk : k < ios.length), p ≤ k → ios[k].Responsive)
    (hprompt : PromptFrom x hc ios p) (hpa : p ≤ a) (hab : a < b) (hbc : b < c) (hcn : c < n)
    (hn : n ≤ ios.length) (hdue : ios[a].now > ios[p].now + 30)
    (hpong : ∃ buf, ios[c].read = .ok buf) :
    (stateAt x hc ios n).upstreamState = .healthy := by
  have hheads : HeadsFrom .healthy x hc ios p := by
    intro k hk hpk
    obtain ⟨now, hcoupled, -⟩ := hstart.stateAt (x := x) hclock (Nat.le_of_lt hk)
    rw [stateAt_succ hk]
    have haddr' : x.parseAddr (stateAt x hc ios k).address = .ok sockAddr := by
      rw [stateAt_address (Nat.le_of_lt hk), haddr]
    exact poll_responsive hcoupled (hresponsive k hk hpk) haddr' (hprompt k hk hpk)
  exact hheads.settled hstart hclock hpa hab hbc hcn hn hdue (.inr hpong)

end HealthChecker
end TcpLoadBalancer
