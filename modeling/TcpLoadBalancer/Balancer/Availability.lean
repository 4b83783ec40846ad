import TcpLoadBalancer.Balancer.Checkers
import TcpLoadBalancer.Health.Exchange

/-!
# Servers that work again

A group has no healthy server only when each of its checkers says so. So a group in which one
server is responsive for long enough serves its clients, whatever the others do and whatever the
verdict on that server was before.
-/

namespace TcpLoadBalancer
open Lib

/-- The group that an event reports to have no healthy server. -/
def Event.unserved : Event → Option UInt32
  | .finished _ _ (.noHealthyServer _ group) => some group
  | _ => none

namespace LoadBalancer

variable {x : Externals} {group server : UInt32}

/-- An unserved group is reported by the end of an admission. -/
theorem finished_of_unserved {log : List Event} (h : group ∈ log.filterMap Event.unserved) :
    ∃ pc now id, .finished pc now (.noHealthyServer id group) ∈ log := by
  obtain ⟨e, he, hgroup⟩ := List.mem_filterMap.mp h
  unfold Event.unserved at hgroup
  split at hgroup
  · next pc now id group' =>
    obtain rfl := Option.some.inj hgroup
    exact ⟨pc, now, id, he⟩
  · cases hgroup

/-- The admissions of a round are admissions of the run. -/
theorem mem_admissions_of_round {ios : List RoundIo} {lb : LoadBalancer} {n : Nat}
    (hn : n < ios.length) {a : Admission}
    (ha : a ∈ roundAdmissions x (serve x (ios.take n) lb).state ios[n]) :
    a ∈ admissions x ios lb :=
  List.mem_flatMap.mpr ⟨_, Action.mem_steps hn lb, ha⟩

/-- A server whose checker stands on healthy is one of the healthy servers of its group. -/
theorem mem_healthyServers {cfg : Configuration} {lb : LoadBalancer}
    (hI : Configured cfg.load [] lb) {hc : HealthChecker}
    (h : lb.checker group server = some hc) (hhealthy : hc.upstreamState = .healthy) :
    server ∈ lb.healthyServers group := by
  obtain ⟨g, g₀, hc₀, hg, hlookup, hg₀, hlookup₀, haddrs⟩ := checker_configured hI h
  obtain ⟨addr, haddr⟩ :=
    ((cfg.initial_load.groups group g₀ hg₀).checked server).mpr ⟨hc₀, hlookup₀⟩
  have hregistered : server ∈ g.servers := by
    apply List.mem_toFinset.mpr
    rw [haddrs]
    exact HashMap.mem_keys_iff.mpr ⟨addr, haddr⟩
  rw [healthyServers, hg, Option.map_some, Option.getD_some]
  exact Finset.mem_filter.mpr
    ⟨hregistered, ServerGroup.healthyServer_iff.mpr ⟨hc, hlookup, hhealthy⟩⟩

/-- In every run from a configuration with at most `usize::MAX` admissions, by a clock that
starts at a nonnegative value and never goes back: when a server is responsive from its poll `p`
on and each PONG is read in the second of its PING, and it is polled more than 30 seconds later
(`a`), then once more (`b`) and then again with a PONG to read (`c`), all up to round `n`, no
admission of round `n` ends for want of a healthy server in its group. -/
theorem responsive_available (x : Externals) (cfg : Configuration) (ios : List RoundIo)
    (hfew : (admissions x ios cfg.load).length ≤ usizeMax) (group server : UInt32)
    (addr : String) (sockAddr : SocketAddr) (haddr : x.parseAddr addr = .ok sockAddr)
    (polls : List (List HealthIo))
    (hpolls : PollsOf x ios cfg.load group server (.new server addr) polls) (n : Nat)
    (hn : n < ios.length) (made : List HealthIo) (hmade : (polls.take (n + 1)).flatten = made)
    (hclock : (0 :: made.map HealthIo.now).Pairwise (· ≤ ·)) (p a b c : Nat)
    (hresponsive : ∀ k (hk : k < made.length), p ≤ k → made[k].Responsive)
    (hprompt : HealthChecker.PromptFrom x (.new server addr) made p) (hpa : p ≤ a) (hab : a < b)
    (hbc : b < c) (hc : c < made.length) (hdue : made[a].now > made[p].now + 30)
    (hpong : ∃ buf, made[c].read = .ok buf) :
    group ∉
      (poll x ios[n] (serve x (ios.take n) cfg.load).state).log.filterMap Event.unserved := by
  intro hmem
  obtain ⟨pc, now, id, hlog⟩ := finished_of_unserved hmem
  obtain ⟨adm, hround, hevent⟩ := finished_mem_round hlog
  obtain ⟨-, -, houtcome⟩ := Event.finished.inj hevent
  have hadm := mem_admissions_of_round hn hround
  have hhealthy := HealthChecker.responsive_healthy (x := x) (coupled_new server addr) hclock
    haddr hresponsive hprompt hpa hab hbc hc le_rfl hdue hpong
  rw [HealthChecker.stateAt, List.take_length, ← hmade] at hhealthy
  have hserver := mem_healthyServers (configured_admissions x cfg ios adm hadm).1
    (checker_of_admission hpolls hn hround) hhealthy
  rw [healthyServers_of_noHealthyServer hfew hadm houtcome] at hserver
  simp at hserver

/-- A server refuses its first check and works from then on. -/
def repairedChecks : List HealthIo :=
  let io (now : Int) (connect : Except ErrorKind Nat) : HealthIo :=
    ⟨now, connect, {}, [.wrote 4], .ok ⟨pongBytes, HealthChecker.pongBytes_fits⟩⟩
  io 31 (.error (.other 111)) :: [32, 63, 63, 63].map fun now ↦ io now (.ok 3)

/-- A client comes while the server is checked again. -/
def repairedServer : List RoundIo :=
  repairedChecks.mapIdx fun i io ↦
    { acceptRound (if i = 3 then [.stream ⟨0, ⟨[127, 0, 0, 1], 40000⟩⟩ {} (.ok ⟨true, none⟩)]
        else []) with health := fun _ _ ↦ io }

/-- Every round polls the server once. -/
theorem polls_repairedServer :
    PollsOf firstClient repairedServer oneServer.load 0 0 (.new 0 "127.0.0.1:2500")
      (repairedServer.map fun io ↦ [io.health 0 0]) := by
  apply Part.traced_of_le
  · apply List.forall₂_map_right_iff.mpr
    exact List.forall₂_same.mpr fun io _ ↦ .inr rfl
  · decide +kernel

/-- After its first poll the server is responsive. -/
theorem responsive_repairedChecks : ∀ io ∈ repairedChecks.tail, io.Responsive := by
  intro io hio
  obtain ⟨now, -, rfl⟩ := List.mem_map.mp hio
  exact ⟨⟨3, rfl⟩, rfl, rfl, .inr ⟨_, rfl, rfl⟩⟩

/-- PING is sent and PONG read at the clock value 63. -/
theorem prompt_repairedChecks :
    HealthChecker.PromptFrom firstClient (.new 0 "127.0.0.1:2500") repairedChecks 1 := by
  intro k hk hpk ts hsent
  have hlength : repairedChecks.length = 5 := rfl
  have hcases : k = 1 ∨ k = 2 ∨ k = 3 ∨ k = 4 := by omega
  rcases hcases with rfl | rfl | rfl | rfl
  · cases hsent
  · cases hsent
  · cases hsent
  · exact PingState.pingSent.inj hsent

/-- The client comes after the repaired server has answered a check. -/
theorem responsive_available_example :
    0 ∉ (poll firstClient (repairedServer[4])
      (serve firstClient (repairedServer.take 4) oneServer.load).state).log.filterMap
        Event.unserved :=
  responsive_available firstClient oneServer repairedServer (by decide +kernel) 0 0
    "127.0.0.1:2500" ⟨[127, 0, 0, 1], 2500⟩ rfl _ polls_repairedServer 4 (by decide)
    repairedChecks rfl (by decide) 1 2 3 4
    (fun k hk hpk ↦ by
      obtain ⟨j, rfl⟩ : ∃ j, k = j + 1 := ⟨k - 1, by omega⟩
      have hlt : j < repairedChecks.tail.length := Nat.lt_of_succ_lt_succ hk
      exact responsive_repairedChecks _ (List.getElem_mem hlt))
    prompt_repairedChecks (by decide) (by decide) (by decide) (by decide) (by decide) ⟨_, rfl⟩

end LoadBalancer
end TcpLoadBalancer
