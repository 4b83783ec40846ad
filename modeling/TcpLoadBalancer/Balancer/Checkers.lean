import TcpLoadBalancer.Balancer.Choice
import TcpLoadBalancer.Health.Stages
import TcpLoadBalancer.Lib.Projection

/-!
# The health checkers inside a load balancer

A round polls each health checker at most once and nothing else of the round touches it. So in
every run of rounds a checker does a run of its own polls, and what is known of such runs holds
in the load balancer: a server that was once unhealthy is routed to only after a complete check.
-/

namespace TcpLoadBalancer
open Lib

/-- The operations that an event reports of one server's health checks. -/
def Event.healthOps (group server : UInt32) : Event → List HealthEvent
  | .healthPolled g s ops => if g = group ∧ s = server then ops else []
  | _ => []

/-- Only health checks report operations. -/
theorem Event.healthOps_of_stage {group server : UInt32} {e : Event} (h : e.stage ≠ .checking) :
    e.healthOps group server = [] := by
  cases e with
  | healthPolled g s ops => exact absurd rfl h
  | _ => rfl

/-- A server that is unhealthy after some polls and healthy after more of them has passed a
complete check in between. -/
theorem HealthChecker.recovers_of_append {x : Externals} {serverId : UInt32} {address : String}
    {early late : List HealthIo}
    (hun : (Action.loop (step x) early (.new serverId address)).state.upstreamState = .unhealthy)
    (hhealthy : (Action.loop (step x) (early ++ late) (.new serverId address)).state.upstreamState =
      .healthy) :
    ∃ i j, early.length = i + 1 ∧ (early ++ late).length = j + 1 ∧
      RecoversBetween x (.new serverId address) (early ++ late) i j := by
  cases hearly : early.length with
  | zero =>
    -- a new checker is healthy
    rw [List.length_eq_zero_iff.mp hearly] at hun
    cases hun
  | succ i =>
    have hlength : (early ++ late).length = i + late.length + 1 := by
      rw [List.length_append, hearly]
      omega
    refine ⟨i, i + late.length, rfl, hlength, recoversBetween (by omega) (by omega) ?_ ?_⟩
    · rw [stateAt, ← hearly, List.take_left]
      exact hun
    · rw [stateAt, ← hlength, List.take_length, hhealthy]
      decide

namespace ServerGroup

/-- The health checker of one server of a group. -/
def checkerPart (server : UInt32) :
    Part ServerGroup (UInt32 × List HealthEvent) HealthChecker HealthEvent where
  view g := g.serverHealth.lookup server
  own e := if e.1 = server then e.2 else []

/-- The check of a server is a poll of its checker. -/
theorem follows_pollServer (x : Externals) (ios : UInt32 → HealthIo) (server : UInt32) :
    (checkerPart server).Follows (HealthChecker.step x) (· = [ios server])
      (pollServer x ios server) := by
  intro g hc hlookup
  have hself : g.serverHealth.lookup server = some hc := hlookup
  refine ⟨[ios server], rfl, ?_, ?_⟩
  · simp only [pollServer, hself, checkerPart, HashMap.lookup_modify_self, Option.map_some]
    rfl
  · simp [pollServer, hself, checkerPart, Action.loop, Action.skip, Outcome.done,
      HealthChecker.step]

/-- The check of another server leaves a checker alone. -/
theorem rests_pollServer (x : Externals) (ios : UInt32 → HealthIo) {server other : UInt32}
    (hne : other ≠ server) :
    (checkerPart server).Follows (HealthChecker.step x) (· = []) (pollServer x ios other) := by
  apply Part.follows_of_rests
  intro g hc hlookup
  have hself : g.serverHealth.lookup server = some hc := hlookup
  cases ho : g.serverHealth.lookup other with
  | none => simp [pollServer, ho, checkerPart, hself, Outcome.done]
  | some hc' =>
    simp [pollServer, ho, checkerPart, HashMap.lookup_modify_ne _ _ (Ne.symm hne), hself, hne]

/-- The checks of a group poll each checker at most once. -/
theorem follows_poll (x : Externals) (ord : IterOrder UInt32) (ios : UInt32 → HealthIo)
    (server : UInt32) :
    (checkerPart server).Follows (HealthChecker.step x) (fun is ↦ is = [] ∨ is = [ios server])
      (poll x ord ios) := fun g ↦
  Part.follows_forEach_one (follows_pollServer x ios server)
    (fun _ hne ↦ rests_pollServer x ios hne)
    (ord.nodup_arrange g.serverHealth.keys_nodup) g

end ServerGroup

namespace LoadBalancer

/-- The health checker of a server. -/
def checker (lb : LoadBalancer) (group server : UInt32) : Option HealthChecker :=
  (lb.serverGroups.lookup group).bind fun g ↦ g.serverHealth.lookup server

/-- The health checker of one server of a load balancer. -/
def checkerPart (group server : UInt32) : Part LoadBalancer Event HealthChecker HealthEvent where
  view lb := lb.checker group server
  own := Event.healthOps group server

/-- What keeps the addresses and the checkers keeps each checker. -/
theorem checker_of_serversOf {lb lb' : LoadBalancer} {group : UInt32}
    (h : lb'.serversOf group = lb.serversOf group) (server : UInt32) :
    lb'.checker group server = lb.checker group server := by
  have hlookup := congrArg
    (fun o : Option (HashMap UInt32 String × HashMap UInt32 HealthChecker) ↦
      o.bind fun t ↦ t.2.lookup server) h
  simp only [serversOf, Option.bind_map] at hlookup
  exact hlookup

variable {x : Externals} {group server : UInt32}

/-- A stage that checks nothing and keeps the checkers. -/
theorem rests_of_stage {a : Action Error LoadBalancer Event}
    (hlog : ∀ lb, ∀ e ∈ (a lb).log, e.stage ≠ .checking)
    (hchecker : ∀ lb, (a lb).state.checker group server = lb.checker group server) :
    (checkerPart group server).Follows (HealthChecker.step x) (· = []) a := by
  apply Part.follows_of_rests
  intro lb hc hlookup
  refine ⟨(hchecker lb).trans hlookup, ?_⟩
  apply List.flatMap_eq_nil_iff.mpr
  intro e he
  exact Event.healthOps_of_stage (hlog lb e he)

/-! ### The stages -/

/-- Accepting streams. -/
theorem rests_handleListener (accepts : List AcceptIo) :
    (checkerPart group server).Follows (HealthChecker.step x) (· = [])
      (handleListener accepts) := by
  apply rests_of_stage
  · intro lb e he
    simp [(handleListener_spec accepts lb).2.2 e he]
  · intro lb
    rw [(handleListener_spec accepts lb).2.1]
    rfl

/-- Servicing the clients. -/
theorem rests_handleClients (ord : IterOrder String) (ios : String → Nat → ConnectionIo) :
    (checkerPart group server).Follows (HealthChecker.step x) (· = []) (handleClients ord ios) := by
  have hall : ∀ ids, (checkerPart group server).Follows (HealthChecker.step x) (· = [])
      (Action.forEach (fun id ↦ serviceClient (ios id) id) ids) := by
    intro ids
    refine Part.follows_forEach rfl (by rintro is js rfl rfl; rfl) fun id _ ↦ rests_of_stage ?_ ?_
    · intro lb e he
      simp [serviceClient_stage (ios id) id lb e he]
    · intro lb
      exact checker_of_serversOf ((serviceClient_frame (ios id) id lb).2.2.2.2 group) server
  exact fun lb ↦ hall _ lb

/-- Checking the group of the server. -/
theorem follows_pollGroup (ord : IterOrder UInt32) (ios : UInt32 → HealthIo) :
    (checkerPart group server).Follows (HealthChecker.step x)
      (fun is ↦ is = [] ∨ is = [ios server]) (pollGroup x ord ios group) := by
  intro lb hc hlookup
  obtain ⟨g, hg, hself⟩ := Option.bind_eq_some_iff.mp hlookup
  obtain ⟨is, his, hview, hlog⟩ := ServerGroup.follows_poll x ord ios server g hc hself
  refine ⟨is, his, ?_, ?_⟩
  · simp only [pollGroup, hg, checkerPart, checker, HashMap.lookup_modify_self, Option.map_some,
      Option.bind_some]
    exact hview
  · rw [← hlog]
    simp only [pollGroup, hg, List.flatMap_map]
    simp [checkerPart, ServerGroup.checkerPart, Event.healthOps]

/-- Checking another group. -/
theorem rests_pollGroup (ord : IterOrder UInt32) (ios : UInt32 → HealthIo) {other : UInt32}
    (hne : other ≠ group) :
    (checkerPart group server).Follows (HealthChecker.step x) (· = [])
      (pollGroup x ord ios other) := by
  apply Part.follows_of_rests
  intro lb hc hlookup
  cases ho : lb.serverGroups.lookup other with
  | none =>
    simp only [pollGroup, ho, Outcome.done]
    exact ⟨hlookup, rfl⟩
  | some g =>
    simp only [pollGroup, ho]
    refine ⟨?_, ?_⟩
    · simp only [checkerPart, checker, HashMap.lookup_modify_ne _ _ (Ne.symm hne)]
      exact hlookup
    · simp [List.flatMap_map, checkerPart, Event.healthOps, hne]

/-- Running the health checks. -/
theorem follows_handleServerGroups (ord : IterOrder UInt32)
    (serverOrd : UInt32 → IterOrder UInt32) (ios : UInt32 → UInt32 → HealthIo) :
    (checkerPart group server).Follows (HealthChecker.step x)
      (fun is ↦ is = [] ∨ is = [ios group server])
      (handleServerGroups x ord serverOrd ios) := by
  have hone : ∀ lb : LoadBalancer, (checkerPart group server).Follows (HealthChecker.step x)
      (fun is ↦ is = [] ∨ is = [] ∨ is = [ios group server])
      (Action.forEach (fun g ↦ pollGroup x (serverOrd g) (ios g) g)
        (ord.arrange lb.serverGroups.keys)) := fun lb ↦
    Part.follows_forEach_one (follows_pollGroup (serverOrd group) (ios group))
      (fun g hne ↦ rests_pollGroup (serverOrd g) (ios g) hne)
      (ord.nodup_arrange lb.serverGroups.keys_nodup)
  intro lb
  exact (hone lb).mono (fun is his ↦ by simpa using his) lb

/-- Admissions change counters and clients only. -/
theorem complete_checker (pc : PartialConnection) (io : CompletionIo) (lb : LoadBalancer) :
    (complete x pc io lb).state.checker group server = lb.checker group server := by
  apply complete_state (P := fun s ↦ s.checker group server = lb.checker group server) rfl
  intro r cxn _ _
  apply checker_of_serversOf
  apply HashMap.map_lookup_modify
  intro g _
  obtain ⟨haddrs, hhealth, -⟩ := ServerGroup.addConnection_frame g r.server
  rw [haddrs, hhealth]

/-- Driving the partial connections. -/
theorem rests_handlePartialConnections (partialIos : Nat → PartialIo)
    (ios : Nat → CompletionIo) :
    (checkerPart group server).Follows (HealthChecker.step x) (· = [])
      (handlePartialConnections x partialIos ios) := by
  apply rests_of_stage
  · intro lb e he
    rw [handlePartialConnections_eq] at he
    rcases List.mem_append.mp he with hpolled | hfinished
    · obtain ⟨i, hi, rfl⟩ := List.mem_mapIdx.mp hpolled
      simp [Event.stage]
    · exact Action.forEach_log (Q := fun e : Event ↦ e.stage ≠ .checking)
        (fun _ _ e he ↦ by rw [List.mem_singleton.mp he]; simp [Event.stage]) _ _ e hfinished
  · intro lb
    rw [handlePartialConnections_eq]
    exact Action.forEach_state (P := fun s ↦ s.checker group server = lb.checker group server)
      (fun (e : Nat × PartialConnection) _ s hs ↦ (complete_checker e.2 (ios e.1) s).trans hs) rfl

/-! ### Runs -/

/-- A round polls a checker at most once. -/
theorem follows_round (io : RoundIo) :
    (checkerPart group server).Follows (HealthChecker.step x)
      (fun is ↦ is = [] ∨ is = [io.health group server]) (poll x io) := by
  have haccepts : (checkerPart group server).Follows (HealthChecker.step x) (· = [])
      (handleListener io.accepts) := rests_handleListener io.accepts
  have hclients := haccepts.andThen (R := (· = []))
    (rests_handleClients io.clientOrder io.connection) (by rintro is js rfl (rfl | rfl) <;> rfl)
  have hchecks := hclients.andThen (R := fun is ↦ is = [] ∨ is = [io.health group server])
    (follows_handleServerGroups io.groupOrder io.serverOrder io.health)
    (by rintro is js rfl (rfl | hjs); exacts [.inl rfl, hjs])
  exact hchecks.andThen (rests_handlePartialConnections io.partialConn io.completion)
    (by rintro is js his (rfl | rfl) <;> simpa using his)

/-- The polls that each round of a run gives to the checker of a server, which is `hc` at the
start: one or none, with the outcomes that the round has for it. They leave the checker and log
the operations that the load balancer does. -/
abbrev PollsOf (x : Externals) (ios : List RoundIo) (lb : LoadBalancer) (group server : UInt32)
    (hc : HealthChecker) (polls : List (List HealthIo)) : Prop :=
  (checkerPart group server).Traced (poll x) (HealthChecker.step x)
    (fun io is ↦ is = [] ∨ is = [RoundIo.health io group server]) ios lb hc polls

/-- In every run of rounds, from any state, whatever the clients, the other servers and the
partial connections do and whatever errors end a round: each health checker does a run of polls
of its own. -/
theorem checker_projects (x : Externals) (ios : List RoundIo) (lb : LoadBalancer)
    (group server : UInt32) (hc : HealthChecker) (hlookup : lb.checker group server = some hc) :
    ∃ polls, PollsOf x ios lb group server hc polls :=
  Part.traced_loop (p := checkerPart group server) follows_round ios hlookup

/-- A server refuses its first check and passes the second one; a client comes in between. -/
def recoveringServer : List RoundIo :=
  (HealthChecker.refusedThenChecked 63).mapIdx fun i io ↦
    { acceptRound (if i = 2 then [.stream ⟨0, ⟨[127, 0, 0, 1], 40000⟩⟩ {} (.ok ⟨true, none⟩)]
        else []) with health := fun _ _ ↦ io }

/-- The checker connects, sends PING and reads PONG in the later rounds. -/
theorem checker_projects_example :
    ∃ polls, PollsOf firstClient recoveringServer oneServer.load 0 0
      (.new 0 "127.0.0.1:2500") polls :=
  checker_projects firstClient recoveringServer oneServer.load 0 0 _ rfl

/-! ### Routing -/

/-- The checker of a configured server is new. -/
theorem checker_load {cfg : Configuration} {hc : HealthChecker}
    (h : cfg.load.checker group server = some hc) : ∃ addr, hc = .new server addr := by
  obtain ⟨g, hg, hlookup⟩ := Option.bind_eq_some_iff.mp h
  obtain ⟨servers, rfl⟩ := Configuration.group_load hg
  exact ServerGroup.checker_configure hlookup

/-- A checker that is there was configured, and its group has the addresses that were
configured. -/
theorem checker_configured {cfg : Configuration} {lb : LoadBalancer}
    (hI : Configured cfg.load [] lb) {hc : HealthChecker}
    (h : lb.checker group server = some hc) :
    ∃ g g₀ hc₀, lb.serverGroups.lookup group = some g ∧ g.serverHealth.lookup server = some hc ∧
      cfg.load.serverGroups.lookup group = some g₀ ∧ g₀.serverHealth.lookup server = some hc₀ ∧
      g.serverAddrs = g₀.serverAddrs := by
  have htables := hI.2 group
  obtain ⟨g, hg, hlookup⟩ := Option.bind_eq_some_iff.mp h
  rw [tablesOf, tablesOf, hg, Option.map_some] at htables
  obtain ⟨g₀, hg₀, hsame⟩ := Option.map_eq_some_iff.mp htables.symm
  simp only [ServerGroup.tables, Prod.mk.injEq] at hsame
  have hkey : server ∈ g₀.serverHealth.keys := by
    rw [hsame.2]
    exact HashMap.mem_keys_iff.mpr ⟨hc, hlookup⟩
  obtain ⟨hc₀, hlookup₀⟩ := HashMap.mem_keys_iff.mp hkey
  exact ⟨g, g₀, hc₀, hg, hlookup, hg₀, hlookup₀, hsame.1.symm⟩

/-- A run from a configuration makes no new checker. -/
theorem checker_of_serve {cfg : Configuration} {ios : List RoundIo} {hc : HealthChecker}
    (h : (serve x ios cfg.load).state.checker group server = some hc) :
    ∃ hc₀, cfg.load.checker group server = some hc₀ := by
  have hstart : Holding (PartialConnection.Sound x) (Configured cfg.load) [] cfg.load := by
    refine ⟨⟨fun _ ↦ rfl, fun _ ↦ rfl⟩, fun pc hpc ↦ ?_⟩
    rw [cfg.initial_load.partialConns] at hpc
    cases hpc
  obtain ⟨g, g₀, hc₀, -, -, hg₀, hlookup₀, -⟩ :=
    checker_configured ((kept_configured x cfg.load).serve ios hstart).1 h
  exact ⟨hc₀, by rw [checker, hg₀, Option.bind_some, hlookup₀]⟩

/-- An admission of a round finds every checker as the round leaves it. -/
theorem roundAdmissions_checker {lb : LoadBalancer} {io : RoundIo} {a : Admission}
    (ha : a ∈ roundAdmissions x lb io) :
    (poll x io lb).state.checker group server = a.lb.checker group server := by
  unfold roundAdmissions at ha
  split at ha
  · cases ha
  · next hok =>
    obtain ⟨⟨s, e⟩, hstep, rfl⟩ := List.mem_map.mp ha
    -- neither the admissions before this one nor all of them change a checker
    let mid := (serviceStages x io lb).state
    let same : List Event → LoadBalancer → Prop := fun _ s ↦
      s.checker group server = mid.checker group server
    have hkeeps : ∀ e : Nat × PartialConnection,
        Action.Keeps same (complete x e.2 (io.completion e.1)) := fun e _ s hs ↦
      (complete_checker e.2 (io.completion e.1) s).trans hs
    obtain ⟨-, h, hbefore, -⟩ := Action.steps_invariant (I := same) (h := [])
      (fun e _ ↦ hkeeps e) (by rfl) _ hstep
    have hafter : (poll x io lb).state.checker group server = mid.checker group server := by
      rw [poll, Action.andThen_of_ok hok, handlePartialConnections_eq]
      exact Action.forEach_state (P := fun s ↦ s.checker group server = mid.checker group server)
        (fun e _ s hs ↦ hkeeps e [] s hs) rfl
    exact hafter.trans hbefore.symm

/-- A server that an admission chose is healthy there. -/
theorem chosen_healthy {a : Admission} (h : (a.outcome x).chosen = some (group, server)) :
    ∃ hc, a.lb.checker group server = some hc ∧ hc.upstreamState = .healthy := by
  obtain ⟨g, hg, hfind⟩ := chosen_found h
  obtain ⟨hc, hlookup, hhealthy⟩ :=
    ServerGroup.healthyServer_iff.mp (ServerGroup.findMinAndHealthy_healthy hfind)
  exact ⟨hc, by rw [checker, hg, Option.bind_some, hlookup], hhealthy⟩

/-- An admission that a round logs is one of the round. -/
theorem finished_mem_round {lb : LoadBalancer} {io : RoundIo} {pc : PartialConnection} {now : Int}
    {outcome : Completion} (h : .finished pc now outcome ∈ (poll x io lb).log) :
    ∃ a ∈ roundAdmissions x lb io, a.event x = .finished pc now outcome := by
  have hserve : .finished pc now outcome ∈ (serve x [io] lb).log := by
    rw [serve, Action.loop_log]
    simpa [Action.steps] using h
  obtain ⟨a, ha, hevent⟩ := (finished_mem_iff rfl).mp hserve
  exact ⟨a, by simpa [admissions, Action.steps] using ha, hevent⟩

/-- An admission of a round finds a checker as its polls up to that round leave it. -/
theorem checker_of_admission {lb : LoadBalancer} {ios : List RoundIo} {hc : HealthChecker}
    {polls : List (List HealthIo)} (hpolls : PollsOf x ios lb group server hc polls) {n : Nat}
    (hn : n < ios.length) {a : Admission}
    (ha : a ∈ roundAdmissions x (serve x (ios.take n) lb).state ios[n]) :
    a.lb.checker group server =
      some (Action.loop (HealthChecker.step x) (polls.take (n + 1)).flatten hc).state := by
  rw [← roundAdmissions_checker ha]
  have hview := hpolls.state (n + 1)
  rw [Action.loop_take_succ _ _ _ hn] at hview
  exact hview

/-- A server that an admission of a round chooses is healthy after the polls of its checker in
that round. -/
theorem healthy_of_chosen {lb : LoadBalancer} {ios : List RoundIo} {hc : HealthChecker}
    {polls : List (List HealthIo)} (hpolls : PollsOf x ios lb group server hc polls) {n : Nat}
    (hn : n < ios.length) {pc : PartialConnection} {now : Int} {outcome : Completion}
    (hlog : .finished pc now outcome ∈ (poll x ios[n] (serve x (ios.take n) lb).state).log)
    (hchosen : outcome.chosen = some (group, server)) :
    (Action.loop (HealthChecker.step x) (polls.take (n + 1)).flatten hc).state.upstreamState =
      .healthy := by
  obtain ⟨a, ha, hevent⟩ := finished_mem_round hlog
  obtain ⟨-, -, houtcome⟩ := Event.finished.inj hevent
  obtain ⟨hc', hlookup, hhealthy⟩ := chosen_healthy (by rw [houtcome, hchosen])
  obtain rfl := Option.some.inj ((checker_of_admission hpolls hn ha).symm.trans hlookup)
  exact hhealthy

/-- In every run from a configuration: when a server is unhealthy after round `m` and round `n`,
the same or a later one, chooses it for an admission, the polls that the rounds after `m` gave
to its checker end a complete check, on one stream, with a PONG. -/
theorem chosen_after_recovery (x : Externals) (cfg : Configuration) (ios : List RoundIo)
    (m n : Nat) (hmn : m ≤ n) (hn : n < ios.length) (group server : UInt32)
    (hun : ((serve x (ios.take (m + 1)) cfg.load).state.checker group server).map
      HealthChecker.upstreamState = some .unhealthy)
    (pc : PartialConnection) (now : Int) (outcome : Completion)
    (hlog : .finished pc now outcome ∈ (poll x ios[n] (serve x (ios.take n) cfg.load).state).log)
    (hchosen : outcome.chosen = some (group, server)) :
    ∃ addr polls i j,
      PollsOf x ios cfg.load group server (.new server addr) polls ∧
        (polls.take (m + 1)).flatten.length = i + 1 ∧
        (polls.take (n + 1)).flatten.length = j + 1 ∧
        HealthChecker.RecoversBetween x (.new server addr) (polls.take (n + 1)).flatten i j := by
  obtain ⟨hc, hchecker, hun⟩ := Option.map_eq_some_iff.mp hun
  -- the checker was there at the start, as every round keeps the servers
  obtain ⟨hc₀, hstart⟩ := checker_of_serve hchecker
  obtain ⟨addr, rfl⟩ := checker_load hstart
  obtain ⟨polls, hpolls⟩ := checker_projects x ios cfg.load group server _ hstart
  have hhealthy := healthy_of_chosen hpolls hn hlog hchosen
  obtain rfl := Option.some.inj ((hpolls.state (m + 1)).symm.trans hchecker)
  -- the polls up to round `m` are the first ones of those up to round `n`
  have htake : polls.take (m + 1) = (polls.take (n + 1)).take (m + 1) := by
    rw [List.take_take, min_eq_left (by omega)]
  have hsplit : (polls.take (n + 1)).flatten =
      (polls.take (m + 1)).flatten ++ ((polls.take (n + 1)).drop (m + 1)).flatten := by
    rw [htake, ← List.flatten_append, List.take_append_drop]
  obtain ⟨i, j, hi, hj, hrecovers⟩ := HealthChecker.recovers_of_append hun (hsplit ▸ hhealthy)
  exact ⟨addr, polls, i, j, hpolls, hi, hsplit ▸ hj, hsplit ▸ hrecovers⟩

/-- The admission of round 3 chooses the server that failed its check in round 0. -/
theorem chosen_after_recovery_example :
    ∃ addr polls i j,
      PollsOf firstClient recoveringServer oneServer.load 0 0 (.new 0 addr) polls ∧
        (polls.take 1).flatten.length = i + 1 ∧ (polls.take 4).flatten.length = j + 1 ∧
        HealthChecker.RecoversBetween firstClient (.new 0 addr) (polls.take 4).flatten i j :=
  chosen_after_recovery firstClient oneServer recoveringServer 0 3 (by decide) (by decide) 0 0
    (by decide +kernel)
    ⟨⟨0, ⟨[127, 0, 0, 1], 40000⟩⟩, ⟨false, some ⟨[48], []⟩⟩, .completed, some "first@first.com"⟩ 0
    (.placed "first@first.com"
      ⟨⟨0, ⟨[127, 0, 0, 1], 40000⟩⟩, ⟨100, ⟨[127, 0, 0, 1], 2500⟩⟩, ⟨false, some ⟨[48], []⟩⟩,
        .okay, 0, 0⟩)
    (by decide +kernel) rfl

/-! ### Silent servers -/

/-- A new checker is coupled at the start of the clock. -/
theorem coupled_new (serverId : UInt32) (address : String) :
    HealthChecker.Coupled 0 (.new serverId address) := by
  constructor
  · simp [HealthChecker.new]
  · intro ts hts
    rcases hts with h | h
    · cases h
      exact le_rfl
    · cases h
  · intro ts hsent
    cases hsent

/-- A choice is reported by the end of an admission. -/
theorem finished_of_chosen {log : List Event} {choice : UInt32 × UInt32}
    (h : choice ∈ log.filterMap Event.chosen) :
    ∃ pc now outcome, .finished pc now outcome ∈ log ∧ outcome.chosen = some choice := by
  obtain ⟨e, he, hchosen⟩ := List.mem_filterMap.mp h
  cases e with
  | finished pc now outcome => exact ⟨pc, now, outcome, he, hchosen⟩
  | _ => cases hchosen

/-- In every run from a configuration, by a clock that starts at a nonnegative value and never
goes back: when from its poll `p` on nothing is received from the server, the streams opened to it
take their socket options and no write of PING blocks, and it is polled more than 30 seconds later
(`a`), then once more (`b`) and then more than a second after that (`c`), all up to round `n`, no
admission of round `n` chooses it. -/
theorem silent_not_chosen (x : Externals) (cfg : Configuration) (ios : List RoundIo)
    (group server : UInt32) (addr : String) (polls : List (List HealthIo))
    (hpolls : PollsOf x ios cfg.load group server (.new server addr) polls) (n : Nat)
    (hn : n < ios.length) (made : List HealthIo) (hmade : (polls.take (n + 1)).flatten = made)
    (hclock : (0 :: made.map HealthIo.now).Pairwise (· ≤ ·)) (p a b c : Nat)
    (hsilent : ∀ k (hk : k < made.length), p ≤ k → made[k].Silent) (hpa : p ≤ a) (hab : a < b)
    (hbc : b < c) (hc : c < made.length) (hdue : made[a].now > made[p].now + 30)
    (hlate : made[c].now > made[b].now + 1) :
    (group, server) ∉
      (poll x ios[n] (serve x (ios.take n) cfg.load).state).log.filterMap Event.chosen := by
  intro hmem
  obtain ⟨pc, now, outcome, hlog, hchosen⟩ := finished_of_chosen hmem
  have hhealthy := healthy_of_chosen hpolls hn hlog hchosen
  have hun := HealthChecker.silent_unhealthy (x := x) (coupled_new server addr) hclock hsilent hpa
    hab hbc hc le_rfl hdue hlate
  rw [HealthChecker.stateAt, List.take_length, ← hmade, hhealthy] at hun
  cases hun

/-- A server connects and says nothing; a client comes before its PONG is due. -/
def silentServer : List RoundIo :=
  [0, 31, 32, 34].map fun now ↦
    { acceptRound (if now = 32 then [.stream ⟨0, ⟨[127, 0, 0, 1], 40000⟩⟩ {} (.ok ⟨true, none⟩)]
        else []) with
      health := fun _ _ ↦ ⟨now, .ok 3, {}, [.wrote 4], .error .wouldBlock⟩ }

/-- Every round polls the silent server. -/
theorem polls_silentServer :
    PollsOf firstClient silentServer oneServer.load 0 0 (.new 0 "127.0.0.1:2500")
      (silentServer.map fun io ↦ [io.health 0 0]) := by
  apply Part.traced_of_le
  · apply List.forall₂_map_right_iff.mpr
    exact List.forall₂_same.mpr fun io _ ↦ .inr rfl
  · decide +kernel

/-- Every poll of it finds it silent. -/
theorem silent_silentServer : ∀ io ∈ silentServer, (io.health 0 0).Silent := by
  intro io hio
  obtain ⟨now, -, rfl⟩ := List.mem_map.mp hio
  refine ⟨fun _ _ ↦ rfl, ?_, fun buf h ↦ ?_⟩
  · show (writeAll [.wrote 4] pingBytes).2 ≠ .error .wouldBlock
    decide
  · cases h

/-- The client comes when the server has been silent for too long. -/
theorem silent_not_chosen_example :
    (0, 0) ∉ (poll firstClient (silentServer[3])
      (serve firstClient (silentServer.take 3) oneServer.load).state).log.filterMap
        Event.chosen :=
  silent_not_chosen firstClient oneServer silentServer 0 0 "127.0.0.1:2500" _ polls_silentServer 3
    (by decide) (silentServer.map fun io ↦ io.health 0 0) rfl (by decide) 0 1 2 3
    (fun k hk _ ↦ by
      rw [List.getElem_map]
      exact silent_silentServer _ (List.getElem_mem _))
    (by decide) (by decide) (by decide) (by decide) (by decide) (by decide)

end LoadBalancer
end TcpLoadBalancer
