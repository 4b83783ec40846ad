import TcpLoadBalancer.Balancer.Selection
import TcpLoadBalancer.Balancer.Stages
import TcpLoadBalancer.Model.Config
import TcpLoadBalancer.Relay.Handshake

/-!
# Runs of rounds

The induction rules of the load balancer. `Kept` lists what a relation between the log and
the state has to survive, one obligation for each stage; it then holds along every run and
at the start of every admission (`admissions`) of the run. The admissions are the `finished`
events of the log in their order; `Follows` is the rule for a relation between the admissions
done so far and the state.
-/

namespace TcpLoadBalancer
open Lib

/-- One admission of a run, with the state in which it starts. -/
structure Admission where
  lb : LoadBalancer
  parCxn : PartialConnection
  io : CompletionIo

namespace Admission

/-- How the admission ends. -/
def outcome (x : Externals) (a : Admission) : Completion :=
  (a.lb.completeConnection x a.parCxn a.io).2

/-- What the admission logs. -/
def event (x : Externals) (a : Admission) : Event := .finished a.parCxn a.io.now (a.outcome x)

end Admission

/-- The events of admissions. -/
def Event.isFinished (e : Event) : Bool := e.stage = .admitting

/-- The events of accepting streams and of driving handshakes. -/
def Event.isQuiet (e : Event) : Bool := e.stage = .accepting ∨ e.stage = .handshaking

namespace LoadBalancer

/-- The admissions of `handle_partial_connections`. -/
def stageAdmissions (x : Externals) (partialIos : Nat → PartialIo) (ios : Nat → CompletionIo)
    (lb : LoadBalancer) : List Admission :=
  (Action.steps (fun e : Nat × PartialConnection ↦ complete x e.2 (ios e.1))
    (finishedConns (polledConns x partialIos lb.partialConns)) lb).map
      fun e ↦ ⟨e.1, e.2.2, ios e.2.1⟩

/-- The admissions of a round; an error of an earlier stage leaves it without any. -/
def roundAdmissions (x : Externals) (lb : LoadBalancer) (io : RoundIo) : List Admission :=
  match (serviceStages x io lb).result with
  | .error _ => []
  | .ok () => stageAdmissions x io.partialConn io.completion (serviceStages x io lb).state

/-- The admissions of a run. -/
def admissions (x : Externals) (ios : List RoundIo) (lb : LoadBalancer) : List Admission :=
  (Action.steps (poll x) ios lb).flatMap fun e ↦ roundAdmissions x e.1 e.2

/-- Every admission succeeds as an action. -/
theorem completeEach_eq_loop (x : Externals) (ios : Nat → CompletionIo)
    (es : List (Nat × PartialConnection)) (lb : LoadBalancer) :
    completeEach x ios es lb = Action.loop (fun e ↦ complete x e.2 (ios e.1)) es lb :=
  Action.forEach_eq_loop (fun _ _ ↦ rfl) es lb

/-- What a relation between the log and the state has to survive to hold along every run.
`Good` is what every partial connection satisfies. -/
structure Kept (x : Externals) (Good : PartialConnection → Prop)
    (I : List Event → LoadBalancer → Prop) : Prop where
  new : ∀ stream session, Good (.new stream session)
  handshake : ∀ pc io, Good pc → Good (pc.poll x io).state
  blind : ∀ h lb pcs, I h lb → I h { lb with partialConns := pcs }
  quiet : ∀ h lb e, e.isQuiet = true → I h lb → I (h ++ [e]) lb
  service : ∀ ios id, Action.Keeps I (serviceClient ios id)
  check : ∀ ord ios group, Action.Keeps I (pollGroup x ord ios group)
  admission : ∀ pc io, Good pc → pc.isCompleted = true → Action.Keeps I (complete x pc io)

/-- A relation between the log and the state next to what the partial connections satisfy. -/
def Holding (Good : PartialConnection → Prop) (I : List Event → LoadBalancer → Prop)
    (h : List Event) (lb : LoadBalancer) : Prop :=
  I h lb ∧ ∀ pc ∈ lb.partialConns, Good pc

namespace Kept

variable {x : Externals} {Good : PartialConnection → Prop}
  {I : List Event → LoadBalancer → Prop}

private theorem quiet_list (hk : Kept x Good I) {h : List Event} {lb : LoadBalancer}
    {es : List Event} (hes : ∀ e ∈ es, e.isQuiet = true) (hI : I h lb) : I (h ++ es) lb := by
  induction es generalizing h with
  | nil => simpa using hI
  | cons e es ih =>
    have hfirst := hk.quiet h lb e (hes e (by simp)) hI
    simpa using ih (fun e' he' ↦ hes e' (by simp [he'])) hfirst

/-- Accepting streams. -/
theorem handleListener (hk : Kept x Good I) (accepts : List AcceptIo) :
    Action.Keeps (Holding Good I) (handleListener accepts) := by
  induction accepts with
  | nil => exact Action.keeps_skip _
  | cons accept rest ih =>
    intro h lb hI
    cases accept with
    | failed kind => cases kind <;> simpa [LoadBalancer.handleListener, Outcome.done] using hI
    | stream s options session =>
      unfold LoadBalancer.handleListener
      split
      · simpa using hI
      · split
        · simpa using hI
        · next tlsConn =>
          have hnext : Holding Good I (h ++ [.accepted s])
              { lb with partialConns := lb.partialConns ++ [.new s tlsConn] } := by
            refine ⟨hk.blind _ _ _ (hk.quiet _ _ _ rfl hI.1), fun pc hpc ↦ ?_⟩
            rcases List.mem_append.mp hpc with hold | hnew
            · exact hI.2 pc hold
            · rw [List.mem_singleton.mp hnew]
              exact hk.new s tlsConn
          simpa using ih _ _ hnext

/-- Servicing the clients. -/
theorem handleClients (hk : Kept x Good I) (ord : IterOrder String)
    (ios : String → Nat → ConnectionIo) :
    Action.Keeps (Holding Good I) (handleClients ord ios) := by
  intro h lb hI
  refine Action.keeps_forEach (fun id _ h' s hs ↦ ⟨hk.service _ _ _ _ hs.1, ?_⟩) h lb hI
  rw [(serviceClient_frame (ios id) id s).2.2.1]
  exact hs.2

/-- Running the health checks. -/
theorem handleServerGroups (hk : Kept x Good I) (ord : IterOrder UInt32)
    (serverOrd : UInt32 → IterOrder UInt32) (ios : UInt32 → UInt32 → HealthIo) :
    Action.Keeps (Holding Good I) (handleServerGroups x ord serverOrd ios) := by
  intro h lb hI
  refine Action.keeps_forEach (fun group _ h' s hs ↦ ⟨hk.check _ _ _ _ _ hs.1, ?_⟩) h lb hI
  rw [(pollGroup_frame x (serverOrd group) (ios group) group s).2.1]
  exact hs.2

/-- The stages that may end a poll early. -/
theorem serviceStages (hk : Kept x Good I) (io : RoundIo) :
    Action.Keeps (Holding Good I) (serviceStages x io) :=
  ((hk.handleListener _).andThen (hk.handleClients _ _)).andThen (hk.handleServerGroups _ _ _)

private theorem good_polled (hk : Kept x Good I) {lb : LoadBalancer}
    (hgood : ∀ pc ∈ lb.partialConns, Good pc) (ios : Nat → PartialIo) :
    ∀ pc ∈ polledConns x ios lb.partialConns, Good pc := by
  intro pc hpc
  obtain ⟨i, hi, rfl⟩ := List.mem_mapIdx.mp hpc
  exact hk.handshake _ _ (hgood _ (List.getElem_mem hi))

private theorem admission_of_finished (hk : Kept x Good I) {pcs : List PartialConnection}
    (hgood : ∀ pc ∈ pcs, Good pc) (ios : Nat → CompletionIo) :
    ∀ e ∈ finishedConns pcs, Action.Keeps I (complete x e.2 (ios e.1)) := by
  intro e he
  obtain ⟨hmem, hdone⟩ := mem_of_mem_marked (List.mem_reverse.mp he)
  exact hk.admission e.2 _ (hgood _ hmem) hdone

private theorem quiet_polled (hk : Kept x Good I) {h : List Event} {lb : LoadBalancer}
    (ios : Nat → PartialIo) (hI : I h lb) :
    I (h ++ lb.partialConns.mapIdx fun i pc ↦ .partialPolled i (pc.poll x (ios i)).log) lb := by
  apply hk.quiet_list _ hI
  intro e he
  obtain ⟨i, hi, rfl⟩ := List.mem_mapIdx.mp he
  rfl

/-- Driving the partial connections. -/
theorem handlePartialConnections (hk : Kept x Good I) (partialIos : Nat → PartialIo)
    (ios : Nat → CompletionIo) :
    Action.Keeps (Holding Good I) (handlePartialConnections x partialIos ios) := by
  intro h lb hI
  have hgood := hk.good_polled hI.2 partialIos
  have hfinished := Action.keeps_forEach (hk.admission_of_finished hgood ios) _ _
    (hk.quiet_polled partialIos hI.1)
  rw [handlePartialConnections_eq]
  refine ⟨?_, fun pc hpc ↦ hgood pc (List.mem_filter.mp hpc).1⟩
  rw [← List.append_assoc]
  exact hk.blind _ _ _ hfinished

/-- A whole round. -/
theorem poll (hk : Kept x Good I) (io : RoundIo) :
    Action.Keeps (Holding Good I) (poll x io) :=
  (hk.serviceStages io).andThen (hk.handlePartialConnections _ _)

/-- A run from a state with nothing logged yet. -/
theorem serve (hk : Kept x Good I) (ios : List RoundIo) {lb : LoadBalancer}
    (hI : Holding Good I [] lb) :
    Holding Good I (serve x ios lb).log (serve x ios lb).state :=
  Action.loop_invariant (fun io _ ↦ hk.poll io) hI

/-- Every admission of a run starts in a state that the relation holds of, with a history that
its event continues, and with a completed partial connection. -/
theorem admissions (hk : Kept x Good I) (ios : List RoundIo) {lb : LoadBalancer}
    (hI : Holding Good I [] lb) :
    ∀ a ∈ admissions x ios lb,
      (∃ h, I h a.lb ∧ h ++ [a.event x] <+: (LoadBalancer.serve x ios lb).log) ∧
        Good a.parCxn ∧ a.parCxn.isCompleted = true := by
  intro a ha
  obtain ⟨⟨s, io⟩, hstep, ha⟩ := List.mem_flatMap.mp ha
  obtain ⟨-, h, hs, hround⟩ := Action.steps_invariant (fun io _ ↦ hk.poll io) hI _ hstep
  have hmid := hk.serviceStages io h s hs
  unfold roundAdmissions at ha
  split at ha
  · cases ha
  · next hok =>
    obtain ⟨⟨s', e⟩, hstep', rfl⟩ := List.mem_map.mp ha
    have hgood := hk.good_polled hmid.2 io.partialConn
    have hpolled := hk.quiet_polled io.partialConn hmid.1
    obtain ⟨hmem, h', hI', hstage⟩ := Action.steps_invariant
      (hk.admission_of_finished hgood io.completion) hpolled _ hstep'
    obtain ⟨hin, hdone⟩ := mem_of_mem_marked (List.mem_reverse.mp hmem)
    refine ⟨⟨h', hI', hstage.trans ?_⟩, hgood _ hin, hdone⟩
    simp only [LoadBalancer.poll, Action.andThen_of_ok hok, handlePartialConnections_eq,
      completeEach_eq_loop, ← List.append_assoc] at hround
    exact hround

end Kept

/-! ### Admissions and the log -/

private theorem round_finished (x : Externals) (lb : LoadBalancer) (io : RoundIo) :
    (poll x io lb).log.filter Event.isFinished =
      (roundAdmissions x lb io).map (Admission.event x) := by
  have hstages : (serviceStages x io lb).log.filter Event.isFinished = [] :=
    List.filter_eq_nil_iff.mpr fun e he ↦ by
      simp [Event.isFinished, (serviceStages_stage x io lb e he).2]
  unfold roundAdmissions poll
  split
  · next e he =>
    rw [Action.andThen_of_error he]
    exact hstages
  · next he =>
    rw [Action.andThen_of_ok he, List.filter_append, hstages, handlePartialConnections_eq,
      List.filter_append, completeEach_eq_loop, Action.loop_log]
    have hquiet : ((serviceStages x io lb).state.partialConns.mapIdx fun i pc ↦
        Event.partialPolled i (pc.poll x (io.partialConn i)).log).filter Event.isFinished = [] := by
      apply List.filter_eq_nil_iff.mpr
      intro e he
      obtain ⟨i, hi, rfl⟩ := List.mem_mapIdx.mp he
      simp [Event.isFinished, Event.stage]
    rw [hquiet, stageAdmissions, List.map_map, List.nil_append, List.nil_append,
      List.filter_flatMap, List.map_eq_flatMap]
    rfl

/-- The admissions of a run are the `finished` events of its log. -/
theorem finished_log (x : Externals) (ios : List RoundIo) (lb : LoadBalancer) :
    (serve x ios lb).log.filter Event.isFinished =
      (admissions x ios lb).map (Admission.event x) := by
  rw [serve, Action.loop_log, admissions, List.filter_flatMap, List.map_flatMap]
  exact congrArg (fun f ↦ List.flatMap f (Action.steps (poll x) ios lb))
    (funext fun e ↦ round_finished x e.1 e.2)

/-- An admission is logged exactly when it is one of the run. -/
theorem finished_mem_iff {x : Externals} {ios : List RoundIo} {lb : LoadBalancer} {e : Event}
    (he : e.isFinished = true) :
    e ∈ (serve x ios lb).log ↔ ∃ a ∈ admissions x ios lb, a.event x = e := by
  rw [← List.mem_map, ← finished_log, List.mem_filter]
  simp only [he, and_true]

/-! ### The admissions along a run -/

/-- What a relation between the admissions done so far and the state has to survive to hold along
every run. -/
structure Follows (x : Externals) (J : List Admission → LoadBalancer → Prop) : Prop where
  blind : ∀ as lb pcs, J as lb → J as { lb with partialConns := pcs }
  service : ∀ ios id as lb, J as lb → J as (serviceClient ios id lb).state
  check : ∀ ord ios group as lb, J as lb → J as (pollGroup x ord ios group lb).state
  admission : ∀ pc io as lb, J as lb → J (as ++ [⟨lb, pc, io⟩]) (complete x pc io lb).state

namespace Follows

variable {x : Externals} {J : List Admission → LoadBalancer → Prop}

/-- The stages that may end a poll early admit nothing. -/
theorem serviceStages (hJ : Follows x J) (io : RoundIo) {as : List Admission} {lb : LoadBalancer}
    (h : J as lb) : J as (serviceStages x io lb).state := by
  have hlistener : J as (handleListener io.accepts lb).state := by
    rw [(handleListener_spec io.accepts lb).2.1]
    exact hJ.blind _ _ _ h
  have hclients : ∀ s, J as s → J as (handleClients io.clientOrder io.connection s).state :=
    fun s hs ↦ Action.forEach_state (fun id _ s' hs' ↦ hJ.service _ id as s' hs') hs
  have hgroups : ∀ s, J as s →
      J as (handleServerGroups x io.groupOrder io.serverOrder io.health s).state := fun s hs ↦
    Action.forEach_state (fun group _ s' hs' ↦ hJ.check _ _ group as s' hs') hs
  exact Action.andThen_state (Action.andThen_state hlistener hclients) hgroups

/-- A whole round. -/
theorem poll (hJ : Follows x J) (io : RoundIo) {as : List Admission} {lb : LoadBalancer}
    (h : J as lb) : J (as ++ roundAdmissions x lb io) (poll x io lb).state := by
  have hstages := hJ.serviceStages io h
  unfold roundAdmissions LoadBalancer.poll
  split
  · next e he =>
    rw [Action.andThen_of_error he, List.append_nil]
    exact hstages
  · next he =>
    rw [Action.andThen_of_ok he, handlePartialConnections_eq, completeEach_eq_loop]
    apply hJ.blind
    have hstep : ∀ (es : List (LoadBalancer × Nat × PartialConnection)) s
        (e : Nat × PartialConnection),
        J (as ++ es.map fun e ↦ ⟨e.1, e.2.2, io.completion e.2.1⟩) s →
        J (as ++ (es ++ [(s, e)]).map fun e ↦ ⟨e.1, e.2.2, io.completion e.2.1⟩)
          (complete x e.2 (io.completion e.1) s).state := by
      intro es s e hs
      simpa using hJ.admission e.2 (io.completion e.1) _ s hs
    exact Action.loop_steps hstep _ (by simpa using hstages)

/-- A run from a state without admissions yet. -/
theorem serve (hJ : Follows x J) (ios : List RoundIo) {lb : LoadBalancer} (h : J [] lb) :
    J (admissions x ios lb) (serve x ios lb).state := by
  have hround : ∀ (es : List (LoadBalancer × RoundIo)) s io,
      J (es.flatMap fun e ↦ roundAdmissions x e.1 e.2) s →
      J ((es ++ [(s, io)]).flatMap fun e ↦ roundAdmissions x e.1 e.2)
        (LoadBalancer.poll x io s).state := by
    intro es s io hs
    simpa using hJ.poll io hs
  exact Action.loop_steps hround ios h

end Follows

/-! ### The configuration along a run -/

/-- The clients' groups, the servers and their checkers are those of `lb₀`. -/
def Configured (lb₀ : LoadBalancer) (_ : List Event) (lb : LoadBalancer) : Prop :=
  (∀ id, lb.groupOf id = lb₀.groupOf id) ∧ ∀ group, lb.tablesOf group = lb₀.tablesOf group

private theorem addConnection_group (c : Client) (now : Int) (cxn : Connection) :
    (c.addConnection now cxn).allowedServerGroup = c.allowedServerGroup := by
  cases hhit : c.rateLimitHit now with
  | true => rw [Client.addConnection_of_hit cxn hhit]
  | false => rw [Client.addConnection_of_free cxn hhit]

private theorem addConnection_tables (g : ServerGroup) (s : UInt32) :
    (g.addConnection s).tables = g.tables := by
  unfold ServerGroup.addConnection
  split <;> rfl

/-- No stage changes the configuration, and every partial connection is sound. -/
theorem kept_configured (x : Externals) (lb₀ : LoadBalancer) :
    Kept x (PartialConnection.Sound x) (Configured lb₀) where
  new := PartialConnection.sound_new x
  handshake pc io hpc := PartialConnection.sound_poll hpc io
  blind _ _ _ hI := hI
  quiet _ _ _ _ hI := hI
  service ios id h lb hI := by
    obtain ⟨-, hclients, -, hservers⟩ := serviceClient_frame ios id lb
    refine ⟨fun k ↦ ?_, fun group ↦ (tablesOf_of_serversOf (hservers.2 group)).trans (hI.2 group)⟩
    rw [← hI.1 k, groupOf, hclients]
    exact HashMap.map_lookup_modify (f := serviced ios) (fun _ _ ↦ rfl) k
  check ord ios group h lb hI := by
    obtain ⟨hclients, -, htables, -⟩ := pollGroup_frame x ord ios group lb
    refine ⟨fun k ↦ ?_, fun k ↦ (htables k).trans (hI.2 k)⟩
    rw [groupOf, hclients]
    exact hI.1 k
  admission pc io _ _ h lb hI := by
    apply complete_state (P := Configured lb₀ h) hI
    intro r cxn hroute hconvert
    constructor
    · intro k
      rw [← hI.1 k]
      exact HashMap.map_lookup_modify (fun c _ ↦ addConnection_group c io.now cxn) k
    · intro group
      rw [← hI.2 group]
      exact HashMap.map_lookup_modify (fun g _ ↦ addConnection_tables g r.server) group

/-- Every admission of a run from a configuration starts with that configuration and with a
partial connection that is sound and completed. -/
theorem configured_admissions (x : Externals) (cfg : Configuration) (ios : List RoundIo) :
    ∀ a ∈ admissions x ios cfg.load,
      Configured cfg.load [] a.lb ∧ a.parCxn.Sound x ∧ a.parCxn.isCompleted = true := by
  intro a ha
  have hstart : Holding (PartialConnection.Sound x) (Configured cfg.load) [] cfg.load := by
    refine ⟨⟨fun _ ↦ rfl, fun _ ↦ rfl⟩, fun pc hpc ↦ ?_⟩
    rw [cfg.initial_load.partialConns] at hpc
    cases hpc
  obtain ⟨⟨h, hI, -⟩, hgood, hdone⟩ := (kept_configured x cfg.load).admissions ios hstart a ha
  exact ⟨hI, hgood, hdone⟩

/-- A server that the forwarder chooses in a configured group has a registered address. -/
theorem chosen_registered {cfg : Configuration} {lb : LoadBalancer}
    (hI : Configured cfg.load [] lb) {group server : UInt32} {g : ServerGroup}
    {diffOrder cntrOrder : IterOrder UInt32} (hg : lb.serverGroups.lookup group = some g)
    (hfind : g.findMinAndHealthy diffOrder cntrOrder = some server) :
    ∃ g₀ addr, cfg.load.serverGroups.lookup group = some g₀ ∧ g.serverAddrs = g₀.serverAddrs ∧
      g₀.serverAddrs.lookup server = some addr := by
  have htables := hI.2 group
  rw [tablesOf, tablesOf, hg, Option.map_some] at htables
  obtain ⟨g₀, hg₀, hsame⟩ := Option.map_eq_some_iff.mp htables.symm
  simp only [ServerGroup.tables, Prod.mk.injEq] at hsame
  obtain ⟨hc, hlookup, -⟩ :=
    ServerGroup.healthyServer_iff.mp (ServerGroup.findMinAndHealthy_healthy hfind)
  have hkey : server ∈ g₀.serverHealth.keys := by
    rw [hsame.2]
    exact HashMap.mem_keys_iff.mpr ⟨hc, hlookup⟩
  obtain ⟨addr, haddr⟩ :=
    ((cfg.initial_load.groups group g₀ hg₀).checked server).mpr (HashMap.mem_keys_iff.mp hkey)
  exact ⟨g₀, addr, hg₀, hsame.1.symm, haddr⟩

/-! ### A sample run -/

/-- One client and one server group with one server. -/
def oneServer : Configuration := ⟨[("first@first.com", 0)], [(0, [(0, "127.0.0.1:2500")])]⟩

/-- A round in which streams are accepted and handshakes finish, and no socket is ready. -/
def acceptRound (accepts : List AcceptIo) : RoundIo where
  accepts
  clientOrder := .stored
  connection := fun _ _ ↦ ⟨.error .wouldBlock, [], .error .wouldBlock, [], ⟨false, none⟩⟩
  groupOrder := .stored
  serverOrder := fun _ ↦ .stored
  health := fun _ _ ↦ ⟨0, .error .wouldBlock, {}, [], .error .wouldBlock⟩
  partialConn := fun _ ↦ ⟨.error .wouldBlock, ⟨false, some ⟨[48], []⟩⟩⟩
  completion := fun i ↦ ⟨.stored, .stored, ⟨.ok (100 + i), {}⟩, 0, 0⟩

/-- `n` streams are accepted and finish their handshakes in one round, and are admitted in
the next one. -/
def acceptAndAdmit (n : Nat) : List RoundIo :=
  [acceptRound ((List.range n).map fun i ↦
      .stream ⟨i, ⟨[127, 0, 0, 1], 40000⟩⟩ {} (.ok ⟨true, none⟩)),
    acceptRound []]

end LoadBalancer
end TcpLoadBalancer
