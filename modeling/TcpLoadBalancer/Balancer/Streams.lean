import TcpLoadBalancer.Balancer.Rounds
import TcpLoadBalancer.Lib.Swarm
import TcpLoadBalancer.Relay.Endpoint

/-!
# The streams of a load balancer, side by side

A load balancer moves its streams from list to list, polls them by their position and removes
them by their position. For the streams themselves none of this matters: a load balancer is a
swarm of endpoints, so that every run of it is woven of the lives of the streams that it
accepts, and no byte passes from one stream to another.
-/

namespace TcpLoadBalancer
open Lib Transfer

/-- The bytes that an event reports for its stream. -/
def Event.traffic : Event → List (Transfer Direction)
  | .connectionPolled _ _ traffic => traffic
  | .partialPolled _ bytes => bytes.map (.received .up)
  | _ => []

/-- The events about streams. -/
def Event.ofStream : Event → Option Event
  | .healthPolled _ _ _ => none
  | e => some e

/-- The connection that an admission places. -/
def Completion.placement : Completion → Option (String × Connection)
  | .placed id cxn => some (id, cxn)
  | _ => none

namespace Endpoint

/-- The turn of a stream that an event reports. -/
inductive Acts (x : Externals) : Endpoint → Event → Option Endpoint → Prop where
  | handshake (pc : PartialConnection) (io : PartialIo) (i : Nat) :
      Acts x (handshaking pc) (.partialPolled i (pc.poll x io).log)
        (some (handshaking (pc.poll x io).state))
  | refused (pc : PartialConnection) (now : Int) (outcome : Completion)
      (hcompleted : pc.isCompleted = true) (hplacement : outcome.placement = none) :
      Acts x (handshaking pc) (.finished pc now outcome) none
  | placed (pc : PartialConnection) (now : Int) (id : String) (cxn : Connection)
      (group server : UInt32) (addr : String) (dial : DialIo)
      (hcompleted : pc.isCompleted = true) (hid : pc.clientId = some id)
      (hconvert : Connection.fromPartialConnection x pc group server addr dial = .ok cxn) :
      Acts x (handshaking pc) (.finished pc now (.placed id cxn)) (some (relaying cxn))
  | relay (cxn : Connection) (io : ConnectionIo) (id : String) (i : Nat) :
      Acts x (relaying cxn) (.connectionPolled id i (cxn.poll io).log)
        (some (relaying (cxn.poll io).state))
  | removed (cxn : Connection) (id : String) (branch : Option Removal)
      (hclosed : Client.isClosed cxn = true) :
      Acts x (relaying cxn) (.connectionRemoved id cxn branch) none

/-- What an event reports is a turn of the endpoint, with the same traffic. -/
theorem Acts.turn {x : Externals} {before : Endpoint} {event : Event} {after : Option Endpoint}
    (h : Acts x before event after) : ∃ io, before.turn x io = some (after, event.traffic) := by
  cases h with
  | handshake pc io i => exact ⟨.handshake io, rfl⟩
  | refused pc now outcome hcompleted hplacement =>
    exact ⟨.refusal, by simp [Endpoint.turn, hcompleted, Event.traffic]⟩
  | placed pc now id cxn group server addr dial hcompleted hid hconvert =>
    exact ⟨.admission group server addr dial true,
      by simp [Endpoint.turn, admitted, hcompleted, hconvert, Event.traffic]⟩
  | relay cxn io id i => exact ⟨.relay io, rfl⟩
  | removed cxn id branch hclosed =>
    exact ⟨.removal, by simp [Endpoint.turn, hclosed, Event.traffic]⟩

/-- Endpoints: a stream is accepted and then takes its turns. -/
def species (x : Externals) : Species Endpoint Event where
  born event e := ∃ stream session,
    event = .accepted stream ∧ e = handshaking (.new stream session)
  acts := Acts x

end Endpoint

/-- The connections of a client. -/
def Client.relays (c : Client) : Multiset Endpoint := ↑(c.connections.map Endpoint.relaying)

namespace LoadBalancer

/-- The connections of the clients. -/
def relays (lb : LoadBalancer) : Multiset Endpoint := HashMap.total Client.relays lb.clients

/-- The streams of a load balancer. -/
def endpoints (lb : LoadBalancer) : Multiset Endpoint :=
  ↑(lb.partialConns.map Endpoint.handshaking) + lb.relays

/-- The load balancer moves its streams as its events tell. -/
abbrev Swarmed (x : Externals) (a : Action Error LoadBalancer Event) : Prop :=
  Action.Simulated (Endpoint.species x).Step endpoints Event.ofStream a

variable {x : Externals}

/-! ### The stages -/

/-- Accepting streams. -/
theorem swarmed_handleListener (accepts : List AcceptIo) : Swarmed x (handleListener accepts) := by
  induction accepts with
  | nil => exact Action.simulated_skip
  | cons accept rest ih =>
    intro lb
    cases accept with
    | failed kind => cases kind <;> rfl
    | stream s options session =>
      unfold handleListener
      split
      · rfl
      · split
        · rfl
        · next tlsConn =>
          let lb' : LoadBalancer :=
            { lb with partialConns := lb.partialConns ++ [.new s tlsConn] }
          have hborn : lb'.endpoints = .handshaking (.new s tlsConn) ::ₘ lb.endpoints := by
            simp only [lb', endpoints, relays, List.map_append, List.map_cons, List.map_nil]
            rw [← Multiset.cons_add, Multiset.cons_coe]
            exact congrArg (· + _) (Quotient.sound (List.perm_append_singleton _ _))
          exact ⟨lb'.endpoints, .inl ⟨_, ⟨s, tlsConn, rfl, rfl⟩, hborn⟩, ih lb'⟩

/-- Releasing closed connections ends their streams, and leaves the lists alone. -/
theorem releaseEach_swarmed (id : String) {cxns : List Connection}
    (hclosed : ∀ cxn ∈ cxns, Client.isClosed cxn = true) (lb : LoadBalancer)
    (rest : Multiset Endpoint) :
    Run (Endpoint.species x).Step (↑(cxns.map Endpoint.relaying) + rest)
        ((Action.forEach (releaseConnection id) cxns lb).log.filterMap Event.ofStream) rest ∧
      (Action.forEach (releaseConnection id) cxns lb).state.endpoints = lb.endpoints := by
  induction cxns generalizing lb with
  | nil => exact ⟨by simp [Action.forEach, Action.skip, Outcome.done, Run], rfl⟩
  | cons cxn cxns ih =>
    obtain ⟨hok, hclients, hpartial, -⟩ := releaseConnection_frame id cxn lb
    obtain ⟨hrun, hendpoints⟩ :=
      ih (fun cxn hcxn ↦ hclosed cxn (by simp [hcxn])) (releaseConnection id cxn lb).state
    obtain ⟨branch, hlog⟩ : ∃ branch, (releaseConnection id cxn lb).log =
        [.connectionRemoved id cxn branch] := by
      unfold releaseConnection
      split
      · exact ⟨_, rfl⟩
      · exact ⟨_, rfl⟩
    rw [Action.forEach, Action.andThen_of_ok hok, List.filterMap_append, hlog]
    refine ⟨Run.append (Run.single (.inr
      ⟨.relaying cxn, none, ↑(cxns.map Endpoint.relaying) + rest, ?_, ?_, ?_⟩)) hrun,
      hendpoints.trans ?_⟩
    · exact .removed cxn id branch (hclosed cxn (by simp))
    · rw [List.map_cons, ← Multiset.cons_coe, Multiset.cons_add]
    · simp
    · rw [endpoints, endpoints, relays, relays, hclients, hpartial]

/-- Events about streams. -/
theorem filterMap_ofStream {log : List Event} (h : ∀ e ∈ log, e.ofStream = some e) :
    log.filterMap Event.ofStream = log := by
  rw [List.filterMap_congr h, List.filterMap_some]

/-- A list of polled connections splits into those that a round keeps and those that it ends. -/
theorem relays_serviced (ios : Nat → ConnectionIo) (c : Client) :
    (↑((polledCxns ios c).map Endpoint.relaying) : Multiset Endpoint) =
      ↑((((polledCxns ios c).filter Client.isClosed).reverse).map Endpoint.relaying) +
        (serviced ios c).relays :=
  coe_map_split Client.isClosed Endpoint.relaying (polledCxns ios c)

/-- Servicing a client gives each of its streams a turn and ends the closed ones. -/
theorem swarmed_serviceClient (ios : Nat → ConnectionIo) (id : String) :
    Swarmed x (serviceClient ios id) := by
  intro lb
  cases hc : lb.clients.lookup id with
  | none =>
    simp only [serviceClient, hc, Outcome.done]
    rfl
  | some c =>
    obtain ⟨others, hbefore, hafter⟩ := HashMap.total_split Client.relays hc
    generalize hrest : (↑(lb.partialConns.map Endpoint.handshaking) : Multiset Endpoint) + others =
      rest
    have hstart : lb.endpoints = c.relays + rest := by
      rw [endpoints, relays, hbefore, ← hrest, add_left_comm]
    have hend : endpoints { lb with clients := lb.clients.modify id fun _ ↦ serviced ios c } =
        (serviced ios c).relays + rest := by
      rw [endpoints, relays, hafter, ← hrest, add_left_comm]
    have hpoll : Run (Endpoint.species x).Step (c.relays + rest)
        (c.connections.mapIdx fun i cxn ↦ .connectionPolled id i (cxn.poll (ios i)).log)
        (↑(c.connections.mapIdx fun i cxn ↦ Endpoint.relaying (cxn.poll (ios i)).state) + rest) :=
      Species.run_pass (fun i cxn ↦ Endpoint.Acts.relay cxn (ios i) id i) c.connections rest
    have hclosed : ∀ cxn ∈ ((polledCxns ios c).filter Client.isClosed).reverse,
        Client.isClosed cxn = true := fun cxn hcxn ↦
      (List.mem_filter.mp (List.mem_reverse.mp hcxn)).2
    obtain ⟨hrelease, hendpoints⟩ := releaseEach_swarmed (x := x) id hclosed
      { lb with clients := lb.clients.modify id fun _ ↦ serviced ios c }
      ((serviced ios c).relays + rest)
    rw [serviceClient_of_some ios hc]
    simp only [List.filterMap_append]
    rw [hendpoints, hstart, hend, filterMap_ofStream fun e he ↦ by
      obtain ⟨i, hi, rfl⟩ := List.mem_mapIdx.mp he
      rfl]
    refine Run.append hpoll ?_
    rw [← add_assoc, ← relays_serviced, polledCxns, map_mapIdx] at hrelease
    exact hrelease

/-- Checking a group moves no stream. -/
theorem swarmed_pollGroup (ord : IterOrder UInt32) (ios : UInt32 → HealthIo)
    (group : UInt32) : Swarmed x (pollGroup x ord ios group) := by
  apply Action.simulated_of_silent
  · intro lb e he
    have hstage := pollGroup_stage x ord ios group lb e he
    cases e with
    | healthPolled group server ops => rfl
    | _ => cases hstage
  · intro lb
    obtain ⟨hclients, hpartial, -, -⟩ := pollGroup_frame x ord ios group lb
    rw [endpoints, endpoints, relays, relays, hclients, hpartial]

/-! ### Admissions -/

/-- An admission ends the handshake of its stream. While it runs, its partial connection is
still in the list, so the handshakes are given apart. -/
theorem complete_swarmed {pc : PartialConnection} (hcompleted : pc.isCompleted = true)
    (io : CompletionIo) (lb : LoadBalancer) (rest : Multiset Endpoint) :
    Run (Endpoint.species x).Step (.handshaking pc ::ₘ (rest + lb.relays))
      ((complete x pc io lb).log.filterMap Event.ofStream)
      (rest + (complete x pc io lb).state.relays) := by
  have hadm := completeConnection_admitted x lb pc io
  unfold complete
  generalize lb.completeConnection x pc io = r at hadm
  cases hadm with
  | unrouted o hroute =>
    have hplacement : o.placement = none := by
      rcases route_eq_error hroute with
        ⟨-, rfl⟩ | ⟨_, rfl⟩ | ⟨_, _, rfl⟩ | ⟨_, _, rfl⟩ | ⟨_, _, _, _, rfl, -⟩
      all_goals rfl
    refine Run.single (.inr ⟨_, none, _, .refused pc io.now o hcompleted hplacement, rfl, ?_⟩)
    simp
  | unconverted r e hroute hconvert =>
    refine Run.single (.inr ⟨_, none, _, .refused pc io.now _ hcompleted rfl, rfl, ?_⟩)
    simp
  | offered r cxn hroute hconvert =>
    obtain ⟨hid, hclient, -⟩ := route_eq_ok hroute
    obtain ⟨others, hbefore, hafter⟩ := HashMap.total_split Client.relays hclient
    cases hhit : r.client.rateLimitHit io.now with
    | true =>
      refine Run.single (.inr ⟨_, none, _, .refused pc io.now _ hcompleted rfl, rfl, ?_⟩)
      simp only [relays, hafter, hbefore, Client.addConnection_of_hit cxn hhit]
      simp
    | false =>
      refine Run.single (.inr ⟨_, some (.relaying cxn), _,
        .placed pc io.now r.clientId cxn r.group r.server r.address io.dial hcompleted hid hconvert,
        rfl, ?_⟩)
      have hplaced : (r.client.addConnection io.now cxn).relays =
          .relaying cxn ::ₘ r.client.relays := by
        rw [Client.addConnection_of_free cxn hhit, Client.relays, Client.relays, List.map_append,
          Multiset.cons_coe]
        exact Quotient.sound (List.perm_append_singleton _ _)
      simp only [relays, hafter, hbefore, hplaced, Option.toList_some, Multiset.coe_singleton,
        Multiset.singleton_add, Multiset.cons_add, Multiset.add_cons]

/-- The admissions of a round. -/
theorem completeEach_swarmed (ios : Nat → CompletionIo) {es : List (Nat × PartialConnection)}
    (hcompleted : ∀ e ∈ es, e.2.isCompleted = true) (lb : LoadBalancer)
    (rest : Multiset Endpoint) :
    Run (Endpoint.species x).Step
      (↑(es.map fun e ↦ Endpoint.handshaking e.2) + (rest + lb.relays))
      ((completeEach x ios es lb).log.filterMap Event.ofStream)
      (rest + (completeEach x ios es lb).state.relays) := by
  induction es generalizing lb with
  | nil => simp [completeEach, Action.forEach, Action.skip, Outcome.done, Run]
  | cons e es ih =>
    have hfirst := complete_swarmed (x := x) (hcompleted e (by simp)) (ios e.1) lb
      (↑(es.map fun e ↦ Endpoint.handshaking e.2) + rest)
    have hrest := ih (fun e he ↦ hcompleted e (by simp [he])) (complete x e.2 (ios e.1) lb).state
    rw [completeEach, Action.forEach, Action.andThen_of_ok rfl, List.filterMap_append,
      List.map_cons, ← Multiset.cons_coe, Multiset.cons_add]
    rw [add_assoc, add_assoc] at hfirst
    exact hfirst.append hrest

/-- Driving the partial connections gives each of their streams a turn, and a second one to
those that complete. -/
theorem swarmed_handlePartialConnections (partialIos : Nat → PartialIo)
    (ios : Nat → CompletionIo) : Swarmed x (handlePartialConnections x partialIos ios) := by
  intro lb
  have hpoll : Run (Endpoint.species x).Step lb.endpoints
      (lb.partialConns.mapIdx fun i pc ↦ .partialPolled i (pc.poll x (partialIos i)).log)
      (↑(lb.partialConns.mapIdx fun i pc ↦
        Endpoint.handshaking (pc.poll x (partialIos i)).state) + lb.relays) :=
    Species.run_pass (fun i pc ↦ Endpoint.Acts.handshake pc (partialIos i) i) lb.partialConns
      lb.relays
  rw [handlePartialConnections_eq]
  simp only [List.filterMap_append]
  rw [filterMap_ofStream fun e he ↦ by
    obtain ⟨i, hi, rfl⟩ := List.mem_mapIdx.mp he
    rfl]
  refine Run.append hpoll ?_
  have hpolled : (lb.partialConns.mapIdx fun i pc ↦
      Endpoint.handshaking (pc.poll x (partialIos i)).state) =
        (polledConns x partialIos lb.partialConns).map Endpoint.handshaking :=
    (map_mapIdx _ _ _).symm
  rw [hpolled]
  generalize polledConns x partialIos lb.partialConns = polled
  -- what was polled is what is admitted now and what stays
  have hsplit : (↑(polled.map Endpoint.handshaking) : Multiset Endpoint) =
      ↑((finishedConns polled).map fun e ↦ Endpoint.handshaking e.2) +
        ↑((polled.filter fun pc ↦ !pc.isCompleted).map Endpoint.handshaking) :=
    coe_map_marked_split PartialConnection.isCompleted Endpoint.handshaking polled
  have hcompleted : ∀ e ∈ finishedConns polled, e.2.isCompleted = true := fun e he ↦
    (mem_of_mem_marked (List.mem_reverse.mp he)).2
  rw [hsplit, add_assoc]
  exact completeEach_swarmed ios hcompleted lb _

/-! ### Runs -/

/-- A round. -/
theorem swarmed_poll (x : Externals) (io : RoundIo) : Swarmed x (poll x io) := by
  have hclients : Swarmed x (handleClients io.clientOrder io.connection) := fun lb ↦
    Action.simulated_forEach (fun id _ ↦ swarmed_serviceClient (io.connection id) id) lb
  have hgroups : Swarmed x (handleServerGroups x io.groupOrder io.serverOrder io.health) :=
    fun lb ↦ Action.simulated_forEach
      (fun group _ ↦ swarmed_pollGroup (io.serverOrder group) (io.health group) group) lb
  exact (((swarmed_handleListener io.accepts).andThen hclients).andThen hgroups).andThen
    (swarmed_handlePartialConnections io.partialConn io.completion)

/-- A run of rounds. -/
theorem swarmed_serve (x : Externals) (ios : List RoundIo) : Swarmed x (serve x ios) :=
  Action.simulated_loop (swarmed_poll x) ios

/-- A configuration has no streams. -/
theorem endpoints_load (cfg : Configuration) : cfg.load.endpoints = 0 := by
  have hrelays : cfg.load.relays = 0 := HashMap.total_eq_zero fun id c hc ↦ by
    rw [cfg.initial_load.clients id c hc]
    rfl
  rw [endpoints, hrelays, cfg.initial_load.partialConns]
  rfl

/-- Every run from a configuration is woven of the lives of its streams. -/
theorem streams_woven (x : Externals) (cfg : Configuration) (ios : List RoundIo) :
    ∃ tagged ends, (Endpoint.species x).Woven tagged ends ∧
      tagged.map Prod.snd = (serve x ios cfg.load).log.filterMap Event.ofStream ∧
      (serve x ios cfg.load).state.endpoints = ↑ends.reduceOption := by
  have hrun := swarmed_serve x ios cfg.load
  rw [endpoints_load] at hrun
  obtain ⟨tagged, ends, hwoven, hlabels, hends⟩ :=
    Species.run_woven Species.woven_nil rfl hrun
  exact ⟨tagged, ends, by rwa [List.nil_append] at hwoven, hlabels, hends⟩

/-- What the acts of an endpoint send on are bytes that they received in the same direction. -/
theorem acts_sublist {e : Endpoint} {es : List Event} {e' : Option Endpoint}
    (h : (Endpoint.species x).Acts e es e') (d : Direction) :
    (allSent d (es.flatMap Event.traffic)).Sublist
      (allReceived d (es.flatMap Event.traffic)) := by
  induction es generalizing e with
  | nil => exact List.nil_sublist _
  | cons event es ih =>
    rw [List.flatMap_cons, allSent_append, allReceived_append]
    rcases h with ⟨hact, rfl, -⟩ | ⟨mid, hact, hrest⟩
    · obtain ⟨io, hturn⟩ := Endpoint.Acts.turn hact
      exact (Endpoint.turn_sublist hturn d).append (List.nil_sublist _)
    · obtain ⟨io, hturn⟩ := Endpoint.Acts.turn hact
      exact (Endpoint.turn_sublist hturn d).append (ih hrest)

/-- In every run from a configuration, whatever the clients, the servers and the network do and
whatever errors end a round, the streams live side by side: the events about streams can be
given to the accepted streams, each to one, so that
* those of each stream are a life of its own (handshake polls, one admission, polls of the
  connection, one removal, each going on from the state that the one before has left),
* the streams whose lives have not ended are exactly those that the balancer holds, and
* what is sent on in a direction for a stream are bytes that were received in that direction on
  the same stream, in their order. -/
theorem streams_apart (x : Externals) (cfg : Configuration) (ios : List RoundIo) :
    ∃ tagged ends, (Endpoint.species x).Woven tagged ends ∧
      tagged.map Prod.snd = (serve x ios cfg.load).log.filterMap Event.ofStream ∧
      (serve x ios cfg.load).state.endpoints = ↑ends.reduceOption ∧
      ∀ i < ends.length, ∀ d,
        (allSent d ((Species.labelsOf i tagged).flatMap Event.traffic)).Sublist
          (allReceived d ((Species.labelsOf i tagged).flatMap Event.traffic)) := by
  obtain ⟨tagged, ends, hwoven, hlabels, hends⟩ := streams_woven x cfg ios
  refine ⟨tagged, ends, hwoven, hlabels, hends, fun i hi d ↦ ?_⟩
  obtain ⟨event, e, rest, hlabels, ⟨stream, session, rfl, -⟩, hacts⟩ :=
    hwoven.lives i _ (List.getElem?_eq_getElem hi)
  rw [hlabels, List.flatMap_cons, allSent_append, allReceived_append]
  exact (List.nil_sublist _).append (acts_sublist hacts d)

end LoadBalancer
end TcpLoadBalancer
