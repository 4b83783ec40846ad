import TcpLoadBalancer.Model.LoadBalancer

/-!
# The stages of a round

What each stage of a poll does and what it leaves alone: servicing a client and releasing
what was removed from it, checking a group, and admitting a completed partial connection.
The configured part of the state, `groupOf` and `tablesOf`, is left alone by all of them.
-/

namespace TcpLoadBalancer
open Lib

/-- The configured part of a server group: its addresses and the servers it checks. -/
def ServerGroup.tables (g : ServerGroup) : HashMap UInt32 String × List UInt32 :=
  (g.serverAddrs, g.serverHealth.keys)

/-- The parts of a round. -/
inductive Stage where
  | accepting
  | servicing
  | checking
  | handshaking
  | admitting
  deriving DecidableEq

/-- The part of a round that an event comes from. -/
def Event.stage : Event → Stage
  | .accepted _ => .accepting
  | .connectionPolled _ _ _ => .servicing
  | .connectionRemoved _ _ _ => .servicing
  | .healthPolled _ _ _ => .checking
  | .partialPolled _ _ => .handshaking
  | .finished _ _ _ => .admitting

/-- Health checks change the checkers only, and keep which servers have one. -/
theorem ServerGroup.poll_frame (x : Externals) (ord : IterOrder UInt32)
    (ios : UInt32 → HealthIo) (g : ServerGroup) :
    (g.poll x ord ios).state.tables = g.tables ∧
      (g.poll x ord ios).state.cxnCntr = g.cxnCntr := by
  apply Action.forEach_state (P := fun s : ServerGroup ↦ s.tables = g.tables ∧
    s.cxnCntr = g.cxnCntr)
  · intro id _ s hs
    cases hc : s.serverHealth.lookup id with
    | none => simpa [pollServer, hc, Outcome.done] using hs
    | some hc' => simpa [pollServer, hc, tables] using hs
  · exact ⟨rfl, rfl⟩

namespace LoadBalancer

/-- The server group a client is configured with. -/
def groupOf (lb : LoadBalancer) (id : String) : Option UInt32 :=
  (lb.clients.lookup id).map Client.allowedServerGroup

/-- The configured part of a server group of the balancer. -/
def tablesOf (lb : LoadBalancer) (group : UInt32) : Option (HashMap UInt32 String × List UInt32) :=
  (lb.serverGroups.lookup group).map ServerGroup.tables

/-- A server group of the balancer without its counters. -/
def serversOf (lb : LoadBalancer) (group : UInt32) :
    Option (HashMap UInt32 String × HashMap UInt32 HealthChecker) :=
  (lb.serverGroups.lookup group).map fun g ↦ (g.serverAddrs, g.serverHealth)

/-- What keeps the addresses and the checkers keeps the configured part. -/
theorem tablesOf_of_serversOf {lb lb' : LoadBalancer} {group : UInt32}
    (h : lb'.serversOf group = lb.serversOf group) : lb'.tablesOf group = lb.tablesOf group := by
  have hkeys := congrArg (Option.map fun t : HashMap UInt32 String × HashMap UInt32 HealthChecker ↦
    (t.1, t.2.keys)) h
  simp only [serversOf, Option.map_map] at hkeys
  exact hkeys

/-- The same groups with the same addresses and checkers: only counters may differ. -/
def SameServers (lb lb' : LoadBalancer) : Prop :=
  lb'.serverGroups.keys = lb.serverGroups.keys ∧ ∀ group, lb'.serversOf group = lb.serversOf group

/-! ### Accepting streams -/

/-- The partial connections of the streams accepted before the accept loop ends. -/
def acceptedConns : List AcceptIo → List PartialConnection
  | .stream s options session :: rest =>
    match options.set, session with
    | .ok (), .ok tlsConn => .new s tlsConn :: acceptedConns rest
    | _, _ => []
  | _ => []

/-- The accept loop ends with an error: of the listener, of a socket option or of a session. -/
def listenerFails : List AcceptIo → Bool
  | [] => false
  | .failed .wouldBlock :: _ => false
  | .failed _ :: _ => true
  | .stream _ options session :: rest =>
    match options.set, session with
    | .ok (), .ok _ => listenerFails rest
    | _, _ => true

/-- The listener adds the accepted streams as partial connections, whether it fails or not. -/
theorem handleListener_spec (accepts : List AcceptIo) (lb : LoadBalancer) :
    ((handleListener accepts lb).result = .ok () ↔ listenerFails accepts = false) ∧
      (handleListener accepts lb).state =
        { lb with partialConns := lb.partialConns ++ acceptedConns accepts } ∧
      ∀ e ∈ (handleListener accepts lb).log, e.stage = .accepting := by
  induction accepts generalizing lb with
  | nil => simp [handleListener, listenerFails, acceptedConns, Outcome.done]
  | cons accept rest ih =>
    cases accept with
    | failed kind =>
      cases kind <;> simp [handleListener, listenerFails, acceptedConns, Outcome.done]
    | stream s options session =>
      cases ho : options.set with
      | error e => simp [handleListener, listenerFails, acceptedConns, ho]
      | ok u =>
        cases hs : session with
        | error e => simp [handleListener, listenerFails, acceptedConns, ho]
        | ok tlsConn =>
          have hrest := ih { lb with partialConns := lb.partialConns ++ [.new s tlsConn] }
          simpa [handleListener, listenerFails, acceptedConns, ho, Event.stage] using hrest

/-- Every accepted stream starts in `INIT`. -/
theorem acceptedConns_init {accepts : List AcceptIo} {pc : PartialConnection}
    (h : pc ∈ acceptedConns accepts) : pc.state = .init := by
  induction accepts with
  | nil => cases h
  | cons accept rest ih =>
    cases accept with
    | failed kind => cases h
    | stream s options session =>
      unfold acceptedConns at h
      split at h
      · rcases List.mem_cons.mp h with rfl | hrest
        · rfl
        · exact ih hrest
      · cases h

/-! ### Servicing a client -/

/-- The connections of a client after the polls of a round. -/
def polledCxns (ios : Nat → ConnectionIo) (c : Client) : List Connection :=
  c.connections.mapIdx fun i cxn ↦ (cxn.poll (ios i)).state

/-- A client after it was serviced. -/
def serviced (ios : Nat → ConnectionIo) (c : Client) : Client :=
  { c with connections := (polledCxns ios c).filter fun cxn ↦ !Client.isClosed cxn }

/-- A release changes counters only. -/
theorem releaseConnection_frame (id : String) (cxn : Connection) (lb : LoadBalancer) :
    (releaseConnection id cxn lb).result = .ok () ∧
      (releaseConnection id cxn lb).state.clients = lb.clients ∧
      (releaseConnection id cxn lb).state.partialConns = lb.partialConns ∧
      SameServers lb (releaseConnection id cxn lb).state := by
  cases hg : lb.serverGroups.lookup cxn.getUpstreamServerGroup with
  | none => simp only [releaseConnection, hg, SameServers, implies_true, and_self]
  | some g =>
    simp only [releaseConnection, hg, SameServers, HashMap.keys_modify, true_and]
    apply HashMap.map_lookup_modify
    intro v hv
    obtain rfl : g = v := Option.some.inj (hg.symm.trans hv)
    unfold ServerGroup.removeConnection
    repeat' split
    all_goals rfl

/-- Servicing a client polls all of its connections, keeps the open ones and releases the
closed ones, the last one first. -/
theorem serviceClient_of_some (ios : Nat → ConnectionIo) {id : String} {lb : LoadBalancer}
    {c : Client} (hc : lb.clients.lookup id = some c) :
    let released := Action.forEach (releaseConnection id)
      ((polledCxns ios c).filter Client.isClosed).reverse
      { lb with clients := lb.clients.modify id fun _ ↦ serviced ios c }
    serviceClient ios id lb =
      ⟨.ok (), released.state,
        (c.connections.mapIdx fun i cxn ↦ .connectionPolled id i (cxn.poll (ios i)).log) ++
          released.log⟩ := by
  intro released
  have hok : released.result = .ok () :=
    Action.forEach_ok (fun cxn lb ↦ (releaseConnection_frame id cxn lb).1) _ _
  simp only [serviceClient, hc, Client.poll_eq, Client.cleanupConnections_eq, map_mapIdx]
  rw [← hok]
  rfl

/-- Servicing a client changes its connections and counters only, and never fails. -/
theorem serviceClient_frame (ios : Nat → ConnectionIo) (id : String) (lb : LoadBalancer) :
    (serviceClient ios id lb).result = .ok () ∧
      (serviceClient ios id lb).state.clients = lb.clients.modify id (serviced ios) ∧
      (serviceClient ios id lb).state.partialConns = lb.partialConns ∧
      SameServers lb (serviceClient ios id lb).state := by
  cases hc : lb.clients.lookup id with
  | none => simp [serviceClient, hc, Outcome.done, HashMap.modify_of_none hc, SameServers]
  | some c =>
    rw [serviceClient_of_some ios hc,
      HashMap.modify_congr (g := fun _ ↦ serviced ios c) hc rfl]
    refine ⟨rfl, ?_⟩
    apply Action.forEach_state
      (P := fun s : LoadBalancer ↦
        s.clients = lb.clients.modify id (fun _ ↦ serviced ios c) ∧
          s.partialConns = lb.partialConns ∧ SameServers lb s)
    · intro cxn _ s hs
      obtain ⟨-, hclients, hpartial, hservers⟩ := releaseConnection_frame id cxn s
      exact ⟨hclients.trans hs.1, hpartial.trans hs.2.1, hservers.1.trans hs.2.2.1,
        fun group ↦ (hservers.2 group).trans (hs.2.2.2 group)⟩
    · exact ⟨rfl, rfl, rfl, fun _ ↦ rfl⟩

/-- A release logs a removal. -/
theorem releaseConnection_stage (id : String) (cxn : Connection) (lb : LoadBalancer) :
    ∀ e ∈ (releaseConnection id cxn lb).log, e.stage = .servicing := by
  unfold releaseConnection
  split <;> simp [Event.stage]

/-- Servicing a client logs polls and removals. -/
theorem serviceClient_stage (ios : Nat → ConnectionIo) (id : String) (lb : LoadBalancer) :
    ∀ e ∈ (serviceClient ios id lb).log, e.stage = .servicing := by
  cases hc : lb.clients.lookup id with
  | none => simp [serviceClient, hc, Outcome.done]
  | some c =>
    rw [serviceClient_of_some ios hc]
    intro e he
    rcases List.mem_append.mp he with hpoll | hrelease
    · obtain ⟨i, hi, rfl⟩ := List.mem_mapIdx.mp hpoll
      rfl
    · exact Action.forEach_log (fun cxn lb ↦ releaseConnection_stage id cxn lb) _ _ e hrelease

/-! ### Checking a group -/

/-- Checking a group changes the verdicts of its servers only. -/
theorem pollGroup_frame (x : Externals) (ord : IterOrder UInt32) (ios : UInt32 → HealthIo)
    (group : UInt32) (lb : LoadBalancer) :
    (pollGroup x ord ios group lb).state.clients = lb.clients ∧
      (pollGroup x ord ios group lb).state.partialConns = lb.partialConns ∧
      (∀ k, (pollGroup x ord ios group lb).state.tablesOf k = lb.tablesOf k) ∧
      ∀ k, ((pollGroup x ord ios group lb).state.serverGroups.lookup k).map ServerGroup.cxnCntr =
        (lb.serverGroups.lookup k).map ServerGroup.cxnCntr := by
  cases hg : lb.serverGroups.lookup group with
  | none => simp [pollGroup, hg, Outcome.done]
  | some g =>
    obtain ⟨htables, hcntr⟩ := ServerGroup.poll_frame x ord ios g
    have hself : ∀ v, lb.serverGroups.lookup group = some v → v = g := fun v hv ↦
      Option.some.inj (hv.symm.trans hg)
    simp only [pollGroup, hg, true_and]
    refine ⟨HashMap.map_lookup_modify fun v hv ↦ ?_, HashMap.map_lookup_modify fun v hv ↦ ?_⟩
    · rw [hself v hv, htables]
    · rw [hself v hv, hcntr]

/-- Checking a group logs health checks. -/
theorem pollGroup_stage (x : Externals) (ord : IterOrder UInt32) (ios : UInt32 → HealthIo)
    (group : UInt32) (lb : LoadBalancer) :
    ∀ e ∈ (pollGroup x ord ios group lb).log, e.stage = .checking := by
  unfold pollGroup
  split
  · simp [Outcome.done]
  · intro e he
    obtain ⟨p, -, rfl⟩ := List.mem_map.mp he
    rfl

/-! ### The stages before the partial connections -/

/-- The stages before the partial connections leave these as they find them, with the accepted
streams added. -/
theorem serviceStages_partialConns (x : Externals) (io : RoundIo) (lb : LoadBalancer) :
    (serviceStages x io lb).state.partialConns = lb.partialConns ++ acceptedConns io.accepts := by
  let P : LoadBalancer → Prop := fun s ↦
    s.partialConns = lb.partialConns ++ acceptedConns io.accepts
  have hlistener : P (handleListener io.accepts lb).state := by
    rw [(handleListener_spec io.accepts lb).2.1]
  have hclients : ∀ s, P s → P (handleClients io.clientOrder io.connection s).state := fun s hs ↦
    Action.forEach_state (P := P)
      (fun id _ s' hs' ↦ (serviceClient_frame (io.connection id) id s').2.2.1.trans hs') hs
  have hgroups : ∀ s, P s →
      P (handleServerGroups x io.groupOrder io.serverOrder io.health s).state := fun s hs ↦
    Action.forEach_state (P := P)
      (fun group _ s' hs' ↦ (pollGroup_frame x (io.serverOrder group) (io.health group) group
        s').2.1.trans hs') hs
  exact Action.andThen_state (Action.andThen_state hlistener hclients) hgroups

/-- The stages before the partial connections log nothing about these. -/
theorem serviceStages_stage (x : Externals) (io : RoundIo) (lb : LoadBalancer) :
    ∀ e ∈ (serviceStages x io lb).log, e.stage ≠ .handshaking ∧ e.stage ≠ .admitting := by
  let Q : Event → Prop := fun e ↦ e.stage ≠ .handshaking ∧ e.stage ≠ .admitting
  have hlistener : ∀ s, ∀ e ∈ (handleListener io.accepts s).log, Q e := by
    intro s e he
    simp [Q, (handleListener_spec io.accepts s).2.2 e he]
  have hclients : ∀ s, ∀ e ∈ (handleClients io.clientOrder io.connection s).log, Q e := by
    intro s
    apply Action.forEach_log
    intro id s e he
    simp [Q, serviceClient_stage _ id s e he]
  have hgroups : ∀ s, ∀ e ∈ (handleServerGroups x io.groupOrder io.serverOrder io.health s).log,
      Q e := by
    intro s
    apply Action.forEach_log
    intro group s e he
    simp [Q, pollGroup_stage x _ _ group s e he]
  exact Action.andThen_log (Q := Q) (Action.andThen_log hlistener hclients) hgroups lb

/-! ### Admitting a completed partial connection -/

/-- The lookups of an admission that lead to a server. -/
theorem route_eq_ok {lb : LoadBalancer} {pc : PartialConnection} {io : CompletionIo} {r : Route}
    (h : lb.route pc io = .ok r) :
    pc.clientId = some r.clientId ∧ lb.clients.lookup r.clientId = some r.client ∧
      r.group = r.client.allowedServerGroup ∧
      ∃ g, lb.serverGroups.lookup r.group = some g ∧
        g.findMinAndHealthy io.diffOrder io.cntrOrder = some r.server ∧
        g.serverAddrs.lookup r.server = some r.address := by
  unfold route at h
  split at h
  · cases h
  · next id hid =>
    split at h
    · cases h
    · next client hclient =>
      split at h
      · cases h
      · next g hg =>
        split at h
        · cases h
        · next server hserver =>
          split at h
          · cases h
          · next addr haddr =>
            obtain rfl := Except.ok.inj h
            exact ⟨hid, hclient, rfl, g, hg, hserver, haddr⟩

/-- The lookups of an admission that lead nowhere. -/
theorem route_eq_error {lb : LoadBalancer} {pc : PartialConnection} {io : CompletionIo}
    {o : Completion} (h : lb.route pc io = .error o) :
    (pc.clientId = none ∧ o = .noEmail) ∨
    (∃ id, o = .clientNotFound id) ∨ (∃ id group, o = .groupNotFound id group) ∨
    (∃ id group, o = .noHealthyServer id group) ∨
    ∃ id group server g, o = .noAddress id group server ∧
      lb.serverGroups.lookup group = some g ∧
      g.findMinAndHealthy io.diffOrder io.cntrOrder = some server ∧
      g.serverAddrs.lookup server = none := by
  unfold route at h
  split at h
  · next hid => exact .inl ⟨hid, (Except.error.inj h).symm⟩
  · next id hid =>
    split at h
    · exact .inr (.inl ⟨id, (Except.error.inj h).symm⟩)
    · next client hclient =>
      split at h
      · exact .inr (.inr (.inl ⟨id, _, (Except.error.inj h).symm⟩))
      · next g hg =>
        split at h
        · exact .inr (.inr (.inr (.inl ⟨id, _, (Except.error.inj h).symm⟩)))
        · next server hserver =>
          split at h
          · next haddr =>
            exact .inr (.inr (.inr (.inr
              ⟨id, _, server, g, (Except.error.inj h).symm, hg, hserver, haddr⟩)))
          · cases h

/-- How an admission ends: without a route, without a connection, or with a connection that
is counted and offered to the client, which refuses it by its rate limit or takes it. -/
inductive Admitted (x : Externals) (lb : LoadBalancer) (pc : PartialConnection)
    (io : CompletionIo) : LoadBalancer × Completion → Prop where
  | unrouted (o : Completion) (hroute : lb.route pc io = .error o) : Admitted x lb pc io (lb, o)
  | unconverted (r : Route) (e : Error) (hroute : lb.route pc io = .ok r)
      (hconvert : Connection.fromPartialConnection x pc r.group r.server r.address io.dial =
        .error e) :
      Admitted x lb pc io
        (lb, .conversionFailed r.clientId r.group r.server
          (connectUpstream x r.address io.dial.connect).isOk e)
  | offered (r : Route) (cxn : Connection) (hroute : lb.route pc io = .ok r)
      (hconvert : Connection.fromPartialConnection x pc r.group r.server r.address io.dial =
        .ok cxn) :
      Admitted x lb pc io
        ({ lb with
            clients := lb.clients.modify r.clientId fun client ↦ client.addConnection io.now cxn
            serverGroups := lb.serverGroups.modify r.group fun g ↦ g.addConnection r.server },
          if r.client.rateLimitHit io.now then .rateLimited r.clientId cxn
          else .placed r.clientId cxn)

/-- Every admission ends in one of these ways; the client found first is found again. -/
theorem completeConnection_admitted (x : Externals) (lb : LoadBalancer) (pc : PartialConnection)
    (io : CompletionIo) : Admitted x lb pc io (lb.completeConnection x pc io) := by
  unfold completeConnection
  split
  · next o hroute => exact .unrouted o hroute
  · next r hroute =>
    have hclient := (route_eq_ok hroute).2.1
    split
    · next cxn hconvert =>
      simp only [insertConnection, hclient]
      exact .offered r cxn hroute hconvert
    · next e hconvert => exact .unconverted r e hroute hconvert

/-- An admission keeps what an offer keeps: without an offer it leaves the state as it was. -/
theorem complete_state {P : LoadBalancer → Prop} {x : Externals} {lb : LoadBalancer}
    {pc : PartialConnection} {io : CompletionIo} (hP : P lb)
    (hoffered : ∀ r cxn, lb.route pc io = .ok r →
      Connection.fromPartialConnection x pc r.group r.server r.address io.dial = .ok cxn →
      P { lb with
        clients := lb.clients.modify r.clientId fun client ↦ client.addConnection io.now cxn
        serverGroups := lb.serverGroups.modify r.group fun g ↦ g.addConnection r.server }) :
    P (complete x pc io lb).state := by
  have hadm := completeConnection_admitted x lb pc io
  unfold complete
  generalize lb.completeConnection x pc io = r at hadm
  cases hadm with
  | unrouted o hroute => exact hP
  | unconverted r e hroute hconvert => exact hP
  | offered r cxn hroute hconvert => exact hoffered r cxn hroute hconvert

/-- An offer adds the connection to its client's list, or nothing at the rate limit. -/
theorem mem_offered {lb : LoadBalancer} {r : Route} {now : Int} {cxn cxn' : Connection}
    (hclient : lb.clients.lookup r.clientId = some r.client) {k : String} {c : Client}
    (hc : (lb.clients.modify r.clientId fun client ↦ client.addConnection now cxn).lookup k =
      some c) (hcxn : cxn' ∈ c.connections) :
    (∃ c', lb.clients.lookup k = some c' ∧ cxn' ∈ c'.connections) ∨
      k = r.clientId ∧ cxn' = cxn ∧ r.client.rateLimitHit now = false := by
  rw [HashMap.lookup_modify] at hc
  split at hc
  · next hk =>
    subst k
    rw [hclient, Option.map_some] at hc
    obtain rfl := Option.some.inj hc
    cases hhit : r.client.rateLimitHit now with
    | true =>
      rw [Client.addConnection_of_hit cxn hhit] at hcxn
      exact .inl ⟨r.client, hclient, hcxn⟩
    | false =>
      rw [Client.addConnection_of_free cxn hhit] at hcxn
      rcases List.mem_append.mp hcxn with hold | hnew
      · exact .inl ⟨r.client, hclient, hold⟩
      · exact .inr ⟨rfl, List.mem_singleton.mp hnew, rfl⟩
  · exact .inl ⟨c, hc, hcxn⟩

/-! ### Driving the partial connections -/

/-- The partial connections after the polls of a round. -/
def polledConns (x : Externals) (ios : Nat → PartialIo) (pcs : List PartialConnection) :
    List PartialConnection :=
  pcs.mapIdx fun i pc ↦ (pc.poll x (ios i)).state

/-- All partial connections are polled; the completed ones are admitted and leave, and the
others stay. -/
theorem handlePartialConnections_eq (x : Externals) (partialIos : Nat → PartialIo)
    (ios : Nat → CompletionIo) (lb : LoadBalancer) :
    let polled := polledConns x partialIos lb.partialConns
    let finished := completeEach x ios (finishedConns polled) lb
    handlePartialConnections x partialIos ios lb =
      ⟨.ok (),
        { finished.state with partialConns := polled.filter fun pc ↦ !pc.isCompleted },
        (lb.partialConns.mapIdx fun i pc ↦ .partialPolled i (pc.poll x (partialIos i)).log) ++
          finished.log⟩ := by
  intro polled finished
  have hpolled : (pollPartials x partialIos lb.partialConns).map (fun r ↦ r.state) = polled :=
    map_mapIdx _ _ _
  simp only [handlePartialConnections, handlePolled_eq x _ ios lb (pollPartials_ok x partialIos _),
    hpolled, Option.get_some]
  simp only [pollPartials, List.mapIdx_mapIdx]
  rfl

end LoadBalancer
end TcpLoadBalancer
