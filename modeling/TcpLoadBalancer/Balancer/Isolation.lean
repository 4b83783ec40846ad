import TcpLoadBalancer.Balancer.Accounting
import TcpLoadBalancer.Lib.Visits

/-!
# Isolation of errors within a round

A round services everything, every connection, every health checker and every partial
connection, exactly when no error cuts it short with work left: an error of the listener
ends it before any servicing, and a failing health check ends it before the checkers that
come later in the order and before the partial connections.
-/

namespace TcpLoadBalancer
open Lib

namespace ServerGroup

/-- The check of a server fails. -/
def checkFails (x : Externals) (g : ServerGroup) (ios : UInt32 → HealthIo) (server : UInt32) :
    Bool :=
  match g.serverHealth.lookup server with
  | some hc => hc.optionsFail x (ios server)
  | none => false

/-- The health checks of a group are a pass over its servers. -/
theorem poll_visited (x : Externals) (ord : IterOrder UInt32) (ios : UInt32 → HealthIo)
    (g : ServerGroup) :
    ((g.poll x ord ios).result = .ok () ↔
        ∀ server ∈ ord.arrange g.serverHealth.keys, g.checkFails x ios server = false) ∧
      (g.poll x ord ios).log.filterMap (fun p ↦ some p.1) =
        visited (g.checkFails x ios) (ord.arrange g.serverHealth.keys) := by
  have hpass := forEach_visited (pollServer x ios) (g.checkFails x ios) (fun p ↦ some p.1)
    (fun server ↦ [server])
    (fun server s ↦ ∃ hc, g.serverHealth.lookup server = some hc ∧
      s.serverHealth.lookup server = some hc)
    ?_ ?_ (ord.arrange g.serverHealth.keys) (ord.nodup_arrange g.serverHealth.keys_nodup) g ?_
  · rw [List.flatMap_singleton'] at hpass
    exact hpass
  · rintro server s ⟨hc, hg, hs⟩
    simp only [pollServer, hs, checkFails, hg, HealthChecker.poll_ok_iff, true_and]
    rfl
  · rintro server other s hne ⟨hc, hg, hs⟩
    refine ⟨hc, hg, ?_⟩
    unfold pollServer
    split
    · exact hs
    · rw [HashMap.lookup_modify_ne _ _ (Ne.symm hne)]
      exact hs
  · intro server hserver
    obtain ⟨hc, hlookup⟩ := HashMap.mem_keys_iff.mp (ord.mem_arrange.mp hserver)
    exact ⟨hc, hlookup, hlookup⟩

end ServerGroup

/-- The group and server that an event checks. -/
def Event.checked : Event → Option (UInt32 × UInt32)
  | .healthPolled group server _ => some (group, server)
  | _ => none

namespace LoadBalancer

/-- The servers of a group in the order of their checks. -/
def visitsOf (lb : LoadBalancer) (io : RoundIo) (group : UInt32) : List (UInt32 × UInt32) :=
  match lb.serverGroups.lookup group with
  | some g => ((io.serverOrder group).arrange g.serverHealth.keys).map fun server ↦ (group, server)
  | none => []

/-- The servers of all groups in the order of their checks. -/
def visits (lb : LoadBalancer) (io : RoundIo) : List (UInt32 × UInt32) :=
  (io.groupOrder.arrange lb.serverGroups.keys).flatMap (visitsOf lb io)

/-- The check of a server fails. -/
def visitFails (x : Externals) (lb : LoadBalancer) (io : RoundIo) (v : UInt32 × UInt32) : Bool :=
  match lb.serverGroups.lookup v.1 with
  | some g => g.checkFails x (io.health v.1) v.2
  | none => false

/-- The checks of a group are a pass over its servers, decided by its checkers alone. -/
theorem pollGroup_visited (x : Externals) (io : RoundIo) {lb s : LoadBalancer} {group : UInt32}
    (hsame : s.serversOf group = lb.serversOf group) :
    ((pollGroup x (io.serverOrder group) (io.health group) group s).result = .ok () ↔
        (visitsOf lb io group).any (visitFails x lb io) = false) ∧
      (pollGroup x (io.serverOrder group) (io.health group) group s).log.filterMap
        Event.checked = visited (visitFails x lb io) (visitsOf lb io group) := by
  cases hs : s.serverGroups.lookup group with
  | none =>
    have hlb : lb.serverGroups.lookup group = none := by
      simpa [serversOf, hs, eq_comm] using hsame
    simp [pollGroup, hs, visitsOf, hlb, Outcome.done, visited]
  | some g' =>
    obtain ⟨g, hg, hservers⟩ : ∃ g, lb.serverGroups.lookup group = some g ∧
        g.serverHealth = g'.serverHealth := by
      simp only [serversOf, hs, Option.map_some] at hsame
      obtain ⟨g, hg, heq⟩ := Option.map_eq_some_iff.mp hsame.symm
      exact ⟨g, hg, (Prod.ext_iff.mp heq).2⟩
    have hfails : g'.checkFails x (io.health group) =
        fun server ↦ visitFails x lb io (group, server) := by
      ext server : 1
      simp only [visitFails, hg, ServerGroup.checkFails, hservers]
    obtain ⟨hresult, hlog⟩ := ServerGroup.poll_visited x (io.serverOrder group) (io.health group) g'
    rw [hfails] at hresult hlog
    have hvisits : visitsOf lb io group =
        ((io.serverOrder group).arrange g'.serverHealth.keys).map fun server ↦ (group, server) := by
      simp only [visitsOf, hg, hservers]
    rw [hvisits, visited_map, ← hlog]
    simp only [pollGroup, hs]
    constructor
    · rw [hresult]
      simp [List.any_map]
    · rw [List.filterMap_map, List.map_filterMap]
      rfl

/-- The health checks of a round are a pass over all servers, decided by the checkers with
which the round starts. -/
theorem handleServerGroups_visited (x : Externals) (io : RoundIo) {lb s : LoadBalancer}
    (hsame : SameServers lb s) :
    ((handleServerGroups x io.groupOrder io.serverOrder io.health s).result = .ok () ↔
        ∀ v ∈ visits lb io, visitFails x lb io v = false) ∧
      (handleServerGroups x io.groupOrder io.serverOrder io.health s).log.filterMap
        Event.checked = visited (visitFails x lb io) (visits lb io) := by
  have hpass := forEach_visited
    (fun group ↦ pollGroup x (io.serverOrder group) (io.health group) group)
    (fun group ↦ (visitsOf lb io group).any (visitFails x lb io)) Event.checked
    (fun group ↦ visited (visitFails x lb io) (visitsOf lb io group))
    (fun group s ↦ s.serversOf group = lb.serversOf group)
    ?_ ?_ (io.groupOrder.arrange lb.serverGroups.keys)
    (io.groupOrder.nodup_arrange lb.serverGroups.keys_nodup) s (fun group _ ↦ hsame.2 group)
  · rw [← visited_flatMap] at hpass
    rw [handleServerGroups, hsame.1]
    refine ⟨hpass.1.trans ?_, hpass.2⟩
    simp only [visits, List.mem_flatMap, List.any_eq_false, Bool.not_eq_true]
    exact ⟨fun h v ⟨group, hgroup, hv⟩ ↦ h group hgroup v hv,
      fun h group hgroup v hv ↦ h v ⟨group, hgroup, hv⟩⟩
  · exact fun group s hs ↦ pollGroup_visited x io hs
  · intro group other s hne hs
    unfold pollGroup
    split
    · exact hs
    · rw [serversOf, HashMap.lookup_modify_ne _ _ (Ne.symm hne)]
      exact hs

/-- Servicing the clients changes counters and connections only. -/
theorem handleClients_frame (ord : IterOrder String) (ios : String → Nat → ConnectionIo)
    (lb : LoadBalancer) :
    (handleClients ord ios lb).result = .ok () ∧
      SameServers lb (handleClients ord ios lb).state := by
  constructor
  · exact Action.forEach_ok (fun id s ↦ (serviceClient_frame (ios id) id s).1) _ _
  · apply Action.forEach_state (P := SameServers lb)
    · intro id _ s hs
      obtain ⟨-, -, -, hservers⟩ := serviceClient_frame (ios id) id s
      exact ⟨hservers.1.trans hs.1, fun group ↦ (hservers.2 group).trans (hs.2 group)⟩
    · exact ⟨rfl, fun _ ↦ rfl⟩

/-- Every client gets its turn, as it was at the start of the round. -/
theorem handleClients_reaches (ord : IterOrder String) (ios : String → Nat → ConnectionIo)
    {h : List Event} {lb : LoadBalancer} (hI : Accounted h lb) {id : String} {c : Client}
    (hc : lb.clients.lookup id = some c) :
    ∃ h' mid, Accounted h' mid ∧ mid.clients.lookup id = some c ∧
      ∀ e ∈ (serviceClient (ios id) id mid).log, e ∈ (handleClients ord ios lb).log := by
  have hmem : id ∈ ord.arrange lb.clients.keys :=
    ord.mem_arrange.mpr (HashMap.mem_keys_iff.mpr ⟨c, hc⟩)
  obtain ⟨pre, post, hsplit⟩ := List.append_of_mem hmem
  have hnotin : id ∉ pre := by
    have hnodup := ord.nodup_arrange lb.clients.keys_nodup
    rw [hsplit] at hnodup
    exact fun hpre ↦ (List.nodup_append.mp hnodup).2.2 id hpre id (by simp) rfl
  have hloop : handleClients ord ios lb =
      Action.loop (fun id ↦ serviceClient (ios id) id) (pre ++ id :: post) lb := by
    rw [handleClients, hsplit, Action.forEach_eq_loop]
    exact fun id s ↦ (serviceClient_frame (ios id) id s).1
  -- the clients before this one leave it as it is
  have hkeeps : Action.Keeps (fun h s ↦ Accounted h s ∧ s.clients.lookup id = some c)
      (Action.loop (fun id ↦ serviceClient (ios id) id) pre) := by
    apply Action.keeps_loop
    intro k hk h s hs
    have hne : id ≠ k := fun he ↦ hnotin (by rw [he]; exact hk)
    refine ⟨accounted_service (ios k) k h s hs.1, ?_⟩
    rw [(serviceClient_frame (ios k) k s).2.1, HashMap.lookup_modify_ne _ _ hne]
    exact hs.2
  have hbefore := hkeeps h lb ⟨hI, hc⟩
  refine ⟨_, _, hbefore.1, hbefore.2, fun e he ↦ ?_⟩
  rw [hloop, Action.loop_append]
  exact List.mem_append_right _ (List.mem_append_left _ he)

/-- Every connection of every client is polled, and removed with its counter decremented when
it has ended. -/
theorem handleClients_services (ord : IterOrder String) (ios : String → Nat → ConnectionIo)
    {h : List Event} {lb : LoadBalancer} (hI : Accounted h lb) {id : String} {c : Client}
    (hc : lb.clients.lookup id = some c) {i : Nat} {cxn : Connection}
    (hcxn : c.connections[i]? = some cxn) :
    .connectionPolled id i (cxn.poll (ios id i)).log ∈ (handleClients ord ios lb).log ∧
      (Client.isClosed (cxn.poll (ios id i)).state = true →
        .connectionRemoved id (cxn.poll (ios id i)).state (some .decremented) ∈
          (handleClients ord ios lb).log) := by
  obtain ⟨h', mid, hmid, hlookup, hsub⟩ := handleClients_reaches ord ios hI hc
  have hlog := (serviceClient_counted (ios id) hmid hlookup).1
  obtain ⟨hi, rfl⟩ := List.getElem?_eq_some_iff.mp hcxn
  constructor
  · apply hsub
    rw [hlog]
    exact List.mem_append_left _ (List.mem_mapIdx.mpr ⟨i, hi, rfl⟩)
  · intro hclosed
    apply hsub
    rw [hlog]
    refine List.mem_append_right _ (List.mem_map.mpr ⟨_, List.mem_reverse.mpr ?_, rfl⟩)
    exact List.mem_filter.mpr ⟨List.mem_mapIdx.mpr ⟨i, hi, rfl⟩, hclosed⟩

/-! ### Open connections -/

/-- Only open connections are in the clients' lists. -/
def AllOpen (_ : List Event) (lb : LoadBalancer) : Prop :=
  ∀ id c cxn, lb.clients.lookup id = some c → cxn ∈ c.connections → Client.isClosed cxn = false

/-- Servicing a client takes its closed connections out. -/
theorem allOpen_service (ios : Nat → ConnectionIo) (id : String) :
    Action.Keeps AllOpen (serviceClient ios id) := by
  intro h lb hI k c cxn hc hcxn
  rw [(serviceClient_frame ios id lb).2.1, HashMap.lookup_modify] at hc
  split at hc
  · obtain ⟨c', -, rfl⟩ := Option.map_eq_some_iff.mp hc
    simpa using (List.mem_filter.mp hcxn).2
  · exact hI k c cxn hc hcxn

/-- No stage leaves a closed connection in a list, and new connections are open. -/
theorem kept_allOpen (x : Externals) : Kept x (fun _ ↦ True) AllOpen where
  new _ _ := trivial
  handshake _ _ _ := trivial
  blind _ _ _ hI := hI
  quiet _ _ _ _ hI := hI
  service := allOpen_service
  check ord ios group h lb hI := by
    intro k c cxn hc hcxn
    rw [(pollGroup_frame x ord ios group lb).1] at hc
    exact hI k c cxn hc hcxn
  admission pc io _ _ h lb hI := by
    apply complete_state (P := AllOpen h) hI
    intro r cxn hroute hconvert k c cxn' hc hcxn'
    rcases mem_offered (route_eq_ok hroute).2.1 hc hcxn' with ⟨c', hc', hold⟩ | ⟨-, hnew, -⟩
    · exact hI k c' cxn' hc' hold
    · obtain ⟨upStream, -, -, rfl⟩ := Connection.fromPartialConnection_eq hconvert
      rw [hnew]
      rfl

/-- Without connections none is closed. -/
theorem Fresh.allOpen {lb : LoadBalancer} (h : lb.Fresh) :
    Holding (fun _ ↦ True) AllOpen [] lb := by
  refine ⟨fun id c cxn hc hcxn ↦ ?_, fun _ _ ↦ trivial⟩
  rw [h.connections id c hc] at hcxn
  cases hcxn

/-! ### A round -/

/-- The partial connections that a round has to poll. -/
def pendingConns (lb : LoadBalancer) (io : RoundIo) : List PartialConnection :=
  lb.partialConns ++ acceptedConns io.accepts

/-- The round polls every connection and removes the ended ones, with their counters
decremented, and polls every health checker and every partial connection. -/
structure Serviced (x : Externals) (lb : LoadBalancer) (io : RoundIo) : Prop where
  polled : ∀ id c i (cxn : Connection), lb.clients.lookup id = some c →
    c.connections[i]? = some cxn →
    .connectionPolled id i (cxn.poll (io.connection id i)).log ∈ (poll x io lb).log
  removed : ∀ id c i (cxn : Connection), lb.clients.lookup id = some c →
    c.connections[i]? = some cxn →
    Client.isClosed (cxn.poll (io.connection id i)).state = true →
    .connectionRemoved id (cxn.poll (io.connection id i)).state (some .decremented) ∈
      (poll x io lb).log
  gone : ∀ id c cxn, (poll x io lb).state.clients.lookup id = some c → cxn ∈ c.connections →
    Client.isClosed cxn = false
  checked : ∀ group g server hc, lb.serverGroups.lookup group = some g →
    g.serverHealth.lookup server = some hc →
    ∃ ops, .healthPolled group server ops ∈ (poll x io lb).log
  handshaken : ∀ i (pc : PartialConnection), (pendingConns lb io)[i]? = some pc →
    .partialPolled i (pc.poll x (io.partialConn i)).log ∈ (poll x io lb).log

/-- No error cuts the round short with work left: a failing listener leaves nothing to
service, and a failing health check is the last one with no partial connection pending. -/
structure Undisturbed (x : Externals) (lb : LoadBalancer) (io : RoundIo) : Prop where
  listener : listenerFails io.accepts = true →
    (∀ id c, lb.clients.lookup id = some c → c.connections = []) ∧ visits lb io = [] ∧
      pendingConns lb io = []
  checks : ∀ pre v post, visits lb io = pre ++ v :: post → visitFails x lb io v = true →
    post = [] ∧ pendingConns lb io = []

/-- Every server with a health checker is visited. -/
theorem mem_visits {lb : LoadBalancer} {io : RoundIo} {group server : UInt32} :
    (group, server) ∈ visits lb io ↔ ∃ g hc, lb.serverGroups.lookup group = some g ∧
      g.serverHealth.lookup server = some hc := by
  simp only [visits, List.mem_flatMap, IterOrder.mem_arrange]
  constructor
  · rintro ⟨group', hgroup', hv⟩
    unfold visitsOf at hv
    split at hv
    · next g hg =>
      obtain ⟨server', hserver', heq⟩ := List.mem_map.mp hv
      obtain ⟨rfl, rfl⟩ := Prod.mk.inj heq
      obtain ⟨hc, hlookup⟩ := HashMap.mem_keys_iff.mp (IterOrder.mem_arrange _ |>.mp hserver')
      exact ⟨g, hc, hg, hlookup⟩
    · cases hv
  · rintro ⟨g, hc, hg, hlookup⟩
    refine ⟨group, HashMap.mem_keys_iff.mpr ⟨g, hg⟩, ?_⟩
    simp only [visitsOf, hg]
    exact List.mem_map.mpr
      ⟨server, (IterOrder.mem_arrange _).mpr (HashMap.mem_keys_iff.mpr ⟨hc, hlookup⟩), rfl⟩

/-- No server is visited twice. -/
theorem nodup_visits (lb : LoadBalancer) (io : RoundIo) : (visits lb io).Nodup := by
  have hfst : ∀ group v, v ∈ visitsOf lb io group → v.1 = group := by
    intro group v hv
    unfold visitsOf at hv
    split at hv
    · obtain ⟨server, -, rfl⟩ := List.mem_map.mp hv
      rfl
    · cases hv
  apply List.nodup_flatMap.mpr
  constructor
  · intro group _
    unfold visitsOf
    split
    · next g hg =>
      exact ((io.serverOrder group).nodup_arrange g.serverHealth.keys_nodup).map
        fun _ _ h ↦ (Prod.mk.inj h).2
    · exact List.nodup_nil
  · refine (io.groupOrder.nodup_arrange lb.serverGroups.keys_nodup).imp ?_
    intro group group' hne v hv hv'
    exact hne ((hfst group v hv).symm.trans (hfst group' v hv'))

/-- A listener that fails ends the round. -/
theorem serviceStages_of_fails (x : Externals) {io : RoundIo} (lb : LoadBalancer)
    (h : listenerFails io.accepts = true) :
    serviceStages x io lb = handleListener io.accepts lb ∧
      ∃ e, (serviceStages x io lb).result = .error e := by
  cases hr : (handleListener io.accepts lb).result with
  | ok u =>
    have hok := (handleListener_spec io.accepts lb).1.mp hr
    rw [h] at hok
    cases hok
  | error e =>
    have hstages : serviceStages x io lb = handleListener io.accepts lb := by
      rw [serviceStages, Action.andThen_of_error (by rw [Action.andThen_of_error hr, hr]),
        Action.andThen_of_error hr]
    exact ⟨hstages, e, by rw [hstages, hr]⟩

/-- Otherwise the clients are serviced and the health checks decide. -/
theorem serviceStages_of_accepts (x : Externals) {io : RoundIo} (lb : LoadBalancer)
    (h : listenerFails io.accepts = false) :
    let clients := handleClients io.clientOrder io.connection
      { lb with partialConns := pendingConns lb io }
    let checks := handleServerGroups x io.groupOrder io.serverOrder io.health clients.state
    serviceStages x io lb =
        ⟨checks.result, checks.state, (handleListener io.accepts lb).log ++ clients.log ++
          checks.log⟩ ∧
      (checks.result = .ok () ↔ ∀ v ∈ visits lb io, visitFails x lb io v = false) ∧
      checks.log.filterMap Event.checked = visited (visitFails x lb io) (visits lb io) := by
  intro clients checks
  obtain ⟨hresult, -, -⟩ := handleListener_spec io.accepts lb
  have hstate : (handleListener io.accepts lb).state =
      { lb with partialConns := pendingConns lb io } := (handleListener_spec io.accepts lb).2.1
  obtain ⟨hclients, hsame⟩ := handleClients_frame io.clientOrder io.connection
    { lb with partialConns := pendingConns lb io }
  have hservers : SameServers lb clients.state := hsame
  have hfirst :
      (handleListener io.accepts).andThen (handleClients io.clientOrder io.connection) lb =
        ⟨.ok (), clients.state, (handleListener io.accepts lb).log ++ clients.log⟩ := by
    rw [Action.andThen_of_ok (hresult.mpr h), hstate, hclients]
  refine ⟨?_, handleServerGroups_visited x io hservers⟩
  rw [serviceStages, Action.andThen_of_ok (by rw [hfirst]), hfirst]

/-- The stages before the partial connections succeed when neither the listener nor a health
check fails. -/
theorem serviceStages_ok_iff (x : Externals) (io : RoundIo) (lb : LoadBalancer) :
    (serviceStages x io lb).result = .ok () ↔
      listenerFails io.accepts = false ∧ ∀ v ∈ visits lb io, visitFails x lb io v = false := by
  cases hl : listenerFails io.accepts with
  | true =>
    obtain ⟨-, e, he⟩ := serviceStages_of_fails x lb hl
    simp [he]
  | false =>
    obtain ⟨hstages, hresult, -⟩ := serviceStages_of_accepts x lb hl
    rw [hstages]
    simpa using hresult

/-- What a round adds to the log of these stages comes from the partial connections. -/
theorem poll_log (x : Externals) (io : RoundIo) (lb : LoadBalancer) :
    ∃ es, (poll x io lb).log = (serviceStages x io lb).log ++ es ∧
      ∀ e ∈ es, e.stage = .handshaking ∨ e.stage = .admitting := by
  cases hr : (serviceStages x io lb).result with
  | error e =>
    refine ⟨[], ?_, by simp⟩
    rw [poll, Action.andThen_of_error hr, List.append_nil]
  | ok u =>
    refine ⟨_, by rw [poll, Action.andThen_of_ok hr], ?_⟩
    rw [handlePartialConnections_eq]
    intro e he
    rcases List.mem_append.mp he with hpolled | hfinished
    · obtain ⟨i, hi, rfl⟩ := List.mem_mapIdx.mp hpolled
      exact .inl rfl
    · exact Action.forEach_log (Q := fun e : Event ↦ e.stage = .handshaking ∨ e.stage = .admitting)
        (fun _ _ e he ↦ by rw [List.mem_singleton.mp he]; exact .inr rfl) _ _ e hfinished

/-- The servers whose checkers a round polls. -/
theorem poll_checked (x : Externals) (io : RoundIo) (lb : LoadBalancer) :
    (poll x io lb).log.filterMap Event.checked =
      if listenerFails io.accepts then [] else visited (visitFails x lb io) (visits lb io) := by
  have hnone : ∀ es : List Event, (∀ e ∈ es, e.stage ≠ .checking) →
      es.filterMap Event.checked = [] := by
    intro es hes
    apply List.filterMap_eq_nil_iff.mpr
    intro e he
    have hstage := hes e he
    cases e with
    | healthPolled group server ops => exact absurd rfl hstage
    | _ => rfl
  obtain ⟨es, hlog, hes⟩ := poll_log x io lb
  have hrest := hnone es fun e he ↦ by rcases hes e he with h | h <;> simp [h]
  have haccepts := hnone (handleListener io.accepts lb).log fun e he ↦ by
    simp [(handleListener_spec io.accepts lb).2.2 e he]
  rw [hlog, List.filterMap_append, hrest, List.append_nil]
  cases hl : listenerFails io.accepts with
  | true => rw [(serviceStages_of_fails x lb hl).1, haccepts, if_pos rfl]
  | false =>
    obtain ⟨hstages, -, hchecked⟩ := serviceStages_of_accepts x lb hl
    have hclients := hnone (handleClients io.clientOrder io.connection
      { lb with partialConns := pendingConns lb io }).log fun e he ↦ by
        have hstage : e.stage = .servicing := Action.forEach_log
          (Q := fun e : Event ↦ e.stage = .servicing)
          (fun id s ↦ serviceClient_stage (io.connection id) id s) _ _ e he
        simp [hstage]
    rw [hstages, List.filterMap_append, List.filterMap_append, haccepts, hclients, hchecked]
    rfl

/-- All partial connections are polled when there is none or no error precedes them. -/
theorem poll_handshaken (x : Externals) (io : RoundIo) (lb : LoadBalancer) :
    (∀ i (pc : PartialConnection), (pendingConns lb io)[i]? = some pc →
      .partialPolled i (pc.poll x (io.partialConn i)).log ∈ (poll x io lb).log) ↔
      pendingConns lb io = [] ∨ (serviceStages x io lb).result = .ok () := by
  have hstages := serviceStages_stage x io lb
  cases hr : (serviceStages x io lb).result with
  | error e =>
    have hpoll : poll x io lb = serviceStages x io lb := Action.andThen_of_error hr
    constructor
    · intro hall
      left
      apply List.eq_nil_iff_forall_not_mem.mpr
      intro pc hpc
      obtain ⟨i, hi, hget⟩ := List.mem_iff_getElem.mp hpc
      have hmem := hall i pc (by rw [List.getElem?_eq_getElem hi, hget])
      rw [hpoll] at hmem
      exact (hstages _ hmem).1 rfl
    · rintro (hnil | hok)
      · intro i pc hget
        simp [hnil] at hget
      · cases hok
  | ok u =>
    have hlog : (poll x io lb).log = (serviceStages x io lb).log ++
        (handlePartialConnections x io.partialConn io.completion
          (serviceStages x io lb).state).log := by
      rw [poll, Action.andThen_of_ok hr]
    refine iff_of_true (fun i pc hget ↦ ?_) (.inr rfl)
    rw [hlog, handlePartialConnections_eq, serviceStages_partialConns]
    apply List.mem_append_right
    apply List.mem_append_left
    obtain ⟨hi, rfl⟩ := List.getElem?_eq_some_iff.mp hget
    exact List.mem_mapIdx.mpr ⟨i, hi, rfl⟩

/-- A round that the listener ends only accepts streams. -/
theorem poll_log_of_fails (x : Externals) {io : RoundIo} (lb : LoadBalancer)
    (h : listenerFails io.accepts = true) : ∀ e ∈ (poll x io lb).log, e.stage = .accepting := by
  obtain ⟨hstages, e, herror⟩ := serviceStages_of_fails x lb h
  have hpoll : poll x io lb = handleListener io.accepts lb := by
    rw [← hstages]
    exact Action.andThen_of_error herror
  rw [hpoll]
  exact (handleListener_spec io.accepts lb).2.2

/-- A round that the listener does not end services every connection. -/
theorem poll_services {x : Externals} {io : RoundIo} {h : List Event} {lb : LoadBalancer}
    (hI : Accounted h lb) (hl : listenerFails io.accepts = false) {id : String} {c : Client}
    (hc : lb.clients.lookup id = some c) {i : Nat} {cxn : Connection}
    (hcxn : c.connections[i]? = some cxn) :
    .connectionPolled id i (cxn.poll (io.connection id i)).log ∈ (poll x io lb).log ∧
      (Client.isClosed (cxn.poll (io.connection id i)).state = true →
        .connectionRemoved id (cxn.poll (io.connection id i)).state (some .decremented) ∈
          (poll x io lb).log) := by
  have haccepted : Accounted h { lb with partialConns := pendingConns lb io } :=
    (kept_accounted x).blind h lb _ hI
  obtain ⟨hpolled, hremoved⟩ := handleClients_services
    io.clientOrder io.connection haccepted hc hcxn
  obtain ⟨hstages, -⟩ := serviceStages_of_accepts x lb hl
  obtain ⟨es, hlog, -⟩ := poll_log x io lb
  have hsub : ∀ e ∈ (handleClients io.clientOrder io.connection
      { lb with partialConns := pendingConns lb io }).log, e ∈ (poll x io lb).log := by
    intro e he
    rw [hlog, hstages]
    simp [he]
  exact ⟨hsub _ hpolled, fun hclosed ↦ hsub _ (hremoved hclosed)⟩

/-- The checkers that a round polls are those of the servers it visits. -/
theorem checked_iff (x : Externals) (io : RoundIo) (lb : LoadBalancer) :
    (∀ group g server hc, lb.serverGroups.lookup group = some g →
      g.serverHealth.lookup server = some hc →
      ∃ ops, .healthPolled group server ops ∈ (poll x io lb).log) ↔
      ∀ v ∈ visits lb io, v ∈ (poll x io lb).log.filterMap Event.checked := by
  have hevent : ∀ group server, (∃ ops, .healthPolled group server ops ∈ (poll x io lb).log) ↔
      (group, server) ∈ (poll x io lb).log.filterMap Event.checked := by
    intro group server
    rw [List.mem_filterMap]
    constructor
    · rintro ⟨ops, hops⟩
      exact ⟨_, hops, rfl⟩
    · rintro ⟨e, he, hchecked⟩
      cases e with
      | healthPolled group' server' ops =>
        obtain ⟨rfl, rfl⟩ := Prod.mk.inj (Option.some.inj hchecked)
        exact ⟨ops, he⟩
      | _ => cases hchecked
  constructor
  · rintro h ⟨group, server⟩ hv
    obtain ⟨g, hc, hg, hlookup⟩ := mem_visits.mp hv
    exact (hevent group server).mp (h group g server hc hg hlookup)
  · intro h group g server hc hg hlookup
    exact (hevent group server).mpr (h _ (mem_visits.mpr ⟨g, hc, hg, hlookup⟩))

/-- Without an error of the listener, all partial connections are polled when there is none
or no check fails. -/
theorem pending_of_ok_iff (x : Externals) {io : RoundIo} (lb : LoadBalancer)
    (hl : listenerFails io.accepts = false) :
    (pendingConns lb io = [] ∨ (serviceStages x io lb).result = .ok ()) ↔
      ∀ pre v post, visits lb io = pre ++ v :: post → visitFails x lb io v = true →
        pendingConns lb io = [] := by
  rw [serviceStages_ok_iff]
  constructor
  · rintro (hnil | ⟨-, hok⟩) pre v post hsplit hfails
    · exact hnil
    · rw [hok v (by simp [hsplit])] at hfails
      cases hfails
  · intro h
    by_cases hok : ∀ v ∈ visits lb io, visitFails x lb io v = false
    · exact .inr ⟨hl, hok⟩
    · push Not at hok
      obtain ⟨v, hv, hfails⟩ := hok
      obtain ⟨pre, post, hsplit⟩ := List.append_of_mem hv
      exact .inl (h pre v post hsplit (by simpa using hfails))

/-- A listener that fails leaves everything undone. -/
theorem serviced_of_fails_iff (x : Externals) {io : RoundIo} {lb : LoadBalancer}
    (hl : listenerFails io.accepts = true)
    (hgone : ∀ id c cxn, (poll x io lb).state.clients.lookup id = some c →
      cxn ∈ c.connections → Client.isClosed cxn = false) :
    Serviced x lb io ↔ Undisturbed x lb io := by
  have hlog := poll_log_of_fails x lb hl
  have hchecked := poll_checked x io lb
  rw [hl, if_pos rfl] at hchecked
  constructor
  · intro h
    have hvisits : visits lb io = [] := by
      apply List.eq_nil_iff_forall_not_mem.mpr
      intro v hv
      have hmem := (checked_iff x io lb).mp h.checked v hv
      rw [hchecked] at hmem
      cases hmem
    refine ⟨fun _ ↦ ⟨fun id c hc ↦ ?_, hvisits, ?_⟩, fun pre v post hsplit ↦ ?_⟩
    · apply List.eq_nil_iff_forall_not_mem.mpr
      intro cxn hcxn
      obtain ⟨i, hi, hget⟩ := List.mem_iff_getElem.mp hcxn
      have hpolled := h.polled id c i cxn hc (by rw [List.getElem?_eq_getElem hi, hget])
      cases hlog _ hpolled
    · apply List.eq_nil_iff_forall_not_mem.mpr
      intro pc hpc
      obtain ⟨i, hi, hget⟩ := List.mem_iff_getElem.mp hpc
      have hpolled := h.handshaken i pc (by rw [List.getElem?_eq_getElem hi, hget])
      cases hlog _ hpolled
    · simp [hvisits] at hsplit
  · intro h
    obtain ⟨hconnections, hvisits, hpending⟩ := h.listener hl
    refine ⟨?_, ?_, hgone, (checked_iff x io lb).mpr (by simp [hvisits]), by simp [hpending]⟩
    · intro id c i cxn hc hcxn
      simp [hconnections id c hc] at hcxn
    · intro id c i cxn hc hcxn
      simp [hconnections id c hc] at hcxn

/-- When the listener does not fail, the health checks decide. -/
theorem serviced_of_accepts_iff {x : Externals} {io : RoundIo} {h : List Event}
    {lb : LoadBalancer} (hI : Accounted h lb) (hl : listenerFails io.accepts = false)
    (hgone : ∀ id c cxn, (poll x io lb).state.clients.lookup id = some c →
      cxn ∈ c.connections → Client.isClosed cxn = false) :
    Serviced x lb io ↔ Undisturbed x lb io := by
  have hchecked := poll_checked x io lb
  rw [hl, if_neg Bool.false_ne_true] at hchecked
  have hvisited := mem_visited_iff (visitFails x lb io) (nodup_visits lb io)
  rw [← hchecked, ← checked_iff] at hvisited
  have hpending := (poll_handshaken x io lb).trans (pending_of_ok_iff x lb hl)
  constructor
  · intro hserviced
    refine ⟨fun hfails ↦ by simp [hl] at hfails, fun pre v post hsplit hfails ↦ ⟨?_, ?_⟩⟩
    · exact hvisited.mp hserviced.checked pre v post hsplit hfails
    · exact hpending.mp hserviced.handshaken pre v post hsplit hfails
  · intro hundisturbed
    refine ⟨?_, ?_, hgone, ?_, ?_⟩
    · intro id c i cxn hc hcxn
      exact (poll_services hI hl hc hcxn).1
    · intro id c i cxn hc hcxn
      exact (poll_services hI hl hc hcxn).2
    · exact hvisited.mpr fun pre v post hsplit hfails ↦
        (hundisturbed.checks pre v post hsplit hfails).1
    · exact hpending.mpr fun pre v post hsplit hfails ↦
        (hundisturbed.checks pre v post hsplit hfails).2

/-- In every run from a configuration, a further round services everything exactly when no
error cuts it short with work left. -/
theorem round_serviced_iff (x : Externals) (cfg : Configuration) (ios : List RoundIo)
    (io : RoundIo) :
    Serviced x (serve x ios cfg.load).state io ↔
      Undisturbed x (serve x ios cfg.load).state io := by
  have hI := (fresh_load cfg).accounted x ios
  have hopen := (kept_allOpen x).serve ios (fresh_load cfg).allOpen
  have hgone := ((kept_allOpen x).poll io _ _ hopen).1
  cases hl : listenerFails io.accepts with
  | true => exact serviced_of_fails_iff x hl hgone
  | false => exact serviced_of_accepts_iff hI hl hgone

/-- A connection is not polled in a round in which the process has no descriptor left for the
next stream. -/
theorem acceptError_suspends_connections :
    ¬∀ (x : Externals) (cfg : Configuration) (ios : List RoundIo) (io : RoundIo),
      Serviced x (serve x ios cfg.load).state io := by
  intro h
  have hserviced := h firstClient oneServer (acceptAndAdmit 1) (acceptRound [.failed (.other 24)])
  have hopen : (((serve firstClient (acceptAndAdmit 1) oneServer.load).state.clients.lookup
      "first@first.com").bind fun c ↦ c.connections[0]?).isSome = true := by
    decide +kernel
  obtain ⟨cxn, hopen⟩ := Option.isSome_iff_exists.mp hopen
  obtain ⟨c, hc, hcxn⟩ := Option.bind_eq_some_iff.mp hopen
  have hpolled := hserviced.polled "first@first.com" c 0 cxn hc hcxn
  cases poll_log_of_fails firstClient _ rfl _ hpolled

end LoadBalancer
end TcpLoadBalancer
