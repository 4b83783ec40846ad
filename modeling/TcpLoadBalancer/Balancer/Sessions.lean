import TcpLoadBalancer.Balancer.Accounting
import TcpLoadBalancer.Balancer.Routing
import TcpLoadBalancer.Lib.Registry

/-!
# The sessions of a load balancer

An accepted stream waits among the partial connections until its admission, which refuses it or
places it in its client's list, where it stays until its connection is removed. So a load
balancer is a registry of its client streams: its log tells of a run of the registry, from any
state and through any errors. No stream is lost, doubled or given to two clients.
-/

namespace TcpLoadBalancer
open Lib

/-- The ends of an open connection, as `Connection.ends` gives them. -/
abbrev Ends := TcpStream × TcpStream × UInt32 × UInt32

/-- What an event does to a session. -/
def Event.session : Event → Option (Registry.Move String TcpStream Ends)
  | .accepted stream => some (.arrive stream)
  | .connectionRemoved id cxn _ => some (.close id cxn.ends)
  | .finished _ _ (.placed id cxn) => some (.enroll id cxn.ends)
  | .finished parCxn _ _ => some (.refuse parCxn.downStream)
  | _ => none

namespace LoadBalancer

/-- The streams of the partial connections, and the open connections of each client. -/
def registry (lb : LoadBalancer) : Registry String TcpStream Ends where
  waiting := ↑(lb.partialConns.map PartialConnection.downStream)
  opened id := (lb.clients.lookup id).elim 0 fun c ↦ ↑(c.connections.map Connection.ends)

/-- The registry of a load balancer that moves as its events tell. -/
abbrev Registered (a : Action Error LoadBalancer Event) : Prop :=
  Action.Simulated (Registry.Step Prod.fst) registry Event.session a

/-! ### The stages -/

/-- Accepting streams. -/
theorem registered_handleListener (accepts : List AcceptIo) :
    Registered (handleListener accepts) := by
  induction accepts with
  | nil => exact Action.simulated_skip
  | cons accept rest ih =>
    intro lb
    cases accept with
    | failed kind => cases kind <;> rfl
    | stream s options session =>
      unfold handleListener
      split
      · rfl
      · split
        · rfl
        · next tlsConn =>
          let lb' : LoadBalancer :=
            { lb with partialConns := lb.partialConns ++ [.new s tlsConn] }
          have harrive : Registry.Step Prod.fst lb.registry (.arrive s) lb'.registry := by
            refine ⟨?_, rfl⟩
            simp only [lb', registry, List.map_append, List.map_cons, List.map_nil]
            rw [Multiset.cons_coe]
            exact Quotient.sound (List.perm_append_singleton _ _)
          exact ⟨lb'.registry, harrive, ih lb'⟩

/-- Releasing connections closes their sessions, and leaves the lists and the partial
connections alone. -/
theorem releaseEach_sessions (id : String) (cxns : List Connection) (lb : LoadBalancer) :
    (Action.forEach (releaseConnection id) cxns lb).log.filterMap Event.session =
        (cxns.map Connection.ends).map (.close id) ∧
      (Action.forEach (releaseConnection id) cxns lb).state.registry = lb.registry := by
  induction cxns generalizing lb with
  | nil => exact ⟨rfl, rfl⟩
  | cons cxn cxns ih =>
    obtain ⟨hok, hclients, hpartial, -⟩ := releaseConnection_frame id cxn lb
    obtain ⟨hlogs, hregistry⟩ := ih (releaseConnection id cxn lb).state
    have hlog : (releaseConnection id cxn lb).log.filterMap Event.session =
        [.close id cxn.ends] := by
      unfold releaseConnection
      split <;> rfl
    rw [Action.forEach, Action.andThen_of_ok hok]
    refine ⟨?_, hregistry.trans ?_⟩
    · rw [List.filterMap_append, hlog, hlogs]
      rfl
    · rw [registry, registry, hclients, hpartial]

/-- The connections of a client split into those that a round keeps and those that it closes. -/
theorem ends_serviced (ios : Nat → ConnectionIo) (c : Client) :
    (↑(c.connections.map Connection.ends) : Multiset Ends) =
      ↑((((polledCxns ios c).filter Client.isClosed).reverse).map Connection.ends) +
        ↑((serviced ios c).connections.map Connection.ends) := by
  have hends : (polledCxns ios c).map Connection.ends = c.connections.map Connection.ends := by
    rw [polledCxns, map_mapIdx]
    ext i : 1
    simp [Connection.ends_poll]
  rw [← hends]
  exact coe_map_split Client.isClosed Connection.ends (polledCxns ios c)

/-- Servicing a client closes sessions of that client. -/
theorem registered_serviceClient (ios : Nat → ConnectionIo) (id : String) :
    Registered (serviceClient ios id) := by
  intro lb
  cases hc : lb.clients.lookup id with
  | none =>
    simp only [serviceClient, hc, Outcome.done]
    rfl
  | some c =>
    rw [serviceClient_of_some ios hc]
    simp only [List.filterMap_append]
    obtain ⟨hlog, hregistry⟩ := releaseEach_sessions id
      ((polledCxns ios c).filter Client.isClosed).reverse
      { lb with clients := lb.clients.modify id fun _ ↦ serviced ios c }
    have hpolled : (c.connections.mapIdx fun i cxn ↦
        Event.connectionPolled id i (cxn.poll (ios i)).log).filterMap Event.session = [] := by
      apply List.filterMap_eq_nil_iff.mpr
      intro e he
      obtain ⟨i, hi, rfl⟩ := List.mem_mapIdx.mp he
      rfl
    rw [hpolled, List.nil_append, hlog, hregistry]
    apply Registry.run_close
    · rfl
    · funext k
      by_cases hk : k = id
      · subst k
        simp only [registry, Function.update_self, HashMap.lookup_modify_self, hc,
          Option.map_some, Option.elim_some]
        exact ends_serviced ios c
      · simp only [registry, Function.update_of_ne hk, HashMap.lookup_modify_ne _ _ hk]

/-- Checking a group moves no session. -/
theorem registered_pollGroup (x : Externals) (ord : IterOrder UInt32) (ios : UInt32 → HealthIo)
    (group : UInt32) : Registered (pollGroup x ord ios group) := by
  apply Action.simulated_of_silent
  · intro lb e he
    have hstage := pollGroup_stage x ord ios group lb e he
    cases e with
    | healthPolled group server ops => rfl
    | _ => cases hstage
  · intro lb
    obtain ⟨hclients, hpartial, -, -⟩ := pollGroup_frame x ord ios group lb
    rw [registry, registry, hclients, hpartial]

/-! ### Admissions -/

/-- An admission refuses a waiting session or admits it. While it runs, its partial connection
is still in the list, so the waiting sessions are given apart. -/
theorem complete_step (x : Externals) (pc : PartialConnection) (io : CompletionIo)
    (lb : LoadBalancer) (waiting : Multiset TcpStream) :
    Run (Registry.Step Prod.fst) ⟨pc.downStream ::ₘ waiting, lb.registry.opened⟩
      ((complete x pc io lb).log.filterMap Event.session)
      ⟨waiting, (complete x pc io lb).state.registry.opened⟩ := by
  have hadm := completeConnection_admitted x lb pc io
  unfold complete
  generalize lb.completeConnection x pc io = r at hadm
  cases hadm with
  | unrouted o hroute =>
    have hsession : (Event.finished pc io.now o).session = some (.refuse pc.downStream) := by
      rcases route_eq_error hroute with
        ⟨-, rfl⟩ | ⟨_, rfl⟩ | ⟨_, _, rfl⟩ | ⟨_, _, rfl⟩ | ⟨_, _, _, _, rfl, -⟩
      all_goals rfl
    rw [List.filterMap_cons_some hsession]
    exact Run.single ⟨rfl, rfl⟩
  | unconverted r e hroute hconvert => exact Run.single ⟨rfl, rfl⟩
  | offered r cxn hroute hconvert =>
    have hclient := (route_eq_ok hroute).2.1
    obtain ⟨upStream, -, -, hcxn⟩ := Connection.fromPartialConnection_eq hconvert
    cases hhit : r.client.rateLimitHit io.now with
    | true =>
      refine Run.single ⟨rfl, ?_⟩
      funext k
      by_cases hk : k = r.clientId
      · subst k
        simp only [registry, HashMap.lookup_modify_self, hclient, Option.map_some,
          Client.addConnection_of_hit cxn hhit]
      · simp only [registry, HashMap.lookup_modify_ne _ _ hk]
    | false =>
      refine Run.single ⟨by rw [hcxn]; rfl, ?_⟩
      funext k
      by_cases hk : k = r.clientId
      · subst k
        simp only [registry, HashMap.lookup_modify_self, hclient, Option.map_some,
          Option.elim_some, Client.addConnection_of_free cxn hhit, Function.update_self]
        rw [Multiset.cons_coe, List.map_append]
        exact Quotient.sound (List.perm_append_singleton _ _)
      · simp only [registry, HashMap.lookup_modify_ne _ _ hk, Function.update_of_ne hk]

/-- The admissions of a round take their sessions from those that wait. -/
theorem completeEach_run (x : Externals) (ios : Nat → CompletionIo)
    (es : List (Nat × PartialConnection)) (lb : LoadBalancer) (waiting : Multiset TcpStream) :
    Run (Registry.Step Prod.fst)
      ⟨↑(es.map fun e ↦ e.2.downStream) + waiting, lb.registry.opened⟩
      ((completeEach x ios es lb).log.filterMap Event.session)
      ⟨waiting, (completeEach x ios es lb).state.registry.opened⟩ := by
  induction es generalizing lb with
  | nil =>
    show Registry.mk _ _ = Registry.mk _ _
    simp [completeEach, Action.forEach, Action.skip, Outcome.done]
  | cons e es ih =>
    rw [completeEach, Action.forEach, Action.andThen_of_ok rfl, List.filterMap_append,
      List.map_cons, ← Multiset.cons_coe, Multiset.cons_add]
    exact (complete_step x e.2 (ios e.1) lb _).append (ih _)

/-- Driving the partial connections. -/
theorem registered_handlePartialConnections (x : Externals) (partialIos : Nat → PartialIo)
    (ios : Nat → CompletionIo) : Registered (handlePartialConnections x partialIos ios) := by
  intro lb
  rw [handlePartialConnections_eq]
  simp only [List.filterMap_append]
  have hsilent : (lb.partialConns.mapIdx fun i pc ↦
      Event.partialPolled i (pc.poll x (partialIos i)).log).filterMap Event.session = [] := by
    apply List.filterMap_eq_nil_iff.mpr
    intro e he
    obtain ⟨i, hi, rfl⟩ := List.mem_mapIdx.mp he
    rfl
  rw [hsilent, List.nil_append]
  generalize hpolled : polledConns x partialIos lb.partialConns = polled
  have hstreams : lb.partialConns.map PartialConnection.downStream =
      polled.map PartialConnection.downStream := by
    rw [← hpolled, polledConns, map_mapIdx]
    ext i : 1
    simp [PartialConnection.poll_downStream]
  -- what waits before is what is admitted now and what stays
  have hwaiting : lb.registry.waiting =
      ↑((finishedConns polled).map fun e ↦ e.2.downStream) +
        ↑((polled.filter fun pc ↦ !pc.isCompleted).map PartialConnection.downStream) := by
    simp only [registry]
    rw [hstreams]
    exact coe_map_marked_split PartialConnection.isCompleted PartialConnection.downStream polled
  have hrun := completeEach_run x ios (finishedConns polled) lb
    ↑((polled.filter fun pc ↦ !pc.isCompleted).map PartialConnection.downStream)
  rw [← hwaiting] at hrun
  exact hrun

/-! ### Runs -/

/-- A round. -/
theorem registered_poll (x : Externals) (io : RoundIo) : Registered (poll x io) := by
  have hclients : Registered (handleClients io.clientOrder io.connection) := fun lb ↦
    Action.simulated_forEach (fun id _ ↦ registered_serviceClient (io.connection id) id) lb
  have hgroups : Registered (handleServerGroups x io.groupOrder io.serverOrder io.health) :=
    fun lb ↦ Action.simulated_forEach
      (fun group _ ↦ registered_pollGroup x (io.serverOrder group) (io.health group) group) lb
  exact (((registered_handleListener io.accepts).andThen hclients).andThen hgroups).andThen
    (registered_handlePartialConnections x io.partialConn io.completion)

/-- In every run of rounds, from any state and through any errors, the events are a run of the
registry: a stream is refused or admitted only while it waits, and a connection is removed only
from the list of the client that it was placed for, once for each time that it was placed. -/
theorem serve_registered (x : Externals) (ios : List RoundIo) : Registered (serve x ios) :=
  Action.simulated_loop (registered_poll x) ios

/-- What a run from a configuration does to the sessions. -/
def sessionMoves (x : Externals) (cfg : Configuration) (ios : List RoundIo) :
    List (Registry.Move String TcpStream Ends) :=
  (serve x ios cfg.load).log.filterMap Event.session

/-- A configuration has no sessions. -/
theorem registry_load (cfg : Configuration) : cfg.load.registry = .empty := by
  apply Registry.ext
  · simp only [registry, cfg.initial_load.partialConns]
    rfl
  · funext id
    cases hc : cfg.load.clients.lookup id with
    | none => simp only [registry, hc, Option.elim_none, Registry.empty]
    | some c =>
      simp only [registry, hc, Option.elim_some, (fresh_load cfg).connections id c hc]
      rfl

private theorem sessionMoves_run (x : Externals) (cfg : Configuration) (ios : List RoundIo) :
    Run (Registry.Step Prod.fst) .empty (sessionMoves x cfg ios)
      (serve x ios cfg.load).state.registry := by
  rw [← registry_load cfg]
  exact serve_registered x ios cfg.load

/-- In every run from a configuration no stream is lost or doubled: the accepted streams are
those that still wait, those refused and those placed, and the connections placed for a client
are those in its list and those removed from it. -/
theorem sessions_conserved (x : Externals) (cfg : Configuration) (ios : List RoundIo) :
    let ms := sessionMoves x cfg ios
    let sessions := (serve x ios cfg.load).state.registry
    (↑(ms.filterMap Registry.Move.arrival) : Multiset TcpStream) =
        sessions.waiting + ↑(ms.filterMap Registry.Move.refusal) +
          ↑((ms.filterMap Registry.Move.admission).map fun e ↦ e.2.1) ∧
      ∀ id, (↑(Registry.ofOwner id Registry.Move.admission ms) : Multiset Ends) =
        sessions.opened id + ↑(Registry.ofOwner id Registry.Move.closing ms) := by
  intro ms sessions
  have hrun : Run (Registry.Step Prod.fst) .empty ms sessions := sessionMoves_run x cfg ios
  have hwaiting := Registry.waiting_run hrun
  refine ⟨?_, fun id ↦ ?_⟩
  · rwa [Registry.empty, zero_add] at hwaiting
  · have hopened := Registry.opened_run hrun id
    rwa [Registry.empty, zero_add] at hopened

/-- In every run from a configuration in which no stream is accepted while the same one waits
or is open, no stream is ever at two places: it waits once, or one client has it open, once. -/
theorem sessions_exclusive (x : Externals) (cfg : Configuration) (ios : List RoundIo)
    (hfresh : Registry.FreshArrivals Prod.fst .empty (sessionMoves x cfg ios)) :
    Registry.Exclusive Prod.fst (serve x ios cfg.load).state.registry :=
  (Registry.exclusive_empty Prod.fst).run (sessionMoves_run x cfg ios) hfresh

/-- Three streams are accepted and admitted. -/
theorem sessions_exclusive_example :
    Registry.Exclusive Prod.fst
      (serve firstClient (acceptAndAdmit 3) oneServer.load).state.registry :=
  sessions_exclusive firstClient oneServer (acceptAndAdmit 3)
    (Registry.freshArrivals_of_nodup (by decide +kernel))

end LoadBalancer
end TcpLoadBalancer
