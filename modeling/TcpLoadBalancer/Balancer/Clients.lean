import TcpLoadBalancer.Balancer.Limiter
import TcpLoadBalancer.Balancer.Routing
import TcpLoadBalancer.Lib.Projection
import TcpLoadBalancer.Model.Config

/-!
# The clients inside a load balancer

A round keeps the list of each client once and then hands connections to it, and nothing else
of the round touches the client. So in every run of rounds a client does a run of its own
operations, and its rate limit decides in the load balancer as it does for the client alone.
-/

namespace TcpLoadBalancer
open Lib

/-- The clock of an admission. -/
def Event.clock : Event → Option Int
  | .finished _ now _ => some now
  | _ => none

/-- The calls of `add_connection` that an event reports for one client. -/
def Event.callsOf (k : String) : Event → List Call
  | .finished _ now (.placed id _) => if id = k then [⟨now, true⟩] else []
  | .finished _ now (.rateLimited id _) => if id = k then [⟨now, false⟩] else []
  | _ => []

/-- Only admissions report calls. -/
theorem Event.callsOf_of_unfinished {k : String} {e : Event} (h : e.isFinished = false) :
    e.callsOf k = [] := by
  cases e with
  | finished pc now outcome => cases h
  | _ => rfl

/-- The timestamps of the calls are clocks of admissions. -/
theorem Event.callsOf_sublist (k : String) (log : List Event) :
    ((log.flatMap (Event.callsOf k)).map Call.timestamp).Sublist (log.filterMap Event.clock) := by
  rw [List.map_flatMap, List.filterMap_eq_flatMap_toList]
  induction log with
  | nil => exact .slnil
  | cons e log ih =>
    rw [List.flatMap_cons, List.flatMap_cons]
    refine List.Sublist.append ?_ ih
    unfold Event.callsOf Event.clock
    split
    · split <;> simp
    · split <;> simp
    · exact List.nil_sublist _

namespace LoadBalancer

/-- One client of a load balancer. -/
def clientPart (k : String) : Part LoadBalancer Event Client Call where
  view lb := lb.clients.lookup k
  own := Event.callsOf k

variable {x : Externals} {k : String}

/-- A stage that admits nothing and keeps the client. -/
theorem client_rests {a : Action Error LoadBalancer Event}
    (hlog : ∀ lb, ∀ e ∈ (a lb).log, e.isFinished = false)
    (hclient : ∀ lb, (a lb).state.clients.lookup k = lb.clients.lookup k) :
    (clientPart k).Follows Client.perform (· = []) a := by
  apply Part.follows_of_rests
  intro lb c hc
  refine ⟨(hclient lb).trans hc, ?_⟩
  apply List.flatMap_eq_nil_iff.mpr
  intro e he
  exact Event.callsOf_of_unfinished (hlog lb e he)

/-! ### The stages -/

/-- The upkeep of a client's list in a round. -/
def upkeepOps (ios : Nat → ConnectionIo) : List ClientOp := [.poll ios, .cleanupConnections]

/-- Servicing a client is the upkeep of its list. -/
theorem follows_serviceClient (ios : Nat → ConnectionIo) :
    (clientPart k).Follows Client.perform (· = upkeepOps ios) (serviceClient ios k) := by
  intro lb c hc
  have hlookup : lb.clients.lookup k = some c := hc
  refine ⟨upkeepOps ios, rfl, ?_, ?_⟩
  · simp only [clientPart, (serviceClient_frame ios k lb).2.1, HashMap.lookup_modify_self, hlookup,
      Option.map_some, upkeepOps, Action.loop, Client.perform, Client.poll_eq,
      Client.cleanupConnections_eq]
    rfl
  · have hnone : (serviceClient ios k lb).log.flatMap (Event.callsOf k) = [] := by
      apply List.flatMap_eq_nil_iff.mpr
      intro e he
      apply Event.callsOf_of_unfinished
      simp [Event.isFinished, serviceClient_stage ios k lb e he]
    exact hnone

/-- Servicing another client. -/
theorem rests_serviceClient (ios : Nat → ConnectionIo) {id : String} (hne : id ≠ k) :
    (clientPart k).Follows Client.perform (· = []) (serviceClient ios id) := by
  apply client_rests
  · intro lb e he
    simp [Event.isFinished, serviceClient_stage ios id lb e he]
  · intro lb
    rw [(serviceClient_frame ios id lb).2.1, HashMap.lookup_modify_ne _ _ (Ne.symm hne)]

/-- Servicing the clients services each of them once. -/
theorem client_handleClients (ord : IterOrder String) (ios : String → Nat → ConnectionIo) :
    (clientPart k).Follows Client.perform (fun ops ↦ ops = [] ∨ ops = upkeepOps (ios k))
      (handleClients ord ios) := by
  have hall : ∀ ids : List String, ids.Nodup → (clientPart k).Follows Client.perform
      (fun ops ↦ ops = [] ∨ ops = upkeepOps (ios k))
      (Action.forEach (fun id ↦ serviceClient (ios id) id) ids) := fun ids hids ↦
    Part.follows_forEach_one (follows_serviceClient (ios k))
      (fun id hne ↦ rests_serviceClient (ios id) hne) hids
  exact fun lb ↦ hall _ (ord.nodup_arrange lb.clients.keys_nodup) lb

/-- Accepting streams. -/
theorem client_handleListener (accepts : List AcceptIo) :
    (clientPart k).Follows Client.perform (· = []) (handleListener accepts) := by
  apply client_rests
  · intro lb e he
    simp [Event.isFinished, (handleListener_spec accepts lb).2.2 e he]
  · intro lb
    rw [(handleListener_spec accepts lb).2.1]

/-- Running the health checks. -/
theorem client_handleServerGroups (ord : IterOrder UInt32) (serverOrd : UInt32 → IterOrder UInt32)
    (ios : UInt32 → UInt32 → HealthIo) :
    (clientPart k).Follows Client.perform (· = []) (handleServerGroups x ord serverOrd ios) := by
  have hall : ∀ groups, (clientPart k).Follows Client.perform (· = [])
      (Action.forEach (fun group ↦ pollGroup x (serverOrd group) (ios group) group) groups) := by
    intro groups
    refine Part.follows_forEach rfl (by rintro is js rfl rfl; rfl) fun group _ ↦ client_rests ?_ ?_
    · intro lb e he
      simp [Event.isFinished, pollGroup_stage x (serverOrd group) (ios group) group lb e he]
    · intro lb
      rw [(pollGroup_frame x (serverOrd group) (ios group) group lb).1]
  exact fun lb ↦ hall _ lb

/-- Operations that hand over connections. -/
def Offers (ops : List ClientOp) : Prop := ∀ op ∈ ops, ∃ t cxn, op = .addConnection t cxn

/-- Connections handed over before and after. -/
theorem Offers.append {ops ops' : List ClientOp} (h : Offers ops) (h' : Offers ops') :
    Offers (ops ++ ops') := by
  intro op hop
  rcases List.mem_append.mp hop with hold | hnew
  · exact h op hold
  · exact h' op hnew

/-- An admission hands its connection to its own client. -/
theorem follows_complete (pc : PartialConnection) (io : CompletionIo) :
    (clientPart k).Follows Client.perform Offers (complete x pc io) := by
  intro lb c hc
  have hlookup : lb.clients.lookup k = some c := hc
  have hadm := completeConnection_admitted x lb pc io
  unfold complete
  generalize lb.completeConnection x pc io = r at hadm
  cases hadm with
  | unrouted o hroute =>
    refine ⟨[], by simp [Offers], hc, ?_⟩
    rcases route_eq_error hroute with
      ⟨-, rfl⟩ | ⟨_, rfl⟩ | ⟨_, _, rfl⟩ | ⟨_, _, rfl⟩ | ⟨_, _, _, _, rfl, -⟩
    all_goals rfl
  | unconverted r e hroute hconvert => exact ⟨[], by simp [Offers], hc, rfl⟩
  | offered r cxn hroute hconvert =>
    obtain ⟨-, hclient, -⟩ := route_eq_ok hroute
    by_cases hk : r.clientId = k
    · subst hk
      obtain rfl : r.client = c := Option.some.inj (hclient.symm.trans hlookup)
      refine ⟨[.addConnection io.now cxn], by simp [Offers], ?_, ?_⟩
      · simp only [clientPart, HashMap.lookup_modify_self, hlookup, Option.map_some]
        rfl
      · have hadmits := Client.admits_eq r.client io.now cxn
        cases hhit : r.client.rateLimitHit io.now with
        | true =>
          simp [clientPart, Event.callsOf, Action.loop, Action.skip, Outcome.done, Client.perform,
            hadmits, hhit]
        | false =>
          simp [clientPart, Event.callsOf, Action.loop, Action.skip, Outcome.done, Client.perform,
            hadmits, hhit]
    · refine ⟨[], by simp [Offers], ?_, ?_⟩
      · simp only [clientPart, HashMap.lookup_modify_ne _ _ (Ne.symm hk)]
        exact hc
      · cases hhit : r.client.rateLimitHit io.now with
        | true => simp [clientPart, Event.callsOf, hk, Action.loop, Action.skip, Outcome.done]
        | false => simp [clientPart, Event.callsOf, hk, Action.loop, Action.skip, Outcome.done]

/-- Driving the partial connections. -/
theorem client_handlePartialConnections (partialIos : Nat → PartialIo)
    (ios : Nat → CompletionIo) :
    (clientPart k).Follows Client.perform Offers (handlePartialConnections x partialIos ios) := by
  intro lb c hc
  obtain ⟨ops, hops, hview, hlog⟩ := Part.follows_forEach (p := clientPart k)
    (by simp [Offers]) (fun _ _ ↦ Offers.append)
    (fun (e : Nat × PartialConnection) _ ↦ follows_complete (x := x) e.2 (ios e.1)) lb c hc
  refine ⟨ops, hops, ?_, ?_⟩
  · rw [handlePartialConnections_eq]
    exact hview
  · have hpolled : (lb.partialConns.mapIdx fun i pc ↦
        Event.partialPolled i (pc.poll x (partialIos i)).log).flatMap (Event.callsOf k) = [] := by
      apply List.flatMap_eq_nil_iff.mpr
      intro e he
      obtain ⟨i, hi, rfl⟩ := List.mem_mapIdx.mp he
      rfl
    rw [handlePartialConnections_eq, ← hlog]
    simp only [clientPart, List.flatMap_append, hpolled, List.nil_append]
    rfl

/-! ### Runs -/

/-- What a round does to a client: the upkeep of its list, unless the round ended before that,
and then connections handed to it. -/
def RoundOps (k : String) (io : RoundIo) (ops : List ClientOp) : Prop :=
  ∃ upkeep offers, ops = upkeep ++ offers ∧
    (upkeep = [] ∨ upkeep = upkeepOps (io.connection k)) ∧ Offers offers

/-- A round follows a client. -/
theorem client_round (io : RoundIo) :
    (clientPart k).Follows Client.perform (RoundOps k io) (poll x io) := by
  have haccepts : (clientPart k).Follows Client.perform (· = []) (handleListener io.accepts) :=
    client_handleListener io.accepts
  have hclients := haccepts.andThen
    (R := fun ops ↦ ops = [] ∨ ops = upkeepOps (io.connection k))
    (client_handleClients io.clientOrder io.connection)
    (by rintro is js rfl (rfl | hjs); exacts [.inl rfl, hjs])
  have hchecks := hclients.andThen
    (R := fun ops ↦ ops = [] ∨ ops = upkeepOps (io.connection k))
    (client_handleServerGroups (x := x) io.groupOrder io.serverOrder io.health)
    (by rintro is js his (rfl | rfl) <;> simpa using his)
  refine hchecks.andThen (client_handlePartialConnections io.partialConn io.completion) ?_
  rintro is js his (rfl | hjs)
  · exact ⟨is, [], rfl, his, by simp [Offers]⟩
  · exact ⟨is, js, rfl, his, hjs⟩

/-- In every run of rounds, from any state, whatever the other clients, the servers and the
handshakes do and whatever errors end a round: each client does a run of its own operations. -/
theorem client_projects (x : Externals) (ios : List RoundIo) (lb : LoadBalancer) (k : String)
    (c : Client) (hlookup : lb.clients.lookup k = some c) :
    ∃ ops, (clientPart k).Traced (poll x) Client.perform (RoundOps k) ios lb c ops :=
  Part.traced_loop (p := clientPart k) client_round ios hlookup

/-- The client of eleven admitted streams. -/
theorem client_projects_example :
    ∃ ops, (clientPart "first@first.com").Traced (poll firstClient) Client.perform
      (RoundOps "first@first.com") (acceptAndAdmit 11) oneServer.load
      (.new "first@first.com" 0) ops :=
  client_projects firstClient (acceptAndAdmit 11) oneServer.load "first@first.com" _ rfl

/-! ### The rate limit -/

/-- Nothing is offered to a client that is not configured. -/
theorem callsOf_unknown {cfg : Configuration} {ios : List RoundIo}
    (hnone : cfg.load.clients.lookup k = none) :
    (serve x ios cfg.load).log.flatMap (Event.callsOf k) = [] := by
  apply List.flatMap_eq_nil_iff.mpr
  intro e he
  have hunoffered : ∀ pc now outcome cxn, e = .finished pc now outcome →
      outcome.created = some (k, cxn) → False := by
    intro pc now outcome cxn hfinished hcreated
    subst hfinished
    obtain ⟨a, ha, hevent⟩ := (finished_mem_iff rfl).mp he
    obtain ⟨hI, hsound, hdone⟩ := configured_admissions x cfg ios a ha
    rw [← (Event.finished.inj hevent).2.2] at hcreated
    have hgroup := (created_authorised hI hsound hdone hcreated).group
    rw [groupOf, hnone] at hgroup
    cases hgroup
  unfold Event.callsOf
  split
  · next pc now id cxn =>
    by_cases hid : id = k
    · exact absurd (by rw [hid]; rfl) (hunoffered pc now _ cxn rfl)
    · rw [if_neg hid]
  · next pc now id cxn =>
    by_cases hid : id = k
    · exact absurd (by rw [hid]; rfl) (hunoffered pc now _ cxn rfl)
    · rw [if_neg hid]
  · rfl

/-- In every run from a configuration whose admissions read a clock that never goes back: of
the connections offered to a client in a 30 second period exactly the first ones are placed, up
to `clientLimit`, and the others are dropped, whatever happens to the client in between. -/
theorem placements_exact (x : Externals) (cfg : Configuration) (ios : List RoundIo) (k : String)
    (hclock : ((serve x ios cfg.load).log.filterMap Event.clock).Pairwise (· ≤ ·)) (p : Int) :
    Client.answersIn p ((serve x ios cfg.load).log.flatMap (Event.callsOf k)) =
      FixedWindow.firstGranted clientLimit
        (((serve x ios cfg.load).log.flatMap (Event.callsOf k)).countP fun call ↦
          periodOf call.timestamp = p) := by
  cases hc : cfg.load.clients.lookup k with
  | none =>
    rw [callsOf_unknown hc]
    rfl
  | some c =>
    obtain ⟨ops, htraced⟩ := client_projects x ios cfg.load k c hc
    have hnew := cfg.initial_load.clients k c hc
    have hcalls : (serve x ios cfg.load).log.flatMap (Event.callsOf k) =
        Client.calls ops.flatten c := htraced.total.2
    have htimes : (Client.calls ops.flatten c).map Call.timestamp =
        ops.flatten.filterMap ClientOp.timestamp := Client.calls_timestamp _ _
    have hmono : (ops.flatten.filterMap ClientOp.timestamp).Pairwise (· ≤ ·) := by
      rw [← htimes, ← hcalls]
      exact hclock.sublist (Event.callsOf_sublist k _)
    have hcount : (Client.calls ops.flatten c).countP (fun call ↦ periodOf call.timestamp = p) =
        (ops.flatten.filterMap ClientOp.timestamp).countP fun t ↦ periodOf t = p := by
      rw [← htimes, List.countP_map]
      rfl
    rw [hcalls, hcount, hnew]
    exact Client.answersIn_calls k c.allowedServerGroup hmono p

/-- Eleven connections are offered in one period. -/
theorem placements_exact_example :
    Client.answersIn 0
        ((serve firstClient (acceptAndAdmit 11) oneServer.load).log.flatMap
          (Event.callsOf "first@first.com")) =
      FixedWindow.firstGranted clientLimit
        (((serve firstClient (acceptAndAdmit 11) oneServer.load).log.flatMap
          (Event.callsOf "first@first.com")).countP fun call ↦ periodOf call.timestamp = 0) :=
  placements_exact firstClient oneServer (acceptAndAdmit 11) "first@first.com"
    (by decide +kernel) 0

end LoadBalancer
end TcpLoadBalancer
