import TcpLoadBalancer.Balancer.Rounds
import TcpLoadBalancer.Lib.Ledger

/-!
# Connection accounting

The counters of the server groups and the connections the clients hold are a ledger: an
admission acquires a lease, a removal releases one, and a connection that its client drops by
the rate limit leaks one, for it was counted before. The log of a run replays to the ledger
of the state reached, so a counter exceeds the open connections by the leaks, and every
release finds its counter positive.
-/

namespace TcpLoadBalancer
open Lib

/-- A server group and a server of it. -/
structure ServerKey where
  group : UInt32
  server : UInt32
  deriving DecidableEq

/-- The server a connection counts against. -/
def Connection.key (cxn : Connection) : ServerKey :=
  ⟨cxn.getUpstreamServerGroup, cxn.getUpstreamServerId⟩

/-- A poll leaves the server of a connection as it is. -/
theorem Connection.key_poll (cxn : Connection) (io : ConnectionIo) :
    (cxn.poll io).state.key = cxn.key := by
  obtain ⟨session, connState, he⟩ := cxn.poll_fixed io
  rw [he]
  rfl

/-- The number of connections of a client that name a server. -/
def Client.held (k : ServerKey) (c : Client) : Nat := (c.connections.map Connection.key).count k

/-- What an event does to the ledger. -/
def Event.move : Event → Option (Ledger.Move ServerKey)
  | .connectionRemoved _ cxn _ => some (.release cxn.key)
  | .finished _ _ (.rateLimited _ cxn) => some (.leak cxn.key)
  | .finished _ _ (.placed _ cxn) => some (.acquire cxn.key)
  | _ => none

/-- The branches that should not happen: a removed connection whose group (`src/lib.rs:103`),
counter entry or positive count is missing (`src/server.rs:55–64`), and an admission without
an email, without an address for the chosen server, or whose client is gone when its
connection is inserted (`src/lib.rs:211–214,191–194,224–227`). -/
def Event.shouldNotHappen : Event → Bool
  | .connectionRemoved _ _ branch => decide (branch ≠ some .decremented)
  | .finished _ _ .noEmail => true
  | .finished _ _ (.noAddress _ _ _) => true
  | .finished _ _ (.insertClientNotFound _ _) => true
  | _ => false

/-- The admission counts a connection that the client then drops: the upstream connection
opens, and the client's rate limit is reached. -/
def Admission.Leaks (x : Externals) (a : Admission) : Prop :=
  ∃ r cxn, a.lb.route a.parCxn a.io = .ok r ∧
    Connection.fromPartialConnection x a.parCxn r.group r.server r.address a.io.dial = .ok cxn ∧
    r.client.rateLimitHit a.io.now = true

namespace LoadBalancer

/-- The connection counter of a server, 0 when it has no entry. -/
def counter (lb : LoadBalancer) (k : ServerKey) : Nat :=
  ((lb.serverGroups.lookup k.group).bind fun g ↦ g.cxnCntr.lookup k.server).getD 0

/-- The number of connections in all clients' lists that name a server. -/
def live (lb : LoadBalancer) (k : ServerKey) : Nat := HashMap.total (Client.held k) lb.clients

/-- Counters next to open connections. -/
def ledger (lb : LoadBalancer) : Ledger ServerKey := ⟨lb.counter, lb.live⟩

/-- A removal went through: its group and a positive count were found. -/
def Released (e : Event) : Prop :=
  ∀ id cxn branch, e = .connectionRemoved id cxn branch → branch = some .decremented

/-- The log replays to the ledger of the state, and every removal went through. -/
structure Accounted (h : List Event) (lb : LoadBalancer) : Prop where
  replays : Ledger.empty.replay (h.filterMap Event.move) = some lb.ledger
  released : ∀ e ∈ h, Released e

/-! ### Counters -/

/-- The counters of a group of the balancer. -/
theorem counter_of_lookup {lb : LoadBalancer} {k : ServerKey} {g : ServerGroup}
    (hg : lb.serverGroups.lookup k.group = some g) :
    lb.counter k = (g.cxnCntr.lookup k.server).getD 0 := by
  rw [counter, hg, Option.bind_some]

/-- A change of one count of one server group is a change of one counter. -/
theorem counter_modify (lb : LoadBalancer) {group s : UInt32} {n : Nat} {g : ServerGroup}
    {f : ServerGroup → ServerGroup} (hg : lb.serverGroups.lookup group = some g)
    (hf : ∀ s', ((f g).cxnCntr.lookup s').getD 0 =
      if s' = s then n else (g.cxnCntr.lookup s').getD 0) (k : ServerKey) :
    { lb with serverGroups := lb.serverGroups.modify group f }.counter k =
      if k = ⟨group, s⟩ then n else lb.counter k := by
  obtain ⟨group', s'⟩ := k
  by_cases hgroup : group' = group
  · subst group'
    have hafter : (lb.serverGroups.modify group f).lookup group = some (f g) := by
      rw [HashMap.lookup_modify_self, hg, Option.map_some]
    rw [counter_of_lookup (k := ⟨group, s'⟩) hafter, hf,
      counter_of_lookup (k := ⟨group, s'⟩) hg]
    simp only [ServerKey.mk.injEq, true_and]
  · rw [if_neg fun he ↦ hgroup (congrArg ServerKey.group he), counter,
      HashMap.lookup_modify_ne _ _ hgroup, counter]

/-! ### Releases -/

/-- Releasing a connection whose server has a positive counter lowers that counter. -/
theorem releaseConnection_counted (id : String) (cxn : Connection) (lb : LoadBalancer)
    (hpos : 0 < lb.counter cxn.key) :
    (releaseConnection id cxn lb).log = [.connectionRemoved id cxn (some .decremented)] ∧
      ∀ k, (releaseConnection id cxn lb).state.counter k =
        if k = cxn.key then lb.counter cxn.key - 1 else lb.counter k := by
  cases hg : lb.serverGroups.lookup cxn.getUpstreamServerGroup with
  | none => simp [counter, Connection.key, hg] at hpos
  | some g =>
    have hcounter := counter_of_lookup (k := cxn.key) hg
    rw [hcounter] at hpos ⊢
    obtain ⟨hbranch, hcount⟩ := ServerGroup.removeConnection_count hpos
    constructor
    · simp only [releaseConnection, hg]
      exact congrArg (fun b ↦ [Event.connectionRemoved id cxn (some b)]) hbranch
    · simp only [releaseConnection, hg]
      exact counter_modify lb hg hcount

/-- Releasing several connections that are all counted lowers each counter by the number of
connections that name its server. -/
theorem releaseEach_counted (id : String) (cxns : List Connection) (lb : LoadBalancer)
    (hcounted : ∀ k, (cxns.map Connection.key).count k ≤ lb.counter k) :
    (Action.forEach (releaseConnection id) cxns lb).log =
        cxns.map (fun cxn ↦ .connectionRemoved id cxn (some .decremented)) ∧
      ∀ k, (Action.forEach (releaseConnection id) cxns lb).state.counter k =
        lb.counter k - (cxns.map Connection.key).count k := by
  induction cxns generalizing lb with
  | nil => simp [Action.forEach, Action.skip, Outcome.done]
  | cons cxn cxns ih =>
    have hfirst := hcounted cxn.key
    rw [List.map_cons, List.count_cons_self] at hfirst
    obtain ⟨hlog, hcount⟩ := releaseConnection_counted id cxn lb (by omega)
    have hrest : ∀ k, (cxns.map Connection.key).count k ≤
        (releaseConnection id cxn lb).state.counter k := by
      intro k
      have hk := hcounted k
      rw [hcount]
      split
      · next heq =>
        rw [heq, List.map_cons, List.count_cons_self] at hk
        rw [heq]
        omega
      · next hne =>
        rw [List.map_cons, List.count_cons_of_ne (Ne.symm hne)] at hk
        exact hk
    obtain ⟨hlogs, hcounts⟩ := ih _ hrest
    rw [Action.forEach, Action.andThen_of_ok (releaseConnection_frame id cxn lb).1]
    refine ⟨by simp only [hlog, hlogs, List.map_cons, List.singleton_append], fun k ↦ ?_⟩
    simp only [hcounts, hcount, List.map_cons]
    split
    · next heq =>
      rw [heq, List.count_cons_self]
      omega
    · next hne => rw [List.count_cons_of_ne (Ne.symm hne)]

/-! ### The stages -/

/-- In an accounted state every counter covers the open connections. -/
theorem Accounted.live_le {h : List Event} {lb : LoadBalancer} (hI : Accounted h lb)
    (k : ServerKey) : lb.live k ≤ lb.counter k := by
  have hcounts := Ledger.counts_of_empty hI.replays k
  simp only [ledger] at hcounts
  omega

/-- The connections of a client split into those kept and those taken out by a round. -/
theorem held_serviced (ios : Nat → ConnectionIo) (c : Client) (k : ServerKey) :
    c.held k = (serviced ios c).held k +
      (((polledCxns ios c).filter Client.isClosed).map Connection.key).count k := by
  have hkeys : (polledCxns ios c).map Connection.key = c.connections.map Connection.key := by
    rw [polledCxns, map_mapIdx]
    ext i : 1
    simp [Connection.key_poll]
  have hsplit := (List.filter_append_perm Client.isClosed (polledCxns ios c)).map Connection.key
  rw [Client.held, ← hkeys, ← hsplit.count_eq, List.map_append, List.count_append, Nat.add_comm]
  rfl

/-- What a stage that makes some ledger moves does to the accounts. -/
theorem Accounted.append {h es : List Event} {lb lb' : LoadBalancer} (hI : Accounted h lb)
    (hmoves : lb.ledger.replay (es.filterMap Event.move) = some lb'.ledger)
    (hreleased : ∀ e ∈ es, Released e) : Accounted (h ++ es) lb' := by
  constructor
  · rw [List.filterMap_append, Ledger.replay_append, hI.replays, Option.bind_some, hmoves]
  · intro e he
    rcases List.mem_append.mp he with hold | hnew
    · exact hI.released e hold
    · exact hreleased e hnew

/-- Servicing a client in an accounted state: the closed connections leave its list and are
given back to the counters, each with a removal that goes through. -/
theorem serviceClient_counted (ios : Nat → ConnectionIo) {id : String} {h : List Event}
    {lb : LoadBalancer} (hI : Accounted h lb) {c : Client} (hc : lb.clients.lookup id = some c) :
    let closed := ((polledCxns ios c).filter Client.isClosed).reverse
    let after := (serviceClient ios id lb).state
    (serviceClient ios id lb).log =
        (c.connections.mapIdx fun i cxn ↦ .connectionPolled id i (cxn.poll (ios i)).log) ++
          closed.map (fun cxn ↦ .connectionRemoved id cxn (some .decremented)) ∧
      (∀ k, after.counter k = lb.counter k - (closed.map Connection.key).count k) ∧
      ∀ k, after.live k + (closed.map Connection.key).count k = lb.live k := by
  intro closed after
  have hlive : ∀ k, after.live k + (closed.map Connection.key).count k = lb.live k := by
    intro k
    have htotal := HashMap.total_modify (Client.held k) lb.clients (serviced ios) hc
    rw [held_serviced ios c k] at htotal
    rw [live, live, (serviceClient_frame ios id lb).2.1, List.map_reverse, List.count_reverse]
    omega
  have hcounted : ∀ k, (closed.map Connection.key).count k ≤ lb.counter k := by
    intro k
    have hle := hI.live_le k
    have hk := hlive k
    omega
  obtain ⟨hlog, hcount⟩ := releaseEach_counted id closed
    { lb with clients := lb.clients.modify id fun _ ↦ serviced ios c } hcounted
  refine ⟨?_, ?_, hlive⟩
  · rw [serviceClient_of_some ios hc, ← hlog]
  · intro k
    have hafter := congrArg (fun r ↦ r.state.counter k) (serviceClient_of_some ios hc)
    exact hafter.trans (hcount k)

/-- Servicing a client keeps the accounts. -/
theorem accounted_service (ios : Nat → ConnectionIo) (id : String) :
    Action.Keeps Accounted (serviceClient ios id) := by
  intro h lb hI
  cases hc : lb.clients.lookup id with
  | none => simpa [serviceClient, hc, Outcome.done] using hI
  | some c =>
    obtain ⟨hlog, hcount, hlive⟩ := serviceClient_counted ios hI hc
    generalize (serviceClient ios id lb).state = after at hcount hlive ⊢
    generalize ((polledCxns ios c).filter Client.isClosed).reverse = closed at hlog hcount hlive
    rw [hlog]
    apply hI.append
    · have hpolled : (c.connections.mapIdx fun i cxn ↦
          Event.connectionPolled id i (cxn.poll (ios i)).log).filterMap Event.move = [] := by
        apply List.filterMap_eq_nil_iff.mpr
        intro e he
        obtain ⟨i, hi, rfl⟩ := List.mem_mapIdx.mp he
        rfl
      have hmoves : (closed.map fun cxn ↦
          Event.connectionRemoved id cxn (some .decremented)).filterMap Event.move =
          (closed.map Connection.key).map .release := by
        rw [List.filterMap_map, List.map_map, ← List.filterMap_eq_map]
        rfl
      rw [List.filterMap_append, hpolled, hmoves, List.nil_append, Ledger.replay_release]
      · apply congrArg some
        ext k
        · exact (hcount k).symm
        · have hk := hlive k
          simp only [ledger]
          omega
      · intro k
        have hk := hlive k
        simp only [ledger]
        omega
    · intro e he
      rcases List.mem_append.mp he with hpoll | hrel
      · obtain ⟨i, hi, rfl⟩ := List.mem_mapIdx.mp hpoll
        intro _ _ _ heq
        cases heq
      · obtain ⟨cxn, -, rfl⟩ := List.mem_map.mp hrel
        intro _ _ _ heq
        cases heq
        rfl

/-- Checking a group keeps the accounts. -/
theorem accounted_check (x : Externals) (ord : IterOrder UInt32) (ios : UInt32 → HealthIo)
    (group : UInt32) : Action.Keeps Accounted (pollGroup x ord ios group) := by
  intro h lb hI
  obtain ⟨hclients, -, -, hcntr⟩ := pollGroup_frame x ord ios group lb
  have hstage := pollGroup_stage x ord ios group lb
  apply hI.append
  · have hnone : (pollGroup x ord ios group lb).log.filterMap Event.move = [] := by
      apply List.filterMap_eq_nil_iff.mpr
      intro e he
      have hs := hstage e he
      cases e with
      | healthPolled group server ops => rfl
      | _ => cases hs
    rw [hnone, Ledger.replay]
    apply congrArg some
    ext k
    · have hk := congrArg (fun o ↦ (o.bind fun m : HashMap UInt32 Nat ↦ m.lookup k.server).getD 0)
        (hcntr k.group)
      simp only [Option.bind_map] at hk
      exact hk.symm
    · simp only [ledger, live, hclients]
  · intro e he _ _ _ heq
    have hs := hstage e he
    rw [heq] at hs
    cases hs

private theorem move_of_unrouted {lb : LoadBalancer} {pc : PartialConnection} {io : CompletionIo}
    {o : Completion} (h : lb.route pc io = .error o) :
    (Event.finished pc io.now o).move = none := by
  rcases route_eq_error h with
    ⟨-, rfl⟩ | ⟨_, rfl⟩ | ⟨_, _, rfl⟩ | ⟨_, _, rfl⟩ | ⟨_, _, _, _, rfl, -⟩
  all_goals rfl

private theorem ledger_offered {lb : LoadBalancer} {pc : PartialConnection} {io : CompletionIo}
    {r : Route} {cxn : Connection} (hroute : lb.route pc io = .ok r)
    (hkey : cxn.key = ⟨r.group, r.server⟩) :
    let after : LoadBalancer :=
      { lb with
        clients := lb.clients.modify r.clientId fun client ↦ client.addConnection io.now cxn
        serverGroups := lb.serverGroups.modify r.group fun g ↦ g.addConnection r.server }
    (∀ k, after.counter k = if k = cxn.key then lb.counter cxn.key + 1 else lb.counter k) ∧
      ∀ k, after.live k =
        if k = cxn.key ∧ r.client.rateLimitHit io.now = false then lb.live cxn.key + 1
        else lb.live k := by
  obtain ⟨-, hclient, -, g, hg, -, -⟩ := route_eq_ok hroute
  intro after
  constructor
  · rw [hkey, counter_of_lookup (k := ⟨r.group, r.server⟩) hg]
    exact counter_modify lb hg (ServerGroup.addConnection_count g r.server)
  · intro k
    have htotal := HashMap.total_modify (Client.held k) lb.clients
      (fun client ↦ client.addConnection io.now cxn) hclient
    have hlive : after.live k =
        HashMap.total (Client.held k)
          (lb.clients.modify r.clientId fun client ↦ client.addConnection io.now cxn) := rfl
    have hbefore : lb.live k = HashMap.total (Client.held k) lb.clients := rfl
    cases hhit : r.client.rateLimitHit io.now with
    | true =>
      rw [Client.addConnection_of_hit cxn hhit] at htotal
      rw [if_neg (by simp)]
      omega
    | false =>
      have hheld : (r.client.addConnection io.now cxn).held k =
          r.client.held k + if cxn.key = k then 1 else 0 := by
        rw [Client.addConnection_of_free cxn hhit]
        simp only [Client.held, List.map_append, List.count_append, List.map_cons, List.map_nil,
          List.count_singleton, beq_iff_eq]
      by_cases hk : k = cxn.key
      · rw [if_pos hk.symm] at hheld
        rw [if_pos ⟨hk, rfl⟩, ← hk]
        omega
      · rw [if_neg (Ne.symm hk)] at hheld
        rw [if_neg fun he ↦ hk he.1]
        omega

/-- An admission keeps the accounts: an offered connection is counted, and then held or
leaked. -/
theorem accounted_complete (x : Externals) (pc : PartialConnection) (io : CompletionIo) :
    Action.Keeps Accounted (complete x pc io) := by
  intro h lb hI
  unfold complete
  apply hI.append
  · have hadm := completeConnection_admitted x lb pc io
    generalize lb.completeConnection x pc io = r at hadm
    cases hadm with
    | unrouted o hroute =>
      simp only [List.filterMap_cons, move_of_unrouted hroute, List.filterMap_nil, Ledger.replay]
    | unconverted r e hroute hconvert => rfl
    | offered r cxn hroute hconvert =>
      obtain ⟨upStream, -, -, hcxn⟩ := Connection.fromPartialConnection_eq hconvert
      have hkey : cxn.key = ⟨r.group, r.server⟩ := by
        rw [hcxn]
        rfl
      obtain ⟨hcounter, hlive⟩ := ledger_offered hroute hkey
      cases hhit : r.client.rateLimitHit io.now with
      | true =>
        simp only [if_true, List.filterMap_cons, List.filterMap_nil, Event.move, Ledger.replay,
          Ledger.move, Option.bind_some]
        apply congrArg some
        ext k
        · simp only [ledger, hcounter, Function.update_apply]
        · simp only [ledger, hlive, hhit, Bool.true_eq_false, and_false, if_false]
      | false =>
        simp only [Bool.false_eq_true, if_false, List.filterMap_cons, List.filterMap_nil,
          Event.move, Ledger.replay, Ledger.move, Option.bind_some]
        apply congrArg some
        ext k
        · simp only [ledger, hcounter, Function.update_apply]
        · simp only [ledger, hlive, hhit, and_true, Function.update_apply]
  · intro e he
    rw [List.mem_singleton.mp he]
    intro _ _ _ heq
    cases heq

/-- Every stage of a round keeps the accounts. -/
theorem kept_accounted (x : Externals) : Kept x (fun _ ↦ True) Accounted where
  new _ _ := trivial
  handshake _ _ _ := trivial
  blind _ _ _ hI := ⟨hI.replays, hI.released⟩
  quiet h lb e he hI := by
    apply hI.append
    · cases e with
      | accepted stream => rfl
      | partialPolled i bytes => rfl
      | _ => cases he
    · intro e' he'
      rw [List.mem_singleton.mp he']
      intro _ _ _ heq
      rw [heq] at he
      cases he
  service := accounted_service
  check := accounted_check x
  admission pc io _ _ := accounted_complete x pc io

/-! ### Counters and open connections -/

/-- Nobody holds a connection and nothing is counted. -/
structure Fresh (lb : LoadBalancer) : Prop where
  connections : ∀ id c, lb.clients.lookup id = some c → c.connections = []
  counters : ∀ group g, lb.serverGroups.lookup group = some g → g.cxnCntr = ∅

/-- A configuration is fresh. -/
theorem fresh_load (cfg : Configuration) : cfg.load.Fresh where
  connections id c hc := by
    rw [cfg.initial_load.clients id c hc]
    rfl
  counters group g hg := (cfg.initial_load.groups group g hg).cxnCntr

/-- A fresh load balancer has an empty ledger. -/
theorem Fresh.ledger_eq {lb : LoadBalancer} (h : lb.Fresh) : lb.ledger = Ledger.empty := by
  ext k
  · cases hg : lb.serverGroups.lookup k.group with
    | none => simp [ledger, counter, hg, Ledger.empty]
    | some g => simp [ledger, counter, hg, h.counters _ g hg, Ledger.empty]
  · apply HashMap.total_eq_zero
    intro id c hc
    rw [Client.held, h.connections id c hc]
    rfl

/-- A run from a fresh load balancer keeps the accounts. -/
theorem Fresh.accounted {lb : LoadBalancer} (h : lb.Fresh) (x : Externals) (ios : List RoundIo) :
    Accounted (serve x ios lb).log (serve x ios lb).state := by
  have hstart : Accounted [] lb := ⟨by rw [h.ledger_eq]; rfl, by simp⟩
  exact ((kept_accounted x).serve ios ⟨hstart, fun _ _ ↦ trivial⟩).1

/-- An admission leaks exactly when it ends at the rate limit. -/
theorem leaks_iff (x : Externals) (a : Admission) :
    a.Leaks x ↔ ∃ id cxn, a.outcome x = .rateLimited id cxn := by
  have hadm := completeConnection_admitted x a.lb a.parCxn a.io
  unfold Admission.outcome Admission.Leaks
  generalize a.lb.completeConnection x a.parCxn a.io = r at hadm
  cases hadm with
  | unrouted o hroute =>
    rcases route_eq_error hroute with
      ⟨-, rfl⟩ | ⟨_, rfl⟩ | ⟨_, _, rfl⟩ | ⟨_, _, rfl⟩ | ⟨_, _, _, _, rfl, -⟩
    all_goals simp [hroute]
  | unconverted r e hroute hconvert => simp [hroute, hconvert]
  | offered r cxn hroute hconvert =>
    cases hhit : r.client.rateLimitHit a.io.now with
    | true => simp [hroute, hconvert, hhit]
    | false => simp [hroute, hconvert, hhit]

/-- The leaks in the log of a run are its leaking admissions. -/
theorem leak_mem_iff (x : Externals) (ios : List RoundIo) (lb : LoadBalancer) :
    (∃ k, .leak k ∈ (serve x ios lb).log.filterMap Event.move) ↔
      ∃ a ∈ admissions x ios lb, a.Leaks x := by
  constructor
  · rintro ⟨k, hk⟩
    obtain ⟨e, he, hmove⟩ := List.mem_filterMap.mp hk
    unfold Event.move at hmove
    split at hmove
    · cases hmove
    · next pc now id cxn =>
      obtain ⟨a, ha, hevent⟩ := (finished_mem_iff rfl).mp he
      exact ⟨a, ha, (leaks_iff x a).mpr ⟨id, cxn, (Event.finished.inj hevent).2.2⟩⟩
    · cases hmove
    · cases hmove
  · rintro ⟨a, ha, hleaks⟩
    obtain ⟨id, cxn, houtcome⟩ := (leaks_iff x a).mp hleaks
    have hlog := (finished_mem_iff (e := a.event x) rfl).mpr ⟨a, ha, rfl⟩
    exact ⟨cxn.key, List.mem_filterMap.mpr ⟨_, hlog, by rw [Admission.event, houtcome]; rfl⟩⟩

/-- Along every run from a fresh load balancer, the counter of every server is the number of
open connections that name it exactly when no admission opened and counted a connection for
a client at its rate limit. -/
theorem counter_eq_live_iff (x : Externals) (lb : LoadBalancer) (hfresh : lb.Fresh)
    (ios : List RoundIo) :
    (∀ group server, (serve x ios lb).state.counter ⟨group, server⟩ =
        (serve x ios lb).state.live ⟨group, server⟩) ↔
      ∀ a ∈ admissions x ios lb, ¬a.Leaks x := by
  have hcounts : ∀ k, (serve x ios lb).state.counter k = (serve x ios lb).state.live k +
      Ledger.leaks k ((serve x ios lb).log.filterMap Event.move) :=
    Ledger.counts_of_empty (hfresh.accounted x ios).replays
  constructor
  · intro h a ha hleaks
    obtain ⟨k, hk⟩ := (leak_mem_iff x ios lb).mpr ⟨a, ha, hleaks⟩
    have hpos : 0 < Ledger.leaks k ((serve x ios lb).log.filterMap Event.move) :=
      List.count_pos_iff.mpr hk
    have heq : (serve x ios lb).state.counter k = (serve x ios lb).state.live k :=
      h k.group k.server
    have hk' := hcounts k
    omega
  · intro h group server
    have hzero : Ledger.leaks ⟨group, server⟩ ((serve x ios lb).log.filterMap Event.move) = 0 := by
      apply List.count_eq_zero.mpr
      intro hmem
      obtain ⟨a, ha, hleaks⟩ := (leak_mem_iff x ios lb).mp ⟨_, hmem⟩
      exact h a ha hleaks
    rw [hcounts, hzero, Nat.add_zero]

/-- Three connections are admitted, and the client closes the first of them. -/
def admitAndClose : List RoundIo :=
  acceptAndAdmit 3 ++
    [{ acceptRound [] with
        connection := fun _ i ↦
          ⟨if i = 0 then .ok ⟨[], Nat.zero_le _⟩ else .error .wouldBlock, [], .error .wouldBlock,
            [], ⟨false, none⟩⟩ }]

/-- The closed connection is given back. -/
theorem counter_eq_live_example :
    ((∀ group server,
        (serve firstClient admitAndClose oneServer.load).state.counter ⟨group, server⟩ =
          (serve firstClient admitAndClose oneServer.load).state.live ⟨group, server⟩) ↔
      ∀ a ∈ admissions firstClient admitAndClose oneServer.load, ¬a.Leaks firstClient) ∧
    (admissions firstClient admitAndClose oneServer.load).length = 3 ∧
      (serve firstClient admitAndClose oneServer.load).state.counter ⟨0, 0⟩ = 2 :=
  ⟨counter_eq_live_iff firstClient oneServer.load (fresh_load oneServer) admitAndClose,
    by decide +kernel, by decide +kernel⟩

/-- The eleventh connection of a client in one period is counted and dropped. -/
theorem counter_exceeds_live :
    ¬∀ (x : Externals) (lb : LoadBalancer) (ios : List RoundIo), lb.Fresh →
      ∀ group server, (serve x ios lb).state.counter ⟨group, server⟩ =
        (serve x ios lb).state.live ⟨group, server⟩ := by
  intro h
  have heq := h firstClient oneServer.load (acceptAndAdmit 11) (fresh_load oneServer) 0 0
  have hcounter :
      (serve firstClient (acceptAndAdmit 11) oneServer.load).state.counter ⟨0, 0⟩ = 11 := by
    decide +kernel
  have hlive : (serve firstClient (acceptAndAdmit 11) oneServer.load).state.live ⟨0, 0⟩ = 10 := by
    decide +kernel
  omega

/-! ### Branches that should not happen -/

/-- An admission in a configured state takes none of the branches that should not happen. -/
theorem admission_expected {x : Externals} {cfg : Configuration} {a : Admission}
    (hI : Configured cfg.load [] a.lb) (hsound : a.parCxn.Sound x)
    (hdone : a.parCxn.isCompleted = true) : (a.event x).shouldNotHappen = false := by
  have hadm := completeConnection_admitted x a.lb a.parCxn a.io
  unfold Admission.event Admission.outcome
  generalize a.lb.completeConnection x a.parCxn a.io = r at hadm
  cases hadm with
  | unrouted o hroute =>
    rcases route_eq_error hroute with
      ⟨hnone, -⟩ | ⟨_, rfl⟩ | ⟨_, _, rfl⟩ | ⟨_, _, rfl⟩ | ⟨_, group, server, g, -, hg, hfind, haddr⟩
    · obtain ⟨-, certs, email, -, -, hemail⟩ :=
        hsound (by simpa [PartialConnection.isCompleted] using hdone)
      rw [PartialConnection.clientId, hemail] at hnone
      cases hnone
    · rfl
    · rfl
    · rfl
    · obtain ⟨g₀, addr, -, hsame, haddr₀⟩ := chosen_registered hI hg hfind
      rw [hsame, haddr₀] at haddr
      cases haddr
  | unconverted r e hroute hconvert => rfl
  | offered r cxn hroute hconvert =>
    cases hhit : r.client.rateLimitHit a.io.now with
    | true => rfl
    | false => rfl

/-- In no run from a configuration is a branch taken that should not happen. -/
theorem should_not_happen_unreachable (x : Externals) (cfg : Configuration) (ios : List RoundIo) :
    ∀ e ∈ (serve x ios cfg.load).log, e.shouldNotHappen = false := by
  intro e he
  cases e with
  | connectionRemoved id cxn branch =>
    have hreleased := ((fresh_load cfg).accounted x ios).released _ he id cxn branch rfl
    simp [Event.shouldNotHappen, hreleased]
  | finished pc now o =>
    obtain ⟨a, ha, hevent⟩ := (finished_mem_iff rfl).mp he
    obtain ⟨hI, hsound, hdone⟩ := configured_admissions x cfg ios a ha
    rw [← hevent]
    exact admission_expected hI hsound hdone
  | accepted stream => rfl
  | connectionPolled id i traffic => rfl
  | healthPolled group server ops => rfl
  | partialPolled i bytes => rfl

/-- The placement of the first client is expected. -/
theorem should_not_happen_unreachable_example :
    (Event.finished
      ⟨⟨0, ⟨[127, 0, 0, 1], 40000⟩⟩, ⟨false, some ⟨[48], []⟩⟩, .completed, some "first@first.com"⟩ 0
      (.placed "first@first.com"
        ⟨⟨0, ⟨[127, 0, 0, 1], 40000⟩⟩, ⟨100, ⟨[127, 0, 0, 1], 2500⟩⟩, ⟨false, some ⟨[48], []⟩⟩,
          .okay, 0, 0⟩)).shouldNotHappen = false :=
  should_not_happen_unreachable firstClient oneServer (acceptAndAdmit 1) _ (by decide +kernel)

end LoadBalancer
end TcpLoadBalancer
