import TcpLoadBalancer.Balancer.Isolation
import TcpLoadBalancer.Relay.Lossless

/-!
# Servicing the clients

What a pass of `handle_clients` leaves of every client and of every counter, by the outcomes
of the reads and writes alone. That determines the state, so the iteration order of the map of
clients does not matter.
-/

namespace TcpLoadBalancer
open Lib

namespace Client

/-- The connections that met neither the end of a stream nor an error other than `WouldBlock`,
as the polls of the round leave them. -/
def surviving (ios : Nat → ConnectionIo) (c : Client) : List Connection :=
  (c.connections.zipIdx.filter fun e ↦ !(ios e.2).fatal).map fun e ↦ (e.1.poll (ios e.2)).state

/-- The connections that met one of these. -/
def ended (ios : Nat → ConnectionIo) (c : Client) : List Connection :=
  (c.connections.zipIdx.filter fun e ↦ (ios e.2).fatal).map Prod.fst

end Client

namespace LoadBalancer

/-- The number of connections of one client that end and name a server. -/
def endedOf (ios : String → Nat → ConnectionIo) (lb : LoadBalancer) (k : ServerKey) (id : String) :
    Nat :=
  (lb.clients.lookup id).elim 0 fun c ↦ ((c.ended (ios id)).map Connection.key).count k

/-- The number of connections of all clients that end and name a server. -/
def endedAt (ios : String → Nat → ConnectionIo) (lb : LoadBalancer) (k : ServerKey) : Nat :=
  (lb.clients.keys.map (endedOf ios lb k)).sum

/-- Every client keeps exactly its surviving connections, all of them open; every counter goes
down by the connections that ended; everything else is as it was. -/
structure ServicedExactly (ios : String → Nat → ConnectionIo) (lb after : LoadBalancer) :
    Prop where
  clientKeys : after.clients.keys = lb.clients.keys
  clients : ∀ id c, lb.clients.lookup id = some c →
    after.clients.lookup id = some { c with connections := c.surviving (ios id) }
  okay : ∀ id c, lb.clients.lookup id = some c →
    ∀ cxn ∈ c.surviving (ios id), cxn.connState = .okay
  groupKeys : after.serverGroups.keys = lb.serverGroups.keys
  groups : ∀ group g, lb.serverGroups.lookup group = some g →
    ∃ cntr, after.serverGroups.lookup group = some { g with cxnCntr := cntr } ∧
      cntr.keys = g.cxnCntr.keys
  counters : ∀ k, after.counter k + endedAt ios lb k = lb.counter k
  partialConns : after.partialConns = lb.partialConns

/-- These facts determine the state. -/
theorem ServicedExactly.unique {ios : String → Nat → ConnectionIo} {lb after after' : LoadBalancer}
    (h : ServicedExactly ios lb after) (h' : ServicedExactly ios lb after') : after = after' := by
  have hclients : after.clients = after'.clients := by
    apply HashMap.ext_lookup (h.clientKeys.trans h'.clientKeys.symm)
    intro id hid
    obtain ⟨c, hc⟩ := HashMap.mem_keys_iff.mp (h.clientKeys ▸ hid)
    rw [h.clients id c hc, h'.clients id c hc]
  have hgroups : after.serverGroups = after'.serverGroups := by
    apply HashMap.ext_lookup (h.groupKeys.trans h'.groupKeys.symm)
    intro group hgroup
    obtain ⟨g, hg⟩ := HashMap.mem_keys_iff.mp (h.groupKeys ▸ hgroup)
    obtain ⟨cntr, hafter, hkeys⟩ := h.groups group g hg
    obtain ⟨cntr', hafter', hkeys'⟩ := h'.groups group g hg
    have hcntr : cntr = cntr' := by
      apply HashMap.ext_lookup (hkeys.trans hkeys'.symm)
      intro server hserver
      obtain ⟨n, hn⟩ := HashMap.mem_keys_iff.mp hserver
      obtain ⟨n', hn'⟩ := HashMap.mem_keys_iff.mp (hkeys'.symm ▸ hkeys ▸ hserver)
      have hcount := h.counters ⟨group, server⟩
      have hcount' := h'.counters ⟨group, server⟩
      rw [counter_of_lookup hafter] at hcount
      rw [counter_of_lookup hafter'] at hcount'
      simp only [hn, hn', Option.getD_some] at hcount hcount'
      rw [hn, hn', show n = n' by omega]
    rw [hafter, hafter', hcntr]
  obtain ⟨clients, groups, pcs⟩ := after
  obtain ⟨clients', groups', pcs'⟩ := after'
  have hpartial : pcs = pcs' := h.partialConns.trans h'.partialConns.symm
  simp only at hclients hgroups
  rw [hclients, hgroups, hpartial]

/-! ### One client -/

/-- A poll closes an open connection exactly when it meets something fatal. -/
theorem isClosed_poll {cxn : Connection} (hopen : Client.isClosed cxn = false)
    (io : ConnectionIo) : Client.isClosed (cxn.poll io).state = io.fatal := by
  have hokay := Client.isClosed_eq_false_iff.mp hopen
  have hiff := Connection.poll_okay_iff cxn io
  rw [← Client.isClosed_eq_false_iff] at hiff
  simp only [hokay, true_and] at hiff
  cases hfatal : io.fatal with
  | false => exact hiff.mpr hfatal
  | true =>
    rw [hfatal] at hiff
    simpa using hiff

/-- The polls of a client by the positions of its connections. -/
theorem polledCxns_eq (ios : Nat → ConnectionIo) (c : Client) :
    polledCxns ios c = c.connections.zipIdx.map fun e ↦ (e.1.poll (ios e.2)).state := by
  rw [polledCxns, List.mapIdx_eq_zipIdx_map]

/-- A client whose connections are open keeps the surviving ones, and the others are taken
out. -/
theorem serviced_of_open (ios : Nat → ConnectionIo) {c : Client}
    (hopen : ∀ cxn ∈ c.connections, Client.isClosed cxn = false) :
    serviced ios c = { c with connections := c.surviving ios } ∧
      ((polledCxns ios c).filter Client.isClosed).map Connection.key =
        (c.ended ios).map Connection.key := by
  have hpoll : ∀ e ∈ c.connections.zipIdx,
      Client.isClosed (e.1.poll (ios e.2)).state = (ios e.2).fatal := by
    intro e he
    obtain ⟨-, -, hcxn⟩ := List.mem_zipIdx he
    apply isClosed_poll
    apply hopen
    rw [hcxn]
    exact List.getElem_mem _
  constructor
  · have hkept : c.connections.zipIdx.filter
        ((fun cxn ↦ !Client.isClosed cxn) ∘ fun e ↦ (e.1.poll (ios e.2)).state) =
          c.connections.zipIdx.filter fun e ↦ !(ios e.2).fatal := by
      apply List.filter_congr
      intro e he
      exact congrArg (fun b ↦ !b) (hpoll e he)
    rw [serviced, polledCxns_eq, List.filter_map, hkept]
    rfl
  · have hended : c.connections.zipIdx.filter
        (Client.isClosed ∘ fun e ↦ (e.1.poll (ios e.2)).state) =
          c.connections.zipIdx.filter fun e ↦ (ios e.2).fatal := List.filter_congr hpoll
    rw [polledCxns_eq, List.filter_map, hended, Client.ended, List.map_map, List.map_map]
    apply List.map_congr_left
    intro e _
    exact Connection.key_poll e.1 (ios e.2)

/-! ### One pass -/

/-- A server group without its counts. -/
def bare (g : ServerGroup) : ServerGroup × List UInt32 := ({ g with cxnCntr := ∅ }, g.cxnCntr.keys)

/-- The same groups up to the counts. -/
def SameGroups (lb lb' : LoadBalancer) : Prop :=
  lb'.serverGroups.keys = lb.serverGroups.keys ∧
    ∀ group, (lb'.serverGroups.lookup group).map bare = (lb.serverGroups.lookup group).map bare

/-- What is the same up to the counts differs in the counts only. -/
theorem SameGroups.lookup {lb lb' : LoadBalancer} (h : SameGroups lb lb') {group : UInt32}
    {g : ServerGroup} (hg : lb.serverGroups.lookup group = some g) :
    ∃ cntr, lb'.serverGroups.lookup group = some { g with cxnCntr := cntr } ∧
      cntr.keys = g.cxnCntr.keys := by
  have hgroup := h.2 group
  rw [hg, Option.map_some] at hgroup
  obtain ⟨g', hg', hsame⟩ := Option.map_eq_some_iff.mp hgroup
  refine ⟨g'.cxnCntr, ?_, congrArg Prod.snd hsame⟩
  have hbare := congrArg (fun b : ServerGroup × List UInt32 ↦ { b.1 with cxnCntr := g'.cxnCntr })
    hsame
  rw [hg']
  exact congrArg some hbare

/-- Releasing connections changes counts only. -/
theorem releaseConnection_sameGroups (id : String) (cxn : Connection) (lb : LoadBalancer) :
    SameGroups lb (releaseConnection id cxn lb).state := by
  cases hg : lb.serverGroups.lookup cxn.getUpstreamServerGroup with
  | none =>
    simp only [releaseConnection, hg]
    exact ⟨rfl, fun _ ↦ rfl⟩
  | some g =>
    simp only [releaseConnection, hg]
    refine ⟨HashMap.keys_modify _ _ _, fun group ↦ HashMap.map_lookup_modify (fun v hv ↦ ?_) group⟩
    obtain rfl : g = v := Option.some.inj (hg.symm.trans hv)
    obtain ⟨cntr, hremove, hkeys⟩ := g.removeConnection_frame cxn.getUpstreamServerId
    rw [hremove, bare, bare, hkeys]

/-- Servicing clients changes connections and counts only. -/
theorem handleClients_sameGroups (ios : String → Nat → ConnectionIo) (ids : List String)
    (lb : LoadBalancer) :
    SameGroups lb (Action.forEach (fun id ↦ serviceClient (ios id) id) ids lb).state := by
  have htrans : ∀ {lb₁ lb₂ lb₃ : LoadBalancer}, SameGroups lb₁ lb₂ → SameGroups lb₂ lb₃ →
      SameGroups lb₁ lb₃ := fun h h' ↦
    ⟨h'.1.trans h.1, fun group ↦ (h'.2 group).trans (h.2 group)⟩
  apply Action.forEach_state (P := SameGroups lb)
  · intro id _ s hs
    apply htrans hs
    cases hc : s.clients.lookup id with
    | none =>
      simp only [serviceClient, hc, Outcome.done]
      exact ⟨rfl, fun _ ↦ rfl⟩
    | some c =>
      rw [serviceClient_of_some (ios id) hc]
      apply Action.forEach_state (P := SameGroups s)
      · exact fun cxn _ s' hs' ↦ htrans hs' (releaseConnection_sameGroups id cxn s')
      · exact ⟨rfl, fun _ ↦ rfl⟩
  · exact ⟨rfl, fun _ ↦ rfl⟩

/-- Servicing one client lowers every counter by the connections of the client that end. -/
theorem serviceClient_counters (ios : String → Nat → ConnectionIo) (id : String)
    {h : List Event} {lb : LoadBalancer} (hI : Accounted h lb) (hopen : AllOpen h lb)
    (k : ServerKey) :
    (serviceClient (ios id) id lb).state.counter k + endedOf ios lb k id = lb.counter k := by
  unfold endedOf
  cases hc : lb.clients.lookup id with
  | none => simp [serviceClient, hc, Outcome.done]
  | some c =>
    obtain ⟨-, hcount, hlive⟩ := serviceClient_counted (ios id) hI hc
    have hkeys := (serviced_of_open (ios id) fun cxn hcxn ↦ hopen id c cxn hc hcxn).2
    have hle := hI.live_le k
    have hk := hcount k
    have hlivek := hlive k
    rw [List.map_reverse, List.count_reverse, hkeys] at hk hlivek
    rw [Option.elim_some]
    omega

private theorem serviceClient_others (ios : String → Nat → ConnectionIo) {id : String}
    {ids : List String} (hid : id ∉ ids) (lb : LoadBalancer) :
    (∀ id', id' ≠ id →
        (serviceClient (ios id) id lb).state.clients.lookup id' = lb.clients.lookup id') ∧
      ∀ k, ids.map (endedOf ios (serviceClient (ios id) id lb).state k) =
        ids.map (endedOf ios lb k) := by
  have hother : ∀ id', id' ≠ id →
      (serviceClient (ios id) id lb).state.clients.lookup id' = lb.clients.lookup id' := by
    intro id' hne
    rw [(serviceClient_frame (ios id) id lb).2.1, HashMap.lookup_modify_ne _ _ hne]
  refine ⟨hother, fun k ↦ ?_⟩
  apply List.map_congr_left
  intro id' hid'
  rw [endedOf, endedOf, hother id' fun heq ↦ hid (heq ▸ hid')]

/-- Servicing distinct clients, in any order: each is serviced as it was at the start, and the
counters go down by the connections that end. -/
theorem serviceClients_spec (ios : String → Nat → ConnectionIo) {ids : List String}
    (hnodup : ids.Nodup) {h : List Event} {lb : LoadBalancer} (hI : Accounted h lb)
    (hopen : AllOpen h lb) :
    let after := (Action.forEach (fun id ↦ serviceClient (ios id) id) ids lb).state
    after.clients.keys = lb.clients.keys ∧
      (∀ id ∈ ids, after.clients.lookup id = (lb.clients.lookup id).map (serviced (ios id))) ∧
      (∀ id ∉ ids, after.clients.lookup id = lb.clients.lookup id) ∧
      after.partialConns = lb.partialConns ∧
      ∀ k, after.counter k + (ids.map (endedOf ios lb k)).sum = lb.counter k := by
  induction ids generalizing h lb with
  | nil => simp [Action.forEach, Action.skip, Outcome.done]
  | cons id ids ih =>
    obtain ⟨hid, hnodup⟩ := List.nodup_cons.mp hnodup
    obtain ⟨hok, hclients, hpartial, -⟩ := serviceClient_frame (ios id) id lb
    have hI' := accounted_service (ios id) id h lb hI
    have hopen' := allOpen_service (ios id) id h lb hopen
    have hfirst := serviceClient_counters ios id hI hopen
    obtain ⟨hkeys, hin, hout, hpcs, hcounts⟩ := ih hnodup hI' hopen'
    rw [Action.forEach, Action.andThen_of_ok hok]
    -- the first client is not serviced again, and the others are found as they were
    obtain ⟨hother, hrest⟩ := serviceClient_others ios hid lb
    refine ⟨?_, ?_, ?_, hpcs.trans hpartial, ?_⟩
    · rw [hkeys, hclients, HashMap.keys_modify]
    · intro id' hid'
      rcases List.mem_cons.mp hid' with rfl | hid'
      · rw [hout id' hid, hclients, HashMap.lookup_modify_self]
      · rw [hin id' hid', hother id' fun heq ↦ hid (heq ▸ hid')]
    · intro id' hid'
      rw [List.mem_cons, not_or] at hid'
      rw [hout id' hid'.2, hother id' hid'.1]
    · intro k
      have hk := hcounts k
      have hfirstk := hfirst k
      rw [hrest k] at hk
      rw [List.map_cons, List.sum_cons]
      show (Action.forEach (fun id ↦ serviceClient (ios id) id) ids
        (serviceClient (ios id) id lb).state).state.counter k + _ = _
      omega

/-- In an accounted state whose connections are open, a pass over the clients in any order
services them exactly. -/
theorem handleClients_exact (ord : IterOrder String) (ios : String → Nat → ConnectionIo)
    {h : List Event} {lb : LoadBalancer} (hI : Accounted h lb) (hopen : AllOpen h lb) :
    ServicedExactly ios lb (handleClients ord ios lb).state := by
  obtain ⟨hkeys, hin, -, hpartial, hcounts⟩ := serviceClients_spec ios
    (ord.nodup_arrange lb.clients.keys_nodup) hI hopen
  have hgroups := handleClients_sameGroups ios (ord.arrange lb.clients.keys) lb
  have hserviced : ∀ id c, lb.clients.lookup id = some c →
      serviced (ios id) c = { c with connections := c.surviving (ios id) } := fun id c hc ↦
    (serviced_of_open (ios id) fun cxn hcxn ↦ hopen id c cxn hc hcxn).1
  constructor
  · exact hkeys
  · intro id c hc
    have hmem := ord.mem_arrange.mpr (HashMap.mem_keys_iff.mpr ⟨c, hc⟩)
    rw [handleClients, hin id hmem, hc, Option.map_some, hserviced id c hc]
  · intro id c hc cxn hcxn
    have hkept : cxn ∈ (serviced (ios id) c).connections := by
      rw [hserviced id c hc]
      exact hcxn
    apply Client.isClosed_eq_false_iff.mp
    simpa using (List.mem_filter.mp hkept).2
  · exact hgroups.1
  · exact fun group g hg ↦ hgroups.lookup hg
  · intro k
    have hk := hcounts k
    rwa [((ord.perm lb.clients.keys).map _).sum_eq] at hk
  · exact hpartial

/-- What the listener does in a round keeps the accounts and the open connections. -/
theorem reached_kept (x : Externals) (cfg : Configuration) (ios : List RoundIo)
    (accepts : List AcceptIo) :
    ∃ h, Accounted h (handleListener accepts (serve x ios cfg.load).state).state ∧
      AllOpen h (handleListener accepts (serve x ios cfg.load).state).state := by
  have haccounted : Holding (fun _ ↦ True) Accounted (serve x ios cfg.load).log
      (serve x ios cfg.load).state := ⟨(fresh_load cfg).accounted x ios, fun _ _ ↦ trivial⟩
  have hopen := (kept_allOpen x).serve ios (fresh_load cfg).allOpen
  exact ⟨_, ((kept_accounted x).handleListener accepts _ _ haccounted).1,
    ((kept_allOpen x).handleListener accepts _ _ hopen).1⟩

/-- In every state that a run from any configuration reaches, with whatever streams accepted
in the round so far, `handle_clients` services the clients exactly, whatever the outcomes of
the reads and writes; the state after it is the same for every iteration order. -/
theorem clients_serviced_exactly (x : Externals) (cfg : Configuration) (prior : List RoundIo)
    (accepts : List AcceptIo) (ios : String → Nat → ConnectionIo) (ord ord' : IterOrder String) :
    let lb := (handleListener accepts (serve x prior cfg.load).state).state
    ServicedExactly ios lb (handleClients ord ios lb).state ∧
      (handleClients ord' ios lb).state = (handleClients ord ios lb).state := by
  obtain ⟨h, hI, hopen⟩ := reached_kept x cfg prior accepts
  exact ⟨handleClients_exact ord ios hI hopen,
    (handleClients_exact ord' ios hI hopen).unique (handleClients_exact ord ios hI hopen)⟩

end LoadBalancer
end TcpLoadBalancer
