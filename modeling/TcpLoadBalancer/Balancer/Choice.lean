import TcpLoadBalancer.Balancer.Accounting
import TcpLoadBalancer.Balancer.Distribution
import TcpLoadBalancer.Model.Config

/-!
# The servers that admissions choose

Every server group of a load balancer is in a state that its own operations lead to, and its
counts stay below the number of admissions. So every admission of a run chooses a server with
the fewest counted connections among the healthy ones, and fails to choose only when there is
none.
-/

namespace TcpLoadBalancer
open Lib

/-- The group and the server that an admission chose. -/
def Completion.chosen : Completion → Option (UInt32 × UInt32)
  | .noAddress _ group server => some (group, server)
  | .conversionFailed _ group server _ _ => some (group, server)
  | .insertClientNotFound _ cxn => some (cxn.upstreamServGroup, cxn.upstreamServId)
  | .rateLimited _ cxn => some (cxn.upstreamServGroup, cxn.upstreamServId)
  | .placed _ cxn => some (cxn.upstreamServGroup, cxn.upstreamServId)
  | _ => none

/-- The choice that an event reports. -/
def Event.chosen : Event → Option (UInt32 × UInt32)
  | .finished _ _ outcome => outcome.chosen
  | _ => none

namespace ServerGroup

/-- Giving back a connection that is not counted changes nothing. -/
theorem Reachable.release {x : Externals} {g : ServerGroup} (h : Reachable x g) (id : UInt32) :
    Reachable x (g.removeConnection id).1 := by
  cases hlookup : g.cxnCntr.lookup id with
  | none =>
    simp only [ServerGroup.removeConnection, hlookup]
    exact h
  | some n =>
    have hkey : id ∈ g.cxnCntr.keys := HashMap.mem_keys_iff.mpr ⟨n, hlookup⟩
    exact h.removeConnection (h.counted id hkey)

/-- A configured group is reachable. -/
theorem reachable_configure (x : Externals) (id : UInt32) (servers : List (UInt32 × String)) :
    Reachable x (.configure id servers) := by
  unfold configure
  induction servers using List.reverseRecOn with
  | nil => exact .new id
  | append_singleton servers s ih =>
    rw [List.foldl_append]
    exact ih.addServer s.1 s.2

end ServerGroup

namespace LoadBalancer

variable {x : Externals}

/-! ### Server groups along a run -/

/-- Every server group is in a state that its own operations lead to. -/
def GroupsReachable (x : Externals) (_ : List Event) (lb : LoadBalancer) : Prop :=
  ∀ group g, lb.serverGroups.lookup group = some g → ServerGroup.Reachable x g

/-- A step of one group. -/
theorem GroupsReachable.modify {h h' : List Event} {lb lb' : LoadBalancer}
    (hI : GroupsReachable x h lb) {group : UInt32} {f : ServerGroup → ServerGroup}
    (hgroups : lb'.serverGroups = lb.serverGroups.modify group f)
    (hf : ∀ g, lb.serverGroups.lookup group = some g → ServerGroup.Reachable x g →
      ServerGroup.Reachable x (f g)) : GroupsReachable x h' lb' := by
  intro k g hg
  rw [hgroups, HashMap.lookup_modify] at hg
  split at hg
  · next hk =>
    subst hk
    obtain ⟨g₀, hg₀, rfl⟩ := Option.map_eq_some_iff.mp hg
    exact hf g₀ hg₀ (hI k g₀ hg₀)
  · exact hI k g hg

private theorem reachable_service (ios : Nat → ConnectionIo) (id : String) :
    Action.Keeps (GroupsReachable x) (serviceClient ios id) := by
  intro h lb hI
  cases hc : lb.clients.lookup id with
  | none =>
    simp only [serviceClient, hc, Outcome.done, List.append_nil]
    exact hI
  | some c =>
    rw [serviceClient_of_some ios hc]
    refine Action.forEach_state (P := GroupsReachable x _) (fun cxn _ s hs ↦ ?_) hI
    cases hg : s.serverGroups.lookup cxn.getUpstreamServerGroup with
    | none =>
      simp only [releaseConnection, hg]
      exact hs
    | some g =>
      refine hs.modify (by simp only [releaseConnection, hg]; rfl) fun g' hg' hreach ↦ ?_
      obtain rfl : g = g' := Option.some.inj (hg.symm.trans hg')
      exact hreach.release _

/-- Every stage of a round does operations of the groups only, and an admission counts its
connection on a registered server. -/
theorem kept_reachable (x : Externals) : Kept x (fun _ ↦ True) (GroupsReachable x) where
  new _ _ := trivial
  handshake _ _ _ := trivial
  blind _ _ _ hI := hI
  quiet _ _ _ _ hI := hI
  service := reachable_service
  check ord ios group h lb hI := by
    cases hg : lb.serverGroups.lookup group with
    | none =>
      simp only [pollGroup, hg, Outcome.done, List.append_nil]
      exact hI
    | some g =>
      refine hI.modify (by simp only [pollGroup, hg]; rfl) fun g' hg' hreach ↦ ?_
      obtain rfl : g = g' := Option.some.inj (hg.symm.trans hg')
      exact hreach.poll ord ios
  admission pc io _ _ h lb hI := by
    apply complete_state (P := GroupsReachable x _) hI
    intro r cxn hroute _
    refine hI.modify rfl fun g hg hreach ↦ hreach.addConnection ?_
    obtain ⟨-, -, -, g', hg', -, haddr⟩ := route_eq_ok hroute
    obtain rfl : g = g' := Option.some.inj (hg.symm.trans hg')
    exact List.mem_toFinset.mpr (HashMap.mem_keys_iff.mpr ⟨_, haddr⟩)

/-- The groups of a configuration are reachable. -/
theorem reachable_load (x : Externals) (cfg : Configuration) :
    Holding (fun _ ↦ True) (GroupsReachable x) [] cfg.load := by
  refine ⟨fun group g hg ↦ ?_, fun _ _ ↦ trivial⟩
  obtain ⟨servers, rfl⟩ := Configuration.group_load hg
  exact ServerGroup.reachable_configure x group servers

/-! ### Counts -/

/-- Only admissions raise a counter. -/
theorem Accounted.counter_le {h : List Event} {lb : LoadBalancer} (hI : Accounted h lb)
    (k : ServerKey) : lb.counter k ≤ h.countP Event.isFinished := by
  have hle := Ledger.counts_replay_le hI.replays k
  rw [List.countP_filterMap] at hle
  refine (hle.trans_eq (Nat.zero_add _)).trans (List.countP_mono_left fun e _ he ↦ ?_)
  cases e with
  | finished pc now outcome => rfl
  | connectionRemoved id cxn branch => cases he
  | accepted stream => cases he
  | connectionPolled id i traffic => cases he
  | healthPolled group server ops => cases he
  | partialPolled i bytes => cases he

/-- Every admission of a run from a configuration starts with accounts that the log keeps. -/
theorem accounted_admissions {cfg : Configuration} {ios : List RoundIo} {a : Admission}
    (ha : a ∈ admissions x ios cfg.load) :
    ∃ h, Accounted h a.lb ∧ h ++ [a.event x] <+: (serve x ios cfg.load).log := by
  have hstart : Accounted [] cfg.load := ⟨by rw [(fresh_load cfg).ledger_eq]; rfl, by simp⟩
  exact ((kept_accounted x).admissions ios ⟨hstart, fun _ _ ↦ trivial⟩ a ha).1

/-- When an admission starts the counters are below the number of admissions of the run. -/
theorem counter_lt_admissions {cfg : Configuration} {ios : List RoundIo} {a : Admission}
    (ha : a ∈ admissions x ios cfg.load) (k : ServerKey) :
    a.lb.counter k < (admissions x ios cfg.load).length := by
  obtain ⟨h, hI, hlog⟩ := accounted_admissions ha
  have hcount := hlog.sublist.countP_le (p := Event.isFinished)
  have hall : (serve x ios cfg.load).log.countP Event.isFinished =
      (admissions x ios cfg.load).length := by
    rw [List.countP_eq_length_filter, finished_log, List.length_map]
  have hone : [a.event x].countP Event.isFinished = 1 := rfl
  rw [List.countP_append, hone, hall] at hcount
  have hle := hI.counter_le k
  omega

/-- In a run without leaks the counters are the open connections whenever an admission starts. -/
theorem counter_eq_live_of_no_leak {cfg : Configuration} {ios : List RoundIo} {a : Admission}
    (ha : a ∈ admissions x ios cfg.load)
    (hnoleak : ∀ b ∈ admissions x ios cfg.load, ¬b.Leaks x) (k : ServerKey) :
    a.lb.counter k = a.lb.live k := by
  obtain ⟨h, hI, hlog⟩ := accounted_admissions ha
  have hzero : Ledger.leaks k (h.filterMap Event.move) = 0 := by
    apply List.count_eq_zero.mpr
    intro hmem
    have hsub := ((List.prefix_append h [a.event x]).trans hlog).sublist.filterMap Event.move
    obtain ⟨b, hb, hleaks⟩ := (leak_mem_iff x ios cfg.load).mp ⟨k, hsub.mem hmem⟩
    exact hnoleak b hb hleaks
  have hcounts := Ledger.counts_of_empty hI.replays k
  rw [hzero] at hcounts
  exact hcounts

/-! ### Choices -/

/-- The choice of an admission is that of its group's forwarder. -/
theorem chosen_found {a : Admission} {group server : UInt32}
    (h : (a.outcome x).chosen = some (group, server)) :
    ∃ g, a.lb.serverGroups.lookup group = some g ∧
      g.findMinAndHealthy a.io.diffOrder a.io.cntrOrder = some server := by
  have hadm := completeConnection_admitted x a.lb a.parCxn a.io
  unfold Admission.outcome at h
  generalize a.lb.completeConnection x a.parCxn a.io = r at hadm h
  cases hadm with
  | unrouted o hroute =>
    rcases route_eq_error hroute with
      ⟨-, rfl⟩ | ⟨_, rfl⟩ | ⟨_, _, rfl⟩ | ⟨_, _, rfl⟩ | ⟨_, _, _, g, rfl, hg, hfind, -⟩
    case inr.inr.inr.inr =>
      cases h
      exact ⟨g, hg, hfind⟩
    all_goals cases h
  | unconverted r e hroute hconvert =>
    obtain ⟨-, -, -, g, hg, hfind, -⟩ := route_eq_ok hroute
    cases h
    exact ⟨g, hg, hfind⟩
  | offered r cxn hroute hconvert =>
    obtain ⟨-, -, -, g, hg, hfind, -⟩ := route_eq_ok hroute
    obtain ⟨upStream, -, -, rfl⟩ := Connection.fromPartialConnection_eq hconvert
    have hkey : (r.group, r.server) = (group, server) := by
      cases hhit : r.client.rateLimitHit a.io.now with
      | true => simpa [hhit, Completion.chosen] using h
      | false => simpa [hhit, Completion.chosen] using h
    cases hkey
    exact ⟨g, hg, hfind⟩

/-- A route that fails for want of a healthy server: the forwarder of the group found none. -/
theorem route_noHealthyServer {lb : LoadBalancer} {pc : PartialConnection} {io : CompletionIo}
    {id : String} {group : UInt32} (h : lb.route pc io = .error (.noHealthyServer id group)) :
    ∃ g, lb.serverGroups.lookup group = some g ∧
      g.findMinAndHealthy io.diffOrder io.cntrOrder = none := by
  unfold route at h
  split at h
  · cases h
  · split at h
    · cases h
    · split at h
      · cases h
      · next g hg =>
        split at h
        · next hfind =>
          cases h
          exact ⟨g, hg, hfind⟩
        · split at h
          · cases h
          · cases h

/-- An admission that ends for want of a healthy server has no route for that reason. -/
theorem noHealthyServer_found {a : Admission} {id : String} {group : UInt32}
    (h : a.outcome x = .noHealthyServer id group) :
    ∃ g, a.lb.serverGroups.lookup group = some g ∧
      g.findMinAndHealthy a.io.diffOrder a.io.cntrOrder = none := by
  have hadm := completeConnection_admitted x a.lb a.parCxn a.io
  unfold Admission.outcome at h
  generalize a.lb.completeConnection x a.parCxn a.io = r at hadm h
  cases hadm with
  | unrouted o hroute =>
    obtain rfl : o = .noHealthyServer id group := h
    exact route_noHealthyServer hroute
  | unconverted r e hroute hconvert => cases h
  | offered r cxn hroute hconvert =>
    cases hhit : r.client.rateLimitHit a.io.now with
    | true => simp [hhit] at h
    | false => simp [hhit] at h

/-- The healthy servers that the balancer knows of a group. -/
def healthyServers (lb : LoadBalancer) (group : UInt32) : Finset UInt32 :=
  ((lb.serverGroups.lookup group).map ServerGroup.healthyServers).getD ∅

/-- In a run with at most `usize::MAX` admissions the groups that an admission finds are
reachable, and their counts are below the sentinel of the scan. -/
theorem group_of_admission {cfg : Configuration} {ios : List RoundIo}
    (hfew : (admissions x ios cfg.load).length ≤ usizeMax) {a : Admission}
    (ha : a ∈ admissions x ios cfg.load) {group : UInt32} {g : ServerGroup}
    (hg : a.lb.serverGroups.lookup group = some g) :
    ServerGroup.Reachable x g ∧ ∀ s, g.count s < usizeMax := by
  obtain ⟨⟨h, hreach, -⟩, -, -⟩ := (kept_reachable x).admissions ios (reachable_load x cfg) a ha
  refine ⟨hreach group g hg, fun s ↦ ?_⟩
  have hlt := counter_lt_admissions ha ⟨group, s⟩
  rw [counter_of_lookup (k := ⟨group, s⟩) hg] at hlt
  exact hlt.trans_le hfew

/-- An admission ends for want of a healthy server only when there is none. -/
theorem healthyServers_of_noHealthyServer {cfg : Configuration} {ios : List RoundIo}
    (hfew : (admissions x ios cfg.load).length ≤ usizeMax) {a : Admission}
    (ha : a ∈ admissions x ios cfg.load) {id : String} {group : UInt32}
    (hnone : a.outcome x = .noHealthyServer id group) : a.lb.healthyServers group = ∅ := by
  obtain ⟨g, hg, hfind⟩ := noHealthyServer_found hnone
  obtain ⟨hreach, hbelow⟩ := group_of_admission hfew ha hg
  obtain ⟨hempty, -⟩ := ServerGroup.select_spec hreach.counted hbelow g.healthyServer
    a.io.diffOrder a.io.cntrOrder
  rw [healthyServers, hg, Option.map_some, Option.getD_some]
  apply Finset.filter_eq_empty_iff.mpr
  intro s hs
  rw [hempty.mp hfind s hs]
  decide

/-- In every run from a configuration with at most `usize::MAX` admissions: the server that an
admission chooses has, of the healthy servers of its group, the fewest counted connections, and
the fewest open ones as long as none was counted and dropped; and an admission ends for want of
a healthy server only when there is none. -/
theorem admissions_leastLoaded (x : Externals) (cfg : Configuration) (ios : List RoundIo)
    (hfew : (admissions x ios cfg.load).length ≤ usizeMax) :
    ∀ a ∈ admissions x ios cfg.load,
      (∀ group server, (a.outcome x).chosen = some (group, server) →
        LeastLoaded (a.lb.healthyServers group) (fun s ↦ a.lb.counter ⟨group, s⟩) server ∧
          ((∀ b ∈ admissions x ios cfg.load, ¬b.Leaks x) →
            LeastLoaded (a.lb.healthyServers group) (fun s ↦ a.lb.live ⟨group, s⟩) server)) ∧
      ∀ id group, a.outcome x = .noHealthyServer id group → a.lb.healthyServers group = ∅ := by
  intro a ha
  constructor
  · intro group server hchosen
    obtain ⟨g, hg, hfind⟩ := chosen_found hchosen
    obtain ⟨hreach, hbelow⟩ := group_of_admission hfew ha hg
    have hcount : (fun s ↦ a.lb.counter ⟨group, s⟩) = g.count := by
      ext s
      exact counter_of_lookup (k := ⟨group, s⟩) hg
    obtain ⟨-, hleast⟩ := ServerGroup.select_spec hreach.counted hbelow g.healthyServer
      a.io.diffOrder a.io.cntrOrder
    have hcounted : LeastLoaded (a.lb.healthyServers group)
        (fun s ↦ a.lb.counter ⟨group, s⟩) server := by
      rw [hcount, healthyServers, hg, Option.map_some, Option.getD_some]
      exact hleast server hfind
    refine ⟨hcounted, fun hnoleak ↦ ?_⟩
    have hlive : (fun s ↦ a.lb.counter ⟨group, s⟩) = fun s ↦ a.lb.live ⟨group, s⟩ := by
      ext s
      exact counter_eq_live_of_no_leak ha hnoleak ⟨group, s⟩
    rw [← hlive]
    exact hcounted
  · intro id group hnone
    exact healthyServers_of_noHealthyServer hfew ha hnone

/-- The fifth of five admissions finds two, one and one connection on three servers. -/
theorem admissions_leastLoaded_example :
    ∃ a ∈ admissions firstClient (acceptAndAdmit 5) defaultConfiguration.load,
      a.lb.counter ⟨0, 0⟩ = 2 ∧
        LeastLoaded (a.lb.healthyServers 0) (fun s ↦ a.lb.counter ⟨0, s⟩) 1 :=
  ⟨(admissions firstClient (acceptAndAdmit 5) defaultConfiguration.load).get
      ⟨4, by decide +kernel⟩,
    List.get_mem _ _, by decide +kernel,
    ((admissions_leastLoaded firstClient defaultConfiguration (acceptAndAdmit 5)
      (by decide +kernel) _ (List.get_mem _ _)).1 0 1 (by decide +kernel)).1⟩

end LoadBalancer
end TcpLoadBalancer
