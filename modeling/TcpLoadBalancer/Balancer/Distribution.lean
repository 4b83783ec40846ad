import Mathlib.Algebra.Order.BigOperators.Group.Finset
import TcpLoadBalancer.Balancer.Selection
import TcpLoadBalancer.Balancer.Stages

/-!
# Least connections

In every reachable group the forwarders choose a server with the fewest connections. Giving
each new connection to the chosen server therefore spreads any number of connections evenly
over the servers that may be chosen.
-/

namespace TcpLoadBalancer
open Lib

namespace ServerGroup

/-! ### Reachable groups -/

/-- The states of a group that its operations lead to; connections are counted and given back
on registered servers. -/
inductive Reachable (x : Externals) : ServerGroup → Prop
  | new (id : UInt32) : Reachable x (.new id)
  | addServer {g : ServerGroup} (h : Reachable x g) (id : UInt32) (addr : String) :
      Reachable x (g.addServer id addr)
  | addConnection {g : ServerGroup} (h : Reachable x g) {id : UInt32} (hid : id ∈ g.servers) :
      Reachable x (g.addConnection id)
  | removeConnection {g : ServerGroup} (h : Reachable x g) {id : UInt32} (hid : id ∈ g.servers) :
      Reachable x (g.removeConnection id).1
  | poll {g : ServerGroup} (h : Reachable x g) (ord : IterOrder UInt32)
      (ios : UInt32 → HealthIo) : Reachable x (g.poll x ord ios).state

/-- Counting a connection gives at most its own server a counter, and changes nothing else. -/
theorem addConnection_frame (g : ServerGroup) (id : UInt32) :
    (g.addConnection id).serverAddrs = g.serverAddrs ∧
      (g.addConnection id).serverHealth = g.serverHealth ∧
      ∀ k ∈ (g.addConnection id).cxnCntr.keys, k = id ∨ k ∈ g.cxnCntr.keys := by
  unfold addConnection
  split
  · exact ⟨rfl, rfl, fun k hk ↦ .inr (by simpa using hk)⟩
  · refine ⟨rfl, rfl, fun k hk ↦ ?_⟩
    rcases (AList.mem_insert _).mp (AList.mem_keys.mpr hk) with heq | hold
    · exact .inl heq
    · exact .inr (AList.mem_keys.mp hold)

/-- In every reachable group only registered servers have a counter. -/
theorem Reachable.counted {x : Externals} {g : ServerGroup} (h : Reachable x g) : g.Counted := by
  induction h with
  | new id =>
    intro k hk
    simp [ServerGroup.new] at hk
  | addServer h id addr ih =>
    intro k hk
    have hreg := List.mem_toFinset.mp (ih k hk)
    apply List.mem_toFinset.mpr
    apply AList.mem_keys.mp
    exact (AList.mem_insert _).mpr (.inr (AList.mem_keys.mpr hreg))
  | addConnection h hid ih =>
    intro k hk
    rw [servers, (addConnection_frame _ _).1]
    rcases (addConnection_frame _ _).2.2 k hk with rfl | hold
    · exact hid
    · exact ih k hold
  | removeConnection h hid ih =>
    intro k hk
    obtain ⟨cntr, hremove, hkeys⟩ := removeConnection_frame _ _
    rw [hremove] at hk ⊢
    exact ih k (hkeys ▸ hk)
  | @poll g h ord ios ih =>
    obtain ⟨htables, hcntr⟩ := poll_frame x ord ios g
    intro k hk
    rw [hcntr] at hk
    have haddrs : (g.poll x ord ios).state.serverAddrs = g.serverAddrs := congrArg Prod.fst htables
    rw [servers, haddrs]
    exact ih k hk

/-- In every reachable group whose counts are below `usize::MAX`, and for all iteration orders,
the forwarders return a server of least count among the healthy ones and among all of them,
and none exactly when there is none. -/
theorem least_connections_optimal (x : Externals) (g : ServerGroup) (hg : Reachable x g)
    (hcounts : ∀ id, g.count id < usizeMax) (diffOrder cntrOrder : IterOrder UInt32) :
    ((g.findMinAndHealthy diffOrder cntrOrder = none ↔
          ∀ id ∈ g.servers, g.healthyServer id = false) ∧
        ∀ id, g.findMinAndHealthy diffOrder cntrOrder = some id →
          id ∈ g.servers ∧ g.healthyServer id = true ∧
            ∀ j ∈ g.servers, g.healthyServer j = true → g.count id ≤ g.count j) ∧
      (g.findMin diffOrder cntrOrder = none ↔ ∀ id, id ∉ g.servers) ∧
        ∀ id, g.findMin diffOrder cntrOrder = some id →
          id ∈ g.servers ∧ ∀ j ∈ g.servers, g.count id ≤ g.count j := by
  obtain ⟨hnone, hsome⟩ := select_spec hg.counted hcounts g.healthyServer diffOrder cntrOrder
  obtain ⟨hnone', hsome'⟩ := select_spec hg.counted hcounts (fun _ ↦ true) diffOrder cntrOrder
  rw [findMinAndHealthy_eq_select, findMin_eq_select]
  refine ⟨⟨hnone, fun id hid ↦ ?_⟩, ?_, fun id hid ↦ ?_⟩
  · obtain ⟨hmem, hleast⟩ := hsome id hid
    obtain ⟨hreg, hhealthy⟩ := Finset.mem_filter.mp hmem
    exact ⟨hreg, hhealthy, fun j hj hjh ↦ hleast j (Finset.mem_filter.mpr ⟨hj, hjh⟩)⟩
  · rw [hnone']
    simp
  · obtain ⟨hmem, hleast⟩ := hsome' id hid
    exact ⟨(Finset.mem_filter.mp hmem).1, fun j hj ↦ hleast j (Finset.mem_filter.mpr ⟨hj, rfl⟩)⟩

/-- Three servers with two, no and one counted connection; the second one has failed its check. -/
def threeServers : ServerGroup :=
  let g := (((ServerGroup.new 0).addServer 3 "127.0.0.1:2503").addServer 4
    "127.0.0.1:2504").addServer 5 "127.0.0.1:2505"
  let counted := ((g.addConnection 3).addConnection 3).addConnection 5
  (counted.poll firstClient .stored fun id ↦
    ⟨31, if id = 4 then .error (.other 111) else .ok 9, {}, [], .error .wouldBlock⟩).state

private theorem threeServers_reachable : Reachable firstClient threeServers :=
  (((((((Reachable.new 0).addServer 3 _).addServer 4 _).addServer 5 _).addConnection
    (by decide)).addConnection (by decide)).addConnection (by decide)).poll .stored _

private theorem threeServers_count (id : UInt32) : threeServers.count id < usizeMax := by
  have hfew : threeServers.count id ≤ 2 := by
    by_cases hcounted : id ∈ threeServers.cxnCntr.keys
    · have hall : (threeServers.cxnCntr.keys.all fun k ↦ threeServers.count k ≤ 2) = true := by
        decide
      simpa using List.all_eq_true.mp hall id hcounted
    · rw [count, AList.lookup_eq_none.mpr fun hmem ↦ hcounted (AList.mem_keys.mp hmem)]
      exact Nat.zero_le 2
  exact hfew.trans_lt (by decide)

/-- The least connected server is not healthy, so the two forwarders choose different ones. -/
theorem least_connections_optimal_example :
    (((threeServers.findMinAndHealthy .stored .stored = none ↔
          ∀ id ∈ threeServers.servers, threeServers.healthyServer id = false) ∧
        ∀ id, threeServers.findMinAndHealthy .stored .stored = some id →
          id ∈ threeServers.servers ∧ threeServers.healthyServer id = true ∧
            ∀ j ∈ threeServers.servers, threeServers.healthyServer j = true →
              threeServers.count id ≤ threeServers.count j) ∧
      (threeServers.findMin .stored .stored = none ↔ ∀ id, id ∉ threeServers.servers) ∧
        ∀ id, threeServers.findMin .stored .stored = some id →
          id ∈ threeServers.servers ∧
            ∀ j ∈ threeServers.servers, threeServers.count id ≤ threeServers.count j) ∧
      threeServers.findMinAndHealthy .stored .stored = some 5 ∧
        threeServers.findMin .stored .stored = some 4 :=
  ⟨least_connections_optimal firstClient threeServers threeServers_reachable threeServers_count
    .stored .stored, by decide, by decide⟩

/-! ### Even distribution -/

/-- One round: choose a server and count a connection on it. -/
def assignNext (pick : ServerGroup → IterOrder UInt32 → IterOrder UInt32 → Option UInt32)
    (ord : IterOrder UInt32 × IterOrder UInt32) : Action Error ServerGroup (Option UInt32) :=
  fun g ↦
    match pick g ord.1 ord.2 with
    | some id => ⟨.ok (), g.addConnection id, [some id]⟩
    | none => ⟨.ok (), g, [none]⟩

/-- Rounds with their iteration orders, as in `src/server.rs:172–180,255–263`. -/
def distribute (pick : ServerGroup → IterOrder UInt32 → IterOrder UInt32 → Option UInt32) :
    List (IterOrder UInt32 × IterOrder UInt32) → Action Error ServerGroup (Option UInt32) :=
  Action.loop (assignNext pick)

/-- The rounds logged so far all chose a server, and their connections are spread evenly over
the servers in `s`; the addresses and health checkers are those of `g`. -/
structure Distributed (g : ServerGroup) (s : Finset UInt32) (log : List (Option UInt32))
    (g' : ServerGroup) : Prop where
  tables : g'.serverAddrs = g.serverAddrs ∧ g'.serverHealth = g.serverHealth
  chosen : ∀ e ∈ log, e.isSome = true
  total : ∑ id ∈ s, g'.count id = log.length
  balanced : Balanced s g'.count
  counted : ∀ id ∈ g'.cxnCntr.keys, id ∈ s

private theorem distributed_assign {g g' : ServerGroup} {s : Finset UInt32}
    {log : List (Option UInt32)} (h : Distributed g s log g') {id : UInt32}
    (hid : LeastLoaded s g'.count id) :
    Distributed g s (log ++ [some id]) (g'.addConnection id) := by
  obtain ⟨haddrs, hhealth, hkeys⟩ := addConnection_frame g' id
  have hcount : (g'.addConnection id).count = Function.update g'.count id (g'.count id + 1) := by
    ext k
    rw [addConnection_count, Function.update_apply]
  refine ⟨⟨haddrs.trans h.tables.1, hhealth.trans h.tables.2⟩, ?_, ?_, ?_, ?_⟩
  · intro e he
    rcases List.mem_append.mp he with hold | hnew
    · exact h.chosen e hold
    · rw [List.mem_singleton.mp hnew]
      rfl
  · rw [hcount, sum_assign hid.1, h.total, List.length_append, List.length_singleton]
  · rw [hcount]
    exact h.balanced.assign hid
  · intro k hk
    rcases hkeys k hk with rfl | hold
    · exact hid.1
    · exact h.counted k hold

private theorem Distributed.select_eq {g g' : ServerGroup} {s : Finset UInt32}
    {log : List (Option UInt32)} (h : Distributed g s log g') (hs : s.Nonempty)
    (hlength : log.length < usizeMax) {eligible : UInt32 → Bool}
    (heligible : (g'.servers.filter fun id ↦ eligible id = true) = s)
    (diffOrder cntrOrder : IterOrder UInt32) :
    ∃ id, g'.select eligible diffOrder cntrOrder = some id ∧ LeastLoaded s g'.count id := by
  have hcounted : g'.Counted := by
    intro k hk
    have hks := h.counted k hk
    rw [← heligible] at hks
    exact (Finset.mem_filter.mp hks).1
  have hbound : ∀ id, g'.count id < usizeMax := by
    intro id
    by_cases hid : id ∈ s
    · have hle := Finset.single_le_sum (fun i _ ↦ Nat.zero_le (g'.count i)) hid
      rw [h.total] at hle
      omega
    · rw [count_of_not_mem fun hk ↦ hid (h.counted id hk)]
      omega
  obtain ⟨hnone, hsome⟩ := select_spec hcounted hbound eligible diffOrder cntrOrder
  rw [heligible] at hsome
  cases hsel : g'.select eligible diffOrder cntrOrder with
  | none =>
    obtain ⟨id, hid⟩ := hs
    rw [← heligible] at hid
    obtain ⟨hreg, hel⟩ := Finset.mem_filter.mp hid
    rw [hnone.mp hsel id hreg] at hel
    cases hel
  | some id => exact ⟨id, rfl, hsome id hsel⟩

private theorem keeps_distributed {g : ServerGroup} {s : Finset UInt32} (hs : s.Nonempty)
    {pick : ServerGroup → IterOrder UInt32 → IterOrder UInt32 → Option UInt32}
    {eligible : ServerGroup → UInt32 → Bool}
    (hpick : ∀ g' ord ord', pick g' ord ord' = g'.select (eligible g') ord ord')
    (heligible : ∀ g' : ServerGroup, g'.serverAddrs = g.serverAddrs →
      g'.serverHealth = g.serverHealth → (g'.servers.filter fun id ↦ eligible g' id = true) = s)
    (ord : IterOrder UInt32 × IterOrder UInt32) :
    Action.Keeps (fun log g' ↦ log.length < usizeMax → Distributed g s log g')
      (assignNext pick ord) := by
  intro log g' hI hlength
  rw [List.length_append] at hlength
  have hd := hI (by omega)
  obtain ⟨id, hid, hleast⟩ := hd.select_eq hs (by omega)
    (heligible g' hd.tables.1 hd.tables.2) ord.1 ord.2
  rw [← hpick] at hid
  simp only [assignNext, hid]
  exact distributed_assign hd hleast

/-- Every round is logged. -/
theorem distribute_length
    (pick : ServerGroup → IterOrder UInt32 → IterOrder UInt32 → Option UInt32)
    (ords : List (IterOrder UInt32 × IterOrder UInt32)) (g : ServerGroup) :
    (distribute pick ords g).log.length = ords.length := by
  induction ords generalizing g with
  | nil => rfl
  | cons ord ords ih =>
    have hrest := ih (assignNext pick ord g).state
    have hone : (assignNext pick ord g).log.length = 1 := by
      unfold assignNext
      split <;> rfl
    simp only [distribute, Action.loop, List.length_append, List.length_cons] at hrest ⊢
    omega

private theorem distributed_start {g : ServerGroup} (hempty : g.cxnCntr = ∅) (s : Finset UInt32) :
    Distributed g s [] g := by
  have hcount : g.count = fun _ ↦ 0 := by
    ext k
    rw [count, hempty, AList.lookup_empty, Option.getD_none]
  refine ⟨⟨rfl, rfl⟩, by simp, ?_, ?_, ?_⟩
  · rw [hcount, Finset.sum_const_zero, List.length_nil]
  · rw [hcount]
    exact balanced_const s 0
  · intro k hk
    rw [hempty] at hk
    simp at hk

private theorem distribute_distributed {g : ServerGroup} (hempty : g.cxnCntr = ∅)
    {s : Finset UInt32} (hs : s.Nonempty)
    {pick : ServerGroup → IterOrder UInt32 → IterOrder UInt32 → Option UInt32}
    (eligible : ServerGroup → UInt32 → Bool)
    (hpick : ∀ g' ord ord', pick g' ord ord' = g'.select (eligible g') ord ord')
    (heligible : ∀ g' : ServerGroup, g'.serverAddrs = g.serverAddrs →
      g'.serverHealth = g.serverHealth → (g'.servers.filter fun id ↦ eligible g' id = true) = s)
    (ords : List (IterOrder UInt32 × IterOrder UInt32)) (hlength : ords.length < usizeMax) :
    (distribute pick ords g).log.length = ords.length ∧
      Distributed g s (distribute pick ords g).log (distribute pick ords g).state := by
  refine ⟨distribute_length pick ords g, ?_⟩
  have hrun : (distribute pick ords g).log.length < usizeMax →
      Distributed g s (distribute pick ords g).log (distribute pick ords g).state :=
    Action.loop_invariant (I := fun log g' ↦ log.length < usizeMax → Distributed g s log g')
      (fun ord _ ↦ keeps_distributed hs hpick heligible ord) fun _ ↦ distributed_start hempty s
  apply hrun
  rw [distribute_length]
  exact hlength

/-- In a group without counters, any number of rounds below `usize::MAX`, each with iteration
orders of its own, choose a server every time and spread the connections evenly over the
healthy servers, if there are any, or over all servers without health checks. -/
theorem distribution_even (g : ServerGroup) (hempty : g.cxnCntr = ∅)
    (ords : List (IterOrder UInt32 × IterOrder UInt32)) (hlength : ords.length < usizeMax) :
    (g.healthyServers.Nonempty →
        (distribute findMinAndHealthy ords g).log.length = ords.length ∧
          Distributed g g.healthyServers (distribute findMinAndHealthy ords g).log
            (distribute findMinAndHealthy ords g).state) ∧
      (g.servers.Nonempty →
        (distribute findMin ords g).log.length = ords.length ∧
          Distributed g g.servers (distribute findMin ords g).log
            (distribute findMin ords g).state) := by
  constructor
  · intro hs
    apply distribute_distributed hempty hs healthyServer findMinAndHealthy_eq_select _ ords hlength
    intro g' haddrs hhealth
    ext id
    rw [healthyServers, Finset.mem_filter, Finset.mem_filter]
    simp only [servers, healthyServer, haddrs, hhealth]
  · intro hs
    apply distribute_distributed hempty hs (fun _ _ ↦ true) findMin_eq_select _ ords hlength
    intro g' haddrs _
    simp only [servers, haddrs, Finset.filter_true]

/-- Seven connections over two servers. -/
theorem distribution_even_example :
    let g := ((ServerGroup.new 0).addServer 3 "127.0.0.1:2503").addServer 5 "127.0.0.1:2505"
    let ords := List.replicate 7 (.stored, .stored)
    (g.healthyServers.Nonempty →
        (distribute findMinAndHealthy ords g).log.length = ords.length ∧
          Distributed g g.healthyServers (distribute findMinAndHealthy ords g).log
            (distribute findMinAndHealthy ords g).state) ∧
      (g.servers.Nonempty →
        (distribute findMin ords g).log.length = ords.length ∧
          Distributed g g.servers (distribute findMin ords g).log
            (distribute findMin ords g).state) :=
  distribution_even _ rfl _ (by decide)

end ServerGroup
end TcpLoadBalancer
