import TcpLoadBalancer.Lib.Balance
import TcpLoadBalancer.Model.Server

/-!
# Server selection

What the least-connections forwarders return, whatever the iteration orders of the group's
tables: of the registered servers, or of the healthy ones among them, one with the fewest
connections. The selection looks at servers without a counter first and then scans the
counters; that the two phases together see every server rests on the counters being those
of registered servers (`Counted`), which every operation of a group keeps.
-/

namespace TcpLoadBalancer
open Lib

namespace ServerGroup

/-- The connections counted for a server, 0 when it has no counter. -/
def count (g : ServerGroup) (id : UInt32) : Nat := (g.cxnCntr.lookup id).getD 0

/-- The registered servers. -/
def servers (g : ServerGroup) : Finset UInt32 := g.serverAddrs.keys.toFinset

/-- The registered servers whose health checker stands on healthy. -/
def healthyServers (g : ServerGroup) : Finset UInt32 :=
  g.servers.filter fun id ↦ g.healthyServer id = true

/-- Only registered servers have a counter. -/
def Counted (g : ServerGroup) : Prop := ∀ id ∈ g.cxnCntr.keys, id ∈ g.servers

/-- A healthy server has a health checker, which stands on healthy. -/
theorem healthyServer_iff {g : ServerGroup} {id : UInt32} :
    g.healthyServer id = true ↔
      ∃ hc, g.serverHealth.lookup id = some hc ∧ hc.upstreamState = .healthy := by
  cases h : g.serverHealth.lookup id with
  | none => simp [healthyServer, h]
  | some hc => simp [healthyServer, h, HealthChecker.isHealthy]

/-! ### Counters -/

/-- Counting a connection raises the counter of its server by one. -/
theorem addConnection_count (g : ServerGroup) (s s' : UInt32) :
    (g.addConnection s).count s' = if s' = s then g.count s + 1 else g.count s' := by
  unfold count
  cases hs : g.cxnCntr.lookup s with
  | none =>
    simp only [ServerGroup.addConnection, hs]
    split
    · next h => rw [h, AList.lookup_insert]; rfl
    · next h => rw [AList.lookup_insert_ne h]
  | some n =>
    simp only [ServerGroup.addConnection, hs, HashMap.lookup_modify]
    split <;> rfl

/-- Giving a connection back lowers the positive counter of its server by one. -/
theorem removeConnection_count {g : ServerGroup} {s : UInt32}
    (hpos : 0 < g.count s) :
    (g.removeConnection s).2 = .decremented ∧
      ∀ s', (g.removeConnection s).1.count s' = if s' = s then g.count s - 1 else g.count s' := by
  unfold count at hpos ⊢
  cases hs : g.cxnCntr.lookup s with
  | none => simp [hs] at hpos
  | some n =>
    have hn : n > 0 := by simpa [hs] using hpos
    simp only [ServerGroup.removeConnection, hs, if_pos hn, HashMap.lookup_modify, true_and]
    intro s'
    split <;> rfl

/-- Giving a connection back changes counts only, and keeps which servers have a counter. -/
theorem removeConnection_frame (g : ServerGroup) (id : UInt32) :
    ∃ cntr, (g.removeConnection id).1 = { g with cxnCntr := cntr } ∧
      cntr.keys = g.cxnCntr.keys := by
  unfold removeConnection
  split
  · split
    · exact ⟨_, rfl, HashMap.keys_modify _ _ _⟩
    · exact ⟨_, rfl, rfl⟩
  · exact ⟨_, rfl, rfl⟩

/-! ### The two phases -/

/-- The scan keeps its start value when no eligible entry is below the sentinel, and otherwise
returns an eligible entry of least count. -/
theorem scanMin_cases (eligible : UInt32 → Bool) (entries : List (UInt32 × Nat)) (minConns : Nat)
    (minId : Option UInt32) :
    (scanMin eligible entries minConns minId = minId ∧
        ∀ e ∈ entries, eligible e.1 = true → minConns ≤ e.2) ∨
      ∃ id n, scanMin eligible entries minConns minId = some id ∧ (id, n) ∈ entries ∧
        eligible id = true ∧ n < minConns ∧ ∀ e ∈ entries, eligible e.1 = true → n ≤ e.2 := by
  induction entries generalizing minConns minId with
  | nil => exact .inl ⟨rfl, by simp⟩
  | cons e entries ih =>
    obtain ⟨s, numConns⟩ := e
    rw [scanMin]
    split
    · next h =>
      right
      rcases ih numConns (some s) with ⟨hscan, hle⟩ | ⟨id, n, hscan, hmem, hel, hlt, hle⟩
      · refine ⟨s, numConns, hscan, by simp, h.2, h.1, ?_⟩
        rintro e (_ | ⟨_, he⟩) heel
        · exact Nat.le_refl _
        · exact hle e he heel
      · refine ⟨id, n, hscan, by simp [hmem], hel, by omega, ?_⟩
        rintro e (_ | ⟨_, he⟩) heel
        · exact Nat.le_of_lt hlt
        · exact hle e he heel
    · next h =>
      have hkeep : eligible s = true → minConns ≤ numConns := by
        intro hel
        by_contra hlt
        exact h ⟨by omega, hel⟩
      rcases ih minConns minId with ⟨hscan, hle⟩ | ⟨id, n, hscan, hmem, hel, hlt, hle⟩
      · refine .inl ⟨hscan, ?_⟩
        rintro e (_ | ⟨_, he⟩) heel
        · exact hkeep heel
        · exact hle e he heel
      · refine .inr ⟨id, n, hscan, by simp [hmem], hel, hlt, ?_⟩
        rintro e (_ | ⟨_, he⟩) heel
        · have := hkeep heel
          omega
        · exact hle e he heel

/-- The first phase: a server without a counter, looked for when the tables differ in size. -/
def findUncounted (eligible : UInt32 → Bool) (g : ServerGroup) (diffOrder : IterOrder UInt32) :
    Option UInt32 :=
  if g.cxnCntr.keys.length ≠ g.serverAddrs.keys.length then
    (g.uncounted diffOrder).find? eligible
  else none

/-- The forwarders with the servers that they may return. -/
def select (eligible : UInt32 → Bool) (g : ServerGroup) (diffOrder cntrOrder : IterOrder UInt32) :
    Option UInt32 :=
  match g.findUncounted eligible diffOrder with
  | some id => some id
  | none => scanMin eligible (g.cxnCntr.iter cntrOrder) usizeMax none

/-- The health and least-connections forwarder may return healthy servers. -/
theorem findMinAndHealthy_eq_select (g : ServerGroup) (diffOrder cntrOrder : IterOrder UInt32) :
    g.findMinAndHealthy diffOrder cntrOrder = g.select g.healthyServer diffOrder cntrOrder := rfl

/-- The least-connections forwarder may return any server. -/
theorem findMin_eq_select (g : ServerGroup) (diffOrder cntrOrder : IterOrder UInt32) :
    g.findMin diffOrder cntrOrder = g.select (fun _ ↦ true) diffOrder cntrOrder := by
  have hhead : ∀ ids : List UInt32, ids.find? (fun _ ↦ true) = ids.head? := by
    intro ids
    cases ids <;> rfl
  have hfirst : g.findUncounted (fun _ ↦ true) diffOrder =
      if g.cxnCntr.keys.length ≠ g.serverAddrs.keys.length then (g.uncounted diffOrder).head?
      else none := by
    rw [findUncounted, hhead]
  unfold select
  generalize g.findUncounted (fun _ ↦ true) diffOrder = first at hfirst ⊢
  subst hfirst
  rfl

/-- A server without a counter counts nothing. -/
theorem count_of_not_mem {g : ServerGroup} {id : UInt32} (h : id ∉ g.cxnCntr.keys) :
    g.count id = 0 := by
  cases hs : g.cxnCntr.lookup id with
  | none => rw [count, hs, Option.getD_none]
  | some n => exact absurd (HashMap.mem_keys_iff.mpr ⟨n, hs⟩) h

/-- The first phase finds a registered server without a counter. -/
theorem findUncounted_eq_some {eligible : UInt32 → Bool} {g : ServerGroup}
    {diffOrder : IterOrder UInt32} {id : UInt32}
    (h : g.findUncounted eligible diffOrder = some id) :
    id ∈ g.servers ∧ eligible id = true ∧ g.count id = 0 := by
  unfold findUncounted at h
  split at h
  · have hmem := List.mem_of_find?_eq_some h
    simp only [uncounted, IterOrder.mem_arrange, List.mem_filter, decide_eq_true_eq] at hmem
    exact ⟨List.mem_toFinset.mpr hmem.1, List.find?_some h, count_of_not_mem hmem.2⟩
  · cases h

/-- When the first phase finds nothing, every eligible server has a counter. -/
theorem findUncounted_eq_none {eligible : UInt32 → Bool} {g : ServerGroup} (hg : g.Counted)
    {diffOrder : IterOrder UInt32} (h : g.findUncounted eligible diffOrder = none) {id : UInt32}
    (hid : id ∈ g.servers) (hel : eligible id = true) : id ∈ g.cxnCntr.keys := by
  have hreg : id ∈ g.serverAddrs.keys := List.mem_toFinset.mp hid
  unfold findUncounted at h
  split at h
  · by_contra hnot
    have hmem : id ∈ g.uncounted diffOrder := by
      simp only [uncounted, IterOrder.mem_arrange, List.mem_filter, decide_eq_true_eq]
      exact ⟨hreg, hnot⟩
    exact List.find?_eq_none.mp h id hmem hel
  · next hlen =>
    -- counters of registered servers, as many as there are servers
    have hsub : g.cxnCntr.keys ⊆ g.serverAddrs.keys := fun k hk ↦ List.mem_toFinset.mp (hg k hk)
    have hperm := (g.cxnCntr.keys_nodup.subperm hsub).perm_of_length_le (by omega)
    exact hperm.mem_iff.mpr hreg

/-- A forwarder returns an eligible server of least count, and none exactly when there is none,
as long as the counts stay below the sentinel. -/
theorem select_spec {g : ServerGroup} (hg : g.Counted) (hbound : ∀ id, g.count id < usizeMax)
    (eligible : UInt32 → Bool) (diffOrder cntrOrder : IterOrder UInt32) :
    (g.select eligible diffOrder cntrOrder = none ↔ ∀ id ∈ g.servers, eligible id = false) ∧
      ∀ id, g.select eligible diffOrder cntrOrder = some id →
        LeastLoaded (g.servers.filter fun id ↦ eligible id = true) g.count id := by
  have hentry : ∀ id n, (id, n) ∈ g.cxnCntr.iter cntrOrder → id ∈ g.servers ∧ g.count id = n := by
    intro id n hmem
    have hlookup := HashMap.mem_iter.mp hmem
    exact ⟨hg id (HashMap.mem_keys_iff.mpr ⟨n, hlookup⟩), by rw [count, hlookup, Option.getD_some]⟩
  unfold select
  cases hfirst : g.findUncounted eligible diffOrder with
  | some id =>
    obtain ⟨hid, hel, hzero⟩ := findUncounted_eq_some hfirst
    refine ⟨iff_of_false (by simp) fun hnone ↦ ?_, fun id' heq ↦ ?_⟩
    · simp [hnone id hid] at hel
    · obtain rfl := Option.some.inj heq
      exact ⟨Finset.mem_filter.mpr ⟨hid, hel⟩, fun j _ ↦ by omega⟩
  | none =>
    -- every eligible server is an entry of the scan
    have hall : ∀ id ∈ g.servers, eligible id = true →
        (id, g.count id) ∈ g.cxnCntr.iter cntrOrder := by
      intro id hid hel
      obtain ⟨n, hlookup⟩ := HashMap.mem_keys_iff.mp (findUncounted_eq_none hg hfirst hid hel)
      rw [count, hlookup, Option.getD_some]
      exact HashMap.mem_iter.mpr hlookup
    rcases scanMin_cases eligible (g.cxnCntr.iter cntrOrder) usizeMax none with
      ⟨hscan, hle⟩ | ⟨id, n, hscan, hmem, hel, -, hle⟩
    · simp only [hscan]
      refine ⟨iff_of_true trivial fun id hid ↦ ?_, fun id heq ↦ by cases heq⟩
      by_contra hel
      have hlow := hbound id
      have hhigh := hle _ (hall id hid (by simpa using hel)) (by simpa using hel)
      simp only at hhigh
      omega
    · obtain ⟨hid, hcount⟩ := hentry id n hmem
      simp only [hscan]
      refine ⟨iff_of_false (by simp) fun hnone ↦ by simp [hnone id hid] at hel, fun id' heq ↦ ?_⟩
      obtain rfl := Option.some.inj heq
      refine ⟨Finset.mem_filter.mpr ⟨hid, hel⟩, fun j hj ↦ ?_⟩
      obtain ⟨hj, hjel⟩ := Finset.mem_filter.mp hj
      rw [hcount]
      exact hle _ (hall j hj hjel) hjel

/-- The forwarder returns healthy servers only. -/
theorem findMinAndHealthy_healthy {g : ServerGroup} {diffOrder cntrOrder : IterOrder UInt32}
    {id : UInt32} (h : g.findMinAndHealthy diffOrder cntrOrder = some id) :
    g.healthyServer id = true := by
  rw [findMinAndHealthy_eq_select, select] at h
  split at h
  · next s hfirst =>
    rw [← Option.some.inj h]
    exact (findUncounted_eq_some hfirst).2.1
  · rcases scanMin_cases g.healthyServer (g.cxnCntr.iter cntrOrder) usizeMax none with
      ⟨hscan, -⟩ | ⟨s, n, hscan, -, hel, -⟩
    · rw [hscan] at h
      cases h
    · rw [hscan] at h
      rw [← Option.some.inj h]
      exact hel

end ServerGroup
end TcpLoadBalancer
