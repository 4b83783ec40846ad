import TcpLoadBalancer.Model.LoadBalancer

/-!
# Configuration

A load balancer is configured once, before its first poll: clients by email with their
server group, and server groups by id with their servers. `loadConfiguration` is the
hard-coded configuration of the repository.
-/

namespace TcpLoadBalancer
open Lib

/-- The tables a configuration is built from, in the order of their insertion. -/
structure Configuration where
  clients : List (String × UInt32)
  serverGroups : List (UInt32 × List (UInt32 × String))

/-- `ServerGroup::new` followed by `add_server` for every server. -/
def ServerGroup.configure (id : UInt32) (servers : List (UInt32 × String)) : ServerGroup :=
  servers.foldl (fun g s ↦ g.addServer s.1 s.2) (.new id)

namespace LoadBalancer

/-- `src/lib.rs:33–42`. -/
def new : LoadBalancer := ⟨∅, ∅, []⟩

/-- `lb.clients.insert(email, Client::new(email, group))`. -/
def insertClient (lb : LoadBalancer) (email : String) (group : UInt32) : LoadBalancer :=
  { lb with clients := lb.clients.insert email (.new email group) }

/-- `lb.server_groups.insert(id, group)`. -/
def insertGroup (lb : LoadBalancer) (id : UInt32) (group : ServerGroup) : LoadBalancer :=
  { lb with serverGroups := lb.serverGroups.insert id group }

end LoadBalancer

/-- The load balancer of a configuration. -/
def Configuration.load (cfg : Configuration) : LoadBalancer :=
  cfg.serverGroups.foldl (fun lb g ↦ lb.insertGroup g.1 (.configure g.1 g.2))
    (cfg.clients.foldl (fun lb c ↦ lb.insertClient c.1 c.2) .new)

/-- `src/config.rs:150–182`: the tables of `load_configuration`. -/
def loadConfiguration : LoadBalancer :=
  let lb := LoadBalancer.new
  let lb := lb.insertClient "first@first.com" 0
  let lb := lb.insertClient "second@second.com" 1
  let lb := lb.insertClient "third@third.com" 2
  let lb := lb.insertClient "fourth@fourth.com" 3
  let sg0 := ServerGroup.new 0
  let sg0 := sg0.addServer 0 "127.0.0.1:2500"
  let sg0 := sg0.addServer 1 "127.0.0.1:2501"
  let sg0 := sg0.addServer 2 "127.0.0.1:2502"
  let lb := lb.insertGroup 0 sg0
  let sg1 := ServerGroup.new 1
  let sg1 := sg1.addServer 3 "127.0.0.1:2503"
  let sg1 := sg1.addServer 4 "127.0.0.1:2504"
  let sg1 := sg1.addServer 5 "127.0.0.1:2505"
  lb.insertGroup 1 sg1

/-- The repository's configuration as data. -/
def defaultConfiguration : Configuration where
  clients := [("first@first.com", 0), ("second@second.com", 1), ("third@third.com", 2),
    ("fourth@fourth.com", 3)]
  serverGroups :=
    [(0, [(0, "127.0.0.1:2500"), (1, "127.0.0.1:2501"), (2, "127.0.0.1:2502")]),
      (1, [(3, "127.0.0.1:2503"), (4, "127.0.0.1:2504"), (5, "127.0.0.1:2505")])]

/-- The repository's configuration is one of those the results below range over. -/
theorem loadConfiguration_eq : loadConfiguration = defaultConfiguration.load := rfl

/-! ### What every configuration satisfies -/

/-- A group fresh from its configuration: no counters, and one health checker for each
registered address, which is healthy. -/
structure ServerGroup.Initial (g : ServerGroup) : Prop where
  cxnCntr : g.cxnCntr = ∅
  checked : ∀ id, (∃ addr, g.serverAddrs.lookup id = some addr) ↔
    ∃ hc, g.serverHealth.lookup id = some hc

private theorem initial_addServer {g : ServerGroup} (h : g.Initial) (id : UInt32)
    (addr : String) : (g.addServer id addr).Initial := by
  refine ⟨h.cxnCntr, fun s ↦ ?_⟩
  by_cases hs : s = id
  · subst s
    simp [ServerGroup.addServer]
  · simp only [ServerGroup.addServer, AList.lookup_insert_ne hs]
    exact h.checked s

private theorem initial_foldl (servers : List (UInt32 × String)) {g : ServerGroup}
    (h : g.Initial) : (servers.foldl (fun g s ↦ g.addServer s.1 s.2) g).Initial := by
  induction servers generalizing g with
  | nil => exact h
  | cons s servers ih => exact ih (initial_addServer h s.1 s.2)

/-- Every configured group starts without counters and with a checker for each server. -/
theorem ServerGroup.initial_configure (id : UInt32) (servers : List (UInt32 × String)) :
    (ServerGroup.configure id servers).Initial :=
  initial_foldl servers ⟨rfl, fun s ↦ by simp [ServerGroup.new]⟩

/-- A load balancer before its first poll. -/
structure LoadBalancer.Initial (lb : LoadBalancer) : Prop where
  clients : ∀ id c, lb.clients.lookup id = some c → c = .new id c.allowedServerGroup
  groups : ∀ id g, lb.serverGroups.lookup id = some g → g.Initial
  partialConns : lb.partialConns = []

private theorem initial_insertClient {lb : LoadBalancer} (h : lb.Initial) (email : String)
    (group : UInt32) : (lb.insertClient email group).Initial := by
  refine ⟨fun id c hc ↦ ?_, h.groups, h.partialConns⟩
  by_cases hid : id = email
  · subst id
    simp only [LoadBalancer.insertClient, AList.lookup_insert, Option.some.injEq] at hc
    subst c
    rfl
  · simp only [LoadBalancer.insertClient, AList.lookup_insert_ne hid] at hc
    exact h.clients id c hc

private theorem initial_insertGroup {lb : LoadBalancer} (h : lb.Initial) (id : UInt32)
    {g : ServerGroup} (hg : g.Initial) : (lb.insertGroup id g).Initial := by
  refine ⟨h.clients, fun k g' hk ↦ ?_, h.partialConns⟩
  by_cases hid : k = id
  · subst k
    simp only [LoadBalancer.insertGroup, AList.lookup_insert, Option.some.injEq] at hk
    subst g'
    exact hg
  · simp only [LoadBalancer.insertGroup, AList.lookup_insert_ne hid] at hk
    exact h.groups k g' hk

/-- Every configuration loads into an initial state. -/
theorem Configuration.initial_load (cfg : Configuration) : cfg.load.Initial := by
  have hnew : LoadBalancer.new.Initial :=
    ⟨fun _ _ h ↦ by simp [LoadBalancer.new] at h, fun _ _ h ↦ by simp [LoadBalancer.new] at h, rfl⟩
  have hclients : ∀ (cs : List (String × UInt32)) (lb : LoadBalancer), lb.Initial →
      (cs.foldl (fun lb c ↦ lb.insertClient c.1 c.2) lb).Initial := by
    intro cs
    induction cs with
    | nil => intro lb h; exact h
    | cons c cs ih => intro lb h; exact ih _ (initial_insertClient h c.1 c.2)
  have hgroups : ∀ (gs : List (UInt32 × List (UInt32 × String))) (lb : LoadBalancer),
      lb.Initial → (gs.foldl (fun lb g ↦ lb.insertGroup g.1 (.configure g.1 g.2)) lb).Initial := by
    intro gs
    induction gs with
    | nil => intro lb h; exact h
    | cons g gs ih =>
      intro lb h
      exact ih _ (initial_insertGroup h g.1 (ServerGroup.initial_configure g.1 g.2))
  exact hgroups _ _ (hclients _ _ hnew)

private theorem configured_foldl (gs : List (UInt32 × List (UInt32 × String)))
    {lb : LoadBalancer}
    (h : ∀ id g, lb.serverGroups.lookup id = some g → ∃ servers, g = .configure id servers) :
    ∀ id g,
      (gs.foldl (fun lb g ↦ lb.insertGroup g.1 (.configure g.1 g.2)) lb).serverGroups.lookup id =
        some g → ∃ servers, g = .configure id servers := by
  induction gs generalizing lb with
  | nil => exact h
  | cons e gs ih =>
    apply ih
    intro id g hg
    by_cases hid : id = e.1
    · subst hid
      simp only [LoadBalancer.insertGroup, AList.lookup_insert, Option.some.injEq] at hg
      exact ⟨e.2, hg.symm⟩
    · simp only [LoadBalancer.insertGroup, AList.lookup_insert_ne hid] at hg
      exact h id g hg

/-- Every group of a configuration is built from its servers. -/
theorem Configuration.group_load {cfg : Configuration} {id : UInt32} {g : ServerGroup}
    (h : cfg.load.serverGroups.lookup id = some g) : ∃ servers, g = .configure id servers := by
  refine configured_foldl cfg.serverGroups (fun k g' hk ↦ ?_) id g h
  have hclients : ∀ (cs : List (String × UInt32)) (lb : LoadBalancer),
      (cs.foldl (fun lb c ↦ lb.insertClient c.1 c.2) lb).serverGroups = lb.serverGroups := by
    intro cs
    induction cs with
    | nil => exact fun _ ↦ rfl
    | cons c cs ih => exact fun lb ↦ ih (lb.insertClient c.1 c.2)
  rw [hclients] at hk
  simp [LoadBalancer.new] at hk

/-- The health checkers of a configured group are new. -/
theorem ServerGroup.checker_configure {id : UInt32} {servers : List (UInt32 × String)}
    {server : UInt32} {hc : HealthChecker}
    (h : (ServerGroup.configure id servers).serverHealth.lookup server = some hc) :
    ∃ addr, hc = .new server addr := by
  have hfoldl : ∀ (servers : List (UInt32 × String)) (g : ServerGroup),
      (∀ s hc, g.serverHealth.lookup s = some hc → ∃ addr, hc = .new s addr) →
      ∀ s hc, (servers.foldl (fun g s ↦ g.addServer s.1 s.2) g).serverHealth.lookup s = some hc →
        ∃ addr, hc = .new s addr := by
    intro servers
    induction servers with
    | nil => exact fun _ h ↦ h
    | cons e servers ih =>
      intro g hg
      apply ih
      intro s hc hs
      by_cases he : s = e.1
      · subst he
        simp only [ServerGroup.addServer, AList.lookup_insert, Option.some.injEq] at hs
        exact ⟨e.2, hs.symm⟩
      · simp only [ServerGroup.addServer, AList.lookup_insert_ne he] at hs
        exact hg s hc hs
  exact hfoldl servers (.new id) (fun s hc hs ↦ by simp [ServerGroup.new] at hs) server hc h

end TcpLoadBalancer
