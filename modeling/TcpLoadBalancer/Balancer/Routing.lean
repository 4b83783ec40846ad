import TcpLoadBalancer.Balancer.Rounds

/-!
# Authorisation and routing

Every connection is made for the client whose certificate its partial connection presented,
and leads to a healthy registered server of that client's group. The connections in the
clients' lists are placed by admissions and keep their streams and their server.
-/

namespace TcpLoadBalancer
open Lib

/-- What a connection joins: the client's stream, the upstream one, the group and the server. -/
def Connection.ends (cxn : Connection) : TcpStream × TcpStream × UInt32 × UInt32 :=
  (cxn.downStream, cxn.upStream, cxn.upstreamServGroup, cxn.upstreamServId)

/-- A poll leaves the ends of a connection as they are. -/
theorem Connection.ends_poll (cxn : Connection) (io : ConnectionIo) :
    (cxn.poll io).state.ends = cxn.ends := by
  obtain ⟨session, connState, he⟩ := cxn.poll_fixed io
  rw [he]
  rfl

/-- The connection that an admission created, and the client it created it for. -/
def Completion.created : Completion → Option (String × Connection)
  | .insertClientNotFound id cxn => some (id, cxn)
  | .rateLimited id cxn => some (id, cxn)
  | .placed id cxn => some (id, cxn)
  | _ => none

/-- The admission may create the connection for client `k` of a configuration. -/
structure Authorised (x : Externals) (cfg : Configuration) (a : Admission) (k : String)
    (cxn : Connection) : Prop where
  /-- The handshake is done. -/
  completed : a.parCxn.state = .completed ∧ a.parCxn.tlsConn.isHandshaking = false
  /-- The peer's certificate names `k`. -/
  identity : ∃ certs, a.parCxn.tlsConn.peerCertificates = some certs ∧
    extractEmailFromCert x certs.endEntity = .ok k
  /-- The connection relays the stream and the session of that handshake. -/
  stream : cxn.downStream = a.parCxn.downStream ∧ cxn.tlsConn = a.parCxn.tlsConn
  /-- `k` is configured, with the connection's group. -/
  group : cfg.load.groupOf k = some cxn.upstreamServGroup
  /-- The server is registered in that group, and the socket leads to its address. -/
  server : ∃ g addr, cfg.load.serverGroups.lookup cxn.upstreamServGroup = some g ∧
    g.getServerAddress cxn.upstreamServId = some addr ∧ x.parseAddr addr = .ok cxn.upStream.peer
  /-- The server's health checker stands on healthy at the choice. -/
  healthy : ∃ g hc, a.lb.serverGroups.lookup cxn.upstreamServGroup = some g ∧
    g.serverHealth.lookup cxn.upstreamServId = some hc ∧ hc.isHealthy = true

namespace LoadBalancer

/-- What an admission in a configured state creates is authorised. -/
theorem created_authorised {x : Externals} {cfg : Configuration} {a : Admission}
    (hI : Configured cfg.load [] a.lb) (hsound : a.parCxn.Sound x)
    (hdone : a.parCxn.isCompleted = true) {k : String} {cxn : Connection}
    (hcreated : (a.outcome x).created = some (k, cxn)) : Authorised x cfg a k cxn := by
  have hadm := completeConnection_admitted x a.lb a.parCxn a.io
  unfold Admission.outcome at hcreated
  generalize a.lb.completeConnection x a.parCxn a.io = r at hadm hcreated
  cases hadm with
  | unrouted o hroute =>
    rcases route_eq_error hroute with
      ⟨-, rfl⟩ | ⟨_, rfl⟩ | ⟨_, _, rfl⟩ | ⟨_, _, rfl⟩ | ⟨_, _, _, _, rfl, -⟩
    all_goals cases hcreated
  | unconverted r e hroute hconvert => cases hcreated
  | offered r cxn' hroute hconvert =>
    have hsame : r.clientId = k ∧ cxn' = cxn := by
      cases hhit : r.client.rateLimitHit a.io.now with
      | true => simpa [hhit, Completion.created] using hcreated
      | false => simpa [hhit, Completion.created] using hcreated
    obtain ⟨rfl, rfl⟩ := hsame
    have hstate : a.parCxn.state = .completed := by
      simpa [PartialConnection.isCompleted] using hdone
    obtain ⟨hhandshake, certs, email, hcerts, hemail, hid⟩ := hsound hstate
    obtain ⟨hclientId, hclient, hgroup, g, hg, hfind, haddr⟩ := route_eq_ok hroute
    obtain ⟨upStream, hconnect, -, rfl⟩ := Connection.fromPartialConnection_eq hconvert
    obtain ⟨g₀, -, hg₀, hsame, -⟩ := chosen_registered hI hg hfind
    have hname : email = r.clientId := by
      rw [PartialConnection.clientId, hid] at hclientId
      exact Option.some.inj hclientId
    refine ⟨⟨hstate, hhandshake⟩, ⟨certs, hcerts, by rw [hemail, hname]⟩, ⟨rfl, rfl⟩, ?_, ?_, ?_⟩
    · rw [← hI.1, groupOf, hclient, Option.map_some, ← hgroup]
    · refine ⟨g₀, r.address, hg₀, ?_, connectUpstream_peer hconnect⟩
      rw [ServerGroup.getServerAddress, ← hsame]
      exact haddr
    · obtain ⟨hc, hlookup, hhealthy⟩ :=
        ServerGroup.healthyServer_iff.mp (ServerGroup.findMinAndHealthy_healthy hfind)
      exact ⟨g, hc, hg, hlookup, by simp [HealthChecker.isHealthy, hhealthy]⟩

/-! ### The clients' lists -/

/-- Every connection in a client's list was placed there with its present ends. -/
def Placed (h : List Event) (lb : LoadBalancer) : Prop :=
  ∀ k c cxn, lb.clients.lookup k = some c → cxn ∈ c.connections →
    ∃ pc now cxn₀, .finished pc now (.placed k cxn₀) ∈ h ∧ cxn.ends = cxn₀.ends

/-- A stage that places nothing keeps the lists accounted for. -/
theorem Placed.mono {h es : List Event} {lb lb' : LoadBalancer} (hI : Placed h lb)
    (hsub : ∀ k c cxn, lb'.clients.lookup k = some c → cxn ∈ c.connections →
      ∃ c' cxn', lb.clients.lookup k = some c' ∧ cxn' ∈ c'.connections ∧ cxn.ends = cxn'.ends) :
    Placed (h ++ es) lb' := by
  intro k c cxn hc hcxn
  obtain ⟨c', cxn', hc', hcxn', hends⟩ := hsub k c cxn hc hcxn
  obtain ⟨pc, now, cxn₀, hmem, hends₀⟩ := hI k c' cxn' hc' hcxn'
  exact ⟨pc, now, cxn₀, List.mem_append_left _ hmem, hends.trans hends₀⟩

private theorem placed_service (ios : Nat → ConnectionIo) (id : String) :
    Action.Keeps Placed (serviceClient ios id) := by
  intro h lb hI
  apply hI.mono
  intro k c cxn hc hcxn
  rw [(serviceClient_frame ios id lb).2.1, HashMap.lookup_modify] at hc
  split at hc
  · next hk =>
    obtain ⟨c', hc', rfl⟩ := Option.map_eq_some_iff.mp hc
    obtain ⟨i, hi, rfl⟩ := List.mem_mapIdx.mp (List.mem_filter.mp hcxn).1
    exact ⟨c', _, by rw [hk, hc'], List.getElem_mem hi, Connection.ends_poll _ _⟩
  · exact ⟨c, cxn, hc, hcxn, rfl⟩

private theorem placed_complete (x : Externals) (pc : PartialConnection) (io : CompletionIo) :
    Action.Keeps Placed (complete x pc io) := by
  intro h lb hI
  have hadm := completeConnection_admitted x lb pc io
  unfold complete
  generalize lb.completeConnection x pc io = r at hadm
  cases hadm with
  | unrouted o hroute => exact hI.mono fun k c cxn hc hcxn ↦ ⟨c, cxn, hc, hcxn, rfl⟩
  | unconverted r e hroute hconvert => exact hI.mono fun k c cxn hc hcxn ↦ ⟨c, cxn, hc, hcxn, rfl⟩
  | offered r cxn hroute hconvert =>
    intro k c cxn' hc hcxn'
    rcases mem_offered (route_eq_ok hroute).2.1 hc hcxn' with ⟨c', hc', hold⟩ | ⟨hk, hnew, hfree⟩
    · obtain ⟨pc', now', cxn₀, hmem, hends⟩ := hI k c' cxn' hc' hold
      exact ⟨pc', now', cxn₀, List.mem_append_left _ hmem, hends⟩
    · refine ⟨pc, io.now, cxn, List.mem_append_right _ ?_, by rw [hnew]⟩
      simp [hk, hfree]

/-- Every stage of a round keeps the lists accounted for. -/
theorem kept_placed (x : Externals) : Kept x (fun _ ↦ True) Placed where
  new _ _ := trivial
  handshake _ _ _ := trivial
  blind _ _ _ hI := hI
  quiet _ _ _ _ hI := hI.mono fun _ c cxn hc hcxn ↦ ⟨c, cxn, hc, hcxn, rfl⟩
  service := placed_service
  check ord ios group h lb hI := by
    apply hI.mono
    intro k c cxn hc hcxn
    rw [(pollGroup_frame x ord ios group lb).1] at hc
    exact ⟨c, cxn, hc, hcxn, rfl⟩
  admission pc io _ _ := placed_complete x pc io

/-- In every run from a configuration, every connection that is created is authorised for the
client it is created for, and every connection in a client's list was placed there by an
admission for that client, with the ends it still has. -/
theorem connections_authorised (x : Externals) (cfg : Configuration) (ios : List RoundIo) :
    (∀ a ∈ admissions x ios cfg.load, ∀ k cxn, (a.outcome x).created = some (k, cxn) →
      Authorised x cfg a k cxn) ∧
    ∀ k c cxn, (serve x ios cfg.load).state.clients.lookup k = some c → cxn ∈ c.connections →
      ∃ a ∈ admissions x ios cfg.load, ∃ cxn₀, a.outcome x = .placed k cxn₀ ∧
        cxn.ends = cxn₀.ends ∧ Authorised x cfg a k cxn₀ := by
  have hauthorised : ∀ a ∈ admissions x ios cfg.load, ∀ k cxn,
      (a.outcome x).created = some (k, cxn) → Authorised x cfg a k cxn := by
    intro a ha k cxn hcreated
    obtain ⟨hI, hsound, hdone⟩ := configured_admissions x cfg ios a ha
    exact created_authorised hI hsound hdone hcreated
  refine ⟨hauthorised, fun k c cxn hc hcxn ↦ ?_⟩
  have hstart : Placed [] cfg.load := by
    intro k c cxn hc hcxn
    rw [cfg.initial_load.clients k c hc] at hcxn
    cases hcxn
  obtain ⟨pc, now, cxn₀, hlog, hends⟩ :=
    ((kept_placed x).serve ios ⟨hstart, fun _ _ ↦ trivial⟩).1 k c cxn hc hcxn
  obtain ⟨a, ha, hevent⟩ := (finished_mem_iff rfl).mp hlog
  have houtcome : a.outcome x = .placed k cxn₀ := (Event.finished.inj hevent).2.2
  exact ⟨a, ha, cxn₀, houtcome, hends, hauthorised a ha k cxn₀ (by rw [houtcome]; rfl)⟩

end LoadBalancer
end TcpLoadBalancer
