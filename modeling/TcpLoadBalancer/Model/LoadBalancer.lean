import TcpLoadBalancer.Model.Client
import TcpLoadBalancer.Model.Server

/-!
# The load balancer

One `poll` accepts streams, services the clients' connections, runs the health checks and
drives the handshakes, in this order; the first three stages may cut it short with `?`.
Everything the system answers during a poll is an input (`RoundIo`), and what a poll does is
logged as events, so that calls without a trace in the state can be spoken of.
-/

namespace TcpLoadBalancer
open Lib

/-- `src/lib.rs:22`, less the listener and the TLS configuration, whose answers are inputs. -/
structure LoadBalancer where
  clients : HashMap String Client
  serverGroups : HashMap UInt32 ServerGroup
  partialConns : List PartialConnection

/-- One answer of `listener.incoming()`: a fresh stream with the outcomes of its socket
options and of `rustls::ServerConnection::new`, or an error. -/
inductive AcceptIo where
  | stream (s : TcpStream) (options : SocketOptions) (session : Except Error ServerConnection)
  | failed (kind : ErrorKind)

/-- The inputs of the admission of a completed partial connection: the iteration orders of
the server selection, the outcomes of opening the upstream socket, the time at which that is
done, and the clock that the rate limit reads afterwards. -/
structure CompletionIo where
  diffOrder : IterOrder UInt32
  cntrOrder : IterOrder UInt32
  dial : DialIo
  connectedAt : Int
  now : Int

/-- How the admission of a completed partial connection ended: one case for each branch of
`src/lib.rs:166–226`. `conversionFailed` tells whether the upstream socket was opened. -/
inductive Completion where
  | noEmail
  | clientNotFound (id : String)
  | groupNotFound (id : String) (group : UInt32)
  | noHealthyServer (id : String) (group : UInt32)
  | noAddress (id : String) (group server : UInt32)
  | conversionFailed (id : String) (group server : UInt32) (opened : Bool) (e : Error)
  | insertClientNotFound (id : String) (cxn : Connection)
  | rateLimited (id : String) (cxn : Connection)
  | placed (id : String) (cxn : Connection)
  deriving DecidableEq

/-- What a poll of the load balancer does. `connectionRemoved` carries the branch taken by
`remove_connection`, or `none` when the server group was not found; `finished` carries the
clock that the rate limit reads. -/
inductive Event where
  | accepted (stream : TcpStream)
  | connectionPolled (id : String) (i : Nat) (traffic : List (Transfer Direction))
  | connectionRemoved (id : String) (cxn : Connection) (branch : Option Removal)
  | healthPolled (group server : UInt32) (ops : List HealthEvent)
  | partialPolled (i : Nat) (bytes : List Bytes)
  | finished (parCxn : PartialConnection) (now : Int) (outcome : Completion)
  deriving DecidableEq

/-- Everything the system answers during one poll. Outcomes are given by the key of a map
entry and by the position in a vector; entries of maps are visited in any order. -/
structure RoundIo where
  accepts : List AcceptIo
  clientOrder : IterOrder String
  connection : String → Nat → ConnectionIo
  groupOrder : IterOrder UInt32
  serverOrder : UInt32 → IterOrder UInt32
  health : UInt32 → UInt32 → HealthIo
  partialConn : Nat → PartialIo
  completion : Nat → CompletionIo

/-- The choice made for a completed partial connection. -/
structure Route where
  clientId : String
  client : Client
  group : UInt32
  server : UInt32
  address : String

namespace LoadBalancer

/-! ### Accepting streams -/

/-- `src/lib.rs:57–92`. The accept loop ends with `WouldBlock`, the answer of a listener
with nothing pending. -/
def handleListener : List AcceptIo → Action Error LoadBalancer Event
  | [], lb => .done lb
  | .failed .wouldBlock :: _, lb => .done lb
  | .failed kind :: _, lb => ⟨.error (.io kind), lb, []⟩
  | .stream s options session :: rest, lb =>
    match options.set with
    | .error e => ⟨.error e, lb, []⟩
    | .ok () =>
      match session with
      | .error e => ⟨.error e, lb, []⟩
      | .ok tlsConn =>
        let r := handleListener rest
          { lb with partialConns := lb.partialConns ++ [.new s tlsConn] }
        ⟨r.result, r.state, .accepted s :: r.log⟩

/-! ### Servicing connections -/

/-- Give a removed connection back to the counters; `src/lib.rs:100–107`. -/
def releaseConnection (id : String) (cxn : Connection) : Action Error LoadBalancer Event :=
  fun lb ↦
    match lb.serverGroups.lookup cxn.getUpstreamServerGroup with
    | some g =>
      let r := g.removeConnection cxn.getUpstreamServerId
      let groups := lb.serverGroups.modify cxn.getUpstreamServerGroup fun _ ↦ r.1
      ⟨.ok (), { lb with serverGroups := groups }, [.connectionRemoved id cxn (some r.2)]⟩
    | none => ⟨.ok (), lb, [.connectionRemoved id cxn none]⟩

/-- The loop body of `handle_clients`, `src/lib.rs:98–109`: poll one client, clean up its
list and release what was removed. -/
def serviceClient (ios : Nat → ConnectionIo) (id : String) : Action Error LoadBalancer Event :=
  fun lb ↦
    match lb.clients.lookup id with
    | none => .done lb
    | some client =>
      let r := client.poll ios
      let polled := r.log.map fun p ↦ Event.connectionPolled id p.1 p.2
      match r.result with
      | .error e =>
        ⟨.error e, { lb with clients := lb.clients.modify id fun _ ↦ r.state }, polled⟩
      | .ok () =>
        let cleaned := r.state.cleanupConnections
        let released := Action.forEach (releaseConnection id) cleaned.1
          { lb with clients := lb.clients.modify id fun _ ↦ cleaned.2 }
        ⟨released.result, released.state, polled ++ released.log⟩

/-- `src/lib.rs:94–113`. -/
def handleClients (ord : IterOrder String) (ios : String → Nat → ConnectionIo) :
    Action Error LoadBalancer Event := fun lb ↦
  Action.forEach (fun id ↦ serviceClient (ios id) id) (ord.arrange lb.clients.keys) lb

/-! ### Health checks -/

/-- Poll one server group; the loop body of `src/lib.rs:117–120`. -/
def pollGroup (x : Externals) (ord : IterOrder UInt32) (ios : UInt32 → HealthIo)
    (group : UInt32) : Action Error LoadBalancer Event := fun lb ↦
  match lb.serverGroups.lookup group with
  | none => .done lb
  | some g =>
    let r := g.poll x ord ios
    ⟨r.result, { lb with serverGroups := lb.serverGroups.modify group fun _ ↦ r.state },
      r.log.map fun p ↦ .healthPolled group p.1 p.2⟩

/-- `src/lib.rs:115–123`. -/
def handleServerGroups (x : Externals) (ord : IterOrder UInt32)
    (serverOrd : UInt32 → IterOrder UInt32) (ios : UInt32 → UInt32 → HealthIo) :
    Action Error LoadBalancer Event := fun lb ↦
  Action.forEach (fun group ↦ pollGroup x (serverOrd group) (ios group) group)
    (ord.arrange lb.serverGroups.keys) lb

/-! ### Handshakes and admission -/

/-- `src/lib.rs:218–228`. The client drops a connection over its rate limit. -/
def insertConnection (lb : LoadBalancer) (clientId : String) (cxn : Connection) (now : Int) :
    LoadBalancer × Completion :=
  match lb.clients.lookup clientId with
  | some client =>
    ({ lb with clients := lb.clients.modify clientId fun client ↦ client.addConnection now cxn },
      if client.rateLimitHit now then .rateLimited clientId cxn else .placed clientId cxn)
  | none => (lb, .insertClientNotFound clientId cxn)

/-- The lookups of an admission, `src/lib.rs:166–176,194–215`: the client by its email, its
server group, the least connected healthy server and that server's address. -/
def route (lb : LoadBalancer) (parCxn : PartialConnection) (io : CompletionIo) :
    Except Completion Route :=
  match parCxn.clientId with
  | none => .error .noEmail
  | some id =>
    match lb.clients.lookup id with
    | none => .error (.clientNotFound id)
    | some client =>
      match lb.serverGroups.lookup client.getServerGroup with
      | none => .error (.groupNotFound id client.getServerGroup)
      | some serverGroup =>
        match serverGroup.findMinAndHealthy io.diffOrder io.cntrOrder with
        | none => .error (.noHealthyServer id client.getServerGroup)
        | some serverId =>
          match serverGroup.getServerAddress serverId with
          | none => .error (.noAddress id client.getServerGroup serverId)
          | some upstreamAddr =>
            .ok ⟨id, client, client.getServerGroup, serverId, upstreamAddr⟩

/-- The admission of a completed partial connection, `src/lib.rs:166–215`: open the upstream
connection, count it, then hand it to the client. -/
def completeConnection (x : Externals) (lb : LoadBalancer) (parCxn : PartialConnection)
    (io : CompletionIo) : LoadBalancer × Completion :=
  match lb.route parCxn io with
  | .error outcome => (lb, outcome)
  | .ok r =>
    match Connection.fromPartialConnection x parCxn r.group r.server r.address io.dial with
    | .ok conn =>
      insertConnection
        { lb with serverGroups := lb.serverGroups.modify r.group fun g ↦ g.addConnection r.server }
        r.clientId conn io.now
    | .error e =>
      (lb, .conversionFailed r.clientId r.group r.server
        (connectUpstream x r.address io.dial.connect).isOk e)

/-- The admission as an action. -/
def complete (x : Externals) (parCxn : PartialConnection) (io : CompletionIo) :
    Action Error LoadBalancer Event := fun lb ↦
  let r := lb.completeConnection x parCxn io
  ⟨.ok (), r.1, [.finished parCxn io.now r.2]⟩

/-- `src/lib.rs:125–216` on given results of the polls of the partial connections; `none` is
an index out of range, where the program panics. The errors are removed first, the
completed ones are removed and admitted afterwards. -/
def handlePolled (x : Externals) (results : List (Outcome Error PartialConnection Bytes))
    (ios : Nat → CompletionIo) (lb : LoadBalancer) : Option (LoadBalancer × List Event) :=
  let toRemove := positions (fun r ↦ !succeeded r.result) results
  let toComplete := positions (fun r ↦ succeeded r.result && r.state.isCompleted) results
  match removeEach (fun _ _ u ↦ u) toRemove.reverse (results.map fun r ↦ r.state) () with
  | none => none
  | some (partialConns, ()) =>
    match removeEach
        (fun i parCxn (s : LoadBalancer × List Event) ↦
          let r := complete x parCxn (ios i) s.1
          (r.state, s.2 ++ r.log))
        toComplete.reverse partialConns (lb, []) with
    | none => none
    | some (partialConns, lb', log) => some ({ lb' with partialConns }, log)

/-- The polls of all partial connections, by position. -/
def pollPartials (x : Externals) (ios : Nat → PartialIo) (pcs : List PartialConnection) :
    List (Outcome Error PartialConnection Bytes) :=
  pcs.mapIdx fun i pc ↦ pc.poll x (ios i)

/-- The completed partial connections in the order of their removal, with the positions at
which they were polled. -/
def finishedConns (polled : List PartialConnection) : List (Nat × PartialConnection) :=
  (marked PartialConnection.isCompleted polled).reverse

/-- Admit completed partial connections one after the other. -/
def completeEach (x : Externals) (ios : Nat → CompletionIo) :
    List (Nat × PartialConnection) → Action Error LoadBalancer Event :=
  Action.forEach fun e ↦ complete x e.2 (ios e.1)

private theorem foldl_complete (x : Externals) (ios : Nat → CompletionIo)
    (es : List (Nat × PartialConnection)) (lb : LoadBalancer) (log : List Event) :
    es.foldl
      (fun (s : LoadBalancer × List Event) e ↦
        ((complete x e.2 (ios e.1) s.1).state, s.2 ++ (complete x e.2 (ios e.1) s.1).log))
      (lb, log) =
      ((completeEach x ios es lb).state, log ++ (completeEach x ios es lb).log) := by
  induction es generalizing lb log with
  | nil => simp [completeEach, Action.forEach, Action.skip, Outcome.done]
  | cons e es ih =>
    rw [List.foldl_cons, ih]
    simp only [completeEach, Action.forEach]
    rw [Action.andThen_of_ok rfl]
    simp only [List.append_assoc]

/-- Without errors no position is out of range: what is not completed stays in its order,
and each completed partial connection is admitted once. -/
theorem handlePolled_eq (x : Externals)
    (results : List (Outcome Error PartialConnection Bytes)) (ios : Nat → CompletionIo)
    (lb : LoadBalancer) (hok : ∀ r ∈ results, r.result = .ok ()) :
    handlePolled x results ios lb =
      some
        ({ (completeEach x ios (finishedConns (results.map fun r ↦ r.state)) lb).state with
            partialConns := (results.map fun r ↦ r.state).filter fun pc ↦ !pc.isCompleted },
          (completeEach x ios (finishedConns (results.map fun r ↦ r.state)) lb).log) := by
  have hremove : positions (fun r ↦ !succeeded r.result) results = [] := by
    rw [positions, marked_eq_nil fun r hr ↦ by simp [hok r hr], List.map_nil]
  have hcomplete : positions (fun r ↦ succeeded r.result && r.state.isCompleted) results =
      positions PartialConnection.isCompleted (results.map fun r ↦ r.state) := by
    rw [positions, positions, marked_map,
      marked_congr fun r hr ↦ by rw [hok r hr, succeeded_ok, Bool.true_and], List.map_map]
    rfl
  simp only [handlePolled, hremove, hcomplete, List.reverse_nil, removeEach]
  rw [removeEach_positions]
  simp only [finishedConns, foldl_complete, List.nil_append]

/-- No poll of a partial connection returns an error. -/
theorem pollPartials_ok (x : Externals) (ios : Nat → PartialIo) (pcs : List PartialConnection) :
    ∀ r ∈ pollPartials x ios pcs, r.result = .ok () := by
  intro r hr
  obtain ⟨i, hi, rfl⟩ := List.mem_mapIdx.mp hr
  exact PartialConnection.poll_result x _ _

/-- `src/lib.rs:125–216`. The polls return no errors, so no index is out of range and there
is no panic to model. -/
def handlePartialConnections (x : Externals) (partialIos : Nat → PartialIo)
    (ios : Nat → CompletionIo) : Action Error LoadBalancer Event := fun lb ↦
  let results := pollPartials x partialIos lb.partialConns
  let r := (handlePolled x results ios lb).get
    (by rw [handlePolled_eq x _ ios lb (pollPartials_ok x partialIos _)]; rfl)
  ⟨.ok (), r.1, results.mapIdx (fun i r ↦ .partialPolled i r.log) ++ r.2⟩

/-! ### A round and a run -/

/-- The stages that may end a poll early. -/
def serviceStages (x : Externals) (io : RoundIo) : Action Error LoadBalancer Event :=
  ((handleListener io.accepts).andThen (handleClients io.clientOrder io.connection)).andThen
    (handleServerGroups x io.groupOrder io.serverOrder io.health)

/-- `src/lib.rs:44–55`. -/
def poll (x : Externals) (io : RoundIo) : Action Error LoadBalancer Event :=
  (serviceStages x io).andThen (handlePartialConnections x io.partialConn io.completion)

/-- `src/bin/load_balancer.rs:38–50`: an error is logged and the next poll follows. -/
def serve (x : Externals) : List RoundIo → Action Error LoadBalancer Event :=
  Action.loop (poll x)

end LoadBalancer
end TcpLoadBalancer
