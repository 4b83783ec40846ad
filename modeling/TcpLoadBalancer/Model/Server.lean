import TcpLoadBalancer.Lib.Action
import TcpLoadBalancer.Lib.HashMap
import TcpLoadBalancer.Model.Net

/-!
# Server groups and health checks

A server group keeps, by server id, the registered addresses, the connection counters and
the health checkers. A health checker runs a connect, PING, PONG cycle against one server
and keeps the verdict of the last one. Connection counters are natural numbers; the
sentinel of the least-connections scan is `usize::MAX` on a 64-bit target.
-/

namespace TcpLoadBalancer
open Lib

/-- `src/server.rs:391`. -/
inductive UpstreamState where
  | healthy
  | unhealthy
  deriving DecidableEq, Repr

/-- `src/server.rs:398`. -/
inductive PingState where
  | idle (ts : Int)
  | connected
  | pingSent (timestamp : Int)
  deriving DecidableEq, Repr

/-- `src/server.rs:405`. -/
structure HealthChecker where
  serverId : UInt32
  address : String
  upStream : Option TcpStream
  pingState : PingState
  upstreamState : UpstreamState
  deriving DecidableEq, Repr

/-- The outcomes of one poll of a health checker: the clock, connecting, the socket
options, the single writes of `write_all` and the read. -/
structure HealthIo where
  now : Int
  connect : Except ErrorKind Nat
  options : SocketOptions
  writes : List WriteResult
  read : Except ErrorKind (Chunk 16)

/-- The operations a health checker performs on the network. -/
inductive HealthEvent where
  | connectFailed (addr : SocketAddr)
  | connected (stream : TcpStream)
  | wrote (stream : TcpStream) (accepted : Bytes) (result : Except ErrorKind Unit)
  | received (stream : TcpStream) (bytes : Bytes)
  deriving DecidableEq

/-- `"PING".as_bytes()`. -/
def pingBytes : Bytes := [80, 73, 78, 71]

/-- `"PONG".as_bytes()`. -/
def pongBytes : Bytes := [80, 79, 78, 71]

namespace HealthChecker

/-- `src/server.rs:417`. -/
def new (serverId : UInt32) (address : String) : HealthChecker :=
  ⟨serverId, address, none, .idle 0, .healthy⟩

/-- The failed end of a check: the server is unhealthy, the stream is dropped and the
checker goes back to idle; `src/server.rs:493–495,508–510,552–554`. -/
def fail (hc : HealthChecker) (now : Int) : HealthChecker :=
  { hc with upstreamState := .unhealthy, upStream := none, pingState := .idle now }

/-- `PingState::IDLE`, `src/server.rs:430–472`. -/
def pollIdle (x : Externals) (hc : HealthChecker) (idleTs : Int) (io : HealthIo) :
    Outcome Error HealthChecker HealthEvent :=
  if io.now > idleTs + 30 then
    match x.parseAddr hc.address with
    | .ok sockAddr =>
      match io.connect with
      | .ok fd =>
        let stream : TcpStream := ⟨fd, sockAddr⟩
        match io.options.set with
        -- `?` drops the fresh stream and leaves the checker as it was
        | .error e => ⟨.error e, hc, [.connected stream]⟩
        | .ok () =>
          ⟨.ok (), { hc with upStream := some stream, pingState := .connected },
            [.connected stream]⟩
      | .error _ =>
        ⟨.ok (), { hc with upstreamState := .unhealthy, pingState := .idle io.now },
          [.connectFailed sockAddr]⟩
    | .error _ =>
      ⟨.ok (), { hc with upstreamState := .unhealthy, pingState := .idle io.now }, []⟩
  else .done hc

/-- `PingState::CONNECTED`, `src/server.rs:473–501`. -/
def pollConnected (hc : HealthChecker) (io : HealthIo) :
    Outcome Error HealthChecker HealthEvent :=
  match hc.upStream with
  | some stream =>
    match writeAll io.writes pingBytes with
    | (accepted, .ok ()) =>
      ⟨.ok (), { hc with pingState := .pingSent io.now }, [.wrote stream accepted (.ok ())]⟩
    | (accepted, .error .wouldBlock) =>
      ⟨.ok (), hc, [.wrote stream accepted (.error .wouldBlock)]⟩
    | (accepted, .error k) => ⟨.ok (), hc.fail io.now, [.wrote stream accepted (.error k)]⟩
  | none => .done hc

/-- `PingState::PING_SENT`, `src/server.rs:502–561`. -/
def pollPingSent (hc : HealthChecker) (timestamp : Int) (io : HealthIo) :
    Outcome Error HealthChecker HealthEvent :=
  if io.now > timestamp + 1 then ⟨.ok (), hc.fail io.now, []⟩
  else
    match hc.upStream with
    | some stream =>
      match io.read with
      | .ok buf =>
        let verdict :=
          if buf.val = pongBytes then
            if io.now > timestamp then .unhealthy else .healthy
          -- any other answer, the end of the stream included, leaves the verdict alone
          else hc.upstreamState
        ⟨.ok (), { hc with upstreamState := verdict, upStream := none, pingState := .idle io.now },
          [.received stream buf.val]⟩
      | .error .wouldBlock => .done hc
      | .error _ => ⟨.ok (), hc.fail io.now, []⟩
    | none => .done hc

/-- `src/server.rs:422–567`. -/
def poll (x : Externals) (hc : HealthChecker) (io : HealthIo) :
    Outcome Error HealthChecker HealthEvent :=
  match hc.pingState with
  | .idle idleTs => hc.pollIdle x idleTs io
  | .connected => hc.pollConnected io
  | .pingSent timestamp => hc.pollPingSent timestamp io

/-- `src/server.rs:569`. -/
def isHealthy (hc : HealthChecker) : Bool := hc.upstreamState == .healthy

/-- A health check returns an error only from the socket options of a fresh stream. -/
def optionsFail (x : Externals) (hc : HealthChecker) (io : HealthIo) : Bool :=
  match hc.pingState with
  | .idle idleTs =>
    decide (io.now > idleTs + 30) && (x.parseAddr hc.address).isOk && io.connect.isOk &&
      !succeeded io.options.set
  | _ => false

/-- A health check returns an error exactly when the socket options of its fresh stream fail. -/
theorem poll_ok_iff (x : Externals) (hc : HealthChecker) (io : HealthIo) :
    (hc.poll x io).result = .ok () ↔ hc.optionsFail x io = false := by
  unfold poll optionsFail
  cases hs : hc.pingState with
  | connected =>
    simp only [pollConnected, iff_true]
    repeat' split
    all_goals rfl
  | pingSent ts =>
    simp only [pollPingSent, iff_true]
    repeat' split
    all_goals rfl
  | idle ts =>
    by_cases hdue : io.now > ts + 30
    · cases hp : x.parseAddr hc.address with
      | error e => simp [pollIdle, hdue, hp]
      | ok sockAddr =>
        cases hconnect : io.connect with
        | error k => simp [pollIdle, hdue, hp, hconnect]
        | ok fd =>
          cases ho : io.options.set with
          | error e =>
            simp [pollIdle, hdue, hp, hconnect, ho]
          | ok u => simp [pollIdle, hdue, hp, hconnect, ho]
    · simp [pollIdle, hdue, Outcome.done]

end HealthChecker

/-- `src/server.rs:20`. -/
structure ServerGroup where
  id : UInt32
  serverAddrs : HashMap UInt32 String
  cxnCntr : HashMap UInt32 Nat
  serverHealth : HashMap UInt32 HealthChecker

/-- The branch that `remove_connection` takes: the decrement, or one of the two marked
"should not happen". -/
inductive Removal where
  | decremented
  | countZero
  | entryMissing
  deriving DecidableEq, Repr

/-- `usize::MAX`. -/
def usizeMax : Nat := 2 ^ 64 - 1

namespace ServerGroup

/-- `src/server.rs:30`. -/
def new (id : UInt32) : ServerGroup := ⟨id, ∅, ∅, ∅⟩

/-- `src/server.rs:35–45`. -/
def addConnection (g : ServerGroup) (id : UInt32) : ServerGroup :=
  match g.cxnCntr.lookup id with
  | some _ => { g with cxnCntr := g.cxnCntr.modify id fun cxnCnt ↦ cxnCnt + 1 }
  | none => { g with cxnCntr := g.cxnCntr.insert id 1 }

/-- `src/server.rs:47–66`, with the branch taken. -/
def removeConnection (g : ServerGroup) (id : UInt32) : ServerGroup × Removal :=
  match g.cxnCntr.lookup id with
  | some cxnCnt =>
    if cxnCnt > 0 then
      ({ g with cxnCntr := g.cxnCntr.modify id fun cxnCnt ↦ cxnCnt - 1 }, .decremented)
    else (g, .countZero)
  | none => (g, .entryMissing)

/-- `src/server.rs:68–72`. -/
def addServer (g : ServerGroup) (servId : UInt32) (addr : String) : ServerGroup :=
  { g with
    serverAddrs := g.serverAddrs.insert servId addr
    serverHealth := g.serverHealth.insert servId (.new servId addr) }

/-- `src/server.rs:74`. -/
def getServerAddress (g : ServerGroup) (servId : UInt32) : Option String :=
  g.serverAddrs.lookup servId

/-- The registered servers without a counter, `server_id_set.difference(&cxn_id_set)`, in
some order; `src/server.rs:84–87`. -/
def uncounted (g : ServerGroup) (ord : IterOrder UInt32) : List UInt32 :=
  ord.arrange (g.serverAddrs.keys.filter fun id ↦ decide (id ∉ g.cxnCntr.keys))

/-- The scan for the least count below the sentinel among the eligible entries;
`src/server.rs:96–105,133–145`. -/
def scanMin (eligible : UInt32 → Bool) :
    List (UInt32 × Nat) → Nat → Option UInt32 → Option UInt32
  | [], _, minId => minId
  | (id, numConns) :: rest, minConns, minId =>
    if minConns > numConns ∧ eligible id = true then scanMin eligible rest numConns (some id)
    else scanMin eligible rest minConns minId

/-- The server has a checker and its verdict is healthy. -/
def healthyServer (g : ServerGroup) (id : UInt32) : Bool :=
  match g.serverHealth.lookup id with
  | some health => health.isHealthy
  | none => false

/-- `src/server.rs:79–108`. -/
def findMin (g : ServerGroup) (diffOrder cntrOrder : IterOrder UInt32) : Option UInt32 :=
  let first :=
    if g.cxnCntr.keys.length ≠ g.serverAddrs.keys.length then (g.uncounted diffOrder).head?
    else none
  match first with
  | some id => some id
  | none => scanMin (fun _ ↦ true) (g.cxnCntr.iter cntrOrder) usizeMax none

/-- `src/server.rs:110–148`. -/
def findMinAndHealthy (g : ServerGroup) (diffOrder cntrOrder : IterOrder UInt32) :
    Option UInt32 :=
  let first :=
    if g.cxnCntr.keys.length ≠ g.serverAddrs.keys.length then
      (g.uncounted diffOrder).find? g.healthyServer
    else none
  match first with
  | some id => some id
  | none => scanMin g.healthyServer (g.cxnCntr.iter cntrOrder) usizeMax none

/-- The health check of one server of a group. -/
def pollServer (x : Externals) (ios : UInt32 → HealthIo) (id : UInt32) :
    Action Error ServerGroup (UInt32 × List HealthEvent) := fun g ↦
  match g.serverHealth.lookup id with
  | none => .done g
  | some hc =>
    let r := hc.poll x (ios id)
    ⟨r.result, { g with serverHealth := g.serverHealth.modify id fun _ ↦ r.state },
      [(id, r.log)]⟩

/-- `src/server.rs:150–158`. -/
def poll (x : Externals) (ord : IterOrder UInt32) (ios : UInt32 → HealthIo) :
    Action Error ServerGroup (UInt32 × List HealthEvent) := fun g ↦
  Action.forEach (pollServer x ios) (ord.arrange g.serverHealth.keys) g

end ServerGroup
end TcpLoadBalancer
