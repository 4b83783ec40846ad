import TcpLoadBalancer.Lib.FixedWindow
import TcpLoadBalancer.Lib.Positions
import TcpLoadBalancer.Model.Connection

/-!
# Configured clients

A client owns its open connections and the counter of its rate limit, which counts the
connections of the current 30 second period. Counters are natural numbers: no run admits
2^64 connections. Timestamps are the seconds of `chrono::Utc::now().timestamp()`.
-/

namespace TcpLoadBalancer
open Lib

/-- `src/client.rs:17`. -/
structure Client where
  email : String
  connections : List Connection
  cxnTime : Int
  cxnCnt : Nat
  allowedServerGroup : UInt32
  deriving DecidableEq, Repr

/-- One connection of a client was polled: its position and its traffic. -/
abbrev ConnectionPoll := Nat × List (Transfer Direction)

/-- The 30 second period of a timestamp; the division truncates. -/
def periodOf (timestamp : Int) : Int := timestamp.tdiv 30

/-- Later times are in later periods. -/
theorem periodOf_mono {t t' : Int} (h : t ≤ t') : periodOf t ≤ periodOf t' :=
  Int.tdiv_le_tdiv (by decide) h

/-- `i64::MIN`. -/
def i64Min : Int := -9223372036854775808

/-- The connections a client may open in one period. -/
def clientLimit : Nat := 10

namespace Client

/-- `src/client.rs:28`. -/
def new (email : String) (allowedServerGroup : UInt32) : Client :=
  ⟨email, [], i64Min, 0, allowedServerGroup⟩

/-- `for cxn in connections.iter_mut() { cxn.poll()?; }`, from position `i` on. -/
def pollFrom (ios : Nat → ConnectionIo) :
    Nat → List Connection → Outcome Error (List Connection) ConnectionPoll
  | _, [] => .done []
  | i, cxn :: cxns =>
    let r := cxn.poll (ios i)
    match r.result with
    | .error e => ⟨.error e, r.state :: cxns, [(i, r.log)]⟩
    | .ok () =>
      let rest := pollFrom ios (i + 1) cxns
      ⟨rest.result, r.state :: rest.state, (i, r.log) :: rest.log⟩

/-- `src/client.rs:33–42`, with the outcomes of the connection at each position. -/
def poll (c : Client) (ios : Nat → ConnectionIo) : Outcome Error Client ConnectionPoll :=
  (pollFrom ios 0 c.connections).lift (fun cxns ↦ { c with connections := cxns }) id

/-- `src/client.rs:44`. -/
def getServerGroup (c : Client) : UInt32 := c.allowedServerGroup

/-- The rate limit refuses a connection at this time; `src/client.rs:56–62`. -/
def rateLimitHit (c : Client) (timestamp : Int) : Bool :=
  decide (periodOf timestamp = c.cxnTime) && decide (clientLimit ≤ c.cxnCnt)

/-- `src/client.rs:49–76`. A refused connection is dropped. -/
def addConnection (c : Client) (timestamp : Int) (cxn : Connection) : Client :=
  let now := periodOf timestamp
  if now = c.cxnTime then
    if clientLimit ≤ c.cxnCnt then c
    else { c with connections := c.connections ++ [cxn], cxnCnt := c.cxnCnt + 1 }
  else
    -- a new 30s period starts
    { c with connections := c.connections ++ [cxn], cxnTime := now, cxnCnt := 0 + 1 }

/-- The connections that `cleanup_connections` takes out; `src/client.rs:84–95`. -/
def isClosed (cxn : Connection) : Bool :=
  match cxn.connState with
  | .upDisconnect | .upTimeout | .downDisconnect | .downTimeout | .downEncErr => true
  | .okay => false

/-- A connection is closed unless it is `OKAY`. -/
theorem isClosed_eq_false_iff {cxn : Connection} :
    isClosed cxn = false ↔ cxn.connState = .okay := by
  cases h : cxn.connState <;> simp [isClosed, h]

/-- The removal pass of `cleanup_connections`, `src/client.rs:98–103`: what stays and, in
the order of their removal, the connections taken out. -/
def removeClosed (cxns : List Connection) : Option (List Connection × List Connection) :=
  removeEach (fun _ cxn out ↦ out ++ [cxn]) (positions isClosed cxns).reverse cxns []

/-- The removal pass takes out exactly the closed connections, the last one first. -/
theorem removeClosed_eq (cxns : List Connection) :
    removeClosed cxns =
      some (cxns.filter (fun cxn ↦ !isClosed cxn), (cxns.filter isClosed).reverse) := by
  simpa only [removeClosed, List.map_id] using removeEach_collect id isClosed cxns

/-- `src/client.rs:78–106`: no removal is out of range, so there is no panic to model. -/
def cleanupConnections (c : Client) : List Connection × Client :=
  let removed := (removeClosed c.connections).get (by simp [removeClosed_eq])
  (removed.2, { c with connections := removed.1 })

/-- Cleaning up keeps the open connections in order and returns the closed ones, each
once, from the last to the first. -/
theorem cleanupConnections_eq (c : Client) :
    c.cleanupConnections =
      ((c.connections.filter isClosed).reverse,
        { c with connections := c.connections.filter fun cxn ↦ !isClosed cxn }) := by
  simp only [cleanupConnections, removeClosed_eq, Option.get_some]

/-! ### Polling -/

private theorem pollFrom_eq (ios : Nat → ConnectionIo) (i : Nat) (cxns : List Connection) :
    pollFrom ios i cxns =
      ⟨.ok (), cxns.mapIdx fun j cxn ↦ (cxn.poll (ios (i + j))).state,
        cxns.mapIdx fun j cxn ↦ (i + j, (cxn.poll (ios (i + j))).log)⟩ := by
  induction cxns generalizing i with
  | nil => rfl
  | cons cxn cxns ih =>
    simp only [pollFrom, Connection.poll_result, ih, List.mapIdx_cons, Nat.add_zero]
    simp only [Nat.add_comm, Nat.add_left_comm]

/-- Polling a client polls every connection at its position and never fails. -/
theorem poll_eq (c : Client) (ios : Nat → ConnectionIo) :
    c.poll ios =
      ⟨.ok (), { c with connections := c.connections.mapIdx fun i cxn ↦ (cxn.poll (ios i)).state },
        c.connections.mapIdx fun i cxn ↦ (i, (cxn.poll (ios i)).log)⟩ := by
  simp only [poll, pollFrom_eq, Outcome.lift, Nat.zero_add, List.map_id]

/-! ### The rate limit as a fixed window -/

/-- The limiter inside a client. -/
def window (c : Client) : FixedWindow Int := ⟨c.cxnTime, c.cxnCnt⟩

/-- The client refuses what its window refuses. -/
theorem rateLimitHit_eq_full (c : Client) (timestamp : Int) :
    c.rateLimitHit timestamp = c.window.full clientLimit (periodOf timestamp) := rfl

/-- A refused connection leaves the client as it was. -/
theorem addConnection_of_hit {c : Client} {timestamp : Int} (cxn : Connection)
    (h : c.rateLimitHit timestamp = true) : c.addConnection timestamp cxn = c := by
  simp only [rateLimitHit, Bool.and_eq_true, decide_eq_true_eq] at h
  simp [addConnection, h]

/-- A connection within the limit is appended and counted in the window. -/
theorem addConnection_of_free {c : Client} {timestamp : Int} (cxn : Connection)
    (h : c.rateLimitHit timestamp = false) :
    c.addConnection timestamp cxn =
      { c with
        connections := c.connections ++ [cxn]
        cxnTime := (c.window.grant (periodOf timestamp)).period
        cxnCnt := (c.window.grant (periodOf timestamp)).used } := by
  simp only [rateLimitHit, Bool.and_eq_false_iff, decide_eq_false_iff_not] at h
  by_cases hp : periodOf timestamp = c.cxnTime
  · have hcnt : ¬clientLimit ≤ c.cxnCnt := by simpa [hp] using h
    simp [addConnection, FixedWindow.grant, window, hp, hcnt]
  · simp [addConnection, FixedWindow.grant, window, hp]

/-- Handing over a connection is a request to the window. -/
theorem window_addConnection (c : Client) (timestamp : Int) (cxn : Connection) :
    (c.addConnection timestamp cxn).window = c.window.ask clientLimit (periodOf timestamp) := by
  cases hhit : c.rateLimitHit timestamp with
  | true =>
    rw [addConnection_of_hit cxn hhit, FixedWindow.ask, ← rateLimitHit_eq_full, if_pos hhit]
  | false =>
    rw [addConnection_of_free cxn hhit, FixedWindow.ask, ← rateLimitHit_eq_full,
      if_neg (by simp [hhit])]
    rfl

end Client
end TcpLoadBalancer
