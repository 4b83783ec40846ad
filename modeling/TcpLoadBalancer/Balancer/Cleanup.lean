import TcpLoadBalancer.Model.Client

/-!
# Cleaning up the connections of a client

`cleanup_connections` records positions and removes them from a vector that shifts with every
removal. What it leaves and what it returns are nevertheless the two halves of the list: the
`OKAY` connections, in their order, and those in a terminal state, in the reverse order.
-/

namespace TcpLoadBalancer
open Lib

namespace ConnState

/-- The states that end a connection, `src/client.rs:86–90`. -/
def terminal : List ConnState :=
  [.upDisconnect, .upTimeout, .downDisconnect, .downTimeout, .downEncErr]

end ConnState

namespace Client

/-- Cleaning up `c` leaves `after` and returns `out`: no removal is out of range, the `OKAY`
connections stay in their order, the others are returned from the last to the first, and the
rest of the client is as it was. -/
structure CleanedUp (c : Client) (out : List Connection) (after : Client) : Prop where
  inRange : removeClosed c.connections = some (after.connections, out)
  kept : after.connections = c.connections.filter fun cxn ↦ cxn.connState = .okay
  returned : out = (c.connections.filter fun cxn ↦ cxn.connState ∈ ConnState.terminal).reverse
  once : (after.connections ++ out).Perm c.connections
  email : after.email = c.email
  cxnTime : after.cxnTime = c.cxnTime
  cxnCnt : after.cxnCnt = c.cxnCnt
  allowedServerGroup : after.allowedServerGroup = c.allowedServerGroup

/-- The connections taken out are those in a terminal state. -/
theorem isClosed_eq_terminal (cxn : Connection) :
    isClosed cxn = decide (cxn.connState ∈ ConnState.terminal) := by
  cases h : cxn.connState <;> simp [isClosed, h, ConnState.terminal]

/-- The connections that stay are `OKAY`. -/
theorem not_isClosed_eq_okay (cxn : Connection) :
    (!isClosed cxn) = decide (cxn.connState = .okay) := by
  rw [Bool.eq_iff_iff, Bool.not_eq_true', isClosed_eq_false_iff, decide_eq_true_eq]

/-- For every list of connections, `cleanup_connections` splits it into what it leaves and what
it returns. -/
theorem cleanup_partitions (c : Client) :
    CleanedUp c c.cleanupConnections.1 c.cleanupConnections.2 := by
  have hterminal : isClosed = fun cxn ↦ decide (cxn.connState ∈ ConnState.terminal) := by
    ext cxn
    rw [isClosed_eq_terminal]
  rw [cleanupConnections_eq]
  constructor
  · exact removeClosed_eq c.connections
  · simp only [not_isClosed_eq_okay]
  · simp only [hterminal]
  · -- the halves of the filter, the closed one turned round
    have hsplit := List.filter_append_perm isClosed c.connections
    have hreverse := List.reverse_perm (c.connections.filter isClosed)
    apply (hreverse.append_left _).trans
    exact List.perm_append_comm.trans hsplit
  all_goals rfl

/-- The states of `test_client_cleanup`, `src/client.rs:108–154`. -/
example :
    let states := [.okay, .okay, .okay, .upDisconnect, .upTimeout, .downDisconnect, .downTimeout,
      .downEncErr]
    let stream : TcpStream := ⟨3, ⟨[127, 0, 0, 1], 25014⟩⟩
    let c : Client := { Client.new "" 0 with
      connections := states.map fun s ↦ ⟨stream, stream, ⟨true, none⟩, s, 0, 0⟩ }
    c.cleanupConnections.1.length = 5 ∧ c.cleanupConnections.2.connections.length = 3 := by
  decide

/-- Cleaning up twice is cleaning up once. -/
theorem cleanup_cleaned (c : Client) :
    c.cleanupConnections.2.cleanupConnections = ([], c.cleanupConnections.2) := by
  have hnone : (c.connections.filter fun cxn ↦ !isClosed cxn).filter isClosed = [] := by
    apply List.filter_eq_nil_iff.mpr
    intro cxn hcxn
    have hopen := (List.mem_filter.mp hcxn).2
    rw [Bool.not_eq_true'] at hopen
    rw [hopen]
    exact Bool.false_ne_true
  simp only [cleanupConnections_eq, hnone, List.reverse_nil, List.filter_filter, Bool.and_self]

end Client
end TcpLoadBalancer
