import TcpLoadBalancer.Model.Client
import TcpLoadBalancer.Relay.Handoff

/-!
# The life of a client's stream

For the balancer a stream is first a partial connection, then a connection in the list of its
client, and then it is gone. Each turn of the balancer for the stream is one of five: a poll of
either kind, a refused admission, an admission that opens an upstream connection, and the
removal of a closed connection.
-/

namespace TcpLoadBalancer
open Lib Transfer

/-- The balancer's end of a client's stream. -/
inductive Endpoint where
  | handshaking (pc : PartialConnection)
  | relaying (cxn : Connection)
  deriving DecidableEq

/-- A turn of the balancer for one stream. An admission may end before an upstream server is
chosen, and a connection that is opened may be over the rate limit of its client. -/
inductive EndpointIo where
  | handshake (io : PartialIo)
  | refusal
  | admission (group server : UInt32) (addr : String) (dial : DialIo) (placed : Bool)
  | relay (io : ConnectionIo)
  | removal

namespace Endpoint

/-- What the admission of a partial connection leaves of its stream. -/
def admitted (x : Externals) (pc : PartialConnection) (group server : UInt32) (addr : String)
    (dial : DialIo) (placed : Bool) : Option Endpoint :=
  match Connection.fromPartialConnection x pc group server addr dial with
  | .ok cxn => if placed then some (relaying cxn) else none
  | .error _ => none

/-- A turn: what it leaves of the stream, and its traffic. It is `none` when the stream is in
another place. -/
def turn (x : Externals) :
    Endpoint → EndpointIo → Option (Option Endpoint × List (Transfer Direction))
  | handshaking pc, .handshake io =>
    let r := pc.poll x io
    some (some (handshaking r.state), r.log.map (Transfer.received Direction.up))
  | handshaking pc, .refusal => if pc.isCompleted then some (none, []) else none
  | handshaking pc, .admission group server addr dial placed =>
    if pc.isCompleted then some (admitted x pc group server addr dial placed, []) else none
  | relaying cxn, .relay io =>
    let r := cxn.poll io
    some (some (relaying r.state), r.log)
  | relaying cxn, .removal => if Client.isClosed cxn then some (none, []) else none
  | _, _ => none

/-- Bytes can still pass. -/
def isOpen : Option Endpoint → Bool
  | some (handshaking _) => true
  | some (relaying cxn) => cxn.connState == .okay
  | none => false

/-- The turn takes bytes that it does not pass on, and the stream stays open: it reads
application data during the handshake, or a write blocks. -/
def cuts : Endpoint → EndpointIo → Bool
  | handshaking pc, .handshake io => pc.readsAppData io
  | relaying cxn, .relay io => cxn.connState == .okay && io.blocks
  | _, _ => false

end Endpoint

/-! ### Traffic -/

namespace Connection

/-- A closed connection is left alone. -/
theorem poll_of_not_okay {cxn : Connection} (h : cxn.connState ≠ .okay) (io : ConnectionIo) :
    cxn.poll io = ⟨.ok (), cxn, []⟩ := by
  unfold poll
  split
  · next hokay => exact absurd hokay h
  · rfl

/-- A half sends on bytes that it received, in their order. -/
theorem relayHalf_sublist (d d' : Direction) (readEnd writeEnd nextState : ConnState)
    (read : Except ErrorKind (Chunk 2048)) (writes : List WriteResult) :
    (allSent d' (relayHalf d readEnd writeEnd read writes nextState).2).Sublist
      (allReceived d' (relayHalf d readEnd writeEnd read writes nextState).2) := by
  rcases relayHalf_cases d readEnd writeEnd nextState read writes with
    ⟨he, -⟩ | ⟨he, -⟩ | ⟨buf, -, he, -⟩
  · rw [he]
    exact List.nil_sublist _
  · rw [he]
    exact List.nil_sublist _
  · rw [he]
    by_cases hd : d = d'
    · simpa [allSent, allReceived, sentIn, receivedIn, hd] using
        (writeAll_start writes buf.val).sublist
    · simp [allSent, allReceived, sentIn, receivedIn, hd]

/-- A poll sends on bytes that it received in the same direction, in their order. -/
theorem poll_sublist (d : Direction) (cxn : Connection) (io : ConnectionIo) :
    (allSent d (cxn.poll io).log).Sublist (allReceived d (cxn.poll io).log) := by
  by_cases hokay : cxn.connState = .okay
  · rw [poll_log_of_okay hokay, allSent_append, allReceived_append]
    exact (relayHalf_sublist _ _ _ _ _ _ _).append (relayHalf_sublist _ _ _ _ _ _ _)
  · rw [poll_of_not_okay hokay]
    exact List.nil_sublist _

end Connection

/-- The handshake sends nothing on. -/
theorem PartialConnection.poll_sends_nothing (d : Direction) (chunks : List Bytes) :
    allSent d (chunks.map (received Direction.up)) = [] := by
  rw [allSent, List.flatMap_map]
  exact List.flatMap_eq_nil_iff.mpr fun _ _ ↦ rfl

/-- A turn sends on bytes that it received in the same direction, in their order. -/
theorem Endpoint.turn_sublist {x : Externals} {before : Endpoint} {io : EndpointIo}
    {after : Option Endpoint} {log : List (Transfer Direction)}
    (h : before.turn x io = some (after, log)) (d : Direction) :
    (allSent d log).Sublist (allReceived d log) := by
  unfold Endpoint.turn at h
  split at h
  · obtain ⟨-, rfl⟩ := Prod.mk.inj (Option.some.inj h)
    rw [PartialConnection.poll_sends_nothing]
    exact List.nil_sublist _
  · split at h
    · obtain ⟨-, rfl⟩ := Prod.mk.inj (Option.some.inj h)
      exact List.nil_sublist _
    · cases h
  · split at h
    · obtain ⟨-, rfl⟩ := Prod.mk.inj (Option.some.inj h)
      exact List.nil_sublist _
    · cases h
  · obtain ⟨-, rfl⟩ := Prod.mk.inj (Option.some.inj h)
    exact Connection.poll_sublist d _ _
  · split at h
    · obtain ⟨-, rfl⟩ := Prod.mk.inj (Option.some.inj h)
      exact List.nil_sublist _
    · cases h
  · cases h

end TcpLoadBalancer
