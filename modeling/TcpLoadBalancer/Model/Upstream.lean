import TcpLoadBalancer.Lib.Action
import TcpLoadBalancer.Lib.Positions
import TcpLoadBalancer.Model.Server

/-!
# The upstream server

The test server behind the balancer: it answers PING with PONG and echoes everything else. One
round of its loop takes the streams that wait, serves every stream once and then removes the
streams that failed.
-/

namespace TcpLoadBalancer
open Lib

namespace Upstream

/-- The outcomes for one stream in a pass: the read, and the single writes of `write_all`. -/
structure StreamIo where
  read : Except ErrorKind (Chunk 1024)
  writes : List WriteResult

/-- Write an answer: whether the stream is to be removed, and the bytes it accepted;
`src/bin/upstream.rs:87–103,108–123`. -/
def answer (writes : List WriteResult) (bs : Bytes) : Bool × Bytes :=
  match writeAll writes bs with
  | (accepted, .ok ()) => (false, accepted)
  | (accepted, .error .wouldBlock) => (false, accepted)
  | (accepted, .error _) => (true, accepted)

/-- The service of one stream, `src/bin/upstream.rs:78–135`. -/
def serviceStream (io : StreamIo) : Bool × Bytes :=
  match io.read with
  | .ok buf =>
    if buf.val = pingBytes then answer io.writes pongBytes
    -- the end of the stream, `Ok(0)`, is echoed like any other data
    else answer io.writes buf.val
  | .error .wouldBlock => (false, [])
  | .error _ => (true, [])

/-- What a pass leaves: the streams that stay, the streams taken out in the order of their
removal, and the bytes that each stream accepted. -/
structure Pass where
  streams : List TcpStream
  removed : List TcpStream
  sent : List Bytes
  deriving DecidableEq

/-- One pass, `src/bin/upstream.rs:74–141`, with the outcomes of the stream at each position;
`none` is an index out of range, where the program panics. -/
def servicePass (ios : Nat → StreamIo) (streams : List TcpStream) : Option Pass :=
  let serviced := streams.zipIdx.map fun e ↦ serviceStream (ios e.2)
  let toRemove := positions Prod.fst serviced
  match removeEach (fun _ stream removed ↦ removed ++ [stream]) toRemove.reverse streams [] with
  | none => none
  | some (streams, removed) => some ⟨streams, removed, serviced.map Prod.snd⟩

/-- No index is out of range: the streams that failed leave, from the last to the first, and
the others stay in their order. -/
theorem servicePass_eq (ios : Nat → StreamIo) (streams : List TcpStream) :
    servicePass ios streams =
      some
        { streams := (streams.zipIdx.filter fun e ↦ !(serviceStream (ios e.2)).1).map Prod.fst
          removed :=
            ((streams.zipIdx.filter fun e ↦ (serviceStream (ios e.2)).1).map Prod.fst).reverse
          sent := streams.zipIdx.map fun e ↦ (serviceStream (ios e.2)).2 } := by
  have hpositions : positions Prod.fst (streams.zipIdx.map fun e ↦ serviceStream (ios e.2)) =
      positions (fun e : TcpStream × Nat ↦ (serviceStream (ios e.2)).1) streams.zipIdx := by
    rw [positions, marked_map, List.map_map]
    rfl
  have hremove := removeEach_collect Prod.fst
    (fun e : TcpStream × Nat ↦ (serviceStream (ios e.2)).1) streams.zipIdx
  rw [← hpositions, List.zipIdx_map_fst] at hremove
  simp only [servicePass, hremove, List.map_map]
  rfl

/-! ### Rounds -/

/-- One answer of `listener.incoming()`: a fresh stream with the outcomes of its socket options,
or an error. -/
inductive Incoming where
  | stream (s : TcpStream) (options : SocketOptions)
  | failed (kind : ErrorKind)

/-- What the server does: it takes a stream, serves the one at a position, or removes one. A
service reports what was read, if anything, and what the stream accepted. -/
inductive ServerEvent where
  | accepted (stream : TcpStream)
  | served (i : Nat) (read : Option Bytes) (sent : Bytes)
  | removed (stream : TcpStream)
  deriving DecidableEq

/-- The bytes that were read. -/
def StreamIo.received (io : StreamIo) : Option Bytes :=
  match io.read with
  | .ok buf => some buf.val
  | .error _ => none

/-- `src/bin/upstream.rs:48–72`. An error of the listener is logged and the loop goes on; one of
a socket option ends the program. -/
def acceptStreams : List Incoming → Action Error (List TcpStream) ServerEvent
  | [], streams => .done streams
  | .failed .wouldBlock :: _, streams => .done streams
  | .failed _ :: rest, streams => acceptStreams rest streams
  | .stream s options :: rest, streams =>
    match options.set with
    | .error e => ⟨.error e, streams, []⟩
    | .ok () =>
      let r := acceptStreams rest (streams ++ [s])
      ⟨r.result, r.state, .accepted s :: r.log⟩

/-- `src/bin/upstream.rs:74–141`: no index is out of range, so there is no panic to model. -/
def serviceStreams (ios : Nat → StreamIo) : Action Error (List TcpStream) ServerEvent :=
  fun streams ↦
    let pass := (servicePass ios streams).get (by rw [servicePass_eq]; rfl)
    ⟨.ok (), pass.streams,
      pass.sent.mapIdx (fun i sent ↦ .served i (ios i).received sent) ++
        pass.removed.map .removed⟩

/-- Everything the system answers during one round. -/
structure ServerIo where
  incoming : List Incoming
  streams : Nat → StreamIo

/-- One round of the loop, `src/bin/upstream.rs:46–144`. -/
def round (io : ServerIo) : Action Error (List TcpStream) ServerEvent :=
  (acceptStreams io.incoming).andThen (serviceStreams io.streams)

/-- The loop of `main`, which ends with the first error. -/
def serve : List ServerIo → Action Error (List TcpStream) ServerEvent := Action.forEach round

end Upstream
end TcpLoadBalancer
