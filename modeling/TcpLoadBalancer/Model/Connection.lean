import TcpLoadBalancer.Lib.Action
import TcpLoadBalancer.Model.Net

/-!
# Client connections

`PartialConnection` runs the TLS handshake of an accepted stream and reads the client's
identity from its certificate; `Connection` relays plaintext between a client and its
upstream server. Both are polled, and both keep the outcome of a poll in their state:
neither poll ever returns an error.
-/

namespace TcpLoadBalancer
open Lib

/-- `src/client.rs:190`. -/
inductive PartialConnState where
  | init
  | completed
  | error
  deriving DecidableEq, Repr

/-- `src/client.rs:199`. -/
structure PartialConnection where
  downStream : TcpStream
  tlsConn : ServerConnection
  state : PartialConnState
  emailAddress : Option String
  deriving DecidableEq, Repr

/-- The outcomes of one poll of a partial connection: the answer of `tls_stream.read` and
the session it leaves behind. -/
structure PartialIo where
  read : Except ErrorKind (Chunk 2048)
  session : ServerConnection

namespace PartialConnection

/-- `src/client.rs:210`. -/
def new (downStream : TcpStream) (tlsConn : ServerConnection) : PartialConnection :=
  ⟨downStream, tlsConn, .init, none⟩

/-- `src/client.rs:215–289`. The log holds the application bytes the read returned. -/
def poll (x : Externals) (pc : PartialConnection) (io : PartialIo) :
    Outcome Error PartialConnection Bytes :=
  match pc.state with
  | .init =>
    if pc.tlsConn.isHandshaking then
      match io.read with
      | .ok buf =>
        -- The bytes stay in the local buffer of this call.
        if buf.val.length = 0 then
          ⟨.ok (), { pc with tlsConn := io.session, state := .error }, [buf.val]⟩
        else ⟨.ok (), { pc with tlsConn := io.session }, [buf.val]⟩
      | .error .wouldBlock => ⟨.ok (), { pc with tlsConn := io.session }, []⟩
      | .error _ => ⟨.ok (), { pc with tlsConn := io.session, state := .error }, []⟩
    else
      match pc.tlsConn.peerCertificates with
      | some certs =>
        match extractEmailFromCert x certs.endEntity with
        | .ok email => ⟨.ok (), { pc with emailAddress := some email, state := .completed }, []⟩
        | .error _ => ⟨.ok (), { pc with state := .error }, []⟩
      | none => ⟨.ok (), { pc with state := .error }, []⟩
  | .completed => ⟨.ok (), pc, []⟩
  | .error => ⟨.ok (), pc, []⟩

/-- `src/client.rs:291`. -/
def isCompleted (pc : PartialConnection) : Bool := pc.state == .completed

/-- `src/client.rs:296`. -/
def clientId (pc : PartialConnection) : Option String := pc.emailAddress

/-- A poll never returns an error: failures are kept in the state. -/
theorem poll_result (x : Externals) (pc : PartialConnection) (io : PartialIo) :
    (pc.poll x io).result = .ok () := by
  unfold poll
  repeat' split
  all_goals rfl

end PartialConnection

/-- `src/client.rs:314`. -/
inductive ConnState where
  | okay
  | upDisconnect
  | upTimeout
  | downDisconnect
  | downTimeout
  | downEncErr
  deriving DecidableEq, Repr

/-- `src/client.rs:324`. -/
structure Connection where
  downStream : TcpStream
  upStream : TcpStream
  tlsConn : ServerConnection
  connState : ConnState
  upstreamServGroup : UInt32
  upstreamServId : UInt32
  deriving DecidableEq, Repr

/-- The two directions of a relay: from the client to the upstream server and back. -/
inductive Direction where
  | up
  | down
  deriving DecidableEq, Repr

/-- The outcomes of one poll of a connection: the reads on the TLS stream and on the
upstream socket, the single writes of the two `write_all` calls, and the session left. -/
structure ConnectionIo where
  downRead : Except ErrorKind (Chunk 2048)
  upWrites : List WriteResult
  upRead : Except ErrorKind (Chunk 2048)
  downWrites : List WriteResult
  session : ServerConnection

/-- The outcomes of opening an upstream connection: connecting and setting the options. -/
structure DialIo where
  connect : Except ErrorKind Nat
  options : SocketOptions

namespace Connection

/-- `src/client.rs:336`. -/
def new (downStream upStream : TcpStream) (tlsConn : ServerConnection)
    (upstreamServGroup upstreamServId : UInt32) : Except Error Connection :=
  .ok ⟨downStream, upStream, tlsConn, .okay, upstreamServGroup, upstreamServId⟩

/-- `src/client.rs:341–351`. -/
def fromPartialConnection (x : Externals) (partialCxn : PartialConnection)
    (upstreamServGroup upstreamServId : UInt32) (upStreamAddr : String) (io : DialIo) :
    Except Error Connection :=
  match connectUpstream x upStreamAddr io.connect with
  | .error e => .error e
  | .ok upStream =>
    match io.options.set with
    | .error e => .error e
    | .ok () =>
      new partialCxn.downStream upStream partialCxn.tlsConn upstreamServGroup upstreamServId

/-- `src/client.rs:353`. -/
def getUpstreamServerGroup (c : Connection) : UInt32 := c.upstreamServGroup

/-- `src/client.rs:358`. -/
def getUpstreamServerId (c : Connection) : UInt32 := c.upstreamServId

/-- One half of a poll: read from the source of a direction and write what came to its
destination. `readEnd` is the state after the source closed or failed, `writeEnd` the one
after the destination failed; the next state given is kept otherwise. -/
def relayHalf (d : Direction) (readEnd writeEnd : ConnState)
    (read : Except ErrorKind (Chunk 2048)) (writes : List WriteResult) (nextState : ConnState) :
    ConnState × List (Transfer Direction) :=
  match read with
  | .ok buf =>
    if buf.val.length = 0 then (readEnd, [])
    else
      match writeAll writes buf.val with
      | (accepted, .ok ()) => (nextState, [.received d buf.val, .sent d accepted])
      -- "wait for next poll": the buffer is a local of this call
      | (accepted, .error .wouldBlock) => (nextState, [.received d buf.val, .sent d accepted])
      | (accepted, .error _) => (writeEnd, [.received d buf.val, .sent d accepted])
  | .error .wouldBlock => (nextState, [])
  | .error _ => (readEnd, [])

/-- `src/client.rs:375–417`: from the TLS stream to the upstream socket. -/
def relayUp (io : ConnectionIo) (nextState : ConnState) :
    ConnState × List (Transfer Direction) :=
  relayHalf .up .downDisconnect .upDisconnect io.downRead io.upWrites nextState

/-- `src/client.rs:419–461`: from the upstream socket to the TLS stream. -/
def relayDown (io : ConnectionIo) (nextState : ConnState) :
    ConnState × List (Transfer Direction) :=
  relayHalf .down .upDisconnect .downDisconnect io.upRead io.downWrites nextState

/-- `src/client.rs:363–475`. The second half runs whatever the first one met, and its
verdict overwrites the first one's. -/
def poll (c : Connection) (io : ConnectionIo) : Outcome Error Connection (Transfer Direction) :=
  match c.connState with
  | .okay =>
    let up := relayUp io .okay
    let down := relayDown io up.1
    ⟨.ok (), { c with tlsConn := io.session, connState := down.1 }, up.2 ++ down.2⟩
  | _ => ⟨.ok (), c, []⟩

/-- A poll never returns an error: failures are kept in the state. -/
theorem poll_result (c : Connection) (io : ConnectionIo) : (c.poll io).result = .ok () := by
  unfold poll
  split <;> rfl

/-- What a conversion builds: the client stream and session of the partial connection next
to a fresh stream to the given address. -/
theorem fromPartialConnection_eq {x : Externals} {pc : PartialConnection} {group server : UInt32}
    {addr : String} {dial : DialIo} {cxn : Connection}
    (h : fromPartialConnection x pc group server addr dial = .ok cxn) :
    ∃ upStream, connectUpstream x addr dial.connect = .ok upStream ∧
      dial.options.set = .ok () ∧
      cxn = ⟨pc.downStream, upStream, pc.tlsConn, .okay, group, server⟩ := by
  unfold fromPartialConnection at h
  cases hc : connectUpstream x addr dial.connect with
  | error e => simp [hc] at h
  | ok upStream =>
    cases ho : dial.options.set with
    | error e => simp [hc, ho] at h
    | ok u =>
      simp only [hc, ho, new, Except.ok.injEq] at h
      exact ⟨upStream, rfl, rfl, h.symm⟩

/-- A poll changes the session and the state of a connection only. -/
theorem poll_fixed (c : Connection) (io : ConnectionIo) :
    ∃ session connState,
      (c.poll io).state = { c with tlsConn := session, connState := connState } := by
  unfold poll
  split
  · exact ⟨_, _, rfl⟩
  · exact ⟨c.tlsConn, c.connState, rfl⟩

end Connection
end TcpLoadBalancer
