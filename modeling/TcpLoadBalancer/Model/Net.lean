import TcpLoadBalancer.Lib.ByteIo

/-!
# Sockets, TLS sessions and certificates

What the balancer sees of the network. A socket is a descriptor with the address of its
peer; every outcome of a call on it is an input of the model. A TLS session shows whether
it is still handshaking and which certificate chain its peer presented; a read on it may
leave any other session behind. Address syntax and certificate decoding come from outside
the repository and are parameters (`Externals`).
-/

namespace TcpLoadBalancer
open Lib

/-- The errors that `Box<dyn std::error::Error>` carries here. -/
inductive Error where
  | io (kind : ErrorKind)
  | message (text : String)
  deriving DecidableEq, Repr

/-- `std::net::SocketAddr`. -/
structure SocketAddr where
  ip : List UInt8
  port : UInt16
  deriving DecidableEq, Repr

/-- `std::net::TcpStream`: a descriptor and the address of the other end. -/
structure TcpStream where
  fd : Nat
  peer : SocketAddr
  deriving DecidableEq, Repr

/-- A peer's certificate chain in DER; it has an end-entity certificate. -/
structure CertChain where
  endEntity : Bytes
  issuers : List Bytes
  deriving DecidableEq, Repr

/-- What `rustls::ServerConnection` shows of a session. -/
structure ServerConnection where
  isHandshaking : Bool
  peerCertificates : Option CertChain
  deriving DecidableEq, Repr

/-- Pure functions from outside the repository: `X509Certificate::from_der` with the texts
of the subject's email attributes, and the syntax of socket addresses. -/
structure Externals where
  fromDer : Bytes → Except Error (List (Except Error String))
  parseAddr : String → Except Error SocketAddr

/-- The answers of the four calls that set up a fresh stream: `set_read_timeout`,
`set_write_timeout`, `set_nonblocking` and `set_nodelay`. -/
structure SocketOptions where
  readTimeout : Except ErrorKind Unit := .ok ()
  writeTimeout : Except ErrorKind Unit := .ok ()
  nonblocking : Except ErrorKind Unit := .ok ()
  nodelay : Except ErrorKind Unit := .ok ()

/-- The four calls in order, each under `?`; `src/lib.rs:61–64`, `src/client.rs:345–348`,
`src/server.rs:443–446`. -/
def SocketOptions.set (o : SocketOptions) : Except Error Unit :=
  match o.readTimeout, o.writeTimeout, o.nonblocking, o.nodelay with
  | .error k, _, _, _ => .error (.io k)
  | .ok (), .error k, _, _ => .error (.io k)
  | .ok (), .ok (), .error k, _ => .error (.io k)
  | .ok (), .ok (), .ok (), .error k => .error (.io k)
  | .ok (), .ok (), .ok (), .ok () => .ok ()

/-- `TcpStream::connect_timeout(&addr.parse()?, ..)?`; `src/client.rs:344`. The descriptor
of a connected socket comes from the system, its peer is the parsed address. -/
def connectUpstream (x : Externals) (addr : String) (connect : Except ErrorKind Nat) :
    Except Error TcpStream :=
  match x.parseAddr addr with
  | .error e => .error e
  | .ok sockAddr =>
    match connect with
    | .error k => .error (.io k)
    | .ok fd => .ok ⟨fd, sockAddr⟩

/-- The first email attribute of a certificate's subject; `src/client.rs:302–311`. -/
def extractEmailFromCert (x : Externals) (cert : Bytes) : Except Error String :=
  match x.fromDer cert with
  | .error e => .error e
  | .ok [] => .error (.message "No email address found")
  | .ok (email :: _) => email

/-- A connected stream leads to the address it was opened to. -/
theorem connectUpstream_peer {x : Externals} {addr : String} {connect : Except ErrorKind Nat}
    {stream : TcpStream} (h : connectUpstream x addr connect = .ok stream) :
    x.parseAddr addr = .ok stream.peer := by
  unfold connectUpstream at h
  cases hp : x.parseAddr addr with
  | error e => simp [hp] at h
  | ok sockAddr =>
    cases connect with
    | error k => simp [hp] at h
    | ok fd =>
      simp only [hp, Except.ok.injEq] at h
      rw [← h]

/-- Every certificate is the first client's, and every address the first server's. -/
def firstClient : Externals :=
  ⟨fun _ ↦ .ok [.ok "first@first.com"], fun _ ↦ .ok ⟨[127, 0, 0, 1], 2500⟩⟩

end TcpLoadBalancer
