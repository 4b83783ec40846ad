import TcpLoadBalancer.Lib.Channel
import TcpLoadBalancer.Lib.Turns
import TcpLoadBalancer.Model.TestClient
import TcpLoadBalancer.Relay.Endpoint
import TcpLoadBalancer.Upstream.Service

/-!
# From the test client to the upstream server and back

One session of the whole system: the test client, the balancer's end of its stream and the
upstream server that echoes. They take turns in any order; between them are four byte channels
that may split and join what is written in any way.
-/

namespace TcpLoadBalancer
open Lib

/-- The test client, the balancer's end of its stream, whether the upstream server has removed
its own, and the channels: what the balancer reads from in each direction, and what it writes
to. -/
structure EchoSession where
  client : TestClient
  endpoint : Option Endpoint
  removed : Bool
  source : Direction → Channel UInt8
  sink : Direction → Channel UInt8

/-- A turn of the client, of the balancer, or of the upstream server. -/
inductive EchoIo where
  | client (io : TestClientIo)
  | balancer (io : EndpointIo)
  | server (io : Upstream.StreamIo)

namespace EchoSession

/-- The stream was just accepted. -/
def new (stream : TcpStream) (session : ServerConnection) : EchoSession :=
  ⟨.new, some (.handshaking (.new stream session)), false, fun _ ↦ .empty, fun _ ↦ .empty⟩

/-- Bytes go into the channel from which the balancer reads a direction. -/
def sendSource (s : EchoSession) (d : Direction) (bytes : Bytes) : EchoSession :=
  { s with source := Function.update s.source d ((s.source d).send bytes) }

/-- Bytes go into the channel to which the balancer writes a direction. -/
def sendSink (s : EchoSession) (d : Direction) (bytes : Bytes) : EchoSession :=
  { s with sink := Function.update s.sink d ((s.sink d).send bytes) }

/-- Bytes are read by the balancer. -/
def receiveSource (s : EchoSession) (d : Direction) (bytes : Bytes) : Option EchoSession :=
  ((s.source d).receive bytes).map fun c ↦ { s with source := Function.update s.source d c }

/-- Bytes are read by the client or by the server. -/
def receiveSink (s : EchoSession) (d : Direction) (bytes : Bytes) : Option EchoSession :=
  ((s.sink d).receive bytes).map fun c ↦ { s with sink := Function.update s.sink d c }

/-- What the client does to its channels. -/
def clientTransfer (s : EchoSession) : Transfer Direction → Option EchoSession
  | .received d bytes => s.receiveSink d bytes
  | .sent d bytes => some (s.sendSource d bytes)

/-- What the balancer does to the channels. -/
def balancerTransfer (s : EchoSession) : Transfer Direction → Option EchoSession
  | .received d bytes => s.receiveSource d bytes
  | .sent d bytes => some (s.sendSink d bytes)

/-- The client's turn. -/
def act (s : EchoSession) (io : TestClientIo) : Option EchoSession :=
  let r := s.client.step io
  r.log.foldlM clientTransfer { s with client := r.state }

/-- The balancer's turn. -/
def balance (x : Externals) (s : EchoSession) (io : EndpointIo) : Option EchoSession :=
  match s.endpoint.bind fun endpoint ↦ endpoint.turn x io with
  | none => none
  | some (endpoint, log) => log.foldlM balancerTransfer { s with endpoint }

/-- An upstream connection may have been opened. -/
def dialled (s : EchoSession) : Bool :=
  match s.endpoint with
  | some (.handshaking _) => false
  | _ => true

/-- The server's turn: the service of the stream in a pass, as long as it is not removed. -/
def serve (s : EchoSession) (io : Upstream.StreamIo) : Option EchoSession :=
  if s.dialled && !s.removed then
    let served := Upstream.serviceStream io
    match io.read with
    | .ok buf =>
      (receiveSink { s with removed := served.1 } .up buf.val).map fun s ↦
        s.sendSource .down served.2
    | .error _ => some { s with removed := served.1 }
  else none

/-- A turn; `none` when it does not fit the session. -/
def step (x : Externals) (s : EchoSession) : EchoIo → Option EchoSession
  | .client io => s.act io
  | .balancer io => s.balance x io
  | .server io => s.serve io

/-- A run of turns. -/
def run (x : Externals) (s : EchoSession) (ios : List EchoIo) : Option EchoSession :=
  Turns.run (step x) s ios

/-! ### The balancer's turn -/

/-- What a turn of the balancer does to the channels: a hop in each direction. -/
structure Passes (whole : Prop) (s s' : EchoSession) : Prop where
  hops : ∀ d, Channel.Hop whole (s.source d) (s.sink d) (s'.source d) (s'.sink d)
  client : s'.client = s.client
  removed : s'.removed = s.removed
  endpoint : s'.endpoint = s.endpoint

/-- What one half of a turn does: a hop in one direction. -/
structure PassesIn (d : Direction) (whole : Prop) (s s' : EchoSession) : Prop
    extends Passes whole s s' where
  others : ∀ d' ≠ d, s'.source d' = s.source d' ∧ s'.sink d' = s.sink d'

/-- A half without traffic. -/
theorem passes_idle (d : Direction) (whole : Prop) (s : EchoSession) : PassesIn d whole s s :=
  ⟨⟨fun _ ↦ Channel.hop_idle _ _ _, rfl, rfl, rfl⟩, fun _ _ ↦ ⟨rfl, rfl⟩⟩

/-- Bytes are read, and the start of them is written on in the same direction. -/
theorem passes_of_receive {s : EchoSession} {d : Direction} {bytes kept : Bytes} {whole : Prop}
    {c : Channel UInt8} (hreceive : (s.source d).receive bytes = some c) (hkept : kept <+: bytes)
    (hwhole : whole → kept = bytes) :
    PassesIn d whole s
      { s with
        source := Function.update s.source d c
        sink := Function.update s.sink d ((s.sink d).send kept) } where
  hops d' := by
    by_cases hd : d' = d
    · subst hd
      refine ⟨bytes, kept, ?_, ?_, hkept, hwhole⟩
      · simpa using hreceive
      · simp
    · simpa [hd] using Channel.hop_idle whole (s.source d') (s.sink d')
  client := rfl
  removed := rfl
  endpoint := rfl
  others d' hd := by simp [hd]

/-- Two halves in different directions are a turn. -/
theorem PassesIn.and {whole : Prop} {s mid s' : EchoSession} (hup : PassesIn .up whole s mid)
    (hdown : PassesIn .down whole mid s') : Passes whole s s' where
  hops d := by
    cases d with
    | up =>
      obtain ⟨hsource, hsink⟩ := hdown.others .up (by decide)
      rw [hsource, hsink]
      exact hup.hops .up
    | down =>
      obtain ⟨hsource, hsink⟩ := hup.others .down (by decide)
      rw [← hsource, ← hsink]
      exact hdown.hops .down
  client := hdown.client.trans hup.client
  removed := hdown.removed.trans hup.removed
  endpoint := hdown.endpoint.trans hup.endpoint

/-- One half of a poll is a hop; it drops nothing unless it fails or blocks. -/
theorem half_passes {d : Direction} {readEnd writeEnd nextState : ConnState}
    {read : Except ErrorKind (Chunk 2048)} {writes : List WriteResult} {whole : Prop}
    {s s' : EchoSession}
    (h : (Connection.relayHalf d readEnd writeEnd read writes nextState).2.foldlM
      balancerTransfer s = some s')
    (hwhole : whole → halfFatal read writes = false ∧ halfBlocks read writes = false) :
    PassesIn d whole s s' := by
  rcases Connection.relayHalf_cases d readEnd writeEnd nextState read writes with
    ⟨he, -⟩ | ⟨he, -⟩ | ⟨buf, -, he, hwritten⟩
  · rw [he] at h
    obtain rfl := Option.some.inj h
    exact passes_idle d _ s
  · rw [he] at h
    obtain rfl := Option.some.inj h
    exact passes_idle d _ s
  · rw [he] at h
    simp only [List.foldlM_cons, List.foldlM_nil, balancerTransfer, receiveSource] at h
    obtain ⟨mid, hreceived, hsent⟩ := Option.bind_eq_some_iff.mp h
    obtain ⟨c, hreceive, rfl⟩ := Option.map_eq_some_iff.mp hreceived
    obtain rfl := Option.some.inj hsent
    refine passes_of_receive hreceive (writeAll_start writes buf.val) fun h ↦ ?_
    obtain ⟨hfatal, hblocks⟩ := hwhole h
    rcases hwritten with ⟨hok, -⟩ | ⟨-, -, hb, -⟩ | ⟨hf, -⟩
    · exact writeAll_ok hok
    · simp [hblocks] at hb
    · simp [hfatal] at hf

/-- A poll of an open connection is a turn; it drops nothing unless it fails or blocks. -/
theorem relay_passes {cxn : Connection} {io : ConnectionIo} {s s' : EchoSession}
    (hokay : cxn.connState = .okay) (h : (cxn.poll io).log.foldlM balancerTransfer s = some s') :
    Passes (io.fatal = false ∧ io.blocks = false) s s' := by
  rw [Connection.poll_log_of_okay hokay, List.foldlM_append] at h
  obtain ⟨mid, hup, hdown⟩ := Option.bind_eq_some_iff.mp h
  have hboth : io.fatal = false ∧ io.blocks = false →
      (halfFatal io.downRead io.upWrites = false ∧ halfFatal io.upRead io.downWrites = false) ∧
        halfBlocks io.downRead io.upWrites = false ∧
          halfBlocks io.upRead io.downWrites = false := by
    simp [ConnectionIo.fatal, ConnectionIo.blocks]
  exact (half_passes hup fun h ↦ ⟨(hboth h).1.1, (hboth h).2.1⟩).and <|
    half_passes hdown fun h ↦ ⟨(hboth h).1.2, (hboth h).2.2⟩

/-- A poll of a partial connection reads at most once. -/
theorem handshake_log_cases (x : Externals) (pc : PartialConnection) (io : PartialIo) :
    (pc.poll x io).log = [] ∨ ∃ bytes, (pc.poll x io).log = [bytes] := by
  unfold PartialConnection.poll
  split
  · split
    · split
      · split
        · exact .inr ⟨_, rfl⟩
        · exact .inr ⟨_, rfl⟩
      · exact .inl rfl
      · exact .inl rfl
    · split
      · split
        · exact .inl rfl
        · exact .inl rfl
      · exact .inl rfl
  · exact .inl rfl
  · exact .inl rfl

/-- A poll of a partial connection writes nothing on; it drops nothing unless it reads
application data. -/
theorem handshake_passes {x : Externals} {pc : PartialConnection} {io : PartialIo}
    {s s' : EchoSession}
    (h : ((pc.poll x io).log.map (Transfer.received Direction.up)).foldlM balancerTransfer s =
      some s') :
    Passes (pc.readsAppData io = false) s s' := by
  have hdata := PartialConnection.poll_log_flatten_eq_nil_iff x pc io
  rcases handshake_log_cases x pc io with hlog | ⟨bytes, hlog⟩
  · rw [hlog] at h
    obtain rfl := Option.some.inj h
    exact (passes_idle .up _ s).toPasses
  · rw [hlog] at h hdata
    simp only [List.map_cons, List.map_nil, List.foldlM_cons, List.foldlM_nil, balancerTransfer,
      receiveSource] at h
    obtain ⟨mid, hreceived, hdone⟩ := Option.bind_eq_some_iff.mp h
    obtain ⟨c, hreceive, rfl⟩ := Option.map_eq_some_iff.mp hreceived
    obtain rfl := Option.some.inj hdone
    have hpass : PassesIn .up (pc.readsAppData io = false) s _ :=
      passes_of_receive hreceive List.nil_prefix fun hnone ↦ by
        simpa using (hdata.mpr hnone).symm
    simpa using hpass.toPasses

/-- A turn of an open stream is a hop in each direction; it drops nothing if it cuts nothing and
the stream stays open. -/
theorem turn_passes {x : Externals} {s s' : EchoSession} {io : EndpointIo} {before : Endpoint}
    {endpoint : Option Endpoint} {log : List (Transfer Direction)}
    (hopen : Endpoint.isOpen (some before) = true)
    (hturn : before.turn x io = some (endpoint, log))
    (h : log.foldlM balancerTransfer { s with endpoint } = some s') :
    Passes (Endpoint.isOpen endpoint = true ∧ before.cuts io = false) { s with endpoint } s' := by
  unfold Endpoint.turn at hturn
  split at hturn
  · next pc io =>
    obtain ⟨rfl, rfl⟩ := Prod.mk.inj (Option.some.inj hturn)
    have hpasses := handshake_passes h
    simpa [Endpoint.isOpen, Endpoint.cuts] using hpasses
  · split at hturn
    · obtain ⟨rfl, rfl⟩ := Prod.mk.inj (Option.some.inj hturn)
      obtain rfl := Option.some.inj h
      exact (passes_idle .up _ _).toPasses
    · cases hturn
  · split at hturn
    · obtain ⟨rfl, rfl⟩ := Prod.mk.inj (Option.some.inj hturn)
      obtain rfl := Option.some.inj h
      exact (passes_idle .up _ _).toPasses
    · cases hturn
  · next cxn io =>
    obtain ⟨rfl, rfl⟩ := Prod.mk.inj (Option.some.inj hturn)
    have hokay : cxn.connState = .okay := by simpa [Endpoint.isOpen] using hopen
    have hpasses := relay_passes hokay h
    have hstays : (cxn.poll io).state.connState = .okay ↔ io.fatal = false := by
      rw [Connection.poll_okay_iff]
      simp [hokay]
    simpa [hokay, Endpoint.isOpen, Endpoint.cuts, hstays] using hpasses
  · split at hturn
    · obtain ⟨rfl, rfl⟩ := Prod.mk.inj (Option.some.inj hturn)
      obtain rfl := Option.some.inj h
      exact (passes_idle .up _ _).toPasses
    · cases hturn
  · cases hturn

/-- A turn of a closed connection has no traffic, and leaves the stream closed. -/
theorem turn_closed {x : Externals} {io : EndpointIo} {before : Endpoint}
    {endpoint : Option Endpoint} {log : List (Transfer Direction)}
    (hclosed : Endpoint.isOpen (some before) = false)
    (hturn : before.turn x io = some (endpoint, log)) :
    log = [] ∧ Endpoint.isOpen endpoint = false := by
  cases before with
  | handshaking pc => cases hclosed
  | relaying cxn =>
    have hstate : cxn.connState ≠ .okay := by simpa [Endpoint.isOpen] using hclosed
    cases io with
    | relay io =>
      simp only [Endpoint.turn, Connection.poll_of_not_okay hstate] at hturn
      obtain ⟨rfl, rfl⟩ := Prod.mk.inj (Option.some.inj hturn)
      exact ⟨rfl, hclosed⟩
    | removal =>
      simp only [Endpoint.turn] at hturn
      split at hturn
      · obtain ⟨rfl, rfl⟩ := Prod.mk.inj (Option.some.inj hturn)
        exact ⟨rfl, rfl⟩
      · cases hturn
    | handshake io => cases hturn
    | refusal => cases hturn
    | admission group server addr dial placed => cases hturn

/-- The turn takes bytes that it does not pass on, and the stream stays open. -/
def balanceCuts (s : EchoSession) (io : EndpointIo) : Bool :=
  s.endpoint.any fun endpoint ↦ endpoint.cuts io

/-- The balancer's turn: of an open stream, or without traffic. -/
theorem balance_cases {x : Externals} {s s' : EchoSession} {io : EndpointIo}
    (h : s.balance x io = some s') :
    (Endpoint.isOpen s.endpoint = true ∧
      Passes (Endpoint.isOpen s'.endpoint = true ∧ s.balanceCuts io = false)
        { s with endpoint := s'.endpoint } s') ∨
    (Endpoint.isOpen s'.endpoint = false ∧ s' = { s with endpoint := s'.endpoint }) := by
  unfold balance at h
  split at h
  · cases h
  · next endpoint log hturn =>
    obtain ⟨before, hbefore, hturn⟩ := Option.bind_eq_some_iff.mp hturn
    cases hopen : Endpoint.isOpen (some before) with
    | true =>
      left
      have hpasses := turn_passes hopen hturn h
      obtain rfl : s'.endpoint = endpoint := hpasses.endpoint
      refine ⟨by rw [hbefore, hopen], ?_⟩
      simpa only [balanceCuts, hbefore, Option.any_some] using hpasses
    | false =>
      right
      obtain ⟨rfl, hstays⟩ := turn_closed hopen hturn
      obtain rfl := Option.some.inj h
      exact ⟨hstays, rfl⟩

/-! ### The turns of the client and the server -/

/-- The client's turn: it writes a greeting or the start of one, or it reads a piece. -/
theorem act_cases {s s' : EchoSession} {io : TestClientIo} (h : s.act io = some s') :
    (s.client.place = .writing ∧
      s' = sendSource { s with client := (s.client.greet io).state } .up
        (writeAll io.writes (TestClient.greeting s.client.cnt)).1) ∨
    (s.client.Reads (s.client.step io) ∧
      ∃ bytes c, (s.sink .down).receive bytes = some c ∧
        ((s.client.step io).log = [] ∨ (s.client.step io).log = [.received .down bytes]) ∧
        s' = { s with
          client := (s.client.step io).state
          sink := Function.update s.sink .down c }) := by
  unfold act at h
  rcases TestClient.step_cases s.client io with ⟨hplace, hstep⟩ | hreads
  · left
    refine ⟨hplace, ?_⟩
    simp only [hstep, (TestClient.greet_cases s.client io).1, List.foldlM_cons, List.foldlM_nil,
      clientTransfer] at h
    exact (Option.some.inj h).symm
  · right
    refine ⟨hreads, ?_⟩
    rcases hreads.log with hlog | ⟨bytes, hlog⟩
    · simp only [hlog] at h
      obtain rfl := Option.some.inj h
      exact ⟨[], s.sink .down, Channel.receive_nil _, .inl hlog, by simp⟩
    · simp only [hlog, List.foldlM_cons, List.foldlM_nil, clientTransfer, receiveSink] at h
      obtain ⟨mid, hreceived, hdone⟩ := Option.bind_eq_some_iff.mp h
      obtain ⟨c, hreceive, rfl⟩ := Option.map_eq_some_iff.mp hreceived
      obtain rfl := Option.some.inj hdone
      exact ⟨bytes, c, hreceive, .inr hlog, rfl⟩

/-- What the server's turn does: a hop from what the balancer writes to what it reads. -/
structure Serves (whole : Prop) (s s' : EchoSession) : Prop where
  stream : s.removed = false
  hop : Channel.Hop whole (s.sink .up) (s.source .down) (s'.sink .up) (s'.source .down)
  source : s'.source .up = s.source .up
  sink : s'.sink .down = s.sink .down
  client : s'.client = s.client
  endpoint : s'.endpoint = s.endpoint

/-- What has no P is echoed. -/
theorem reply_eq_self {bs : Bytes} (h : TestClient.letterP ∉ bs) : Upstream.reply bs = bs := by
  unfold Upstream.reply
  split
  · next hping =>
    rw [hping] at h
    exact absurd (by decide) h
  · rfl

/-- The server's turn echoes a stream without P; it drops nothing if it keeps the stream and
does not block. -/
theorem serve_serves {s s' : EchoSession} {io : Upstream.StreamIo}
    (hplain : TestClient.letterP ∉ (s.sink .up).sent) (h : s.serve io = some s') :
    Serves (s'.removed = false ∧ io.blocks = false) s s' := by
  unfold serve at h
  split at h
  · next hserving =>
    have hstream : s.removed = false := by
      simpa using (Bool.and_eq_true_iff.mp hserving).2
    cases hread : io.read with
    | error kind =>
      simp only [hread] at h
      obtain rfl := Option.some.inj h
      exact ⟨hstream, Channel.hop_idle _ _ _, rfl, rfl, rfl, rfl⟩
    | ok buf =>
      simp only [hread, receiveSink, Option.map_map] at h
      obtain ⟨c, hreceive, rfl⟩ := Option.map_eq_some_iff.mp h
      have hecho : Upstream.reply buf.val = buf.val := reply_eq_self fun hmem ↦
        hplain (Channel.subset_of_receive hreceive hmem)
      refine ⟨hstream, ⟨buf.val, (Upstream.serviceStream io).2, ?_, ?_, ?_, ?_⟩, ?_, ?_, rfl, rfl⟩
      · simpa [sendSource] using hreceive
      · simp [sendSource]
      · rw [← hecho]
        exact Upstream.serviceStream_start hread
      · rintro ⟨hstays, hblocks⟩
        rw [Upstream.serviceStream_whole hread hstays hblocks, hecho]
      · simp [sendSource]
      · simp [sendSource]
  · cases h

/-! ### Nothing is made up -/

/-- At every place of the way the bytes are bytes of the greetings, in their order. -/
structure Echoes (s : EchoSession) : Prop where
  greeted : (s.source .up).sent.Sublist (TestClient.greetings s.client.begun)
  relayed : ∀ d, Channel.Thins (s.source d) (s.sink d)
  echoed : Channel.Thins (s.sink .up) (s.source .down)
  text : ∀ bytes, s.client.place ≠ .ended (.fromUtf8 bytes)

/-- Nothing was written yet. -/
theorem echoes_new (stream : TcpStream) (session : ServerConnection) :
    Echoes (new stream session) where
  greeted := List.nil_sublist _
  relayed _ := List.nil_sublist _
  echoed := List.nil_sublist _
  text bytes h := by cases h

/-- What is on its way to the client are bytes of the greetings. -/
theorem Echoes.sublist {s : EchoSession} (h : Echoes s) :
    (s.sink .down).sent.Sublist (TestClient.greetings s.client.begun) :=
  (h.relayed .down).sent_sublist.trans <|
    h.echoed.sent_sublist.trans <| (h.relayed .up).sent_sublist.trans h.greeted

/-- What the server reads has no P. -/
theorem Echoes.plain {s : EchoSession} (h : Echoes s) :
    TestClient.letterP ∉ (s.sink .up).sent := fun hmem ↦
  (TestClient.greetings_letters
    (((h.relayed .up).sent_sublist.trans h.greeted).subset hmem)).2 rfl

/-- What is on its way to the client is text. -/
theorem Echoes.valid {s : EchoSession} (h : Echoes s) {bytes : Bytes}
    (hbytes : bytes ⊆ (s.sink .down).sent) : bytes.toByteArray.IsValidUTF8 :=
  TestClient.valid_of_ascii fun _ hb ↦
    (TestClient.greetings_letters (h.sublist.subset (hbytes hb))).1

/-- Writing a greeting, or the start of one. -/
theorem Echoes.greet {s : EchoSession} (h : Echoes s) (hplace : s.client.place = .writing)
    (io : TestClientIo) :
    Echoes (sendSource { s with client := (s.client.greet io).state } .up
      (writeAll io.writes (TestClient.greeting s.client.cnt)).1) where
  greeted := by
    have hbegun : s.client.begun = s.client.cnt :=
      TestClient.begun_of_goes (by simp [TestClient.hasEnded, hplace])
    have hafter : (s.client.greet io).state.begun = s.client.cnt + 1 := by
      rcases (TestClient.greet_cases s.client io).2 with
        ⟨-, hstate⟩ | ⟨-, hstate⟩ | ⟨kind, -, -, hstate⟩
      · simp [hstate, TestClient.begun]
      · simp [hstate, TestClient.begun]
      · simp [hstate, TestClient.begun]
    have hgreeted := h.greeted
    rw [hbegun] at hgreeted
    simp only [sendSource, Function.update_self, Channel.sent_send, hafter,
      TestClient.greetings_succ]
    exact hgreeted.append (writeAll_start _ _).sublist
  relayed d := by
    cases d with
    | up => simpa [sendSource, Channel.Thins] using h.relayed .up
    | down => simpa [sendSource] using h.relayed .down
  echoed := by simpa [sendSource] using h.echoed
  text bytes := by
    rcases (TestClient.greet_cases s.client io).2 with
      ⟨-, hstate⟩ | ⟨-, hstate⟩ | ⟨kind, -, -, hstate⟩
    · simp [sendSource, hstate]
    · simp [sendSource, hstate]
    · simp [sendSource, hstate]

/-- The client's turn keeps the echo. -/
theorem Echoes.act {s s' : EchoSession} {io : TestClientIo} (h : Echoes s)
    (hact : s.act io = some s') : Echoes s' := by
  rcases act_cases hact with ⟨hplace, rfl⟩ | ⟨hreads, bytes, c, hreceive, hlog, rfl⟩
  · exact h.greet hplace io
  · constructor
    · simpa only [hreads.begun] using h.greeted
    · intro d
      cases d with
      | up => simpa using h.relayed .up
      | down => simpa using (h.relayed .down).receive hreceive
    · simpa using h.echoed
    · intro bytes' hended
      rcases hreads.text bytes' hended with hbefore | ⟨invalid, -, hread, hnot⟩
      · exact h.text bytes' hbefore
      · -- what it read last went into its channel
        have hsame : invalid = bytes := by
          rcases hlog with hnone | hsome
          · rw [hnone] at hread
            cases hread
          · simpa using (hsome.symm.trans hread).symm
        exact hnot (h.valid (hsame ▸ Channel.subset_of_receive hreceive))

/-- The balancer's turn keeps the echo. -/
theorem Echoes.balance {x : Externals} {s s' : EchoSession} {io : EndpointIo} (h : Echoes s)
    (hbalance : s.balance x io = some s') : Echoes s' := by
  rcases balance_cases hbalance with ⟨-, hpasses⟩ | ⟨-, hsame⟩
  · have hup : Channel.Hop _ (s.source .up) (s.sink .up) _ _ := hpasses.hops .up
    have hdown : Channel.Hop _ (s.source .down) (s.sink .down) _ _ := hpasses.hops .down
    constructor
    · rw [hup.sent_eq, hpasses.client]
      exact h.greeted
    · exact fun d ↦ (h.relayed d).hop (hpasses.hops d)
    · rw [Channel.Thins, hup.received_eq, hdown.sent_eq]
      exact h.echoed
    · rw [hpasses.client]
      exact h.text
  · rw [hsame]
    exact ⟨h.greeted, h.relayed, h.echoed, h.text⟩

/-- The server's turn keeps the echo. -/
theorem Echoes.serve {s s' : EchoSession} {io : Upstream.StreamIo} (h : Echoes s)
    (hserve : s.serve io = some s') : Echoes s' := by
  have hserves := serve_serves h.plain hserve
  constructor
  · rw [hserves.source, hserves.client]
    exact h.greeted
  · intro d
    cases d with
    | up =>
      rw [Channel.Thins, hserves.source, hserves.hop.sent_eq]
      exact h.relayed .up
    | down =>
      rw [Channel.Thins, hserves.sink, hserves.hop.received_eq]
      exact h.relayed .down
  · exact h.echoed.hop hserves.hop
  · rw [hserves.client]
    exact h.text

/-- Every turn keeps the echo. -/
theorem Echoes.step {x : Externals} {s s' : EchoSession} {io : EchoIo} (h : Echoes s)
    (hstep : s.step x io = some s') : Echoes s' := by
  cases io with
  | client io => exact h.act hstep
  | balancer io => exact h.balance hstep
  | server io => exact h.serve hstep

/-- In every run of a session, whatever turns the parties take, whatever fails and however the
channels split and join the bytes: what the client receives are bytes that it has written, in
their order, which are bytes of the greetings that it has begun; nothing is made up, doubled or
reordered, and the client never ends over text that is not UTF-8. -/
theorem echo_sublist (x : Externals) (stream : TcpStream) (session : ServerConnection)
    (ios : List EchoIo) (s : EchoSession) (hrun : (new stream session).run x ios = some s) :
    (s.sink .down).received.Sublist (s.source .up).sent ∧
      (s.source .up).sent.Sublist (TestClient.greetings s.client.begun) ∧
      ∀ bytes, s.client.place ≠ .ended (.fromUtf8 bytes) := by
  have h : Echoes s := Turns.run_invariant Echoes.step (echoes_new stream session) hrun
  refine ⟨?_, h.greeted, h.text⟩
  exact (h.relayed .down).received_sublist.trans <|
    h.echoed.sent_sublist.trans (h.relayed .up).sent_sublist

/-- A stream that was just accepted. -/
def accepted : EchoSession := new ⟨3, ⟨[127, 0, 0, 1], 40000⟩⟩ ⟨true, none⟩

/-- `HELLO_0`. -/
def hello : Chunk 1024 := ⟨[72, 69, 76, 76, 79, 95, 48], by decide⟩

/-- `HELLO_0`, as the balancer reads it. -/
def helloRelayed : Chunk 2048 := ⟨hello.val, by decide⟩

/-- The TLS session after the handshake. -/
def established : ServerConnection := ⟨false, some ⟨[48], []⟩⟩

/-- The first greeting goes to the upstream server and back. -/
def helloTurns : List EchoIo :=
  [.client ⟨false, .error .wouldBlock, []⟩,
    .client ⟨false, .error .wouldBlock, [.wrote 7]⟩,
    .balancer (.handshake ⟨.error .wouldBlock, established⟩),
    .balancer (.handshake ⟨.error .wouldBlock, established⟩),
    .balancer (.admission 0 0 "127.0.0.1:2500" ⟨.ok 4, {}⟩ true),
    .balancer (.relay ⟨.ok helloRelayed, [.wrote 7], .error .wouldBlock, [], established⟩),
    .server ⟨.ok hello, [.wrote 7]⟩,
    .balancer (.relay ⟨.error .wouldBlock, [], .ok helloRelayed, [.wrote 7], established⟩),
    .client ⟨false, .ok hello, []⟩]

/-- The session after these turns. -/
def helloEchoed : EchoSession := (accepted.run firstClient helloTurns).getD accepted

/-- The first greeting comes back. -/
theorem echo_sublist_example :
    (helloEchoed.sink .down).received.Sublist (helloEchoed.source .up).sent ∧
      (helloEchoed.source .up).sent.Sublist (TestClient.greetings helloEchoed.client.begun) ∧
      ∀ bytes, helloEchoed.client.place ≠ .ended (.fromUtf8 bytes) :=
  echo_sublist firstClient ⟨3, ⟨[127, 0, 0, 1], 40000⟩⟩ ⟨true, none⟩ helloTurns helloEchoed rfl

/-! ### Nothing is lost -/

/-- A turn takes bytes that it does not pass on while its party goes on: a write blocks, or
application data is read during the handshake. -/
def cuts (s : EchoSession) : EchoIo → Bool
  | .client io => s.client.cuts io
  | .balancer io => s.balanceCuts io
  | .server io => io.blocks

/-- At every place of the way the bytes are the start of the greetings, and each party that goes
on has passed on all that it took. -/
structure Faithful (s : EchoSession) : Prop extends Echoes s where
  start : (s.source .up).sent <+: TestClient.greetings s.client.begun
  whole : s.client.hasEnded = false →
    (s.source .up).sent = TestClient.greetings s.client.begun
  relays : ∀ d, Channel.Forwards (Endpoint.isOpen s.endpoint = true) (s.source d) (s.sink d)
  echoes : Channel.Forwards (s.removed = false) (s.sink .up) (s.source .down)

/-- Nothing was written yet. -/
theorem faithful_new (stream : TcpStream) (session : ServerConnection) :
    Faithful (new stream session) where
  toEchoes := echoes_new stream session
  start := List.nil_prefix
  whole _ := rfl
  relays _ := ⟨List.nil_prefix, fun _ ↦ rfl⟩
  echoes := ⟨List.nil_prefix, fun _ ↦ rfl⟩

/-- Writing a greeting that is not cut. -/
theorem Faithful.greet {s : EchoSession} {io : TestClientIo} (h : Faithful s)
    (hplace : s.client.place = .writing) (huncut : s.client.cuts io = false) :
    Faithful (sendSource { s with client := (s.client.greet io).state } .up
      (writeAll io.writes (TestClient.greeting s.client.cnt)).1) := by
  have hopen : s.client.hasEnded = false := by simp [TestClient.hasEnded, hplace]
  have hbegun : s.client.begun = s.client.cnt := TestClient.begun_of_goes hopen
  have hsent := h.whole hopen
  rw [hbegun] at hsent
  have hwrite : (writeAll io.writes (TestClient.greeting s.client.cnt)).2 ≠ .error .wouldBlock := by
    intro hblocked
    simp [TestClient.cuts, hplace, hblocked] at huncut
  have hafter : (s.client.greet io).state.begun = s.client.cnt + 1 ∧
      ((s.client.greet io).state.hasEnded = false →
        (writeAll io.writes (TestClient.greeting s.client.cnt)).2 = .ok ()) := by
    rcases (TestClient.greet_cases s.client io).2 with
      ⟨hok, hstate⟩ | ⟨hblocked, -⟩ | ⟨kind, -, -, hstate⟩
    · simp [hstate, hok, TestClient.begun, TestClient.hasEnded]
    · exact absurd hblocked hwrite
    · simp [hstate, TestClient.begun, TestClient.hasEnded]
  refine ⟨h.toEchoes.greet hplace io, ?_, ?_, ?_, ?_⟩
  · simp only [sendSource, Function.update_self, Channel.sent_send, hafter.1,
      TestClient.greetings_succ, hsent]
    exact (List.prefix_append_right_inj _).mpr (writeAll_start _ _)
  · intro hgoes
    simp only [sendSource, Function.update_self, Channel.sent_send, hafter.1,
      TestClient.greetings_succ, hsent, writeAll_ok (hafter.2 hgoes)]
  · intro d
    cases d with
    | up => simpa [sendSource, Channel.Forwards] using h.relays .up
    | down => simpa [sendSource] using h.relays .down
  · simpa [sendSource] using h.echoes

/-- The client's turn, when it cuts nothing. -/
theorem Faithful.act {s s' : EchoSession} {io : TestClientIo} (h : Faithful s)
    (huncut : s.client.cuts io = false) (hact : s.act io = some s') : Faithful s' := by
  rcases act_cases hact with ⟨hplace, rfl⟩ | ⟨hreads, bytes, c, hreceive, -, rfl⟩
  · exact h.greet hplace huncut
  · refine ⟨h.toEchoes.act hact, ?_, ?_, ?_, ?_⟩
    · simpa only [hreads.begun] using h.start
    · intro hgoes
      have hopen : s.client.hasEnded = false := by
        by_contra hended
        simp [hreads.stays (by simpa using hended), hended] at hgoes
      simpa only [hreads.begun] using h.whole hopen
    · intro d
      cases d with
      | up => simpa using h.relays .up
      | down => simpa using (h.relays .down).receive hreceive
    · simpa using h.echoes

/-- The balancer's turn, when it cuts nothing. -/
theorem Faithful.balance {x : Externals} {s s' : EchoSession} {io : EndpointIo} (h : Faithful s)
    (huncut : s.balanceCuts io = false) (hbalance : s.balance x io = some s') :
    Faithful s' := by
  rcases balance_cases hbalance with ⟨hopen, hpasses⟩ | ⟨hclosed, hsame⟩
  · have hup : Channel.Hop _ (s.source .up) (s.sink .up) _ _ := hpasses.hops .up
    have hdown : Channel.Hop _ (s.source .down) (s.sink .down) _ _ := hpasses.hops .down
    refine ⟨h.toEchoes.balance hbalance, ?_, ?_, ?_, ?_⟩
    · rw [hup.sent_eq, hpasses.client]
      exact h.start
    · rw [hup.sent_eq, hpasses.client]
      exact h.whole
    · exact fun d ↦ (h.relays d).hop hopen <| (hpasses.hops d).imp fun hgoes ↦ ⟨hgoes, huncut⟩
    · rw [Channel.Forwards, hup.received_eq, hdown.sent_eq, hpasses.removed]
      exact h.echoes
  · refine ⟨h.toEchoes.balance hbalance, ?_, ?_, ?_, ?_⟩
    · rw [hsame]
      exact h.start
    · rw [hsame]
      exact h.whole
    · intro d
      rw [hsame]
      exact (h.relays d).imp fun hgoes ↦ by simp [hclosed] at hgoes
    · rw [hsame]
      exact h.echoes

/-- The server's turn, when it cuts nothing. -/
theorem Faithful.serve {s s' : EchoSession} {io : Upstream.StreamIo} (h : Faithful s)
    (huncut : io.blocks = false) (hserve : s.serve io = some s') : Faithful s' := by
  have hserves := serve_serves h.plain hserve
  refine ⟨h.toEchoes.serve hserve, ?_, ?_, ?_, ?_⟩
  · rw [hserves.source, hserves.client]
    exact h.start
  · rw [hserves.source, hserves.client]
    exact h.whole
  · intro d
    cases d with
    | up =>
      rw [Channel.Forwards, hserves.source, hserves.hop.sent_eq, hserves.endpoint]
      exact h.relays .up
    | down =>
      rw [Channel.Forwards, hserves.sink, hserves.hop.received_eq, hserves.endpoint]
      exact h.relays .down
  · exact h.echoes.hop hserves.stream <| hserves.hop.imp fun hstays ↦ ⟨hstays, huncut⟩

/-- Every turn that cuts nothing. -/
theorem Faithful.step {x : Externals} {s s' : EchoSession} {io : EchoIo} (h : Faithful s)
    (huncut : (!s.cuts io) = true) (hstep : s.step x io = some s') : Faithful s' := by
  rw [Bool.not_eq_true'] at huncut
  cases io with
  | client io => exact h.act huncut hstep
  | balancer io => exact h.balance huncut hstep
  | server io => exact h.serve huncut hstep

/-- Every party goes on, and nothing is on its way. -/
structure Settled (s : EchoSession) : Prop where
  client : s.client.hasEnded = false
  endpoint : Endpoint.isOpen s.endpoint = true
  server : s.removed = false
  source : ∀ d, (s.source d).Drained
  sink : ∀ d, (s.sink d).Drained

/-- In every run of a session in which no write blocks with bytes left and no application data
is read during the handshake, whatever turns the parties take, whatever else fails and however
the channels split and join the bytes: what the client receives is the start of its greetings,
and once every party goes on and nothing is on its way, it is all of them. -/
theorem echo_faithful (x : Externals) (stream : TcpStream) (session : ServerConnection)
    (ios : List EchoIo) (s : EchoSession) (hrun : (new stream session).run x ios = some s)
    (huncut : Turns.all (step x) (fun s io ↦ !s.cuts io) (new stream session) ios = true) :
    (s.sink .down).received <+: TestClient.greetings s.client.begun ∧
      (s.Settled → (s.sink .down).received = TestClient.greetings s.client.cnt) := by
  have h : Faithful s :=
    Turns.run_invariant_of_all Faithful.step (faithful_new stream session) huncut hrun
  constructor
  · calc (s.sink .down).received
      _ <+: (s.source .down).sent := (h.relays .down).received_start
      _ <+: (s.sink .up).received := h.echoes.1
      _ <+: (s.source .up).sent := (h.relays .up).received_start
      _ <+: TestClient.greetings s.client.begun := h.start
  · intro hsettled
    have hbegun : s.client.begun = s.client.cnt := TestClient.begun_of_goes hsettled.client
    calc (s.sink .down).received
      _ = (s.source .down).sent :=
        (h.relays .down).drained hsettled.endpoint (hsettled.source _) (hsettled.sink _)
      _ = (s.sink .up).received := h.echoes.2 hsettled.server
      _ = (s.source .up).sent :=
        (h.relays .up).drained hsettled.endpoint (hsettled.source _) (hsettled.sink _)
      _ = TestClient.greetings s.client.cnt := by rw [h.whole hsettled.client, hbegun]

/-- The first greeting has come back, and nothing is on its way. -/
theorem echo_faithful_example :
    (helloEchoed.sink .down).received <+: TestClient.greetings helloEchoed.client.begun ∧
      (helloEchoed.sink .down).received = TestClient.greetings helloEchoed.client.cnt := by
  have h := echo_faithful firstClient ⟨3, ⟨[127, 0, 0, 1], 40000⟩⟩ ⟨true, none⟩ helloTurns
    helloEchoed rfl (by decide)
  refine ⟨h.1, h.2 ?_⟩
  exact
    { client := rfl
      endpoint := rfl
      server := rfl
      source := fun d ↦ by cases d <;> rfl
      sink := fun d ↦ by cases d <;> rfl }

end EchoSession
end TcpLoadBalancer
