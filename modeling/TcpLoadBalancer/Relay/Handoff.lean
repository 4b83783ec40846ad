import TcpLoadBalancer.Relay.Handshake
import TcpLoadBalancer.Relay.Lossless

/-!
# From handshake to relay

An accepted stream is first polled as a `PartialConnection` and, once authenticated, as a
`Connection`. Both read application bytes from the same TLS stream, but only the second one
passes them on: whatever a read returns before the handoff stays in a local buffer.
-/

namespace TcpLoadBalancer
open Lib Transfer

namespace PartialConnection

/-- A run of polls of one partial connection. -/
def handshake (x : Externals) : List PartialIo → Action Error PartialConnection Bytes :=
  Action.loop fun io pc ↦ pc.poll x io

/-- The poll reads application bytes: the session is still handshaking and its read returns
some. -/
def readsAppData (pc : PartialConnection) (io : PartialIo) : Bool :=
  pc.state == .init && pc.tlsConn.isHandshaking &&
    match io.read with
    | .ok buf => !buf.val.isEmpty
    | .error _ => false

/-- A run keeps the client stream, and what it completes is sound. -/
theorem handshake_state (x : Externals) (ios : List PartialIo) {pc : PartialConnection}
    (h : pc.Sound x) :
    (handshake x ios pc).state.downStream = pc.downStream ∧
      (handshake x ios pc).state.Sound x := by
  induction ios generalizing pc with
  | nil => exact ⟨rfl, h⟩
  | cons io ios ih =>
    obtain ⟨hstream, hsound⟩ := ih (sound_poll h io)
    exact ⟨hstream.trans (poll_downStream x pc io), hsound⟩

/-- The application bytes of a poll are empty unless it reads some. -/
theorem poll_log_flatten_eq_nil_iff (x : Externals) (pc : PartialConnection) (io : PartialIo) :
    (pc.poll x io).log.flatten = [] ↔ pc.readsAppData io = false := by
  cases hs : pc.state with
  | completed => simp [poll, readsAppData, hs]
  | error => simp [poll, readsAppData, hs]
  | init =>
    cases hh : pc.tlsConn.isHandshaking with
    | false =>
      simp only [poll, readsAppData, hs, hh, Bool.false_eq_true, if_false, beq_self_eq_true,
        Bool.and_false, Bool.false_and, iff_true]
      split
      · split <;> rfl
      · rfl
    | true =>
      cases hr : io.read with
      | error kind => cases kind <;> simp [poll, readsAppData, hs, hh, hr]
      | ok buf =>
        by_cases hlen : buf.val.length = 0
        · have hnil := List.length_eq_zero_iff.mp hlen
          simp [poll, readsAppData, hs, hh, hr, hnil]
        · have hne : buf.val ≠ [] := fun h ↦ hlen (by rw [h]; rfl)
          simp [poll, readsAppData, hs, hh, hr, hne]

/-- No poll of a run reads application bytes. -/
def NoEarlyData (x : Externals) : List PartialIo → PartialConnection → Prop :=
  Action.Along (fun io (pc : PartialConnection) ↦ pc.poll x io)
    fun pc io ↦ pc.readsAppData io = false

/-- A run read no application bytes exactly when none of its polls did. -/
theorem handshake_log_flatten_eq_nil_iff (x : Externals) (ios : List PartialIo)
    (pc : PartialConnection) :
    (handshake x ios pc).log.flatten = [] ↔ NoEarlyData x ios pc := by
  induction ios generalizing pc with
  | nil => simp [handshake, Action.loop, Action.skip, Outcome.done, NoEarlyData, Action.Along]
  | cons io ios ih =>
    have hrest := ih (pc.poll x io).state
    rw [NoEarlyData] at hrest ⊢
    rw [Action.Along, ← hrest, ← poll_log_flatten_eq_nil_iff x]
    simp only [handshake, Action.loop, List.flatten_append, List.append_eq_nil_iff]

end PartialConnection

/-- The upstream socket takes everything the poll has for it. -/
def ConnectionIo.UpstreamTakesAll (io : ConnectionIo) : Prop :=
  ∀ buf, io.downRead = .ok buf → (writeAll io.upWrites buf.val).2 = .ok ()

namespace Connection

/-- A half has no traffic in the other direction. -/
theorem relayHalf_other {d d' : Direction} (hd : d ≠ d') (readEnd writeEnd nextState : ConnState)
    (read : Except ErrorKind (Chunk 2048)) (writes : List WriteResult) :
    allSent d' (relayHalf d readEnd writeEnd read writes nextState).2 = [] ∧
      allReceived d' (relayHalf d readEnd writeEnd read writes nextState).2 = [] := by
  rcases relayHalf_cases d readEnd writeEnd nextState read writes with
    ⟨he, -⟩ | ⟨he, -⟩ | ⟨buf, -, he, -⟩
  · simp [he, allSent, allReceived]
  · simp [he, allSent, allReceived]
  · simp [he, allSent, allReceived, sentIn, receivedIn, hd]

private theorem halfBlocks_of_takesAll {io : ConnectionIo} (h : io.UpstreamTakesAll) :
    halfBlocks io.downRead io.upWrites = false := by
  unfold halfBlocks
  cases hr : io.downRead with
  | error kind => rfl
  | ok buf => simp [h buf hr]

/-- A poll that keeps the connection open and whose upstream takes all passes the client's
bytes on. -/
theorem poll_passes_up {c : Connection} {io : ConnectionIo} (hc : c.connState = .okay)
    (hfatal : io.fatal = false) (htakes : io.UpstreamTakesAll) :
    allSent .up (c.poll io).log = allReceived .up (c.poll io).log := by
  simp only [ConnectionIo.fatal, Bool.or_eq_false_iff] at hfatal
  have hup : Lossless (relayUp io .okay).2 :=
    relayHalf_lossless hfatal.1 (halfBlocks_of_takesAll htakes)
  obtain ⟨hsent, hreceived⟩ := relayHalf_other (d := .down) (by decide : Direction.down ≠ .up)
    .upDisconnect .downDisconnect (relayUp io .okay).1 io.upRead io.downWrites
  rw [poll_log_of_okay hc, allSent_append, allReceived_append, hup .up, relayDown, hsent,
    hreceived]

/-- A run that keeps the connection open and whose upstream takes all passes the client's
bytes on. -/
theorem relay_passes_up {c : Connection} {ios : List ConnectionIo}
    (hokay : (relay ios c).state.connState = .okay)
    (htakes : ∀ io ∈ ios, io.UpstreamTakesAll) :
    allSent .up (relay ios c).log = allReceived .up (relay ios c).log := by
  induction ios generalizing c with
  | nil => rfl
  | cons io ios ih =>
    obtain ⟨hc, hfatal⟩ := (relay_okay_iff c (io :: ios)).mp hokay
    have hfirst := poll_passes_up hc (hfatal io (by simp)) (htakes io (by simp))
    have hrest := ih (c := (c.poll io).state) hokay fun j hj ↦ htakes j (by simp [hj])
    have hlog : (relay (io :: ios) c).log = (c.poll io).log ++ (relay ios (c.poll io).state).log :=
      rfl
    rw [hlog, allSent_append, allReceived_append, hfirst, hrest]

/-- A stream that completes its handshake hands its socket and its finished session to the
connection. If the connection stays open and its upstream takes everything, the application
bytes of both phases reach the upstream exactly when no read of the handshake phase
returned any. -/
theorem handoff_delivers_iff (x : Externals) (stream : TcpStream) (session : ServerConnection)
    (handshakeIos : List PartialIo) (group server : UInt32) (addr : String) (dial : DialIo)
    (cxn : Connection) (relayIos : List ConnectionIo)
    (hcompleted : (PartialConnection.handshake x handshakeIos
      (.new stream session)).state.isCompleted = true)
    (hconverted : fromPartialConnection x
      (PartialConnection.handshake x handshakeIos (.new stream session)).state group server addr
      dial = .ok cxn)
    (hokay : (relay relayIos cxn).state.connState = .okay)
    (htakes : ∀ io ∈ relayIos, io.UpstreamTakesAll) :
    (cxn.downStream = stream ∧ cxn.tlsConn.isHandshaking = false) ∧
      (allSent .up (relay relayIos cxn).log =
          (PartialConnection.handshake x handshakeIos (.new stream session)).log.flatten ++
            allReceived .up (relay relayIos cxn).log ↔
        PartialConnection.NoEarlyData x handshakeIos (.new stream session)) := by
  obtain ⟨hstream, hsound⟩ := PartialConnection.handshake_state x handshakeIos
    (PartialConnection.sound_new x stream session)
  obtain ⟨upStream, -, -, rfl⟩ := fromPartialConnection_eq hconverted
  refine ⟨⟨hstream, (hsound (by simpa [PartialConnection.isCompleted] using hcompleted)).1⟩, ?_⟩
  rw [relay_passes_up hokay htakes, ← PartialConnection.handshake_log_flatten_eq_nil_iff]
  exact List.self_eq_append_left

private def authenticated : ServerConnection := ⟨false, some ⟨[48], []⟩⟩

/-- The handshake completes without data, the first relayed byte arrives. -/
theorem handoff_delivers_example :
    let start : PartialConnection := .new ⟨3, ⟨[127, 0, 0, 1], 40000⟩⟩ ⟨true, none⟩
    let cxn : Connection := ⟨⟨3, ⟨[127, 0, 0, 1], 40000⟩⟩, ⟨4, ⟨[127, 0, 0, 1], 2500⟩⟩,
      authenticated, .okay, 0, 0⟩
    let handshakeIos : List PartialIo :=
      [⟨.error .wouldBlock, authenticated⟩, ⟨.error .wouldBlock, authenticated⟩]
    let relayIos : List ConnectionIo :=
      [⟨.ok ⟨[65], by decide⟩, [.wrote 1], .error .wouldBlock, [], authenticated⟩]
    (cxn.downStream = ⟨3, ⟨[127, 0, 0, 1], 40000⟩⟩ ∧ cxn.tlsConn.isHandshaking = false) ∧
      (allSent .up (relay relayIos cxn).log =
          (PartialConnection.handshake firstClient handshakeIos start).log.flatten ++
            allReceived .up (relay relayIos cxn).log ↔
        PartialConnection.NoEarlyData firstClient handshakeIos start) := by
  intro start cxn handshakeIos relayIos
  refine handoff_delivers_iff firstClient _ _ handshakeIos 0 0 "127.0.0.1:2500" ⟨.ok 4, {}⟩ cxn
    relayIos (by decide) (by decide) (by decide) ?_
  intro io hio buf hbuf
  obtain rfl := List.mem_singleton.mp hio
  obtain rfl := Except.ok.inj hbuf
  decide

/-- Application data that arrives with the last handshake message is read before the
handoff and reaches no upstream server, unlike the byte that arrives after it. -/
theorem handoff_loses_early_data :
    let start : PartialConnection := .new ⟨3, ⟨[127, 0, 0, 1], 40000⟩⟩ ⟨true, none⟩
    let handshakeIos : List PartialIo :=
      [⟨.ok ⟨[65], by decide⟩, authenticated⟩, ⟨.error .wouldBlock, authenticated⟩]
    let hs := PartialConnection.handshake firstClient handshakeIos start
    let relayIos : List ConnectionIo :=
      [⟨.ok ⟨[66], by decide⟩, [.wrote 1], .error .wouldBlock, [], authenticated⟩]
    ∃ cxn, fromPartialConnection firstClient hs.state 0 0 "127.0.0.1:2500" ⟨.ok 4, {}⟩ = .ok cxn ∧
      hs.state.isCompleted = true ∧ (relay relayIos cxn).state.connState = .okay ∧
      (∀ io ∈ relayIos, io.UpstreamTakesAll) ∧
      hs.log.flatten = [65] ∧ allSent .up (relay relayIos cxn).log = [66] ∧
      allSent .up (relay relayIos cxn).log ≠
        hs.log.flatten ++ allReceived .up (relay relayIos cxn).log := by
  intro start handshakeIos hs relayIos
  refine ⟨⟨⟨3, ⟨[127, 0, 0, 1], 40000⟩⟩, ⟨4, ⟨[127, 0, 0, 1], 2500⟩⟩, authenticated, .okay, 0, 0⟩,
    by decide, by decide, by decide, ?_, by decide, by decide, by decide⟩
  intro io hio buf hbuf
  obtain rfl := List.mem_singleton.mp hio
  obtain rfl := Except.ok.inj hbuf
  decide

end Connection
end TcpLoadBalancer
