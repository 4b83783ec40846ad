import TcpLoadBalancer.Model.Connection

/-!
# The handshake of a partial connection

A partial connection leaves `INIT` once: to `COMPLETED` when its session is done and the
peer's certificate yields an email, or to `ERROR` on one of five failures. A completed one
carries the email of its own session.
-/

namespace TcpLoadBalancer
open Lib

namespace PartialConnection

/-- A completed partial connection has a finished session, and its email is the one of the
peer's end-entity certificate. -/
def Sound (x : Externals) (pc : PartialConnection) : Prop :=
  pc.state = .completed → pc.tlsConn.isHandshaking = false ∧
    ∃ certs email, pc.tlsConn.peerCertificates = some certs ∧
      extractEmailFromCert x certs.endEntity = .ok email ∧ pc.emailAddress = some email

/-- The poll fails: the peer closed or the TLS stream broke during the handshake, or after
it there is no certificate or no email in it. -/
def fails (x : Externals) (pc : PartialConnection) (io : PartialIo) : Bool :=
  pc.state == .init &&
    if pc.tlsConn.isHandshaking then
      match io.read with
      | .ok buf => decide (buf.val.length = 0)
      | .error .wouldBlock => false
      | .error _ => true
    else
      match pc.tlsConn.peerCertificates with
      | some certs => !(extractEmailFromCert x certs.endEntity).isOk
      | none => true

/-- A partial connection starts in `INIT`. -/
theorem sound_new (x : Externals) (stream : TcpStream) (session : ServerConnection) :
    (new stream session).Sound x := by
  intro h
  cases h

/-- Nothing happens to a partial connection after `INIT`. -/
theorem poll_of_not_init {pc : PartialConnection} (h : pc.state ≠ .init) (x : Externals)
    (io : PartialIo) : pc.poll x io = ⟨.ok (), pc, []⟩ := by
  unfold poll
  split
  · next hs => exact absurd hs h
  · rfl
  · rfl

/-- What a poll in `INIT` can lead to: waiting with another session, failing, or completing
with the email of its own session. -/
theorem poll_init_cases {pc : PartialConnection} (h : pc.state = .init) (x : Externals)
    (io : PartialIo) :
    (∃ session, (pc.poll x io).state = { pc with tlsConn := session } ∧ pc.fails x io = false) ∨
    (∃ session, (pc.poll x io).state = { pc with tlsConn := session, state := .error } ∧
      pc.fails x io = true) ∨
    ∃ certs email, pc.tlsConn.isHandshaking = false ∧
      pc.tlsConn.peerCertificates = some certs ∧
      extractEmailFromCert x certs.endEntity = .ok email ∧ pc.fails x io = false ∧
      (pc.poll x io).state = { pc with emailAddress := some email, state := .completed } := by
  cases hh : pc.tlsConn.isHandshaking with
  | true =>
    cases hr : io.read with
    | error kind =>
      cases kind with
      | wouldBlock => exact .inl ⟨io.session, by simp [poll, h, hh, hr], by simp [fails, hh, hr]⟩
      | interrupted =>
        exact .inr (.inl ⟨io.session, by simp [poll, h, hh, hr], by simp [fails, h, hh, hr]⟩)
      | writeZero =>
        exact .inr (.inl ⟨io.session, by simp [poll, h, hh, hr], by simp [fails, h, hh, hr]⟩)
      | other code =>
        exact .inr (.inl ⟨io.session, by simp [poll, h, hh, hr], by simp [fails, h, hh, hr]⟩)
    | ok buf =>
      by_cases hlen : buf.val.length = 0
      · exact .inr (.inl ⟨io.session, by simp only [poll, h, hh, hr, if_pos hlen, if_true],
          by simp only [fails, h, hh, hr, hlen]; rfl⟩)
      · exact .inl ⟨io.session, by simp only [poll, h, hh, hr, if_neg hlen, if_true],
          by simp only [fails, hh, hr, hlen, if_true, decide_false, Bool.and_false]⟩
  | false =>
    cases hc : pc.tlsConn.peerCertificates with
    | none =>
      exact .inr (.inl ⟨pc.tlsConn, by simp [poll, h, hh, hc], by simp [fails, h, hh, hc]⟩)
    | some certs =>
      cases he : extractEmailFromCert x certs.endEntity with
      | error e =>
        exact .inr (.inl ⟨pc.tlsConn, by simp [poll, h, hh, hc, he],
          by simp [fails, h, hh, hc, he]⟩)
      | ok email =>
        exact .inr (.inr ⟨certs, email, rfl, rfl, he,
          by simp [fails, hh, hc, he],
          by simp [poll, h, hh, hc, he]⟩)

/-- A poll keeps a partial connection sound. -/
theorem sound_poll {x : Externals} {pc : PartialConnection} (h : pc.Sound x) (io : PartialIo) :
    (pc.poll x io).state.Sound x := by
  by_cases hs : pc.state = .init
  · rcases poll_init_cases hs x io with
      ⟨session, he, -⟩ | ⟨session, he, -⟩ | ⟨certs, email, hh, hc, hemail, -, he⟩
    · rw [he]
      intro hcompleted
      rw [hs] at hcompleted
      cases hcompleted
    · rw [he]
      intro hcompleted
      cases hcompleted
    · rw [he]
      exact fun _ ↦ ⟨hh, certs, email, hc, hemail, rfl⟩
  · rw [poll_of_not_init hs]
    exact h

/-- A partial connection keeps its client stream. -/
theorem poll_downStream (x : Externals) (pc : PartialConnection) (io : PartialIo) :
    (pc.poll x io).state.downStream = pc.downStream := by
  by_cases hs : pc.state = .init
  · rcases poll_init_cases hs x io with ⟨session, he, -⟩ | ⟨session, he, -⟩ | ⟨_, _, -, -, -, -, he⟩
    all_goals rw [he]
  · rw [poll_of_not_init hs]

/-- A poll leaves a partial connection in `ERROR` when it was there or fails now. -/
theorem poll_error_iff (x : Externals) (pc : PartialConnection) (io : PartialIo) :
    (pc.poll x io).state.state = .error ↔ pc.state = .error ∨ pc.fails x io = true := by
  by_cases hs : pc.state = .init
  · rcases poll_init_cases hs x io with
      ⟨session, he, hf⟩ | ⟨session, he, hf⟩ | ⟨_, _, -, -, -, hf, he⟩
    all_goals simp [he, hf, hs]
  · have hf : pc.fails x io = false := by simp [fails, hs]
    simp [poll_of_not_init hs, hf]

end PartialConnection
end TcpLoadBalancer
