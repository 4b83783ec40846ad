import TcpLoadBalancer.Model.Server

/-!
# Verdicts of a health check

`Transition` says once what a poll of a health checker can do. From it follows when the end
of a check leaves its verdict behind: every failed check is recorded but for a reply that is
not PONG, the end of the stream included, and for a PONG read before its PING's timestamp.
-/

namespace TcpLoadBalancer
open Lib

namespace HealthChecker

/-- What a poll can do: the state it leaves and the operations it performs. -/
inductive Transition (x : Externals) (hc : HealthChecker) (io : HealthIo) :
    HealthChecker → List HealthEvent → Prop where
  /-- Not due, or no stream in a state that needs one. -/
  | rest
      (hrest : (∃ ts, hc.pingState = .idle ts ∧ ¬io.now > ts + 30) ∨
        (∀ ts, hc.pingState ≠ .idle ts) ∧ hc.upStream = none) :
      Transition x hc io hc []
  /-- The address does not parse or the connection is refused. -/
  | connectFail (ts : Int) (hidle : hc.pingState = .idle ts) (hdue : io.now > ts + 30)
      (hfail : (connectUpstream x hc.address io.connect).isOk = false) (log : List HealthEvent)
      (hlog : ∀ st bytes, .received st bytes ∉ log) :
      Transition x hc io
        { hc with upstreamState := .unhealthy, pingState := .idle io.now } log
  /-- A socket option fails on the fresh stream: the poll returns the error. -/
  | optionsFail (ts : Int) (stream : TcpStream) (hidle : hc.pingState = .idle ts)
      (hconnect : connectUpstream x hc.address io.connect = .ok stream)
      (hfail : hc.optionsFail x io = true) :
      Transition x hc io hc [.connected stream]
  | connect (ts : Int) (stream : TcpStream) (hidle : hc.pingState = .idle ts)
      (hdue : io.now > ts + 30) (hconnect : connectUpstream x hc.address io.connect = .ok stream) :
      Transition x hc io { hc with upStream := some stream, pingState := .connected }
        [.connected stream]
  | ping (stream : TcpStream) (hconnected : hc.pingState = .connected)
      (hstream : hc.upStream = some stream) :
      Transition x hc io { hc with pingState := .pingSent io.now }
        [.wrote stream pingBytes (.ok ())]
  /-- The PING or the PONG is not through yet. -/
  | blocked (stream : TcpStream) (hbusy : ∀ ts, hc.pingState ≠ .idle ts)
      (hstream : hc.upStream = some stream) (log : List HealthEvent)
      (hlog : ∀ st bytes, .received st bytes ∉ log) :
      Transition x hc io hc log
  /-- The PING fails, the PONG is late or its read fails. -/
  | giveUp (hbusy : ∀ ts, hc.pingState ≠ .idle ts) (log : List HealthEvent)
      (hlog : ∀ st bytes, .received st bytes ∉ log) :
      Transition x hc io (hc.fail io.now) log
  | answer (ts : Int) (stream : TcpStream) (buf : Chunk 16) (hsent : hc.pingState = .pingSent ts)
      (htime : ¬io.now > ts + 1) (hstream : hc.upStream = some stream) (hread : io.read = .ok buf) :
      Transition x hc io
        { hc with
          upstreamState :=
            if buf.val = pongBytes then if io.now > ts then .unhealthy else .healthy
            else hc.upstreamState
          upStream := none
          pingState := .idle io.now }
        [.received stream buf.val]

private theorem idle_transition (x : Externals) {hc : HealthChecker} {ts : Int}
    (h : hc.pingState = .idle ts) (io : HealthIo) :
    Transition x hc io (hc.pollIdle x ts io).state (hc.pollIdle x ts io).log := by
  by_cases hdue : io.now > ts + 30
  · simp only [pollIdle, if_pos hdue]
    cases hp : x.parseAddr hc.address with
    | error e => exact .connectFail ts h hdue (by simp [connectUpstream, hp]) _ (by simp)
    | ok sockAddr =>
      cases hc' : io.connect with
      | error k =>
        exact .connectFail ts h hdue (by simp [connectUpstream, hp, hc']) _ (by simp)
      | ok fd =>
        cases ho : io.options.set with
        | error e =>
          exact .optionsFail ts _ h (by simp [connectUpstream, hp, hc'])
            (by simp [optionsFail, h, hdue, hp, hc', ho])
        | ok u => exact .connect ts _ h hdue (by simp [connectUpstream, hp, hc'])
  · simp only [pollIdle, if_neg hdue]
    exact .rest (.inl ⟨ts, h, hdue⟩)

private theorem connected_transition (x : Externals) {hc : HealthChecker}
    (h : hc.pingState = .connected) (io : HealthIo) :
    Transition x hc io (hc.pollConnected io).state (hc.pollConnected io).log := by
  have hbusy : ∀ ts, hc.pingState ≠ .idle ts := fun ts hidle ↦ by rw [h] at hidle; cases hidle
  generalize hr : hc.pollConnected io = r
  unfold pollConnected at hr
  split at hr
  · next stream hs =>
    split at hr
    · next accepted hw =>
      have hall := writeAll_ok (congrArg Prod.snd hw)
      rw [hw] at hall
      subst hr hall
      exact .ping stream h hs
    · next accepted hw =>
      subst hr
      exact .blocked stream hbusy hs _ (by simp)
    · next accepted k hk hw =>
      subst hr
      exact .giveUp hbusy _ (by simp)
  · next hs =>
    subst hr
    exact .rest (.inr ⟨hbusy, hs⟩)

private theorem pingSent_transition (x : Externals) {hc : HealthChecker} {ts : Int}
    (h : hc.pingState = .pingSent ts) (io : HealthIo) :
    Transition x hc io (hc.pollPingSent ts io).state (hc.pollPingSent ts io).log := by
  have hbusy : ∀ ts, hc.pingState ≠ .idle ts := fun ts hidle ↦ by rw [h] at hidle; cases hidle
  by_cases hlate : io.now > ts + 1
  · simp only [pollPingSent, if_pos hlate]
    exact .giveUp hbusy _ (by simp)
  · simp only [pollPingSent, if_neg hlate]
    cases hs : hc.upStream with
    | none => exact .rest (.inr ⟨hbusy, hs⟩)
    | some stream =>
      cases hr : io.read with
      | ok buf => exact .answer ts stream buf h hlate hs hr
      | error kind =>
        cases kind with
        | wouldBlock => exact .blocked stream hbusy hs _ (by simp [Outcome.done])
        | interrupted => exact .giveUp hbusy _ (by simp)
        | writeZero => exact .giveUp hbusy _ (by simp)
        | other code => exact .giveUp hbusy _ (by simp)

/-- Every poll is one of the transitions. -/
theorem poll_transition (x : Externals) (hc : HealthChecker) (io : HealthIo) :
    Transition x hc io (hc.poll x io).state (hc.poll x io).log := by
  unfold poll
  split
  · next ts h => exact idle_transition x h io
  · next h => exact connected_transition x h io
  · next ts h => exact pingSent_transition x h io

/-! ### The end of a check -/

/-- One poll as a step of a run. -/
def step (x : Externals) (io : HealthIo) : Action Error HealthChecker HealthEvent :=
  fun hc ↦ hc.poll x io

/-- The poll attempts to connect and fails: the address does not parse or is refused. -/
def ConnectFails (x : Externals) (hc : HealthChecker) (io : HealthIo) : Prop :=
  (∃ ts, hc.pingState = .idle ts ∧ io.now > ts + 30) ∧
    (connectUpstream x hc.address io.connect).isOk = false

/-- The poll ends a check: its connect attempt fails, or it goes back to idle. -/
def EndsCheck (x : Externals) (hc : HealthChecker) (io : HealthIo) : Prop :=
  ConnectFails x hc io ∨
    (hc.pingState = .connected ∨ ∃ ts, hc.pingState = .pingSent ts) ∧
      ∃ ts, (hc.poll x io).state.pingState = .idle ts

/-- The poll receives PONG at the timestamp of the PING. Any answer ends the check
(`received_ends`), so no earlier poll of the same check has received one. -/
def ReceivesPongInTime (x : Externals) (hc : HealthChecker) (io : HealthIo) : Prop :=
  hc.pingState = .pingSent io.now ∧
    ∃ stream, .received stream pongBytes ∈ (hc.poll x io).log

/-- If the poll ends a check without a PONG in time, the server is unhealthy after it. -/
def RecordsFailure (x : Externals) (hc : HealthChecker) (io : HealthIo) : Prop :=
  EndsCheck x hc io → ¬ReceivesPongInTime x hc io →
    (hc.poll x io).state.upstreamState = .unhealthy

/-- The check is still in time and gets an answer that it does not judge as a failure: one
that is not PONG, from a server so far healthy, or a PONG read by a clock that stands before
the PING's timestamp. -/
def Misjudges (hc : HealthChecker) (io : HealthIo) : Prop :=
  ∃ ts stream buf, hc.pingState = .pingSent ts ∧ io.now ≤ ts + 1 ∧ hc.upStream = some stream ∧
    io.read = .ok buf ∧
    (buf.val ≠ pongBytes ∧ hc.upstreamState = .healthy ∨ buf.val = pongBytes ∧ io.now < ts)

/-- An answer in time ends the check; only PONG changes the verdict. -/
theorem poll_answer (x : Externals) {hc : HealthChecker} {io : HealthIo} {ts : Int}
    {stream : TcpStream} {buf : Chunk 16} (hsent : hc.pingState = .pingSent ts)
    (htime : io.now ≤ ts + 1) (hstream : hc.upStream = some stream) (hread : io.read = .ok buf) :
    hc.poll x io =
      ⟨.ok (),
        { hc with
          upstreamState :=
            if buf.val = pongBytes then if io.now > ts then .unhealthy else .healthy
            else hc.upstreamState
          upStream := none
          pingState := .idle io.now },
        [.received stream buf.val]⟩ := by
  have hlate : ¬io.now > ts + 1 := by omega
  simp only [poll, hsent, pollPingSent, if_neg hlate, hstream, hread]

/-- What is received was read in time from the stream of the check. -/
theorem received_cases {x : Externals} {hc : HealthChecker} {io : HealthIo} {stream : TcpStream}
    {bytes : Bytes} (h : .received stream bytes ∈ (hc.poll x io).log) :
    ∃ ts buf, hc.pingState = .pingSent ts ∧ io.now ≤ ts + 1 ∧ hc.upStream = some stream ∧
      io.read = .ok buf ∧ buf.val = bytes := by
  have ht := poll_transition x hc io
  generalize (hc.poll x io).state = s at ht
  generalize (hc.poll x io).log = log at ht h
  cases ht with
  | rest hrest => simp at h
  | connectFail ts hidle hdue hfail log hlog => exact absurd h (hlog _ _)
  | optionsFail ts stream hidle hconnect hfail => simp at h
  | connect ts stream hidle hdue hconnect => simp at h
  | ping stream hconnected hstream => simp at h
  | blocked stream hbusy hstream log hlog => exact absurd h (hlog _ _)
  | giveUp hbusy log hlog => exact absurd h (hlog _ _)
  | answer ts stream' buf hsent htime hstream hread =>
    simp only [List.mem_singleton, HealthEvent.received.injEq] at h
    rw [h.1]
    exact ⟨ts, buf, hsent, by omega, hstream, hread, h.2.symm⟩

/-- Receiving anything ends the check. -/
theorem received_ends {x : Externals} {hc : HealthChecker} {io : HealthIo} {stream : TcpStream}
    {bytes : Bytes} (h : .received stream bytes ∈ (hc.poll x io).log) : EndsCheck x hc io := by
  obtain ⟨ts, buf, hsent, htime, hstream, hread, -⟩ := received_cases h
  exact .inr ⟨.inr ⟨ts, hsent⟩, io.now, by rw [poll_answer x hsent htime hstream hread]⟩

/-- A misjudged check is not recorded as a failure. -/
theorem Misjudges.not_recordsFailure (x : Externals) {hc : HealthChecker} {io : HealthIo}
    (h : Misjudges hc io) : ¬RecordsFailure x hc io := by
  obtain ⟨ts, stream, buf, hsent, htime, hstream, hread, hkind⟩ := h
  have hpoll := poll_answer x hsent htime hstream hread
  intro hrecords
  have hends : EndsCheck x hc io := .inr ⟨.inr ⟨ts, hsent⟩, io.now, by rw [hpoll]⟩
  have hlate : ¬ReceivesPongInTime x hc io := by
    rintro ⟨hnow, st, hlog⟩
    rw [hsent] at hnow
    injection hnow with hnow
    simp only [hpoll, List.mem_singleton, HealthEvent.received.injEq] at hlog
    rcases hkind with ⟨hbuf, -⟩ | ⟨-, hback⟩
    · exact hbuf hlog.2.symm
    · omega
  have hun := hrecords hends hlate
  rw [hpoll] at hun
  rcases hkind with ⟨hbuf, hhealthy⟩ | ⟨hbuf, hback⟩
  · simp [hbuf, hhealthy] at hun
  · have hnot : ¬io.now > ts := by omega
    simp [hbuf, hnot] at hun

/-- A poll records the failure of the check that it ends exactly unless it misjudges the
answer. -/
theorem recordsFailure_iff_not_misjudges (x : Externals) (hc : HealthChecker) (io : HealthIo) :
    RecordsFailure x hc io ↔ ¬Misjudges hc io := by
  constructor
  · exact fun hrecords hmis ↦ hmis.not_recordsFailure x hrecords
  intro hmis hends hlate
  have ht := poll_transition x hc io
  unfold EndsCheck at hends
  unfold ReceivesPongInTime at hlate
  generalize hs : (hc.poll x io).state = s at ht hends ⊢
  generalize (hc.poll x io).log = log at ht hlate
  -- a poll that stays in its state, or goes on with the check, does not end it
  cases ht with
  | rest hrest =>
    rcases hends with ⟨⟨ts, hidle, hdue⟩, -⟩ | ⟨hbusy, ts, hidle⟩
    · rcases hrest with ⟨ts', hidle', hdue'⟩ | ⟨hnot, -⟩
      · rw [hidle'] at hidle
        injection hidle with hts
        omega
      · exact absurd hidle (hnot ts)
    · simp [hidle] at hbusy
  | connectFail ts hidle hdue hfail log hlog => rfl
  | optionsFail ts stream hidle hconnect hfail =>
    simp [ConnectFails, hconnect, hidle] at hends
  | connect ts stream hidle hdue hconnect =>
    simp [ConnectFails, hconnect, hidle] at hends
  | ping stream hconnected hstream => simp [ConnectFails, hconnected] at hends
  | blocked stream hbusy hstream log hlog =>
    rcases hends with ⟨⟨ts, hidle, -⟩, -⟩ | ⟨-, ts, hidle⟩
    · exact absurd hidle (hbusy ts)
    · exact absurd hidle (hbusy ts)
  | giveUp hbusy log hlog => rfl
  | answer ts stream buf hsent htime hstream hread =>
    have hintime : io.now ≤ ts + 1 := by omega
    by_cases hbuf : buf.val = pongBytes
    · have hback : ¬io.now < ts := fun hback ↦
        hmis ⟨ts, stream, buf, hsent, hintime, hstream, hread, .inr ⟨hbuf, hback⟩⟩
      have hne : io.now ≠ ts := fun heq ↦
        hlate ⟨by rw [hsent, heq], stream, by rw [hbuf]; exact List.mem_singleton_self _⟩
      have hafter : io.now > ts := by omega
      simp only [if_pos hbuf, if_pos hafter]
    · simp only [if_neg hbuf]
      cases hverdict : hc.upstreamState with
      | unhealthy => rfl
      | healthy =>
        exact absurd ⟨ts, stream, buf, hsent, hintime, hstream, hread, .inl ⟨hbuf, hverdict⟩⟩ hmis

/-- In a run, from whatever checker it starts, every poll records the failure of the check
that it ends exactly when no poll misjudges an answer. -/
theorem check_recordsFailure_iff (x : Externals) (ios : List HealthIo) (hc : HealthChecker) :
    Action.Along (step x) (RecordsFailure x) ios hc ↔
      Action.Along (step x) (fun hc io ↦ ¬Misjudges hc io) ios hc := by
  simp only [Action.along_iff, recordsFailure_iff_not_misjudges]

/-- Three polls of one check: the server accepts, takes the PING and closes the stream in
order. -/
def closedUnanswered : List HealthIo :=
  let io : HealthIo :=
    { now := 31, connect := .ok 3, options := {}, writes := [.wrote 4],
      read := .ok ⟨[], by decide⟩ }
  [io, io, io]

/-- A server that closes the stream without an answer stays healthy. -/
theorem closedUnanswered_stays_healthy :
    ¬∀ (x : Externals) (ios : List HealthIo) (hc : HealthChecker),
      Action.Along (step x) (RecordsFailure x) ios hc := by
  intro h
  let addr : SocketAddr := ⟨[127, 0, 0, 1], 2006⟩
  let x : Externals := ⟨fun _ ↦ .ok [], fun _ ↦ .ok addr⟩
  let hc : HealthChecker := .new 0 "127.0.0.1:2006"
  refine Misjudges.not_recordsFailure x ?_ (h x closedUnanswered hc).2.2.1
  exact ⟨31, ⟨3, addr⟩, ⟨[], by decide⟩, by decide, by decide, by decide, rfl,
    .inl ⟨by decide, by decide⟩⟩

end HealthChecker
end TcpLoadBalancer
