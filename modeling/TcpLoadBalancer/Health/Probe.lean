import TcpLoadBalancer.Health.Exchange
import TcpLoadBalancer.Lib.Channel
import TcpLoadBalancer.Lib.Turns
import TcpLoadBalancer.Upstream.Service

/-!
# A health checker and its server

The health checker and the upstream server take turns in any order, over two byte channels that
may split and join what is written in any way. Every connection of the checker starts with empty
channels. The server also echoes what it does not recognise, so a checker might read PONG for
other reasons than an answered PING; that it never does rests on two letters: an O is written
only by an answer to PING, and a G only by the last write of a PING.
-/

namespace TcpLoadBalancer
open Lib

/-- A checker, its server and the channels of their connection, with the chunks that the server
read from it and the bytes that it wrote for each. -/
structure Probe where
  checker : HealthChecker
  ping : Channel UInt8
  pong : Channel UInt8
  serving : Bool
  answered : List (Bytes × Bytes)

/-- One turn: a poll of the checker, or the service of its stream in a pass of the server. -/
inductive ProbeIo where
  | poll (io : HealthIo)
  | serve (io : Upstream.StreamIo)

namespace Probe

/-- A checker without a connection. -/
def new (serverId : UInt32) (address : String) : Probe :=
  ⟨.new serverId address, .empty, .empty, false, []⟩

/-- What an operation of the checker does to the channels; `none` when its outcome is not one
that they allow. -/
def transfer (p : Probe) : HealthEvent → Option Probe
  | .connectFailed _ => some p
  | .connected _ => some { p with ping := .empty, pong := .empty, serving := true, answered := [] }
  | .wrote _ accepted _ => some { p with ping := p.ping.send accepted }
  | .received _ bytes => (p.pong.receive bytes).map fun pong ↦ { p with pong }

/-- A poll of the checker. -/
def check (x : Externals) (p : Probe) (io : HealthIo) : Option Probe :=
  let r := p.checker.poll x io
  r.log.foldlM transfer { p with checker := r.state }

/-- The service of the checker's stream in a pass of the server, as long as it is not removed. -/
def serve (p : Probe) (io : Upstream.StreamIo) : Option Probe :=
  if p.serving then
    let served := Upstream.serviceStream io
    match io.read with
    | .ok buf =>
      (p.ping.receive buf.val).map fun ping ↦
        { p with
          ping
          pong := p.pong.send served.2
          serving := !served.1
          answered := p.answered ++ [(buf.val, served.2)] }
    | .error _ => some { p with serving := !served.1 }
  else none

/-- A turn; `none` when the channels do not allow its outcomes, or there is nothing to serve. -/
def step (x : Externals) (p : Probe) : ProbeIo → Option Probe
  | .poll io => p.check x io
  | .serve io => p.serve io

/-- A run of turns. -/
def run (x : Externals) (p : Probe) (ios : List ProbeIo) : Option Probe := Turns.run (step x) p ios

/-! ### Letters -/

/-- `b'O'`. -/
def letterO : UInt8 := 79

/-- `b'G'`. -/
def letterG : UInt8 := 71

/-- After the last G of a PING nothing is left. -/
theorem nothing_after_ping {noise before after : Bytes} (hnoise : letterG ∉ noise)
    (h : before ++ pingBytes ++ after <+: noise ++ pingBytes) : after = [] := by
  obtain ⟨rest, hrest⟩ := h
  -- the first G of either side
  have hright : (noise ++ pingBytes).idxOf letterG = noise.length + 3 := by
    rw [List.idxOf_append_of_notMem hnoise]
    rfl
  have hleft : (before ++ pingBytes ++ after ++ rest).idxOf letterG ≤ before.length + 3 := by
    by_cases hmem : letterG ∈ before
    · rw [List.append_assoc, List.append_assoc, List.idxOf_append_of_mem hmem]
      have hlt := List.idxOf_lt_length_of_mem hmem
      omega
    · rw [List.append_assoc, List.append_assoc, List.idxOf_append_of_notMem hmem,
        List.idxOf_append_of_mem (by decide)]
      exact Nat.le_refl _
  have hlength := congrArg List.length hrest
  rw [hrest, hright] at hleft
  simp only [List.length_append] at hlength
  apply List.length_eq_zero_iff.mp
  omega

/-- An answer is the start of PONG, or of the chunk that it echoes. -/
def Answers (e : Bytes × Bytes) : Prop := e.2 <+: Upstream.reply e.1

/-- No answer starts with an O. -/
theorem head_answers {answered : List (Bytes × Bytes)} (h : ∀ e ∈ answered, Answers e)
    (hletter : ∀ e ∈ answered, letterO ∉ e.1) (rest : Bytes) :
    letterO :: rest ≠ (answered.map Prod.snd).flatten := by
  induction answered with
  | nil => simp
  | cons e answered ih =>
    intro heq
    obtain ⟨chunk, written⟩ := e
    have hanswer : Answers (chunk, written) := h _ (by simp)
    have hclean : letterO ∉ chunk := hletter (chunk, written) (by simp)
    rw [List.map_cons, List.flatten_cons] at heq
    cases written with
    | nil => exact ih (fun e he ↦ h e (by simp [he])) (fun e he ↦ hletter e (by simp [he])) heq
    | cons b written =>
      obtain ⟨rfl, -⟩ := List.cons.inj heq
      obtain ⟨tail, htail⟩ := hanswer
      unfold Upstream.reply at htail
      split at htail
      · cases htail
      · have hmem : letterO ∈ (letterO :: written) ++ tail := by simp
        rw [htail] at hmem
        exact hclean hmem

/-- When PONG was written, the first answer that wrote anything answered a PING. -/
theorem first_answer {answered : List (Bytes × Bytes)} (h : ∀ e ∈ answered, Answers e)
    (hletter : ∀ e ∈ answered, letterO ∉ e.1)
    (hpong : pongBytes <+: (answered.map Prod.snd).flatten) :
    ∃ before written after, answered = before ++ (pingBytes, written) :: after ∧
      ∀ e ∈ before, e.2 = [] := by
  induction answered with
  | nil =>
    have hnil := List.prefix_nil.mp hpong
    cases hnil
  | cons e answered ih =>
    obtain ⟨chunk, written⟩ := e
    have hrest : ∀ e ∈ answered, Answers e := fun e he ↦ h e (by simp [he])
    have hclean : ∀ e ∈ answered, letterO ∉ e.1 := fun e he ↦ hletter e (by simp [he])
    rw [List.map_cons, List.flatten_cons] at hpong
    by_cases hchunk : chunk = pingBytes
    · subst hchunk
      exact ⟨[], written, answered, rfl, by simp⟩
    · have hecho : written <+: chunk := by
        have hanswer : Answers (chunk, written) := h _ (by simp)
        rwa [Answers, Upstream.reply, if_neg hchunk] at hanswer
      obtain ⟨rest, hpong⟩ := hpong
      cases written with
      | nil =>
        obtain ⟨before, written, after, rfl, hbefore⟩ := ih hrest hclean ⟨rest, hpong⟩
        refine ⟨(chunk, []) :: before, written, after, rfl, fun e he ↦ ?_⟩
        rcases List.mem_cons.mp he with rfl | he
        · rfl
        · exact hbefore e he
      | cons p written =>
        have hO : letterO :: [78, 71] ++ rest = written ++ (answered.map Prod.snd).flatten :=
          (List.cons.inj hpong).2
        cases written with
        | nil =>
          -- the next answer would have to start with the O
          exact absurd hO (head_answers hrest hclean _)
        | cons o written =>
          obtain rfl : letterO = o := (List.cons.inj hO).1
          have hmem : letterO ∈ chunk := hecho.subset (by simp)
          exact absurd hmem (hletter (chunk, p :: letterO :: written) List.mem_cons_self)

/-! ### The channels and the checker -/

/-- What the channels carry, by the state of the checker. -/
structure Linked (p : Probe) : Prop where
  /-- Only a whole PING ends in G, and the checker has not written one yet. -/
  asking : p.checker.pingState = .connected → letterG ∉ p.ping.sent
  /-- One whole PING was written, and nothing after it. -/
  asked : ∀ ts, p.checker.pingState = .pingSent ts →
    ∃ noise, letterG ∉ noise ∧ p.ping.sent = noise ++ pingBytes
  /-- The first read ends the check. -/
  unread : (∀ ts, p.checker.pingState ≠ .idle ts) → p.pong.received = []
  plain : letterO ∉ p.ping.sent
  chunks : (p.answered.map Prod.fst).flatten = p.ping.received
  written : (p.answered.map Prod.snd).flatten = p.pong.sent
  answers : ∀ e ∈ p.answered, Answers e

/-- Nothing was written yet. -/
theorem linked_new (serverId : UInt32) (address : String) : Linked (new serverId address) where
  asking _ := by simp [new]
  asked ts hsent := by cases hsent
  unread _ := rfl
  plain := by simp [new]
  chunks := rfl
  written := rfl
  answers e he := by cases he

/-- A PING that is cut short has no G. -/
theorem cut_ping {answers : List WriteResult} {kind : ErrorKind}
    (h : (writeAll answers pingBytes).2 = .error kind) :
    letterG ∉ (writeAll answers pingBytes).1 := by
  have hlength : (writeAll answers pingBytes).1.length < 4 := writeAll_error_length h
  rw [List.prefix_iff_eq_take.mp (writeAll_start answers pingBytes)]
  intro hmem
  have hthree : letterG ∈ pingBytes.take 3 := (List.take_subset_take_left _ (by omega)) hmem
  revert hthree
  decide

/-- The service of the stream keeps the link. -/
theorem Linked.serve {p p' : Probe} {io : Upstream.StreamIo} (h : Linked p)
    (hserve : p.serve io = some p') : Linked p' := by
  unfold Probe.serve at hserve
  split at hserve
  · cases hread : io.read with
    | error kind =>
      simp only [hread] at hserve
      obtain rfl := Option.some.inj hserve
      exact ⟨h.asking, h.asked, h.unread, h.plain, h.chunks, h.written, h.answers⟩
    | ok buf =>
      simp only [hread] at hserve
      obtain ⟨ping, hreceive, rfl⟩ := Option.map_eq_some_iff.mp hserve
      obtain ⟨hsent, hreceived⟩ := Channel.receive_spec hreceive
      constructor
      · exact fun hc ↦ by rw [hsent]; exact h.asking hc
      · exact fun ts hts ↦ by rw [hsent]; exact h.asked ts hts
      · exact h.unread
      · rw [hsent]
        exact h.plain
      · simp [hreceived, h.chunks]
      · simp [h.written]
      · intro e he
        rcases List.mem_append.mp he with hold | hnew
        · exact h.answers e hold
        · rw [List.mem_singleton.mp hnew]
          exact Upstream.serviceStream_start hread
  · cases hserve

/-- A poll that performs nothing on the network, and starts no check, keeps the link. -/
theorem Linked.quiet {p : Probe} {hc : HealthChecker} (h : Linked p)
    (hidle : hc.pingState = p.checker.pingState ∨ ∃ ts, hc.pingState = .idle ts) :
    Linked { p with checker := hc } := by
  rcases hidle with hsame | ⟨ts, hts⟩
  · constructor
    · exact fun hc ↦ h.asking (hsame ▸ hc)
    · exact fun ts hts ↦ h.asked ts (hsame ▸ hts)
    · exact fun hbusy ↦ h.unread (hsame ▸ hbusy)
    · exact h.plain
    · exact h.chunks
    · exact h.written
    · exact h.answers
  · constructor
    · exact fun hc ↦ by cases hts.symm.trans hc
    · exact fun ts' hts' ↦ by cases hts.symm.trans hts'
    · exact fun hbusy ↦ absurd hts (hbusy ts)
    · exact h.plain
    · exact h.chunks
    · exact h.written
    · exact h.answers

/-- A new connection starts the link anew. -/
theorem linked_fresh {hc : HealthChecker} (hsent : ∀ ts, hc.pingState ≠ .pingSent ts) :
    Linked ⟨hc, .empty, .empty, true, []⟩ where
  asking _ := by simp
  asked ts hts := absurd hts (hsent ts)
  unread _ := rfl
  plain := by simp
  chunks := rfl
  written := rfl
  answers e he := by cases he

private theorem linked_pollIdle {x : Externals} {p p' : Probe} {io : HealthIo} {ts : Int}
    (h : Linked p) (hs : p.checker.pingState = .idle ts) (hcheck : p.check x io = some p') :
    Linked p' := by
  simp only [check, HealthChecker.poll, hs, HealthChecker.pollIdle] at hcheck
  by_cases hdue : io.now > ts + 30
  · simp only [if_pos hdue] at hcheck
    cases hp : x.parseAddr p.checker.address with
    | error e =>
      simp only [hp] at hcheck
      obtain rfl := Option.some.inj hcheck
      exact h.quiet (.inr ⟨io.now, rfl⟩)
    | ok sockAddr =>
      cases hconnect : io.connect with
      | error k =>
        simp only [hp, hconnect] at hcheck
        obtain rfl := Option.some.inj hcheck
        exact h.quiet (.inr ⟨io.now, rfl⟩)
      | ok fd =>
        cases ho : io.options.set with
        | error e =>
          simp only [hp, hconnect, ho] at hcheck
          obtain rfl := Option.some.inj hcheck
          exact linked_fresh (by simp [hs])
        | ok u =>
          simp only [hp, hconnect, ho] at hcheck
          obtain rfl := Option.some.inj hcheck
          exact linked_fresh (by simp)
  · simp only [if_neg hdue] at hcheck
    obtain rfl := Option.some.inj hcheck
    exact h.quiet (.inl rfl)

private theorem linked_wrote {p : Probe} {hc : HealthChecker} {accepted : Bytes} (h : Linked p)
    (hs : p.checker.pingState = .connected) (hstart : accepted <+: pingBytes)
    (hasking : hc.pingState = .connected → letterG ∉ accepted)
    (hasked : ∀ ts, hc.pingState = .pingSent ts → accepted = pingBytes) :
    Linked { p with checker := hc, ping := p.ping.send accepted } where
  asking hc hmem := by
    rcases List.mem_append.mp hmem with hold | hnew
    · exact h.asking hs hold
    · exact hasking hc hnew
  asked ts hts := ⟨p.ping.sent, h.asking hs, by rw [Channel.sent_send, hasked ts hts]⟩
  unread _ := h.unread (by simp [hs])
  plain hmem := by
    rcases List.mem_append.mp hmem with hold | hnew
    · exact h.plain hold
    · have hping : letterO ∈ pingBytes := hstart.subset hnew
      revert hping
      decide
  chunks := h.chunks
  written := h.written
  answers := h.answers

private theorem linked_pollConnected {x : Externals} {p p' : Probe} {io : HealthIo}
    (h : Linked p) (hs : p.checker.pingState = .connected) (hcheck : p.check x io = some p') :
    Linked p' := by
  simp only [check, HealthChecker.poll, hs, HealthChecker.pollConnected] at hcheck
  cases hstream : p.checker.upStream with
  | none =>
    simp only [hstream] at hcheck
    obtain rfl := Option.some.inj hcheck
    exact h.quiet (.inl rfl)
  | some stream =>
    have hstart := writeAll_start io.writes pingBytes
    have hwhole : (writeAll io.writes pingBytes).2 = .ok () →
        (writeAll io.writes pingBytes).1 = pingBytes := writeAll_ok
    have hcut : ∀ kind, (writeAll io.writes pingBytes).2 = .error kind →
        letterG ∉ (writeAll io.writes pingBytes).1 := fun _ ↦ cut_ping
    generalize writeAll io.writes pingBytes = w at hcheck hstart hwhole hcut
    obtain ⟨accepted, result⟩ := w
    simp only [hstream] at hcheck
    cases result with
    | ok u =>
      obtain rfl := Option.some.inj hcheck
      exact linked_wrote (p := p) h hs hstart (fun hc ↦ by cases hc) fun _ _ ↦ hwhole rfl
    | error kind =>
      have hnotG : letterG ∉ accepted := hcut kind rfl
      cases kind with
      | wouldBlock =>
        obtain rfl := Option.some.inj hcheck
        exact linked_wrote (p := p) h hs hstart (fun _ ↦ hnotG) fun ts hts ↦ by
          cases hs.symm.trans hts
      | interrupted =>
        obtain rfl := Option.some.inj hcheck
        exact linked_wrote (p := p) h hs hstart (fun _ ↦ hnotG) fun ts hts ↦ by cases hts
      | writeZero =>
        obtain rfl := Option.some.inj hcheck
        exact linked_wrote (p := p) h hs hstart (fun _ ↦ hnotG) fun ts hts ↦ by cases hts
      | other code =>
        obtain rfl := Option.some.inj hcheck
        exact linked_wrote (p := p) h hs hstart (fun _ ↦ hnotG) fun ts hts ↦ by cases hts

private theorem linked_pollPingSent {x : Externals} {p p' : Probe} {io : HealthIo} {ts : Int}
    (h : Linked p) (hs : p.checker.pingState = .pingSent ts) (hcheck : p.check x io = some p') :
    Linked p' := by
  simp only [check, HealthChecker.poll, hs, HealthChecker.pollPingSent] at hcheck
  by_cases hlate : io.now > ts + 1
  · simp only [if_pos hlate] at hcheck
    obtain rfl := Option.some.inj hcheck
    exact h.quiet (.inr ⟨io.now, rfl⟩)
  · simp only [if_neg hlate] at hcheck
    cases hstream : p.checker.upStream with
    | none =>
      simp only [hstream] at hcheck
      obtain rfl := Option.some.inj hcheck
      exact h.quiet (.inl rfl)
    | some stream =>
      cases hread : io.read with
      | error kind =>
        simp only [hstream, hread] at hcheck
        cases kind with
        | wouldBlock =>
          obtain rfl := Option.some.inj hcheck
          exact h.quiet (.inl rfl)
        | interrupted =>
          obtain rfl := Option.some.inj hcheck
          exact h.quiet (.inr ⟨io.now, rfl⟩)
        | writeZero =>
          obtain rfl := Option.some.inj hcheck
          exact h.quiet (.inr ⟨io.now, rfl⟩)
        | other code =>
          obtain rfl := Option.some.inj hcheck
          exact h.quiet (.inr ⟨io.now, rfl⟩)
      | ok buf =>
        simp only [hstream, hread, List.foldlM_cons, List.foldlM_nil, transfer] at hcheck
        obtain ⟨p'', hreceived, hdone⟩ := Option.bind_eq_some_iff.mp hcheck
        obtain rfl := Option.some.inj hdone
        obtain ⟨pong, hreceive, rfl⟩ := Option.map_eq_some_iff.mp hreceived
        constructor
        · exact fun hc ↦ by cases hc
        · exact fun _ hts ↦ by cases hts
        · exact fun hbusy ↦ absurd rfl (hbusy io.now)
        · exact h.plain
        · exact h.chunks
        · rw [(Channel.receive_spec hreceive).1]
          exact h.written
        · exact h.answers

/-- Every poll keeps the link. -/
theorem Linked.check {x : Externals} {p p' : Probe} {io : HealthIo} (h : Linked p)
    (hcheck : p.check x io = some p') : Linked p' := by
  cases hs : p.checker.pingState with
  | idle ts => exact linked_pollIdle h hs hcheck
  | connected => exact linked_pollConnected h hs hcheck
  | pingSent ts => exact linked_pollPingSent h hs hcheck

/-- Every turn keeps the link. -/
theorem Linked.step {x : Externals} {p p' : Probe} {io : ProbeIo} (h : Linked p)
    (hstep : p.step x io = some p') : Linked p' := by
  cases io with
  | poll io => exact h.check hstep
  | serve io => exact h.serve hstep

/-! ### Agreement -/

/-- A poll that reads PONG reads the first bytes of its connection. -/
theorem reads_pong {x : Externals} {p p' : Probe} {io : HealthIo} (h : Linked p)
    (hcheck : p.check x io = some p') {stream : TcpStream}
    (hpong : .received stream pongBytes ∈ (p.checker.poll x io).log) :
    (∃ ts, p.checker.pingState = .pingSent ts) ∧ pongBytes <+: p.pong.sent := by
  obtain ⟨ts, buf, hsent, htime, hstream, hread, hbuf⟩ := HealthChecker.received_cases hpong
  have hnot : ¬io.now > ts + 1 := by omega
  simp only [Probe.check, HealthChecker.poll, hsent, HealthChecker.pollPingSent, if_neg hnot,
    hstream, hread, List.foldlM_cons, List.foldlM_nil, transfer, hbuf] at hcheck
  obtain ⟨p'', hreceived, -⟩ := Option.bind_eq_some_iff.mp hcheck
  obtain ⟨pong, hreceive, -⟩ := Option.map_eq_some_iff.mp hreceived
  obtain ⟨hkept, hgot⟩ := Channel.receive_spec hreceive
  have hfirst := pong.inOrder
  rw [hkept, hgot, h.unread (by simp [hsent])] at hfirst
  exact ⟨⟨ts, hsent⟩, hfirst⟩

/-- In every run of a new checker and its server, over any number of connections, whatever turns
they take and however the channels split and join the bytes: when a poll reads PONG, the server
has read exactly PING in one piece of that connection and answered it with the whole PONG, which
is all that it has written there. -/
theorem pong_answers_ping (x : Externals) (serverId : UInt32) (address : String)
    (ios : List ProbeIo) (p p' : Probe) (hrun : (new serverId address).run x ios = some p)
    (io : HealthIo) (hcheck : p.check x io = some p') (stream : TcpStream)
    (hpong : .received stream pongBytes ∈ (p.checker.poll x io).log) :
    ∃ before after, p.answered = before ++ (pingBytes, pongBytes) :: after ∧
      ∀ e ∈ before ++ after, e.2 = [] := by
  have hlinked : Linked p := Turns.run_invariant Linked.step (linked_new serverId address) hrun
  obtain ⟨⟨ts, hsent⟩, hfirst⟩ := reads_pong hlinked hcheck hpong
  -- the first answer that wrote anything answered a PING
  have hletter : ∀ e ∈ p.answered, letterO ∉ e.1 := by
    intro e he hmem
    apply hlinked.plain
    apply p.ping.inOrder.subset
    rw [← hlinked.chunks]
    exact List.mem_flatten.mpr ⟨e.1, List.mem_map_of_mem he, hmem⟩
  rw [← hlinked.written] at hfirst
  obtain ⟨before, written, after, hsplit, hbefore⟩ :=
    first_answer hlinked.answers hletter hfirst
  -- it is the last that the server has read anything for
  obtain ⟨noise, hnoise, hping⟩ := hlinked.asked ts hsent
  have hnothing : (after.map Prod.fst).flatten = [] := by
    have hread := p.ping.inOrder
    rw [← hlinked.chunks, hsplit, hping] at hread
    have hjoined : (before.map Prod.fst).flatten ++ pingBytes ++ (after.map Prod.fst).flatten <+:
        noise ++ pingBytes := by simpa using hread
    exact nothing_after_ping hnoise hjoined
  have hafter : ∀ e ∈ after, e.2 = [] := by
    intro e he
    have hchunk : e.1 = [] := List.flatten_eq_nil_iff.mp hnothing _ (List.mem_map_of_mem he)
    have hanswer : Answers e := hlinked.answers e (by rw [hsplit]; simp [he])
    rw [Answers, hchunk] at hanswer
    exact List.prefix_nil.mp hanswer
  have hsilent : ∀ es : List (Bytes × Bytes), (∀ e ∈ es, e.2 = []) →
      (es.map Prod.snd).flatten = [] := by
    intro es hes
    apply List.flatten_eq_nil_iff.mpr
    intro bs hbs
    obtain ⟨e, he, rfl⟩ := List.mem_map.mp hbs
    exact hes e he
  have hwhole : written = pongBytes := by
    have hanswer : written <+: pongBytes := hlinked.answers (pingBytes, written) (by simp [hsplit])
    rw [hsplit, List.map_append, List.map_cons, List.flatten_append, List.flatten_cons,
      hsilent before hbefore, hsilent after hafter, List.nil_append, List.append_nil] at hfirst
    exact hanswer.eq_of_length_le hfirst.length_le
  subst hwhole
  refine ⟨before, after, hsplit, fun e he ↦ ?_⟩
  rcases List.mem_append.mp he with hb | ha
  · exact hbefore e hb
  · exact hafter e ha

/-- A poll at 31 seconds with a socket that is ready. -/
def readyPoll : HealthIo :=
  ⟨31, .ok 3, {}, [.wrote 4], .ok ⟨pongBytes, HealthChecker.pongBytes_fits⟩⟩

/-- The checker connects and sends its PING, and the server answers it. -/
def answeredPing : List ProbeIo :=
  [.poll readyPoll, .poll readyPoll,
    .serve ⟨.ok ⟨pingBytes, Nat.le_of_ble_eq_true rfl⟩, [.wrote 4]⟩]

/-- The next poll reads the PONG of the server. -/
theorem pong_answers_ping_example :
    ∃ before after, [(pingBytes, pongBytes)] = before ++ (pingBytes, pongBytes) :: after ∧
      ∀ e ∈ before ++ after, e.2 = [] :=
  pong_answers_ping HealthChecker.localhost 0 "127.0.0.1:2006" answeredPing _ _ rfl readyPoll rfl
    ⟨3, ⟨[127, 0, 0, 1], 2006⟩⟩ (by decide)

end Probe
end TcpLoadBalancer
