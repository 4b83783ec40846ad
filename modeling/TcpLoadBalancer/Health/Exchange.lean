import TcpLoadBalancer.Health.Recovery

/-!
# The exchange of PING and PONG

What becomes of a check between its connect and its answer: how long the answer may take, with
a clock of whole seconds, and what happens when the transport takes PING or delivers PONG in
pieces.
-/

namespace TcpLoadBalancer
open Lib

/-- A poll at a real time in milliseconds: the clock shows the seconds, rounded down. -/
def HealthIo.atTime (io : HealthIo) (ms : Int) : HealthIo := { io with now := ms / 1000 }

namespace HealthChecker

/-! ### Polls -/

/-- A CONNECTED checker of a run from a new one has its stream. -/
theorem connected_stream {x : Externals} {serverId : UInt32} {address : String}
    {ios : List HealthIo} {n : Nat} (hn : n ≤ ios.length)
    (h : (stateAt x (.new serverId address) ios n).pingState = .connected) :
    ∃ stream, (stateAt x (.new serverId address) ios n).upStream = some stream := by
  have hbegun : Begun x (.new serverId address) ios n := begun hn
  rw [Begun, h] at hbegun
  obtain ⟨stream, a, han, -, hongoing⟩ := hbegun
  exact ⟨stream, (hongoing n han le_rfl).1⟩

variable {x : Externals} {hc : HealthChecker} {io : HealthIo}

/-- PING goes through. -/
theorem poll_writes {stream : TcpStream} (hconnected : hc.pingState = .connected)
    (hstream : hc.upStream = some stream) (hok : (writeAll io.writes pingBytes).2 = .ok ()) :
    hc.poll x io =
      ⟨.ok (), { hc with pingState := .pingSent io.now }, [.wrote stream pingBytes (.ok ())]⟩ := by
  have hwrite : writeAll io.writes pingBytes = (pingBytes, .ok ()) :=
    Prod.ext (writeAll_ok hok) hok
  simp only [poll, hconnected, pollConnected, hstream, hwrite]

/-- PING is blocked; what was accepted of it is not remembered. -/
theorem poll_blocked {stream : TcpStream} (hconnected : hc.pingState = .connected)
    (hstream : hc.upStream = some stream)
    (hblocked : (writeAll io.writes pingBytes).2 = .error .wouldBlock) :
    hc.poll x io =
      ⟨.ok (), hc, [.wrote stream (writeAll io.writes pingBytes).1 (.error .wouldBlock)]⟩ := by
  have hwrite : writeAll io.writes pingBytes =
      ((writeAll io.writes pingBytes).1, .error .wouldBlock) := Prod.ext rfl hblocked
  rw [hwrite]
  simp only [poll, hconnected, pollConnected, hstream]
  rw [hwrite]

/-- Nothing to read yet. -/
theorem poll_waits {ts : Int} (hsent : hc.pingState = .pingSent ts) (htime : io.now ≤ ts + 1)
    (hread : io.read = .error .wouldBlock) : hc.poll x io = .done hc := by
  have hlate : ¬io.now > ts + 1 := by omega
  simp only [poll, hsent, pollPingSent, if_neg hlate, hread]
  split <;> rfl

/-- The next check is not due. -/
theorem poll_rests {ts : Int} (hidle : hc.pingState = .idle ts) (htime : io.now ≤ ts + 30) :
    hc.poll x io = .done hc := by
  have hdue : ¬io.now > ts + 30 := by omega
  simp only [poll, hidle, pollIdle, if_neg hdue]

/-- While no check is due, a run does nothing. -/
theorem run_rests {ts : Int} {ios : List HealthIo} (hidle : hc.pingState = .idle ts)
    (htime : ∀ io ∈ ios, io.now ≤ ts + 30) : Action.loop (step x) ios hc = .done hc := by
  apply Action.loop_done
  intro io hio
  exact poll_rests hidle (htime io hio)

/-- Whatever is written whole is the PING of a CONNECTED checker. -/
theorem wrote_cases {stream : TcpStream} {bytes : Bytes}
    (h : .wrote stream bytes (.ok ()) ∈ (hc.poll x io).log) :
    hc.pingState = .connected ∧ hc.upStream = some stream ∧
      (writeAll io.writes pingBytes).2 = .ok () := by
  unfold poll at h
  split at h
  · simp only [pollIdle, Outcome.done] at h
    repeat' split at h
    all_goals simp at h
  · next hconnected =>
    unfold pollConnected at h
    split at h
    · next st hstream =>
      split at h
      · next accepted hwrite =>
        simp only [List.mem_singleton, HealthEvent.wrote.injEq, and_true] at h
        rw [h.1]
        exact ⟨hconnected, hstream, congrArg Prod.snd hwrite⟩
      · simp at h
      · simp at h
    · simp [Outcome.done] at h
  · simp only [pollPingSent, Outcome.done] at h
    repeat' split at h
    all_goals simp at h

/-! ### The time of an answer -/

/-- The checker after a poll at the real time `s` and further ones, each at a real time of its
own. -/
def pollsAt (x : Externals) (hc : HealthChecker) (s : Int) (ping : HealthIo)
    (waits : List (Int × HealthIo)) : HealthChecker :=
  (Action.loop (step x) (ping.atTime s :: waits.map fun w ↦ w.2.atTime w.1) hc).state

/-- While there is nothing to read, a check stays as it was when its PING was written, for a
second at least. -/
theorem pollsAt_waits {stream : TcpStream} {s r : Int} {ping : HealthIo}
    {waits : List (Int × HealthIo)}
    (hping : .wrote stream pingBytes (.ok ()) ∈ (hc.poll x (ping.atTime s)).log)
    (hwaits : ∀ w ∈ waits, s ≤ w.1 ∧ w.1 ≤ r ∧ w.2.read = .error .wouldBlock)
    (htime : r < s + 1000) :
    pollsAt x hc s ping waits = { hc with pingState := .pingSent (s / 1000) } := by
  obtain ⟨hconnected, hstream, hok⟩ := wrote_cases hping
  have hsent := poll_writes (x := x) hconnected hstream hok
  have hfixed : ∀ io ∈ waits.map (fun w ↦ w.2.atTime w.1),
      (step x io { hc with pingState := .pingSent (s / 1000) }).state =
        { hc with pingState := .pingSent (s / 1000) } := by
    intro io hio
    obtain ⟨w, hw, rfl⟩ := List.mem_map.mp hio
    obtain ⟨hle, hler, hread⟩ := hwaits w hw
    have hclock : (w.2.atTime w.1).now ≤ s / 1000 + 1 := by
      show w.1 / 1000 ≤ s / 1000 + 1
      omega
    rw [step, poll_waits rfl hclock hread]
    rfl
  rw [pollsAt, Action.loop]
  simp only [step, hsent]
  exact congrArg Outcome.state (Action.loop_fixed hfixed)

/-- A poll writes PING at the real time `s` and, after polls with nothing to read, a poll at
the real time `r` less than a second later reads PONG: the server is healthy exactly when `s`
and `r` lie in the same second of the clock. -/
theorem timelyPong_healthy_iff (x : Externals) (hc : HealthChecker) (stream : TcpStream)
    (s r : Int) (ping pong : HealthIo) (waits : List (Int × HealthIo))
    (hping : .wrote stream pingBytes (.ok ()) ∈ (hc.poll x (ping.atTime s)).log)
    (hwaits : ∀ w ∈ waits, s ≤ w.1 ∧ w.1 ≤ r ∧ w.2.read = .error .wouldBlock)
    (hpong : .received stream pongBytes ∈
      ((pollsAt x hc s ping waits).poll x (pong.atTime r)).log)
    (htime : s ≤ r ∧ r < s + 1000) :
    ((pollsAt x hc s ping waits).poll x (pong.atTime r)).state.upstreamState = .healthy ↔
      s / 1000 = r / 1000 := by
  rw [pollsAt_waits hping hwaits htime.2] at hpong ⊢
  obtain ⟨ts, buf, hsent, hintime, hstream, hread, hbuf⟩ := received_cases hpong
  rw [poll_answer x hsent hintime hstream hread]
  obtain rfl : s / 1000 = ts := PingState.pingSent.inj hsent
  have hnow : (pong.atTime r).now = r / 1000 := rfl
  simp only [hnow, if_pos hbuf]
  by_cases hlate : r / 1000 > s / 1000
  · rw [if_pos hlate]
    exact iff_of_false (by decide) (by omega)
  · rw [if_neg hlate]
    exact iff_of_true rfl (by omega)

/-- PONG fits the buffer of a check. -/
theorem pongBytes_fits : pongBytes.length ≤ 16 := by decide

/-- Everything succeeds at once. -/
def prompt : HealthIo :=
  { now := 0, connect := .ok 3, options := {}, writes := [.wrote 4],
    read := .ok ⟨pongBytes, pongBytes_fits⟩ }

/-- A new checker that has connected at the clock value 31. -/
def localChecker : HealthChecker :=
  (Action.loop (step localhost) [prompt.atTime 31000] (.new 0 "127.0.0.1:2006")).state

/-- PING at 31.2 seconds, one poll without an answer, and PONG at 31.9 seconds. -/
theorem timelyPong_healthy_example :
    ((pollsAt localhost localChecker 31200 prompt
        [(31500, { prompt with read := .error .wouldBlock })]).poll localhost
          (prompt.atTime 31900)).state.upstreamState = .healthy ↔
      (31200 : Int) / 1000 = 31900 / 1000 :=
  timelyPong_healthy_iff localhost localChecker ⟨3, ⟨[127, 0, 0, 1], 2006⟩⟩ 31200 31900 prompt
    prompt [(31500, { prompt with read := .error .wouldBlock })] (by decide) (by decide)
    (by decide) (by decide)

/-- A PING at 31.9 seconds that is answered within 200 milliseconds makes the server
unhealthy. -/
theorem timelyPong_unhealthy :
    ¬∀ (x : Externals) (serverId : UInt32) (address : String) (prior : List HealthIo)
      (stream : TcpStream) (s r : Int) (ping pong : HealthIo) (waits : List (Int × HealthIo)),
      let hc := (Action.loop (step x) prior (.new serverId address)).state
      .wrote stream pingBytes (.ok ()) ∈ (hc.poll x (ping.atTime s)).log →
      (∀ w ∈ waits, s ≤ w.1 ∧ w.1 ≤ r ∧ w.2.read = .error .wouldBlock) →
      .received stream pongBytes ∈ ((pollsAt x hc s ping waits).poll x (pong.atTime r)).log →
      s ≤ r ∧ r < s + 1000 →
      ((pollsAt x hc s ping waits).poll x (pong.atTime r)).state.upstreamState = .healthy := by
  intro h
  have hhealthy := h localhost 0 "127.0.0.1:2006" [prompt.atTime 31000]
    ⟨3, ⟨[127, 0, 0, 1], 2006⟩⟩ 31900 32100 prompt prompt [] (by decide) (by decide) (by decide)
    (by decide)
  revert hhealthy
  decide

/-! ### Split PING and PONG -/

/-- The bytes accepted on a stream. -/
def bytesSent (stream : TcpStream) (log : List HealthEvent) : Bytes :=
  log.flatMap fun e ↦
    match e with
    | .wrote stream' accepted _ => if stream' = stream then accepted else []
    | _ => []

/-- The pieces in which an answer arrives. -/
def pieces (ios : List HealthIo) : List Bytes :=
  ios.filterMap fun io ↦
    match io.read with
    | .ok buf => some buf.val
    | .error _ => none

/-- A write of PING in one call and a read of PONG in one call, at the clock value `t`. -/
def oneCall (t : Int) : List HealthIo := [{ prompt with now := t }, { prompt with now := t }]

/-- The reads of an answer that arrives in pieces, all at the time of the PING: the first
piece ends the check. -/
theorem reads_state {stream : TcpStream} {t : Int} {reads : List HealthIo}
    (hsent : hc.pingState = .pingSent t) (hstream : hc.upStream = some stream)
    (hclock : ∀ io ∈ reads, io.now = t)
    (hread : ∀ io ∈ reads, io.read = .error .wouldBlock ∨ ∃ buf, io.read = .ok buf)
    {piece : Bytes} {rest : List Bytes} (hpieces : pieces reads = piece :: rest) :
    (Action.loop (step x) reads hc).state =
        { hc with
          upstreamState := if piece = pongBytes then .healthy else hc.upstreamState
          upStream := none
          pingState := .idle t } ∧
      bytesSent stream (Action.loop (step x) reads hc).log = [] := by
  induction reads with
  | nil => cases hpieces
  | cons io reads ih =>
    have hnow : io.now = t := hclock io (by simp)
    rcases hread io (by simp) with hblock | ⟨buf, hbuf⟩
    · have hpoll := poll_waits (x := x) hsent (by omega : io.now ≤ t + 1) hblock
      have hrest : pieces reads = piece :: rest := by
        rw [pieces, List.filterMap_cons_none (by rw [hblock])] at hpieces
        exact hpieces
      rw [Action.loop]
      simp only [step, hpoll, Outcome.done, List.nil_append]
      exact ih (fun io' hio ↦ hclock io' (by simp [hio])) (fun io' hio ↦ hread io' (by simp [hio]))
        hrest
    · have hpoll := poll_answer x hsent (by omega : io.now ≤ t + 1) hstream hbuf
      have hpiece : buf.val = piece := by
        rw [pieces, List.filterMap_cons_some (by rw [hbuf])] at hpieces
        exact (List.cons.inj hpieces).1
      have hnot : ¬io.now > t := by omega
      rw [hpiece, if_neg hnot, hnow] at hpoll
      -- from here on the checker is idle and not due
      have hidle : (hc.poll x io).state.pingState = .idle t := by rw [hpoll]
      have hrun : Action.loop (step x) reads (hc.poll x io).state = .done (hc.poll x io).state := by
        apply run_rests hidle
        intro io' hio
        have hnow' := hclock io' (by simp [hio])
        omega
      rw [Action.loop]
      show (Action.loop (step x) reads (hc.poll x io).state).state = _ ∧
        bytesSent stream ((hc.poll x io).log ++
          (Action.loop (step x) reads (hc.poll x io).state).log) = []
      rw [hrun, hpoll]
      exact ⟨rfl, rfl⟩

/-- Bytes accumulate in the order in which they are accepted. -/
theorem bytesSent_append (stream : TcpStream) (log log' : List HealthEvent) :
    bytesSent stream (log ++ log') = bytesSent stream log ++ bytesSent stream log' :=
  List.flatMap_append

/-- PING goes through and the answer arrives, in pieces or not. -/
theorem exchange_state {stream : TcpStream} {t : Int} {sent : HealthIo} {reads : List HealthIo}
    (hconnected : hc.pingState = .connected) (hstream : hc.upStream = some stream)
    (hclock : ∀ io ∈ sent :: reads, io.now = t)
    (hsent : (writeAll sent.writes pingBytes).2 = .ok ())
    (hread : ∀ io ∈ reads, io.read = .error .wouldBlock ∨ ∃ buf, io.read = .ok buf)
    {piece : Bytes} {rest : List Bytes} (hpieces : pieces reads = piece :: rest) :
    (Action.loop (step x) (sent :: reads) hc).state =
        { hc with
          upstreamState := if piece = pongBytes then .healthy else hc.upstreamState
          upStream := none
          pingState := .idle t } ∧
      bytesSent stream (Action.loop (step x) (sent :: reads) hc).log = pingBytes := by
  have hnow : sent.now = t := hclock sent (by simp)
  have hpoll := poll_writes (x := x) hconnected hstream hsent
  rw [hnow] at hpoll
  have hpinged : (hc.poll x sent).state.pingState = .pingSent t := by rw [hpoll]
  have hstream' : (hc.poll x sent).state.upStream = some stream := by rw [hpoll]; exact hstream
  have hreads := reads_state (x := x) hpinged hstream' (fun io hio ↦ hclock io (by simp [hio]))
    hread hpieces
  rw [Action.loop]
  simp only [step, bytesSent_append] at hreads ⊢
  rw [hreads.1, hreads.2, hpoll]
  refine ⟨rfl, ?_⟩
  simp [bytesSent]

/-- PONG read in one call. -/
theorem prompt_reads (t : Int) : ∀ io ∈ [{ prompt with now := t }],
    io.read = .error .wouldBlock ∨ ∃ buf, io.read = .ok buf := by
  intro io hio
  rw [List.mem_singleton.mp hio]
  exact .inr ⟨⟨pongBytes, pongBytes_fits⟩, rfl⟩

/-- In one call each, PING and PONG leave a healthy and idle checker. -/
theorem oneCall_state {stream : TcpStream} (t : Int) (hconnected : hc.pingState = .connected)
    (hstream : hc.upStream = some stream) :
    (Action.loop (step x) (oneCall t) hc).state =
        { hc with upstreamState := .healthy, upStream := none, pingState := .idle t } ∧
      bytesSent stream (Action.loop (step x) (oneCall t) hc).log = pingBytes := by
  have hclock : ∀ io ∈ oneCall t, io.now = t := by
    intro io hio
    simp only [oneCall, List.mem_cons, List.not_mem_nil, or_false, or_self] at hio
    rw [hio]
  have hpieces : pieces [{ prompt with now := t }] = [pongBytes] := rfl
  exact exchange_state hconnected hstream hclock rfl (prompt_reads t) hpieces

/-- Blocked writes of PING before the exchange only add the bytes that they accepted. -/
theorem split_state {stream : TcpStream} {blocked polls : List HealthIo}
    (hconnected : hc.pingState = .connected) (hstream : hc.upStream = some stream)
    (hblocked : ∀ io ∈ blocked, (writeAll io.writes pingBytes).2 = .error .wouldBlock) :
    (Action.loop (step x) (blocked ++ polls) hc).state = (Action.loop (step x) polls hc).state ∧
      bytesSent stream (Action.loop (step x) (blocked ++ polls) hc).log =
        (blocked.flatMap fun io ↦ (writeAll io.writes pingBytes).1) ++
          bytesSent stream (Action.loop (step x) polls hc).log := by
  have hpolls : ∀ io ∈ blocked, step x io hc =
      ⟨.ok (), hc, [.wrote stream (writeAll io.writes pingBytes).1 (.error .wouldBlock)]⟩ :=
    fun io hio ↦ poll_blocked hconnected hstream (hblocked io hio)
  have hbytes : bytesSent stream (blocked.flatMap fun io ↦ (step x io hc).log) =
      blocked.flatMap fun io ↦ (writeAll io.writes pingBytes).1 := by
    rw [bytesSent, List.flatMap_assoc]
    apply List.flatMap_congr
    intro io hio
    simp [hpolls io hio]
  have hrun : Action.loop (step x) blocked hc =
      ⟨.ok (), hc, blocked.flatMap fun io ↦ (step x io hc).log⟩ :=
    Action.loop_fixed fun io hio ↦ by rw [hpolls io hio]
  rw [Action.loop_append, hrun]
  exact ⟨rfl, by rw [bytesSent_append, hbytes]⟩

/-- The first piece is the whole exactly when it is the only one. -/
theorem first_piece_iff {piece : Bytes} {rest : List Bytes} {bs : Bytes}
    (hempty : [] ∉ piece :: rest) (hall : (piece :: rest).flatten = bs) :
    piece = bs ↔ piece :: rest = [bs] := by
  constructor
  · intro heq
    have hrest : rest.flatten = [] := by
      rw [List.flatten_cons, heq] at hall
      exact List.append_right_eq_self.mp hall
    cases rest with
    | nil => rw [heq]
    | cons next rest =>
      have hnext : next = [] := (List.append_eq_nil_iff.mp hrest).1
      exact absurd (by simp [hnext]) hempty
  · exact fun heq ↦ (List.cons.inj heq).1

/-- A run of a CONNECTED checker within one second: any number of blocked writes of PING, each
of which may have taken a part of it, one that goes through, and reads that deliver the bytes
of PONG. When both are exchanged in one call, PING is sent once and the checker is HEALTHY and
IDLE. The run does the same exactly when no blocked write took a byte, and PONG came in one
piece or the checker was HEALTHY before. -/
theorem split_verdict_iff (x : Externals) (hc : HealthChecker) (stream : TcpStream) (t : Int)
    (blocked reads : List HealthIo) (sent : HealthIo) (hconnected : hc.pingState = .connected)
    (hstream : hc.upStream = some stream)
    (hclock : ∀ io ∈ blocked ++ sent :: reads, io.now = t)
    (hblocked : ∀ io ∈ blocked, (writeAll io.writes pingBytes).2 = .error .wouldBlock)
    (hsent : (writeAll sent.writes pingBytes).2 = .ok ())
    (hread : ∀ io ∈ reads, io.read = .error .wouldBlock ∨ ∃ buf, io.read = .ok buf)
    (hpieces : [] ∉ pieces reads ∧ (pieces reads).flatten = pongBytes) :
    let whole := Action.loop (step x) (oneCall t) hc
    let split := Action.loop (step x) (blocked ++ sent :: reads) hc
    (bytesSent stream whole.log = pingBytes ∧ whole.state.upstreamState = .healthy ∧
        whole.state.pingState = .idle t) ∧
      ((bytesSent stream split.log = pingBytes ∧
          split.state.upstreamState = whole.state.upstreamState ∧
          split.state.pingState = whole.state.pingState) ↔
        (∀ io ∈ blocked, (writeAll io.writes pingBytes).1 = []) ∧
          (hc.upstreamState = .healthy ∨ pieces reads = [pongBytes])) := by
  intro whole split
  have hwhole : whole.state = _ ∧ bytesSent stream whole.log = pingBytes :=
    oneCall_state t hconnected hstream
  have hsplit : split.state = _ ∧ bytesSent stream split.log = _ :=
    split_state hconnected hstream hblocked
  cases hpiece : pieces reads with
  | nil =>
    rw [hpiece] at hpieces
    exact absurd hpieces.2 (by decide)
  | cons piece rest =>
    have hexchange := exchange_state (x := x) hconnected hstream
      (fun io hio ↦ hclock io (List.mem_append_right _ hio)) hsent hread hpiece
    rw [hpiece] at hpieces
    refine ⟨⟨hwhole.2, by rw [hwhole.1], by rw [hwhole.1]⟩, ?_⟩
    rw [hsplit.1, hsplit.2, hwhole.1, hexchange.1, hexchange.2, List.append_left_eq_self,
      List.flatMap_eq_nil_iff, ← first_piece_iff hpieces.1 hpieces.2]
    by_cases hpong : piece = pongBytes
    · simp [hpong]
    · simp [hpong]

/-- PING taken in two calls and PONG read in two pieces, at the clock value 31. -/
def splitPolls : List HealthIo × HealthIo × List HealthIo :=
  let io : HealthIo := { prompt with now := 31 }
  ([{ io with writes := [.wrote 2] }], io,
    [{ io with read := .ok ⟨[80, 79], by decide⟩ }, { io with read := .ok ⟨[78, 71], by decide⟩ }])

/-- Both PING and PONG are split. -/
theorem split_verdict_example :
    let whole := Action.loop (step localhost) (oneCall 31) localChecker
    let split := Action.loop (step localhost)
      (splitPolls.1 ++ splitPolls.2.1 :: splitPolls.2.2) localChecker
    let stream : TcpStream := ⟨3, ⟨[127, 0, 0, 1], 2006⟩⟩
    (bytesSent stream whole.log = pingBytes ∧ whole.state.upstreamState = .healthy ∧
        whole.state.pingState = .idle 31) ∧
      ((bytesSent stream split.log = pingBytes ∧
          split.state.upstreamState = whole.state.upstreamState ∧
          split.state.pingState = whole.state.pingState) ↔
        (∀ io ∈ splitPolls.1, (writeAll io.writes pingBytes).1 = []) ∧
          (localChecker.upstreamState = .healthy ∨ pieces splitPolls.2.2 = [pongBytes])) :=
  split_verdict_iff localhost localChecker ⟨3, ⟨[127, 0, 0, 1], 2006⟩⟩ 31 splitPolls.1
    splitPolls.2.2 splitPolls.2.1 (by decide) (by decide) (by decide) (by decide) (by decide)
    (fun io hio ↦ by
      rcases List.mem_pair.mp hio with rfl | rfl
      · exact .inr ⟨_, rfl⟩
      · exact .inr ⟨_, rfl⟩)
    (by decide)

/-- When PING is taken in two calls, the server is sent `PIPING`. -/
theorem split_ping_sent_twice :
    ¬∀ (x : Externals) (hc : HealthChecker) (stream : TcpStream) (t : Int)
      (blocked reads : List HealthIo) (sent : HealthIo), hc.pingState = .connected →
      hc.upStream = some stream →
      (∀ io ∈ blocked ++ sent :: reads, io.now = t) →
      (∀ io ∈ blocked, (writeAll io.writes pingBytes).2 = .error .wouldBlock) →
      (writeAll sent.writes pingBytes).2 = .ok () →
      (∀ io ∈ reads, io.read = .error .wouldBlock ∨ ∃ buf, io.read = .ok buf) →
      [] ∉ pieces reads ∧ (pieces reads).flatten = pongBytes →
      let split := Action.loop (step x) (blocked ++ sent :: reads) hc
      bytesSent stream split.log = pingBytes ∧ split.state.upstreamState = .healthy ∧
        split.state.pingState = .idle t := by
  intro h
  have hsplit := h localhost localChecker ⟨3, ⟨[127, 0, 0, 1], 2006⟩⟩ 31 splitPolls.1
    [{ prompt with now := 31 }] splitPolls.2.1 (by decide) (by decide) (by decide) (by decide)
    (by decide) (prompt_reads 31) (by decide)
  revert hsplit
  decide

end HealthChecker
end TcpLoadBalancer
