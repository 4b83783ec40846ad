import TcpLoadBalancer.Model.Connection

/-!
# What a connection relays

The read buffers of `Connection::poll` are locals of one call, so what a blocked write
leaves over is gone with the call. A run that keeps the connection open relays every byte
exactly when no `write_all` of the run blocked.
-/

namespace TcpLoadBalancer
open Lib Transfer

/-- The source of a half closed or failed, or its destination failed. -/
def halfFatal (read : Except ErrorKind (Chunk 2048)) (writes : List WriteResult) : Bool :=
  match read with
  | .ok buf =>
    if buf.val.length = 0 then true
    else
      match (writeAll writes buf.val).2 with
      | .ok () => false
      | .error .wouldBlock => false
      | .error _ => true
  | .error .wouldBlock => false
  | .error _ => true

/-- The `write_all` of a half stopped at `WouldBlock` with bytes left. -/
def halfBlocks (read : Except ErrorKind (Chunk 2048)) (writes : List WriteResult) : Bool :=
  match read with
  | .ok buf =>
    match (writeAll writes buf.val).2 with
    | .error .wouldBlock => true
    | _ => false
  | .error _ => false

namespace ConnectionIo

/-- Some operation of the poll met the end of a stream or an error that is not
`WouldBlock`. -/
def fatal (io : ConnectionIo) : Bool :=
  halfFatal io.downRead io.upWrites || halfFatal io.upRead io.downWrites

/-- Some `write_all` of the poll stopped at `WouldBlock` with bytes left. -/
def blocks (io : ConnectionIo) : Bool :=
  halfBlocks io.downRead io.upWrites || halfBlocks io.upRead io.downWrites

end ConnectionIo

namespace Connection

/-- A run of polls of one connection. -/
def relay : List ConnectionIo → Action Error Connection (Transfer Direction) :=
  Action.loop fun io c ↦ c.poll io

/-! ### One half of a poll -/

variable {d : Direction} {readEnd writeEnd nextState : ConnState}
  {read : Except ErrorKind (Chunk 2048)} {writes : List WriteResult}

/-- What a half can do: nothing, end the connection, or take a chunk and write some of it. -/
theorem relayHalf_cases (d : Direction) (readEnd writeEnd nextState : ConnState)
    (read : Except ErrorKind (Chunk 2048)) (writes : List WriteResult) :
    (relayHalf d readEnd writeEnd read writes nextState = (nextState, []) ∧
      halfFatal read writes = false ∧ halfBlocks read writes = false) ∨
    (relayHalf d readEnd writeEnd read writes nextState = (readEnd, []) ∧
      halfFatal read writes = true) ∨
    ∃ buf, read = .ok buf ∧
      (relayHalf d readEnd writeEnd read writes nextState).2 =
        [.received d buf.val, .sent d (writeAll writes buf.val).1] ∧
      (((writeAll writes buf.val).2 = .ok () ∧ halfFatal read writes = false ∧
          halfBlocks read writes = false ∧
          (relayHalf d readEnd writeEnd read writes nextState).1 = nextState) ∨
        ((writeAll writes buf.val).2 = .error .wouldBlock ∧ halfFatal read writes = false ∧
          halfBlocks read writes = true ∧
          (relayHalf d readEnd writeEnd read writes nextState).1 = nextState) ∨
        (halfFatal read writes = true ∧
          (relayHalf d readEnd writeEnd read writes nextState).1 = writeEnd)) := by
  cases read with
  | error kind => cases kind <;> simp [relayHalf, halfFatal, halfBlocks]
  | ok buf =>
    by_cases hlen : buf.val.length = 0
    · right; left
      simp [relayHalf, halfFatal, hlen]
    · right; right
      refine ⟨buf, rfl, ?_⟩
      rcases hw : writeAll writes buf.val with ⟨accepted, result⟩
      cases result with
      | ok u => simp [relayHalf, halfFatal, halfBlocks, hlen, hw]
      | error kind => cases kind <;> simp [relayHalf, halfFatal, halfBlocks, hlen, hw]

/-- A half keeps the next state unless it met something fatal; then it ends the
connection. -/
theorem relayHalf_okay_iff (hread : readEnd ≠ .okay) (hwrite : writeEnd ≠ .okay) :
    (relayHalf d readEnd writeEnd read writes nextState).1 = .okay ↔
      nextState = .okay ∧ halfFatal read writes = false := by
  rcases relayHalf_cases d readEnd writeEnd nextState read writes with
    ⟨he, hf, -⟩ | ⟨he, hf⟩ | ⟨buf, -, -, ⟨-, hf, -, he⟩ | ⟨-, hf, -, he⟩ | ⟨hf, he⟩⟩
  · simp [he, hf]
  · simp [he, hf, hread]
  · simp [he, hf]
  · simp [he, hf]
  · simp [he, hf, hwrite]

private theorem transfer_allSent (d d' : Direction) (bs accepted : Bytes) :
    allSent d [.received d' bs, .sent d' accepted] = if d' = d then accepted else [] := by
  simp [allSent, sentIn]

private theorem transfer_allReceived (d d' : Direction) (bs accepted : Bytes) :
    allReceived d [.received d' bs, .sent d' accepted] = if d' = d then bs else [] := by
  simp [allReceived, receivedIn]

/-- A half never sends more than it received. -/
theorem relayHalf_bounded (d : Direction) (readEnd writeEnd nextState : ConnState)
    (read : Except ErrorKind (Chunk 2048)) (writes : List WriteResult) :
    Bounded (relayHalf d readEnd writeEnd read writes nextState).2 := by
  rcases relayHalf_cases d readEnd writeEnd nextState read writes with
    ⟨he, -⟩ | ⟨he, -⟩ | ⟨buf, -, he, -⟩
  · rw [he]
    exact bounded_nil
  · rw [he]
    exact bounded_nil
  · rw [he]
    intro d'
    have hlen := congrArg List.length (writeAll_accepted writes buf.val)
    rw [List.length_append] at hlen
    rw [transfer_allSent, transfer_allReceived]
    split
    · omega
    · exact Nat.le_refl _

/-- A half that met nothing fatal and did not block sends what it received. -/
theorem relayHalf_lossless (hfatal : halfFatal read writes = false)
    (hblocks : halfBlocks read writes = false) :
    Lossless (relayHalf d readEnd writeEnd read writes nextState).2 := by
  rcases relayHalf_cases d readEnd writeEnd nextState read writes with
    ⟨he, -⟩ | ⟨-, hf⟩ | ⟨buf, -, he, ⟨hw, -⟩ | ⟨-, -, hb, -⟩ | ⟨hf, -⟩⟩
  · rw [he]
    exact lossless_nil
  · simp [hfatal] at hf
  · rw [he, writeAll_ok hw]
    intro d'
    rw [transfer_allSent, transfer_allReceived]
  · simp [hblocks] at hb
  · simp [hfatal] at hf

/-- A half that blocked has lost bytes of its direction. -/
theorem relayHalf_loses (d : Direction) (readEnd writeEnd nextState : ConnState)
    (hblocks : halfBlocks read writes = true) (hfatal : halfFatal read writes = false) :
    (allSent d (relayHalf d readEnd writeEnd read writes nextState).2).length <
      (allReceived d (relayHalf d readEnd writeEnd read writes nextState).2).length := by
  rcases relayHalf_cases d readEnd writeEnd nextState read writes with
    ⟨-, -, hb⟩ | ⟨-, hf⟩ | ⟨buf, -, he, ⟨-, -, hb, -⟩ | ⟨hw, -⟩ | ⟨hf, -⟩⟩
  · simp [hblocks] at hb
  · simp [hfatal] at hf
  · simp [hblocks] at hb
  · rw [he, transfer_allSent, transfer_allReceived, if_pos rfl, if_pos rfl]
    exact writeAll_error_length hw
  · simp [hfatal] at hf

/-! ### One poll -/

/-- A poll keeps a connection open exactly when it met nothing fatal. -/
theorem poll_okay_iff (c : Connection) (io : ConnectionIo) :
    (c.poll io).state.connState = .okay ↔ c.connState = .okay ∧ io.fatal = false := by
  by_cases hc : c.connState = .okay
  · simp only [poll, hc, relayDown, relayUp, ConnectionIo.fatal, Bool.or_eq_false_iff, true_and]
    rw [relayHalf_okay_iff (by decide) (by decide), relayHalf_okay_iff (by decide) (by decide)]
    simp
  · have hpoll : c.poll io = ⟨.ok (), c, []⟩ := by
      unfold poll
      split
      · next h => exact absurd h hc
      · rfl
    simp [hpoll, hc]

/-- The traffic of a poll of an open connection. -/
theorem poll_log_of_okay {c : Connection} (hc : c.connState = .okay) (io : ConnectionIo) :
    (c.poll io).log = (relayUp io .okay).2 ++ (relayDown io (relayUp io .okay).1).2 := by
  simp only [poll, hc]

/-- A poll never sends more than it received. -/
theorem poll_bounded (c : Connection) (io : ConnectionIo) : Bounded (c.poll io).log := by
  unfold poll
  split
  · exact Bounded.append (relayHalf_bounded _ _ _ _ _ _) (relayHalf_bounded _ _ _ _ _ _)
  · exact bounded_nil

/-- A poll that met nothing fatal and did not block sends what it received. -/
theorem poll_lossless {c : Connection} {io : ConnectionIo} (hc : c.connState = .okay)
    (hfatal : io.fatal = false) (hblocks : io.blocks = false) : Lossless (c.poll io).log := by
  simp only [ConnectionIo.fatal, Bool.or_eq_false_iff] at hfatal
  simp only [ConnectionIo.blocks, Bool.or_eq_false_iff] at hblocks
  rw [poll_log_of_okay hc]
  exact (relayHalf_lossless hfatal.1 hblocks.1).append (relayHalf_lossless hfatal.2 hblocks.2)

/-- An open connection whose poll carried on as many bytes as it received did not block. -/
theorem poll_blocks_of_length {c : Connection} {io : ConnectionIo} (hc : c.connState = .okay)
    (hfatal : io.fatal = false)
    (hlen : ∀ d, (allSent d (c.poll io).log).length = (allReceived d (c.poll io).log).length) :
    io.blocks = false := by
  simp only [ConnectionIo.fatal, Bool.or_eq_false_iff] at hfatal
  rw [poll_log_of_okay hc] at hlen
  have hup := relayHalf_bounded .up .downDisconnect .upDisconnect .okay io.downRead io.upWrites
  have hdown := relayHalf_bounded .down .upDisconnect .downDisconnect (relayUp io .okay).1
    io.upRead io.downWrites
  rw [ConnectionIo.blocks, Bool.or_eq_false_iff]
  constructor
  · by_contra hb
    have hloss := relayHalf_loses .up .downDisconnect .upDisconnect .okay (by simpa using hb)
      hfatal.1
    have htotal := hlen .up
    have hother := hdown .up
    simp only [allSent_append, allReceived_append, List.length_append, relayUp, relayDown]
      at htotal hother
    omega
  · by_contra hb
    have hloss := relayHalf_loses .down .upDisconnect .downDisconnect (relayUp io .okay).1
      (by simpa using hb) hfatal.2
    have htotal := hlen .down
    have hother := hup .down
    simp only [allSent_append, allReceived_append, List.length_append, relayUp, relayDown]
      at htotal hother hloss
    omega

/-! ### Runs -/

/-- A run leaves a connection open exactly when no poll of it met anything fatal. -/
theorem relay_okay_iff (c : Connection) (ios : List ConnectionIo) :
    (relay ios c).state.connState = .okay ↔
      c.connState = .okay ∧ ∀ io ∈ ios, io.fatal = false := by
  induction ios generalizing c with
  | nil => simp [relay, Action.loop, Action.skip, Outcome.done]
  | cons io ios ih =>
    have hstep := ih (c.poll io).state
    simp only [relay, Action.loop] at hstep ⊢
    rw [hstep, poll_okay_iff]
    simp only [List.mem_cons, forall_eq_or_imp, and_assoc]

/-- A run never sends more than it received. -/
theorem relay_bounded (c : Connection) (ios : List ConnectionIo) :
    Bounded (relay ios c).log :=
  Action.loop_invariant (I := fun log _ ↦ Bounded log)
    (fun _ _ _ _ h ↦ h.append (poll_bounded _ _)) bounded_nil

private theorem relay_lossless_iff {c : Connection} {ios : List ConnectionIo}
    (hc : c.connState = .okay) (hfatal : ∀ io ∈ ios, io.fatal = false) :
    Lossless (relay ios c).log ↔ ∀ io ∈ ios, io.blocks = false := by
  induction ios generalizing c with
  | nil =>
    have hnil : Lossless (relay [] c).log := lossless_nil
    simp [hnil]
  | cons io ios ih =>
    have hio := hfatal io (by simp)
    have hnext := (poll_okay_iff c io).mpr ⟨hc, hio⟩
    have hrest := ih hnext fun j hj ↦ hfatal j (by simp [hj])
    have hlog : (relay (io :: ios) c).log = (c.poll io).log ++ (relay ios (c.poll io).state).log :=
      rfl
    rw [hlog, List.forall_mem_cons, ← hrest]
    constructor
    · intro hl
      have hlen := fun d ↦ hl.length_of_append (poll_bounded c io) (relay_bounded _ ios) d
      have hblocks := poll_blocks_of_length hc hio fun d ↦ (hlen d).1
      refine ⟨hblocks, fun d ↦ ?_⟩
      have hd := hl d
      rw [allSent_append, allReceived_append, poll_lossless hc hio hblocks d] at hd
      exact List.append_cancel_left hd
    · rintro ⟨hblocks, htail⟩
      exact (poll_lossless hc hio hblocks).append htail

/-- A run that left the connection open relayed every byte in both directions, in order and
once, exactly when none of its `write_all` calls stopped at `WouldBlock` with bytes left. -/
theorem relay_lossless_of_okay_iff (c : Connection) (ios : List ConnectionIo) :
    ((relay ios c).state.connState = .okay → Lossless (relay ios c).log) ↔
      (c.connState = .okay → (∀ io ∈ ios, io.fatal = false) →
        ∀ io ∈ ios, io.blocks = false) := by
  rw [relay_okay_iff]
  constructor
  · intro h hc hfatal
    exact (relay_lossless_iff hc hfatal).mp (h ⟨hc, hfatal⟩)
  · rintro h ⟨hc, hfatal⟩
    exact (relay_lossless_iff hc hfatal).mpr (h hc hfatal)

/-- A client byte read while the upstream socket does not accept it: the poll leaves the
connection open and the byte is gone. -/
theorem relay_loses_blocked_byte :
    let c : Connection := ⟨⟨3, ⟨[127, 0, 0, 1], 40000⟩⟩, ⟨4, ⟨[127, 0, 0, 1], 2500⟩⟩,
      ⟨false, none⟩, .okay, 0, 0⟩
    let io : ConnectionIo := ⟨.ok ⟨[65], by decide⟩, [.failed .wouldBlock],
      .error .wouldBlock, [], ⟨false, none⟩⟩
    (relay [io] c).state.connState = .okay ∧ allReceived .up (relay [io] c).log = [65] ∧
      allSent .up (relay [io] c).log = [] ∧ ¬Lossless (relay [io] c).log := by
  refine ⟨by decide, by decide, by decide, fun h ↦ ?_⟩
  exact absurd (h .up) (by decide)

end Connection
end TcpLoadBalancer
