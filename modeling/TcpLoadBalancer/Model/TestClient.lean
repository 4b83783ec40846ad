import TcpLoadBalancer.Lib.Action
import TcpLoadBalancer.Model.Connection

/-!
# The test client

The client that comes with the balancer: after its handshake it writes numbered greetings, reads
five times after each of them, and ends at the first error. `step` is one operation on its TLS
stream, so that other parties may act between any two of them. The counter of the greetings is a
natural number: no run writes 2^64 of them.
-/

namespace TcpLoadBalancer
open Lib

/-- The errors that `main` returns. -/
inductive TestClientError where
  | io (kind : ErrorKind)
  | message (text : String)
  | fromUtf8 (bytes : Bytes)
  deriving DecidableEq

/-- Where `main` stands: in the loop over the handshake, before a greeting, before read `i` of
the loop after it, or at its end, which a read or the write of a greeting has brought about. -/
inductive TestClientPlace where
  | handshaking
  | writing
  | reading (i : Nat)
  | ended (e : TestClientError)
  | endedWriting (kind : ErrorKind)
  deriving DecidableEq

/-- The test client. -/
structure TestClient where
  place : TestClientPlace
  cnt : Nat
  deriving DecidableEq

/-- The outcomes of one operation: what `is_handshaking` answers, the read, and the single writes
of `write_all`. -/
structure TestClientIo where
  handshaking : Bool
  read : Except ErrorKind (Chunk 1024)
  writes : List WriteResult

namespace TestClient

/-- `src/bin/client.rs:42`. -/
def new : TestClient := ⟨.handshaking, 0⟩

/-- `format!("HELLO_{cnt}").as_bytes()`. -/
def greeting (cnt : Nat) : Bytes :=
  [72, 69, 76, 76, 79, 95] ++ (Nat.toDigits 10 cnt).map fun c ↦ c.toNat.toUInt8

/-- The reads after a greeting. -/
def readsPerGreeting : Nat := 5

/-- The end of `main` after a read. -/
def finish (c : TestClient) (e : TestClientError) (log : List (Transfer Direction)) :
    Outcome TestClientError TestClient (Transfer Direction) :=
  ⟨.error e, { c with place := .ended e }, log⟩

/-- The handshake loop, `src/bin/client.rs:45–77`. -/
def handshake (c : TestClient) (io : TestClientIo) :
    Outcome TestClientError TestClient (Transfer Direction) :=
  if io.handshaking then
    match io.read with
    | .ok buf =>
      if buf.val.length = 0 then c.finish (.message "Connection closed") []
      else ⟨.ok (), c, [.received .down buf.val]⟩
    | .error .wouldBlock => .done c
    | .error kind => c.finish (.io kind) []
  else .done { c with place := .writing }

/-- A greeting, `src/bin/client.rs:89–105`. -/
def greet (c : TestClient) (io : TestClientIo) :
    Outcome TestClientError TestClient (Transfer Direction) :=
  match writeAll io.writes (greeting c.cnt) with
  | (accepted, .ok ()) => ⟨.ok (), ⟨.reading 0, c.cnt + 1⟩, [.sent .up accepted]⟩
  -- "wait for next poll": what is left of the greeting is dropped
  | (accepted, .error .wouldBlock) => ⟨.ok (), ⟨.reading 0, c.cnt + 1⟩, [.sent .up accepted]⟩
  | (accepted, .error kind) =>
    ⟨.error (.io kind), { c with place := .endedWriting kind }, [.sent .up accepted]⟩

/-- After read `i` of the loop over `0..5`. -/
def afterRead (c : TestClient) (i : Nat) : TestClient :=
  { c with place := if i + 1 < readsPerGreeting then .reading (i + 1) else .writing }

/-- Read `i` after a greeting, `src/bin/client.rs:109–129`. -/
def readAnswer (c : TestClient) (i : Nat) (io : TestClientIo) :
    Outcome TestClientError TestClient (Transfer Direction) :=
  match io.read with
  | .ok buf =>
    if buf.val.length = 0 then c.finish (.message "Connection closed") []
    else
      match String.fromUTF8? buf.val.toByteArray with
      | some _ => ⟨.ok (), c.afterRead i, [.received .down buf.val]⟩
      | none => c.finish (.fromUtf8 buf.val) [.received .down buf.val]
  | .error .wouldBlock => .done (c.afterRead i)
  | .error kind => c.finish (.io kind) []

/-- One operation of `main`, `src/bin/client.rs:45–135`. -/
def step (c : TestClient) (io : TestClientIo) :
    Outcome TestClientError TestClient (Transfer Direction) :=
  match c.place with
  | .handshaking => c.handshake io
  | .writing => c.greet io
  | .reading i => c.readAnswer i io
  | .ended _ => .done c
  | .endedWriting _ => .done c

/-- `main` has returned. -/
def hasEnded (c : TestClient) : Bool :=
  match c.place with
  | .ended _ => true
  | .endedWriting _ => true
  | _ => false

/-- The greetings that `main` has begun to write: one more than it has counted when it ended in
the write of one. -/
def begun (c : TestClient) : Nat :=
  match c.place with
  | .endedWriting _ => c.cnt + 1
  | _ => c.cnt

/-- While `main` goes on, it has counted every greeting. -/
theorem begun_of_goes {c : TestClient} (h : c.hasEnded = false) : c.begun = c.cnt := by
  unfold begun
  split
  · next hended => simp [hasEnded, hended] at h
  · rfl

/-- The write of a greeting stops at `WouldBlock` with bytes left. -/
def cuts (c : TestClient) (io : TestClientIo) : Bool :=
  c.place == .writing &&
    match (writeAll io.writes (greeting c.cnt)).2 with
    | .error .wouldBlock => true
    | _ => false

/-! ### Steps -/

/-- A greeting: all of it or a part is written and the reads begin, or `main` ends. -/
theorem greet_cases (c : TestClient) (io : TestClientIo) :
    (c.greet io).log = [.sent .up (writeAll io.writes (greeting c.cnt)).1] ∧
      (((writeAll io.writes (greeting c.cnt)).2 = .ok () ∧
          (c.greet io).state = ⟨.reading 0, c.cnt + 1⟩) ∨
        ((writeAll io.writes (greeting c.cnt)).2 = .error .wouldBlock ∧
          (c.greet io).state = ⟨.reading 0, c.cnt + 1⟩) ∨
        ∃ kind, kind ≠ .wouldBlock ∧ (writeAll io.writes (greeting c.cnt)).2 = .error kind ∧
          (c.greet io).state = ⟨.endedWriting kind, c.cnt⟩) := by
  unfold greet
  generalize writeAll io.writes (greeting c.cnt) = w
  obtain ⟨accepted, result⟩ := w
  cases result with
  | ok u => exact ⟨rfl, .inl ⟨rfl, rfl⟩⟩
  | error kind =>
    cases kind with
    | wouldBlock => exact ⟨rfl, .inr (.inl ⟨rfl, rfl⟩)⟩
    | interrupted => exact ⟨rfl, .inr (.inr ⟨_, by simp, rfl, rfl⟩)⟩
    | writeZero => exact ⟨rfl, .inr (.inr ⟨_, by simp, rfl, rfl⟩)⟩
    | other code => exact ⟨rfl, .inr (.inr ⟨_, by simp, rfl, rfl⟩)⟩

/-- `main` ends over text: what it read last is not UTF-8. -/
def EndsOverText (c : TestClient) (log : List (Transfer Direction)) : Prop :=
  ∃ bytes, c.place = .ended (.fromUtf8 bytes) ∧ log = [.received .down bytes] ∧
    ¬bytes.toByteArray.IsValidUTF8

/-- What a step other than a greeting does: it reads a chunk or nothing, begins no greeting and
stays at the end once it is there. -/
structure Reads (c : TestClient) (r : Outcome TestClientError TestClient (Transfer Direction)) :
    Prop where
  log : r.log = [] ∨ ∃ bytes, r.log = [.received .down bytes]
  begun : r.state.begun = c.begun
  stays : c.hasEnded = true → r.state = c
  text : ∀ bytes, r.state.place = .ended (.fromUtf8 bytes) →
    c.place = .ended (.fromUtf8 bytes) ∨ r.state.EndsOverText r.log

private theorem reads_nothing {c c' : TestClient} {result : Except TestClientError Unit}
    (hbegun : c'.begun = c.begun) (hopen : c.hasEnded = false)
    (htext : ∀ bytes, c'.place ≠ .ended (.fromUtf8 bytes)) : c.Reads ⟨result, c', []⟩ where
  log := .inl rfl
  begun := hbegun
  stays h := by simp [hopen] at h
  text bytes h := absurd h (htext bytes)

private theorem reads_chunk {c c' : TestClient} {result : Except TestClientError Unit}
    {bytes : Bytes} (hbegun : c'.begun = c.begun) (hopen : c.hasEnded = false)
    (htext : ∀ bytes', c'.place = .ended (.fromUtf8 bytes') →
      c'.EndsOverText [.received .down bytes]) :
    c.Reads ⟨result, c', [.received .down bytes]⟩ where
  log := .inr ⟨bytes, rfl⟩
  begun := hbegun
  stays h := by simp [hopen] at h
  text bytes' h := .inr (htext bytes' h)

/-- A turn of the handshake loop reads. -/
theorem handshake_reads {c : TestClient} (hplace : c.place = .handshaking) (io : TestClientIo) :
    c.Reads (c.handshake io) := by
  have hopen : c.hasEnded = false := by simp [hasEnded, hplace]
  have hbegun : c.begun = c.cnt := begun_of_goes hopen
  unfold handshake
  split
  · split
    · split
      · exact reads_nothing hbegun.symm hopen (by simp)
      · exact reads_chunk rfl hopen (by simp [hplace])
    · exact reads_nothing rfl hopen (by simp [hplace])
    · exact reads_nothing hbegun.symm hopen (by simp)
  · exact reads_nothing hbegun.symm hopen (by simp)

/-- After a read the greetings go on. -/
theorem afterRead_goes (c : TestClient) (i : Nat) :
    (c.afterRead i).hasEnded = false ∧ (c.afterRead i).begun = c.cnt := by
  unfold afterRead
  split <;> exact ⟨rfl, rfl⟩

/-- A read after a greeting reads, and ends over text only if the chunk is not UTF-8. -/
theorem readAnswer_reads {c : TestClient} {i : Nat} (hplace : c.place = .reading i)
    (io : TestClientIo) : c.Reads (c.readAnswer i io) := by
  have hopen : c.hasEnded = false := by simp [hasEnded, hplace]
  have hbegun : c.begun = c.cnt := begun_of_goes hopen
  have hgoes := c.afterRead_goes i
  have hafter : ∀ bytes, (c.afterRead i).place ≠ .ended (.fromUtf8 bytes) := by
    intro bytes hended
    simp [hasEnded, hended] at hgoes
  unfold readAnswer
  split
  · next buf hread =>
    split
    · exact reads_nothing hbegun.symm hopen (by simp)
    · split
      · exact reads_chunk (hgoes.2.trans hbegun.symm) hopen
          fun bytes h ↦ absurd h (hafter bytes)
      · next hinvalid =>
        refine reads_chunk hbegun.symm hopen fun _ _ ↦ ⟨buf.val, rfl, rfl, ?_⟩
        simpa [String.fromUTF8?] using hinvalid
  · exact reads_nothing (hgoes.2.trans hbegun.symm) hopen hafter
  · exact reads_nothing hbegun.symm hopen (by simp)

/-- A step is a greeting or reads. -/
theorem step_cases (c : TestClient) (io : TestClientIo) :
    (c.place = .writing ∧ c.step io = c.greet io) ∨ c.Reads (c.step io) := by
  cases hplace : c.place with
  | handshaking =>
    right
    simpa only [step, hplace] using handshake_reads hplace io
  | writing => exact .inl ⟨rfl, by simp only [step, hplace]⟩
  | reading i =>
    right
    simpa only [step, hplace] using readAnswer_reads hplace io
  | ended e =>
    right
    simp only [step, hplace]
    exact ⟨.inl rfl, rfl, fun _ ↦ rfl, fun _ h ↦ .inl (hplace ▸ h)⟩
  | endedWriting kind =>
    right
    simp only [step, hplace]
    exact ⟨.inl rfl, rfl, fun _ ↦ rfl, fun _ h ↦ .inl (hplace ▸ h)⟩

/-! ### Text -/

private theorem valid_singleton {b : UInt8} (h : b < 128) : [b].toByteArray.IsValidUTF8 := by
  have hb : b.toNat < 128 := h
  have hvalid : b.toNat.isValidChar := .inl (by omega)
  have hvalue : (Char.ofNat b.toNat).val.toNat = b.toNat := by
    rw [Char.ofNat, dif_pos hvalid]
    rfl
  have hencode : String.utf8EncodeChar (Char.ofNat b.toNat) = [b] := by
    simp only [String.utf8EncodeChar, hvalue]
    rw [if_pos (by omega), UInt8.ofNat_toNat]
  rw [← hencode]
  exact Char.isValidUTF8_toByteArray_utf8EncodeChar

/-- ASCII is UTF-8. -/
theorem valid_of_ascii {bs : Bytes} (h : ∀ b ∈ bs, b < 128) : bs.toByteArray.IsValidUTF8 := by
  induction bs with
  | nil => exact ByteArray.isValidUTF8_empty
  | cons b bs ih =>
    have hone := valid_singleton (h b (by simp))
    have hrest := ih fun b' hb' ↦ h b' (by simp [hb'])
    have happend := hone.append hrest
    rwa [← List.toByteArray_append] at happend

/-- The first greetings, one after the other. -/
def greetings (n : Nat) : Bytes := (List.range n).flatMap greeting

/-- The next greeting. -/
theorem greetings_succ (n : Nat) : greetings (n + 1) = greetings n ++ greeting n := by
  simp [greetings, List.range_succ]

/-- `b'P'`. -/
def letterP : UInt8 := 80

/-- A greeting is ASCII, and has no P. -/
theorem greeting_letters {cnt : Nat} {b : UInt8} (h : b ∈ greeting cnt) :
    b < 128 ∧ b ≠ letterP := by
  rcases List.mem_append.mp h with hhello | hdigit
  · have hall : ([72, 69, 76, 76, 79, 95] : Bytes).all (fun b ↦ b < 128 && b != letterP) = true :=
      rfl
    simpa using List.all_eq_true.mp hall b hhello
  · obtain ⟨c, hc, rfl⟩ := List.mem_map.mp hdigit
    have hisDigit := Nat.isDigit_of_mem_toDigits (by decide) (by decide) hc
    simp only [Char.isDigit, Bool.and_eq_true, decide_eq_true_eq] at hisDigit
    have hrange : 48 ≤ c.toNat ∧ c.toNat ≤ 57 := hisDigit
    have hvalue : c.toNat.toUInt8.toNat = c.toNat := by
      rw [Nat.toUInt8, UInt8.toNat_ofNat']
      omega
    constructor
    · rw [UInt8.lt_iff_toNat_lt, hvalue]
      exact Nat.lt_of_le_of_lt hrange.2 (by decide)
    · intro hletter
      have heq : c.toNat = 80 := by rw [← hvalue, hletter]; rfl
      omega

/-- Greetings are ASCII, and have no P. -/
theorem greetings_letters {n : Nat} {b : UInt8} (h : b ∈ greetings n) :
    b < 128 ∧ b ≠ letterP := by
  obtain ⟨cnt, -, hb⟩ := List.mem_flatMap.mp h
  exact greeting_letters hb

end TestClient
end TcpLoadBalancer
