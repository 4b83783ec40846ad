import Mathlib.Data.List.Basic

/-!
# Non-blocking byte streams

Outcomes of reads and writes on non-blocking streams, the standard `write_all` loop over
single writes, and the traffic of a relay: what was received and what was sent on in each
direction. A transport may accept any number of bytes in a single write and may stop
anywhere with an error.
-/

namespace TcpLoadBalancer.Lib

/-- A byte sequence. -/
abbrev Bytes := List UInt8

/-- The kinds of I/O error a caller can tell apart; `other` carries the system's code. -/
inductive ErrorKind where
  | wouldBlock
  | interrupted
  | writeZero
  | other (code : Nat)
  deriving DecidableEq, Repr

/-- The bytes one read puts into a buffer of the given capacity. -/
abbrev Chunk (capacity : Nat) := { bs : Bytes // bs.length ≤ capacity }

/-- The answer to a single `write`: a number of bytes accepted, or an error. -/
inductive WriteResult where
  | wrote (n : Nat)
  | failed (kind : ErrorKind)
  deriving DecidableEq, Repr

/-- `write_all`: write until nothing is left, retrying an interrupted write. The answers
of the single writes are given in order; a transport that has no further answer blocks.
The accepted bytes are returned with the result. -/
def writeAll : List WriteResult → Bytes → Bytes × Except ErrorKind Unit
  | _, [] => ([], .ok ())
  | [], _ :: _ => ([], .error .wouldBlock)
  | .wrote 0 :: _, _ :: _ => ([], .error .writeZero)
  | .wrote (n + 1) :: answers, b :: bs =>
    let (accepted, result) := writeAll answers ((b :: bs).drop (n + 1))
    ((b :: bs).take (n + 1) ++ accepted, result)
  | .failed .interrupted :: answers, b :: bs => writeAll answers (b :: bs)
  | .failed kind :: _, _ :: _ => ([], .error kind)

/-- The bytes a `write_all` leaves over. -/
def unwritten (answers : List WriteResult) (bs : Bytes) : Bytes :=
  bs.drop (writeAll answers bs).1.length

/-- A `write_all` accepts its input up to some position. -/
theorem writeAll_accepted (answers : List WriteResult) (bs : Bytes) :
    (writeAll answers bs).1 ++ unwritten answers bs = bs := by
  suffices h : ∃ rest, (writeAll answers bs).1 ++ rest = bs by
    obtain ⟨rest, h⟩ := h
    have hdrop : bs.drop (writeAll answers bs).1.length =
        ((writeAll answers bs).1 ++ rest).drop (writeAll answers bs).1.length := by rw [h]
    rw [unwritten, hdrop, List.drop_left, h]
  induction answers generalizing bs with
  | nil => cases bs with
    | nil => exact ⟨[], rfl⟩
    | cons b bs => exact ⟨b :: bs, rfl⟩
  | cons answer answers ih =>
    cases bs with
    | nil => exact ⟨[], by cases answer <;> rfl⟩
    | cons b bs =>
      cases answer with
      | failed kind =>
        cases kind with
        | interrupted => exact ih (b :: bs)
        | wouldBlock => exact ⟨b :: bs, rfl⟩
        | writeZero => exact ⟨b :: bs, rfl⟩
        | other code => exact ⟨b :: bs, rfl⟩
      | wrote n =>
        cases n with
        | zero => exact ⟨b :: bs, rfl⟩
        | succ n =>
          obtain ⟨rest, hrest⟩ := ih ((b :: bs).drop (n + 1))
          refine ⟨rest, ?_⟩
          simp only [writeAll, List.append_assoc]
          rw [hrest, List.take_append_drop]

/-- The bytes that a `write_all` accepts are the start of its input. -/
theorem writeAll_start (answers : List WriteResult) (bs : Bytes) :
    (writeAll answers bs).1 <+: bs := ⟨_, writeAll_accepted answers bs⟩

/-- A `write_all` succeeds exactly when nothing is left over. -/
theorem writeAll_ok_iff (answers : List WriteResult) (bs : Bytes) :
    (writeAll answers bs).2 = .ok () ↔ (writeAll answers bs).1 = bs := by
  induction answers generalizing bs with
  | nil => cases bs <;> simp [writeAll]
  | cons answer answers ih =>
    cases bs with
    | nil => cases answer <;> simp [writeAll]
    | cons b bs =>
      cases answer with
      | failed kind =>
        cases kind with
        | interrupted => exact ih (b :: bs)
        | wouldBlock => simp [writeAll]
        | writeZero => simp [writeAll]
        | other code => simp [writeAll]
      | wrote n =>
        cases n with
        | zero => simp [writeAll]
        | succ n =>
          simp only [writeAll]
          rw [ih]
          constructor
          · intro h
            rw [h, List.take_append_drop]
          · intro h
            nth_rewrite 3 [← List.take_append_drop (n + 1) (b :: bs)] at h
            exact List.append_cancel_left h

/-- A `write_all` that accepted everything answers success, whatever its input. -/
theorem writeAll_ok {answers : List WriteResult} {bs : Bytes}
    (h : (writeAll answers bs).2 = .ok ()) : (writeAll answers bs).1 = bs :=
  (writeAll_ok_iff answers bs).mp h

/-- A `write_all` that ended in an error accepted fewer bytes than it was given. -/
theorem writeAll_error_length {answers : List WriteResult} {bs : Bytes} {kind : ErrorKind}
    (h : (writeAll answers bs).2 = .error kind) :
    (writeAll answers bs).1.length < bs.length := by
  have hne : (writeAll answers bs).1 ≠ bs := by
    intro he
    rw [(writeAll_ok_iff answers bs).mpr he] at h
    cases h
  have hsplit := writeAll_accepted answers bs
  have hlen := congrArg List.length hsplit
  rw [List.length_append] at hlen
  have hrest : unwritten answers bs ≠ [] := by
    intro hnil
    rw [hnil, List.append_nil] at hsplit
    exact hne hsplit
  have := List.length_pos_iff.mpr hrest
  omega

/-! ### Relay traffic -/

/-- One transfer of a relay: bytes received from the source of a direction, or bytes
accepted by its destination. -/
inductive Transfer (δ : Type) where
  | received (direction : δ) (bytes : Bytes)
  | sent (direction : δ) (bytes : Bytes)
  deriving DecidableEq, Repr

namespace Transfer

variable {δ : Type} [DecidableEq δ]

/-- The bytes a transfer receives in a direction. -/
def receivedIn (d : δ) : Transfer δ → Bytes
  | received d' bs => if d' = d then bs else []
  | sent _ _ => []

/-- The bytes a transfer sends in a direction. -/
def sentIn (d : δ) : Transfer δ → Bytes
  | received _ _ => []
  | sent d' bs => if d' = d then bs else []

/-- All bytes received in a direction, in order. -/
def allReceived (d : δ) (log : List (Transfer δ)) : Bytes := log.flatMap (receivedIn d)

/-- All bytes sent in a direction, in order. -/
def allSent (d : δ) (log : List (Transfer δ)) : Bytes := log.flatMap (sentIn d)

/-- A relay is lossless when every direction sent on exactly what it received. -/
def Lossless (log : List (Transfer δ)) : Prop := ∀ d, allSent d log = allReceived d log

/-- Received bytes accumulate in order. -/
@[simp] theorem allReceived_append (d : δ) (log log' : List (Transfer δ)) :
    allReceived d (log ++ log') = allReceived d log ++ allReceived d log' :=
  List.flatMap_append

/-- Sent bytes accumulate in order. -/
@[simp] theorem allSent_append (d : δ) (log log' : List (Transfer δ)) :
    allSent d (log ++ log') = allSent d log ++ allSent d log' :=
  List.flatMap_append

/-- Traffic that is lossless piece by piece is lossless. -/
theorem Lossless.append {log log' : List (Transfer δ)} (h : Lossless log) (h' : Lossless log') :
    Lossless (log ++ log') := by
  intro d
  rw [allSent_append, allReceived_append, h d, h' d]

/-- No traffic is lossless traffic. -/
theorem lossless_nil : Lossless ([] : List (Transfer δ)) := fun _ ↦ rfl

/-- Traffic that never sends more than it received. -/
def Bounded (log : List (Transfer δ)) : Prop :=
  ∀ d, (allSent d log).length ≤ (allReceived d log).length

/-- Traffic that is bounded piece by piece is bounded. -/
theorem Bounded.append {log log' : List (Transfer δ)} (h : Bounded log) (h' : Bounded log') :
    Bounded (log ++ log') := by
  intro d
  have hd := h d
  have hd' := h' d
  simp only [allSent_append, allReceived_append, List.length_append]
  omega

/-- No traffic is bounded traffic. -/
theorem bounded_nil : Bounded ([] : List (Transfer δ)) := fun _ ↦ Nat.le_refl _

/-- A byte that one piece of bounded traffic has lost is lost for good: both pieces of
lossless traffic carried as many bytes on as they received. -/
theorem Lossless.length_of_append {log log' : List (Transfer δ)} (h : Lossless (log ++ log'))
    (hb : Bounded log) (hb' : Bounded log') (d : δ) :
    (allSent d log).length = (allReceived d log).length ∧
      (allSent d log').length = (allReceived d log').length := by
  have hlen := congrArg List.length (h d)
  simp only [allSent_append, allReceived_append, List.length_append] at hlen
  have hd := hb d
  have hd' := hb' d
  omega

end Transfer
end TcpLoadBalancer.Lib
