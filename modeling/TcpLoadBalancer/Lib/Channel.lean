import Mathlib.Data.List.Infix

/-!
# Channels

A channel carries a stream in its order: what was taken out of it is a prefix of what was put
into it, whatever the pieces in which it was put in and taken out. A process that forwards from
one channel to the next may drop some of what it takes; it then thins the stream out, and along
a chain of such processes what comes out at the end went in at the start, in this order.
-/

namespace TcpLoadBalancer.Lib

/-- A stream on its way: all that was put in, and what was taken out so far. -/
structure Channel (α : Type) where
  sent : List α
  received : List α
  inOrder : received <+: sent

namespace Channel

variable {α : Type}

/-- Nothing was put in. -/
def empty : Channel α := ⟨[], [], List.prefix_rfl⟩

/-- Put a piece in. -/
def send (c : Channel α) (piece : List α) : Channel α :=
  ⟨c.sent ++ piece, c.received, c.inOrder.trans (List.prefix_append _ _)⟩

/-- Nothing was sent into an empty channel. -/
@[simp] theorem sent_empty : (empty : Channel α).sent = [] := rfl

/-- Nothing was received from an empty channel. -/
@[simp] theorem received_empty : (empty : Channel α).received = [] := rfl

/-- What is sent comes last. -/
@[simp] theorem sent_send (c : Channel α) (piece : List α) :
    (c.send piece).sent = c.sent ++ piece := rfl

/-- Sending receives nothing. -/
@[simp] theorem received_send (c : Channel α) (piece : List α) :
    (c.send piece).received = c.received := rfl

/-- Take a piece out, if it is what comes next. -/
def receive [DecidableEq α] (c : Channel α) (piece : List α) : Option (Channel α) :=
  if h : c.received ++ piece <+: c.sent then some ⟨c.sent, c.received ++ piece, h⟩ else none

/-- Taking a piece out leaves what was put in. -/
theorem receive_spec [DecidableEq α] {c c' : Channel α} {piece : List α}
    (h : c.receive piece = some c') : c'.sent = c.sent ∧ c'.received = c.received ++ piece := by
  unfold receive at h
  split at h
  · obtain rfl := Option.some.inj h
    exact ⟨rfl, rfl⟩
  · cases h

/-- A piece that is taken out was put in. -/
theorem subset_of_receive [DecidableEq α] {c c' : Channel α} {piece : List α}
    (h : c.receive piece = some c') : piece ⊆ c.sent := by
  obtain ⟨hsent, hreceived⟩ := receive_spec h
  have horder := c'.inOrder
  rw [hsent, hreceived] at horder
  exact fun b hb ↦ horder.subset (List.mem_append_right _ hb)

/-- Taking nothing out changes nothing. -/
@[simp] theorem receive_nil [DecidableEq α] (c : Channel α) : c.receive [] = some c := by
  simp [receive, c.inOrder]

/-- Putting nothing in changes nothing. -/
@[simp] theorem send_nil (c : Channel α) : c.send [] = c := by
  simp [send]

/-! ### Chains of channels -/

variable {a b a' b' : Channel α} {piece : List α}

/-- A process between `a` and `b` took a piece out of `a` and put the start of it into `b`; all
of it if `whole`. -/
def Hop [DecidableEq α] (whole : Prop) (a b a' b' : Channel α) : Prop :=
  ∃ piece kept, a.receive piece = some a' ∧ b' = b.send kept ∧ kept <+: piece ∧
    (whole → kept = piece)

/-- A process that does nothing. -/
theorem hop_idle [DecidableEq α] (whole : Prop) (a b : Channel α) : Hop whole a b a b :=
  ⟨[], [], receive_nil a, (send_nil b).symm, List.prefix_rfl, fun _ ↦ rfl⟩

/-- A hop is whole under more conditions, too. -/
theorem Hop.imp [DecidableEq α] {whole whole' : Prop} (h : Hop whole a b a' b')
    (himp : whole' → whole) : Hop whole' a b a' b' := by
  obtain ⟨piece, kept, hreceive, hsend, hkept, hwhole⟩ := h
  exact ⟨piece, kept, hreceive, hsend, hkept, fun h' ↦ hwhole (himp h')⟩

/-- A hop puts nothing into the channel that it reads. -/
theorem Hop.sent_eq [DecidableEq α] {whole : Prop} (h : Hop whole a b a' b') :
    a'.sent = a.sent := by
  obtain ⟨piece, kept, hreceive, -⟩ := h
  exact (receive_spec hreceive).1

/-- A hop takes nothing out of the channel that it writes. -/
theorem Hop.received_eq [DecidableEq α] {whole : Prop} (h : Hop whole a b a' b') :
    b'.received = b.received := by
  obtain ⟨piece, kept, -, rfl, -⟩ := h
  rfl

/-- What was put into `b` was taken out of `a`, in this order, with nothing added. -/
def Thins (a b : Channel α) : Prop := b.sent.Sublist a.received

/-- A hop drops bytes, and adds none. -/
theorem Thins.hop [DecidableEq α] {whole : Prop} (h : Thins a b)
    (hhop : Hop whole a b a' b') : Thins a' b' := by
  obtain ⟨piece, kept, hreceive, rfl, hkept, -⟩ := hhop
  rw [Thins, (receive_spec hreceive).2]
  exact h.append hkept.sublist

/-- Taking out of `b` changes nothing between `a` and `b`. -/
theorem Thins.receive [DecidableEq α] (h : Thins a b) (hreceive : b.receive piece = some b') :
    Thins a b' := by
  rw [Thins, (receive_spec hreceive).1]
  exact h

/-- What went into `b` went into `a`, in this order. -/
theorem Thins.sent_sublist (h : Thins a b) : b.sent.Sublist a.sent :=
  h.trans a.inOrder.sublist

/-- What comes out of `b` went into `a`, in this order. -/
theorem Thins.received_sublist (h : Thins a b) : b.received.Sublist a.sent :=
  b.inOrder.sublist.trans h.sent_sublist

/-- What was put into `b` is the start of what was taken out of `a`, and all of it as long as
the process between them is live. -/
def Forwards (live : Prop) (a b : Channel α) : Prop :=
  b.sent <+: a.received ∧ (live → b.sent = a.received)

/-- A live process forwards; it is live afterwards only if it put in all that it took. -/
theorem Forwards.hop [DecidableEq α] {live live' : Prop} (h : Forwards live a b)
    (hlive : live) (hhop : Hop live' a b a' b') : Forwards live' a' b' := by
  obtain ⟨piece, kept, hreceive, rfl, hkept, hwhole⟩ := hhop
  have hsent : b.sent = a.received := h.2 hlive
  have hreceived : a'.received = a.received ++ piece := (receive_spec hreceive).2
  constructor
  · rw [hreceived, sent_send, hsent]
    exact (List.prefix_append_right_inj a.received).mpr hkept
  · intro h'
    rw [hreceived, sent_send, hsent, hwhole h']

/-- A process that ends forwards nothing more. -/
theorem Forwards.imp {live live' : Prop} (h : Forwards live a b) (hlive : live' → live) :
    Forwards live' a b := ⟨h.1, fun h' ↦ h.2 (hlive h')⟩

/-- Taking out of `b` changes nothing between `a` and `b`. -/
theorem Forwards.receive [DecidableEq α] {live : Prop} (h : Forwards live a b)
    (hreceive : b.receive piece = some b') : Forwards live a b' := by
  rw [Forwards, (receive_spec hreceive).1]
  exact h

/-- What comes out of `b` is the start of what went into `a`. -/
theorem Forwards.received_start {live : Prop} (h : Forwards live a b) : b.received <+: a.sent :=
  (b.inOrder.trans h.1).trans a.inOrder

/-- All that was put in was taken out. -/
def Drained (a : Channel α) : Prop := a.received = a.sent

/-- When nothing is on its way and the process between is live, all that went into `a` came out
of `b`. -/
theorem Forwards.drained {live : Prop} (h : Forwards live a b) (hlive : live) (ha : a.Drained)
    (hb : b.Drained) : b.received = a.sent := by
  rw [hb, h.2 hlive, ha]

end Channel
end TcpLoadBalancer.Lib
