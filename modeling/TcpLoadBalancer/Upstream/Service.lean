import TcpLoadBalancer.Model.Upstream

/-!
# The streams of the upstream server

A pass removes exactly the streams that fail. A stream that has reached its end does not fail:
its empty read is echoed by an empty write, which always succeeds, so the stream stays.
-/

namespace TcpLoadBalancer
open Lib

namespace Upstream

/-- The bytes that answer what was read. -/
def reply (bs : Bytes) : Bytes := if bs = pingBytes then pongBytes else bs

/-- The read reports the end of the stream. -/
def StreamIo.ends (io : StreamIo) : Bool :=
  match io.read with
  | .ok buf => buf.val.isEmpty
  | .error _ => false

/-- The read, or the write of the answer, meets an error other than `WouldBlock`. -/
def StreamIo.fails (io : StreamIo) : Bool :=
  match io.read with
  | .ok buf =>
    match (writeAll io.writes (reply buf.val)).2 with
    | .ok () => false
    | .error .wouldBlock => false
    | .error _ => true
  | .error .wouldBlock => false
  | .error _ => true

/-- The write of the answer stops at `WouldBlock` with bytes left. -/
def StreamIo.blocks (io : StreamIo) : Bool :=
  match io.read with
  | .ok buf =>
    match (writeAll io.writes (reply buf.val)).2 with
    | .error .wouldBlock => true
    | _ => false
  | .error _ => false

/-- A pass panics at no index, keeps the streams that neither ended nor failed in their order
and removes each of the others once. -/
def PassExact (ios : Nat → StreamIo) (streams : List TcpStream) : Prop :=
  ∃ pass, servicePass ios streams = some pass ∧
    pass.streams =
      (streams.zipIdx.filter fun e ↦ !((ios e.2).ends || (ios e.2).fails)).map Prod.fst ∧
    pass.removed.Perm
      ((streams.zipIdx.filter fun e ↦ (ios e.2).ends || (ios e.2).fails).map Prod.fst)

/-- The service removes the streams that fail. -/
theorem serviceStream_removes (io : StreamIo) : (serviceStream io).1 = io.fails := by
  have hanswer : ∀ bs, (answer io.writes bs).1 =
      match (writeAll io.writes bs).2 with
      | .ok () => false
      | .error .wouldBlock => false
      | .error _ => true := by
    intro bs
    unfold answer
    obtain ⟨accepted, result⟩ := writeAll io.writes bs
    cases result with
    | ok u => rfl
    | error kind => cases kind <;> rfl
  unfold serviceStream StreamIo.fails
  cases io.read with
  | ok buf =>
    by_cases hping : buf.val = pingBytes
    · simp only [if_pos hping, reply, hanswer]
    · simp only [if_neg hping, reply, hanswer]
  | error kind => cases kind <;> rfl

/-- The bytes that a stream accepts are the start of the answer to what was read. -/
theorem serviceStream_start {io : StreamIo} {buf : Chunk 1024} (hread : io.read = .ok buf) :
    (serviceStream io).2 <+: reply buf.val := by
  have hanswer : ∀ bs, (answer io.writes bs).2 <+: bs := by
    intro bs
    have hwrite := writeAll_start io.writes bs
    unfold answer
    split
    · next h => rwa [h] at hwrite
    · next h => rwa [h] at hwrite
    · next h => rwa [h] at hwrite
  unfold reply serviceStream
  simp only [hread]
  split
  · exact hanswer _
  · exact hanswer _

/-- A stream that stays and does not block accepts the whole answer. -/
theorem serviceStream_whole {io : StreamIo} {buf : Chunk 1024} (hread : io.read = .ok buf)
    (hstays : (serviceStream io).1 = false) (hblocks : io.blocks = false) :
    (serviceStream io).2 = reply buf.val := by
  have hanswer : ∀ bs, (answer io.writes bs).1 = false →
      (writeAll io.writes bs).2 ≠ .error .wouldBlock → (answer io.writes bs).2 = bs := by
    intro bs hkept hwrite
    have hok : (writeAll io.writes bs).2 = .ok () → (writeAll io.writes bs).1 = bs := writeAll_ok
    unfold answer at hkept ⊢
    generalize writeAll io.writes bs = w at hkept hwrite hok ⊢
    obtain ⟨accepted, result⟩ := w
    cases result with
    | ok u => exact hok rfl
    | error kind => cases kind <;> simp at hkept hwrite
  have hwrite : (writeAll io.writes (reply buf.val)).2 ≠ .error .wouldBlock := by
    intro h
    simp [StreamIo.blocks, hread, h] at hblocks
  unfold serviceStream at hstays ⊢
  simp only [hread] at hstays ⊢
  unfold reply at hwrite ⊢
  split
  · next hping => exact hanswer _ (by simpa [hping] using hstays) (by simpa [hping] using hwrite)
  · next hping => exact hanswer _ (by simpa [hping] using hstays) (by simpa [hping] using hwrite)

/-- A stream at its end does not fail. -/
theorem not_fails_of_ends {io : StreamIo} (h : io.ends = true) : io.fails = false := by
  unfold StreamIo.ends at h
  unfold StreamIo.fails
  cases hread : io.read with
  | error kind => simp [hread] at h
  | ok buf =>
    simp only [hread, List.isEmpty_iff] at h
    have hreply : reply buf.val = [] := by
      rw [h]
      rfl
    have hwrite : (writeAll io.writes []).2 = .ok () := (writeAll_ok_iff _ _).mpr <| by
      cases io.writes <;> simp [writeAll]
    simp only [hreply, hwrite]

/-- What a pass leaves, in terms of the streams that fail. -/
theorem servicePass_fails (ios : Nat → StreamIo) (streams : List TcpStream) :
    ∃ pass, servicePass ios streams = some pass ∧
      pass.streams = (streams.zipIdx.filter fun e ↦ !(ios e.2).fails).map Prod.fst ∧
      pass.removed =
        ((streams.zipIdx.filter fun e ↦ (ios e.2).fails).map Prod.fst).reverse := by
  refine ⟨_, servicePass_eq ios streams, ?_, ?_⟩
  · simp only [serviceStream_removes]
  · simp only [serviceStream_removes]

/-- For all streams and outcomes, a pass is exact if and only if no read reports the end of
its stream. -/
theorem passExact_iff (ios : Nat → StreamIo) (streams : List TcpStream) :
    PassExact ios streams ↔ ∀ i < streams.length, (ios i).ends = false := by
  obtain ⟨pass, hpass, hstreams, hremoved⟩ := servicePass_fails ios streams
  constructor
  · rintro ⟨pass', hpass', hexact, -⟩ i hi
    obtain rfl : pass = pass' := Option.some.inj (hpass.symm.trans hpass')
    -- a stream at its end stays with those that do not fail, which makes one too many
    have hlength := congrArg List.length (hstreams.symm.trans hexact)
    have hfilter : (streams.zipIdx.filter fun e ↦ !((ios e.2).ends || (ios e.2).fails)) =
        (streams.zipIdx.filter fun e ↦ !(ios e.2).fails).filter fun e ↦ !(ios e.2).ends := by
      rw [List.filter_filter]
      simp only [Bool.not_or]
    rw [List.length_map, List.length_map, hfilter, eq_comm, List.length_filter_eq_length_iff]
      at hlength
    cases hends : (ios i).ends with
    | false => rfl
    | true =>
      have hmem : (streams[i], i) ∈ streams.zipIdx.filter fun e ↦ !(ios e.2).fails := by
        apply List.mem_filter.mpr
        refine ⟨List.mk_mem_zipIdx_iff_getElem?.mpr (List.getElem?_eq_getElem hi), ?_⟩
        simp only [not_fails_of_ends hends, Bool.not_false]
      have hopen := hlength _ hmem
      simp only [hends, Bool.not_true, Bool.false_eq_true] at hopen
  · intro hends
    have hsame : ∀ e ∈ streams.zipIdx, ((ios e.2).ends || (ios e.2).fails) = (ios e.2).fails := by
      intro e he
      have hlt : e.2 < streams.length := by
        have := List.mem_zipIdx he
        omega
      rw [hends e.2 hlt, Bool.false_or]
    refine ⟨pass, hpass, ?_, ?_⟩
    · rw [hstreams]
      apply congrArg (List.map Prod.fst)
      apply List.filter_congr
      intro e he
      rw [hsame e he]
    · rw [hremoved, List.filter_congr hsame]
      exact List.reverse_perm _

/-- A stream that its peer has closed stays in the list. -/
theorem closedStream_stays :
    ¬∀ (ios : Nat → StreamIo) (streams : List TcpStream), PassExact ios streams := by
  intro h
  obtain ⟨pass, hpass, hstreams, -⟩ :=
    h (fun _ ↦ ⟨.ok ⟨[], by decide⟩, []⟩) [⟨3, ⟨[127, 0, 0, 1], 40000⟩⟩]
  obtain rfl : ⟨[⟨3, ⟨[127, 0, 0, 1], 40000⟩⟩], [], [[]]⟩ = pass := Option.some.inj hpass
  revert hstreams
  decide

end Upstream
end TcpLoadBalancer
