import TcpLoadBalancer.Model.LoadBalancer

/-!
# The positions of finished partial connections

`handle_partial_connections` records the positions of the errors and of the completed elements
in one pass and removes the two batches one after the other. What the polls return is taken as
any list of results here.
-/

namespace TcpLoadBalancer
open Lib

/-- The partial connection that an event admits. -/
def Event.finishedConn : Event → Option PartialConnection
  | .finished parCxn _ _ => some parCxn
  | _ => none

namespace LoadBalancer

/-- The result of a poll of a partial connection is an error. -/
def errored (r : Outcome Error PartialConnection Bytes) : Bool := !succeeded r.result

/-- The poll of a partial connection succeeded and left it completed. -/
def completed (r : Outcome Error PartialConnection Bytes) : Bool :=
  succeeded r.result && r.state.isCompleted

/-- No position is out of range; the elements that are neither errors nor completed stay in
their order; and every completed element is admitted once, and nothing else. -/
def BooksKept (x : Externals) (results : List (Outcome Error PartialConnection Bytes))
    (ios : Nat → CompletionIo) (lb : LoadBalancer) : Prop :=
  ∃ lb' log, handlePolled x results ios lb = some (lb', log) ∧
    lb'.partialConns =
      (results.filter fun r ↦ !errored r && !completed r).map (fun r ↦ r.state) ∧
    (log.filterMap Event.finishedConn).Perm ((results.filter completed).map fun r ↦ r.state)

/-- A completed element is not an error. -/
theorem errored_of_completed (r : Outcome Error PartialConnection Bytes)
    (h : completed r = true) : errored r = false := by
  rw [completed, Bool.and_eq_true] at h
  rw [errored, h.1, Bool.not_true]

/-- The first batch never leaves the list, and the second one is removed from the rest. -/
theorem handlePolled_rest (x : Externals) (results : List (Outcome Error PartialConnection Bytes))
    (ios : Nat → CompletionIo) (lb : LoadBalancer) :
    handlePolled x results ios lb =
      (removeEach
        (fun i r (s : LoadBalancer × List Event) ↦
          ((complete x r.state (ios i) s.1).state, s.2 ++ (complete x r.state (ios i) s.1).log))
        (positions completed results).reverse (results.filter fun r ↦ !errored r)
        (lb, [])).map
          fun r ↦ ({ r.2.1 with partialConns := r.1.map fun r ↦ r.state }, r.2.2) := by
  have hfirst : removeEach (fun _ _ (u : Unit) ↦ u)
      (positions (fun r ↦ !succeeded r.result) results).reverse (results.map fun r ↦ r.state) () =
        some ((results.filter fun r ↦ !errored r).map fun r ↦ r.state, ()) := by
    rw [removeEach_map, removeEach_positions]
    rfl
  simp only [handlePolled, hfirst, removeEach_map]
  split
  · next hrun =>
    rw [Option.map_eq_none_iff] at hrun
    exact (Option.map_eq_none_iff.mpr hrun).symm
  · next partialConns lb' log hrun =>
    obtain ⟨⟨rest, _, _⟩, hout, he⟩ := Option.map_eq_some_iff.mp hrun
    cases he
    symm
    exact Option.map_eq_some_iff.mpr ⟨_, hout, rfl⟩

/-- The admissions of a batch are logged in its order. -/
theorem foldl_finished (x : Externals) (ios : Nat → CompletionIo)
    (es : List (Nat × Outcome Error PartialConnection Bytes)) (lb : LoadBalancer)
    (log : List Event) :
    (es.foldl
      (fun (s : LoadBalancer × List Event) e ↦
        ((complete x e.2.state (ios e.1) s.1).state,
          s.2 ++ (complete x e.2.state (ios e.1) s.1).log))
      (lb, log)).2.filterMap Event.finishedConn =
      log.filterMap Event.finishedConn ++ es.map fun e ↦ e.2.state := by
  induction es generalizing lb log with
  | nil => simp
  | cons e es ih =>
    rw [List.foldl_cons, ih, List.filterMap_append, List.map_cons, List.append_assoc]
    rfl

/-- The books are kept when no error stands before a completed element. -/
theorem booksKept_of_pairwise (x : Externals)
    {results : List (Outcome Error PartialConnection Bytes)} (ios : Nat → CompletionIo)
    (lb : LoadBalancer)
    (h : results.Pairwise fun r r' ↦ errored r = true → completed r' = false) :
    BooksKept x results ios lb := by
  have hmarked := marked_filter errored_of_completed h
  have hrest := handlePolled_rest x results ios lb
  rw [positions, ← hmarked, ← positions, removeEach_positions, Option.map_some] at hrest
  refine ⟨_, _, hrest, ?_, ?_⟩
  · rw [List.filter_filter]
    simp only [Bool.and_comm]
  · rw [foldl_finished, hmarked, List.filterMap_nil, List.nil_append, List.map_reverse,
      ← marked_map_snd, List.map_map]
    exact List.reverse_perm _

/-- An error before a completed element makes the last completed position stale: the program
panics, or it admits an element that is not completed. -/
theorem pairwise_of_booksKept {x : Externals}
    {results : List (Outcome Error PartialConnection Bytes)} {ios : Nat → CompletionIo}
    {lb : LoadBalancer} (h : BooksKept x results ios lb) :
    results.Pairwise fun r r' ↦ errored r = true → completed r' = false := by
  by_contra hnot
  obtain ⟨i, is, hpositions, hstale⟩ := positions_stale errored_of_completed hnot
  obtain ⟨lb', log, hpolled, -, hperm⟩ := h
  rw [handlePolled_rest, hpositions, removeEach] at hpolled
  cases he : vecRemove (results.filter fun r ↦ !errored r) i with
  | none => simp [he] at hpolled
  | some e =>
    obtain ⟨r, rest⟩ := e
    have hrest : r ∈ results.filter fun r ↦ !errored r := mem_of_vecRemove he
    have hopen : r.state.isCompleted = false := by
      have hmark := hstale (r, rest) he
      have hok := (List.mem_filter.mp hrest).2
      rw [errored, Bool.not_not] at hok
      rwa [completed, hok, Bool.true_and] at hmark
    -- the first admission is of that element, and no later one takes its event back
    simp only [he, Option.map_eq_some_iff, Prod.mk.injEq] at hpolled
    obtain ⟨out, hout, -, rfl⟩ := hpolled
    have hlogged : r.state ∈ out.2.2.filterMap Event.finishedConn := by
      refine removeEach_invariant
        (P := fun s : LoadBalancer × List Event ↦ r.state ∈ s.2.filterMap Event.finishedConn)
        (fun _ _ s hs ↦ ?_) hout ?_
      · rw [List.filterMap_append]
        exact List.mem_append_left _ hs
      · exact List.mem_singleton_self _
    have hmem := hperm.mem_iff.mp hlogged
    obtain ⟨r', hr', heq⟩ := List.mem_map.mp hmem
    have hcompleted := (List.mem_filter.mp hr').2
    rw [completed, heq, hopen, Bool.and_false] at hcompleted
    cases hcompleted

/-- For all results of the polls, the books are kept exactly when no error stands before a
completed element. -/
theorem booksKept_iff (x : Externals) (results : List (Outcome Error PartialConnection Bytes))
    (ios : Nat → CompletionIo) (lb : LoadBalancer) :
    BooksKept x results ios lb ↔
      results.Pairwise fun r r' ↦ errored r = true → completed r' = false :=
  ⟨pairwise_of_booksKept, booksKept_of_pairwise x ios lb⟩

/-- An error before a completed element, and nothing after them. -/
def errorThenCompleted : List (Outcome Error PartialConnection Bytes) :=
  let pc : PartialConnection :=
    ⟨⟨3, ⟨[127, 0, 0, 1], 40000⟩⟩, ⟨false, none⟩, .completed, some "first@first.com"⟩
  [⟨.error (.message "handshake"), { pc with state := .error }, []⟩, ⟨.ok (), pc, []⟩]

/-- After the error is removed, the position of the completed element is out of range. -/
theorem books_out_of_range :
    ¬∀ (x : Externals) (results : List (Outcome Error PartialConnection Bytes))
      (ios : Nat → CompletionIo) (lb : LoadBalancer), BooksKept x results ios lb := by
  intro h
  let io : CompletionIo := ⟨.stored, .stored, ⟨.ok 5, {}⟩, 0, 0⟩
  obtain ⟨lb', log, hpolled, -, -⟩ :=
    h ⟨fun _ ↦ .ok [], fun _ ↦ .ok ⟨[], 0⟩⟩ errorThenCompleted (fun _ ↦ io) ⟨∅, ∅, []⟩
  cases hpolled

end LoadBalancer
end TcpLoadBalancer
