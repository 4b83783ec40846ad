import TcpLoadBalancer.Lib.Action
import TcpLoadBalancer.Model.Client

/-!
# The limiter of a client

Whatever happens to a client between the calls of `add_connection`, its answers are those of
a fixed window over the calls' 30 second periods. So in every period exactly the first calls
are admitted, up to `clientLimit`; thirty seconds that lie in two periods may see twice as many.
-/

namespace TcpLoadBalancer
open Lib

/-- An operation on a client: a connection handed to it at some time, or the upkeep of its
list. -/
inductive ClientOp where
  | addConnection (timestamp : Int) (cxn : Connection)
  | poll (ios : Nat → ConnectionIo)
  | cleanupConnections

/-- The time at which a connection is handed over. -/
def ClientOp.timestamp : ClientOp → Option Int
  | .addConnection timestamp _ => some timestamp
  | _ => none

/-- A call of `add_connection` and whether it admitted its connection. -/
structure Call where
  timestamp : Int
  admitted : Bool
  deriving DecidableEq

namespace Client

/-- The connection is pushed onto the list. -/
def admits (c : Client) (timestamp : Int) (cxn : Connection) : Bool :=
  decide ((c.addConnection timestamp cxn).connections = c.connections ++ [cxn])

/-- One operation; the calls of `add_connection` are logged. -/
def perform (op : ClientOp) : Action Error Client Call := fun c ↦
  match op with
  | .addConnection timestamp cxn =>
    ⟨.ok (), c.addConnection timestamp cxn, [⟨timestamp, c.admits timestamp cxn⟩]⟩
  | .poll ios => ⟨(c.poll ios).result, (c.poll ios).state, []⟩
  | .cleanupConnections => .done c.cleanupConnections.2

/-- The calls that a sequence of operations makes on a client. -/
def calls (ops : List ClientOp) (c : Client) : List Call := (Action.loop perform ops c).log

/-- What the calls of one period answer, in order. -/
def answersIn (p : Int) (log : List Call) : List Bool :=
  (log.filter fun call ↦ periodOf call.timestamp = p).map Call.admitted

/-- The connections admitted from `t` on and before `t'`. -/
def admittedBetween (t t' : Int) (log : List Call) : Nat :=
  log.countP fun call ↦ call.admitted && decide (t ≤ call.timestamp ∧ call.timestamp < t')

/-! ### A client is a fixed window -/

/-- A connection is admitted unless the rate limit is hit. -/
theorem admits_eq (c : Client) (timestamp : Int) (cxn : Connection) :
    c.admits timestamp cxn = !c.rateLimitHit timestamp := by
  unfold admits
  cases h : c.rateLimitHit timestamp with
  | true => simp [addConnection_of_hit cxn h]
  | false => simp [addConnection_of_free cxn h]

/-- The upkeep of the list leaves the limiter alone. -/
theorem perform_window {op : ClientOp} (h : op.timestamp = none) (c : Client) :
    (perform op c).state.window = c.window ∧ (perform op c).log = [] := by
  cases op with
  | addConnection timestamp cxn => cases h
  | poll ios =>
    simp only [perform, poll_eq, and_true]
    rfl
  | cleanupConnections =>
    rw [perform, cleanupConnections_eq]
    exact ⟨rfl, rfl⟩

/-- The calls of the first operation come first. -/
theorem calls_cons (op : ClientOp) (ops : List ClientOp) (c : Client) :
    calls (op :: ops) c = (perform op c).log ++ calls ops (perform op c).state := rfl

/-- The calls on a client are answered by its window. -/
theorem calls_eq_verdicts (ops : List ClientOp) (c : Client) :
    (calls ops c).map (fun call ↦ (periodOf call.timestamp, call.admitted)) =
      c.window.verdicts clientLimit ((ops.filterMap ClientOp.timestamp).map periodOf) := by
  induction ops generalizing c with
  | nil => rfl
  | cons op ops ih =>
    have hrest := ih (perform op c).state
    rw [calls_cons, List.map_append, hrest]
    cases hop : op.timestamp with
    | none =>
      obtain ⟨hwindow, hlog⟩ := perform_window hop c
      rw [hwindow, hlog, List.filterMap_cons_none hop, List.map_nil, List.nil_append]
    | some timestamp =>
      cases op with
      | addConnection t cxn =>
        obtain rfl : t = timestamp := Option.some.inj hop
        rw [List.filterMap_cons_some hop, List.map_cons, FixedWindow.verdicts,
          ← rateLimitHit_eq_full]
        simp only [perform, admits_eq, List.map_cons, List.map_nil, List.cons_append,
          List.nil_append]
        cases hhit : c.rateLimitHit t with
        | true => rw [addConnection_of_hit cxn hhit, if_pos rfl, Bool.not_true]
        | false =>
          rw [addConnection_of_free cxn hhit, if_neg Bool.false_ne_true, Bool.not_false]
          rfl
      | poll ios => cases hop
      | cleanupConnections => cases hop

/-- The calls of a period are answered by its verdicts. -/
theorem answersIn_eq (p : Int) (log : List Call) :
    answersIn p log =
      FixedWindow.verdictsIn p
        (log.map fun call ↦ (periodOf call.timestamp, call.admitted)) := by
  rw [answersIn, FixedWindow.verdictsIn, List.filter_map, List.map_map]
  rfl

/-- A new client admits exactly the first calls of every period. -/
theorem answersIn_calls (email : String) (group : UInt32) {ops : List ClientOp}
    (hmono : (ops.filterMap ClientOp.timestamp).Pairwise (· ≤ ·)) (p : Int) :
    answersIn p (calls ops (.new email group)) =
      FixedWindow.firstGranted clientLimit
        ((ops.filterMap ClientOp.timestamp).countP fun t ↦ periodOf t = p) := by
  have hperiods : ((ops.filterMap ClientOp.timestamp).map periodOf).Pairwise (· ≤ ·) :=
    List.pairwise_map.mpr (hmono.imp periodOf_mono)
  have hlimit : 0 < clientLimit := by decide
  have hverdicts := FixedWindow.verdictsIn_verdicts hlimit i64Min hperiods p
  rw [answersIn_eq, calls_eq_verdicts]
  show FixedWindow.verdictsIn p (FixedWindow.verdicts clientLimit ⟨i64Min, 0⟩ _) = _
  rw [hverdicts, List.count, List.countP_map]
  rfl

/-- The calls of a run are those of its operations. -/
theorem calls_timestamp (ops : List ClientOp) (c : Client) :
    (calls ops c).map Call.timestamp = ops.filterMap ClientOp.timestamp := by
  induction ops generalizing c with
  | nil => rfl
  | cons op ops ih =>
    have hrest := ih (perform op c).state
    rw [calls_cons, List.map_append, hrest]
    cases op with
    | addConnection timestamp cxn => rfl
    | poll ios => rfl
    | cleanupConnections => rfl

/-! ### Exact admission -/

/-- On a new client, with timestamps that are `i64` values and never go back: the calls
admitted in a period are exactly its first ones, up to `clientLimit`; a call that does not
admit its connection changes nothing; the upkeep of the list gives no budget back; and no
call is in the period that the new client seems to count. -/
theorem admission_exact (email : String) (group : UInt32) (ops : List ClientOp)
    (hmono : (ops.filterMap ClientOp.timestamp).Pairwise (· ≤ ·))
    (hrange : ∀ t ∈ ops.filterMap ClientOp.timestamp, i64Min ≤ t) :
    (∀ p, answersIn p (calls ops (.new email group)) =
        FixedWindow.firstGranted clientLimit
          ((ops.filterMap ClientOp.timestamp).countP fun t ↦ periodOf t = p)) ∧
      (∀ e ∈ Action.steps perform ops (.new email group), ∀ t cxn,
        e.2 = .addConnection t cxn → e.1.admits t cxn = false → e.1.addConnection t cxn = e.1) ∧
      (∀ e ∈ Action.steps perform ops (.new email group), e.2.timestamp = none →
        (perform e.2 e.1).state.window = e.1.window) ∧
      ∀ t ∈ ops.filterMap ClientOp.timestamp, periodOf t ≠ (Client.new email group).cxnTime := by
  refine ⟨answersIn_calls email group hmono, ?_, ?_, ?_⟩
  · intro e _ t cxn _ hrefused
    rw [admits_eq, Bool.not_eq_false'] at hrefused
    exact addConnection_of_hit cxn hrefused
  · intro e _ hupkeep
    exact (perform_window hupkeep e.1).1
  · intro t ht heq
    have hlow := periodOf_mono (hrange t ht)
    have hfirst : i64Min < periodOf i64Min := by decide
    change periodOf t = i64Min at heq
    omega

/-- Eleven calls in one period, and one more in the next. -/
theorem admission_exact_example :
    let cxn : Connection :=
      ⟨⟨3, ⟨[127, 0, 0, 1], 40000⟩⟩, ⟨4, ⟨[127, 0, 0, 1], 2503⟩⟩, ⟨false, none⟩, .okay, 0, 3⟩
    let ops := List.replicate 11 (.addConnection 29 cxn) ++
      [.cleanupConnections, .addConnection 30 cxn]
    (∀ p, answersIn p (calls ops (.new "first@first.com" 0)) =
        FixedWindow.firstGranted clientLimit
          ((ops.filterMap ClientOp.timestamp).countP fun t ↦ periodOf t = p)) ∧
      (∀ e ∈ Action.steps perform ops (.new "first@first.com" 0), ∀ t cxn,
        e.2 = .addConnection t cxn → e.1.admits t cxn = false → e.1.addConnection t cxn = e.1) ∧
      (∀ e ∈ Action.steps perform ops (.new "first@first.com" 0), e.2.timestamp = none →
        (perform e.2 e.1).state.window = e.1.window) ∧
      ∀ t ∈ ops.filterMap ClientOp.timestamp,
        periodOf t ≠ (Client.new "first@first.com" 0).cxnTime :=
  admission_exact "first@first.com" 0 _ (by decide) (by decide)

/-! ### Thirty seconds -/

private theorem admitted_of_period (email : String) (group : UInt32) {ops : List ClientOp}
    (hmono : (ops.filterMap ClientOp.timestamp).Pairwise (· ≤ ·)) (p : Int) :
    (calls ops (.new email group)).countP
      (fun call ↦ call.admitted && decide (periodOf call.timestamp = p)) ≤ clientLimit := by
  have hcount : (answersIn p (calls ops (.new email group))).count true ≤ clientLimit := by
    rw [answersIn_calls email group hmono]
    exact FixedWindow.count_firstGranted_le _ _
  rw [answersIn, List.count, List.countP_map, List.countP_filter] at hcount
  have heq : ∀ call : Call,
      (((fun a ↦ a == true) ∘ Call.admitted) call && decide (periodOf call.timestamp = p)) =
        (call.admitted && decide (periodOf call.timestamp = p)) := by
    intro call
    cases h : call.admitted <;> simp [h]
  simpa only [heq] using hcount

private theorem admitted_within_period (email : String) (group : UInt32) {ops : List ClientOp}
    (hmono : (ops.filterMap ClientOp.timestamp).Pairwise (· ≤ ·)) (p : Int) {q : Call → Bool}
    (hq : ∀ call ∈ calls ops (.new email group), q call = true →
      call.admitted = true ∧ periodOf call.timestamp = p) :
    (calls ops (.new email group)).countP q ≤ clientLimit := by
  apply Nat.le_trans _ (admitted_of_period email group hmono p)
  apply List.countP_mono_left
  intro call hmem hcall
  rw [Bool.and_eq_true, decide_eq_true_eq]
  exact hq call hmem hcall

/-- On a new client, with timestamps that are not negative and never go back, any thirty
seconds admit at most twice `clientLimit` connections, and at most `clientLimit` when they are
a period. -/
theorem admittedBetween_bounded (email : String) (group : UInt32) (ops : List ClientOp)
    (hmono : (ops.filterMap ClientOp.timestamp).Pairwise (· ≤ ·))
    (hnonneg : ∀ t ∈ ops.filterMap ClientOp.timestamp, 0 ≤ t) (t : Int) :
    admittedBetween t (t + 30) (calls ops (.new email group)) ≤ 2 * clientLimit ∧
      (30 ∣ t → admittedBetween t (t + 30) (calls ops (.new email group)) ≤ clientLimit) := by
  have htimes : ∀ call ∈ calls ops (.new email group), 0 ≤ call.timestamp := by
    intro call hcall
    apply hnonneg
    rw [← calls_timestamp ops (.new email group)]
    exact List.mem_map_of_mem hcall
  -- a time in the thirty seconds is in the period of their start or in the next one
  have hperiod : ∀ t', 0 ≤ t' → t ≤ t' → t' < t + 30 →
      periodOf t' = t / 30 ∨ periodOf t' = t / 30 + 1 ∧ ¬30 ∣ t := by
    intro t' hnn hle hlt
    rw [periodOf, Int.tdiv_eq_ediv_of_nonneg hnn]
    omega
  constructor
  · rw [admittedBetween, List.countP_eq_countP_filter_add _ _
      fun call ↦ decide (periodOf call.timestamp = t / 30), List.countP_filter, List.countP_filter]
    have hfirst : (calls ops (.new email group)).countP (fun call ↦
        (call.admitted && decide (t ≤ call.timestamp ∧ call.timestamp < t + 30)) &&
          decide (periodOf call.timestamp = t / 30)) ≤ clientLimit := by
      apply admitted_within_period email group hmono (t / 30)
      intro call _ hcall
      simp only [Bool.and_eq_true, decide_eq_true_eq] at hcall
      exact ⟨hcall.1.1, hcall.2⟩
    have hnext : (calls ops (.new email group)).countP (fun call ↦
        (call.admitted && decide (t ≤ call.timestamp ∧ call.timestamp < t + 30)) &&
          !decide (periodOf call.timestamp = t / 30)) ≤ clientLimit := by
      apply admitted_within_period email group hmono (t / 30 + 1)
      intro call hmem hcall
      simp only [Bool.and_eq_true, decide_eq_true_eq, Bool.not_eq_true',
        decide_eq_false_iff_not] at hcall
      obtain ⟨⟨hadmitted, hle, hlt⟩, hother⟩ := hcall
      rcases hperiod _ (htimes call hmem) hle hlt with hp | ⟨hp, -⟩
      · exact absurd hp hother
      · exact ⟨hadmitted, hp⟩
    omega
  · intro haligned
    apply admitted_within_period email group hmono (t / 30)
    intro call hmem hcall
    simp only [Bool.and_eq_true, decide_eq_true_eq] at hcall
    obtain ⟨hadmitted, hle, hlt⟩ := hcall
    rcases hperiod _ (htimes call hmem) hle hlt with hp | ⟨-, hnot⟩
    · exact ⟨hadmitted, hp⟩
    · exact absurd haligned hnot

/-- Eleven calls in each of two periods. -/
theorem admittedBetween_bounded_example :
    let cxn : Connection :=
      ⟨⟨3, ⟨[127, 0, 0, 1], 40000⟩⟩, ⟨4, ⟨[127, 0, 0, 1], 2503⟩⟩, ⟨false, none⟩, .okay, 0, 3⟩
    let ops := List.replicate 11 (.addConnection 29 cxn) ++
      List.replicate 11 (.addConnection 30 cxn)
    admittedBetween 29 (29 + 30) (calls ops (.new "first@first.com" 0)) ≤ 2 * clientLimit ∧
      (30 ∣ (29 : Int) →
        admittedBetween 29 (29 + 30) (calls ops (.new "first@first.com" 0)) ≤ clientLimit) :=
  admittedBetween_bounded "first@first.com" 0 _ (by decide) (by decide) 29

/-- Ten connections at the end of a period and ten at the start of the next one are all
admitted. -/
theorem admittedBetween_exceeds :
    ¬∀ (email : String) (group : UInt32) (ops : List ClientOp),
      (ops.filterMap ClientOp.timestamp).Pairwise (· ≤ ·) →
      (∀ t ∈ ops.filterMap ClientOp.timestamp, 0 ≤ t) →
      ∀ t, admittedBetween t (t + 30) (calls ops (.new email group)) ≤ 10 := by
  intro h
  let cxn : Connection :=
    ⟨⟨3, ⟨[127, 0, 0, 1], 40000⟩⟩, ⟨4, ⟨[127, 0, 0, 1], 2503⟩⟩, ⟨false, none⟩, .okay, 0, 3⟩
  let ops : List ClientOp :=
    List.replicate 10 (.addConnection 29 cxn) ++ List.replicate 10 (.addConnection 30 cxn)
  have hle := h "first@first.com" 0 ops (by decide) (by decide) 29
  have heq : admittedBetween 29 (29 + 30) (calls ops (.new "first@first.com" 0)) = 20 := by
    decide +kernel
  omega

end Client
end TcpLoadBalancer
