import TcpLoadBalancer.Balancer.Rounds

/-!
# Unfinished handshakes

A completed partial connection leaves the list in the round that completes it. A failed one
stays: `PartialConnection::poll` reports no error, so the branch that removes it is never
taken, and it is in the list in every later state.
-/

namespace TcpLoadBalancer
open Lib

namespace LoadBalancer

/-- The polls of partial connections in a round, with their inputs; an error of an earlier
stage leaves it without any. -/
def roundHandshakes (x : Externals) (lb : LoadBalancer) (io : RoundIo) :
    List (PartialConnection × PartialIo) :=
  match (serviceStages x io lb).result with
  | .error _ => []
  | .ok () =>
    (serviceStages x io lb).state.partialConns.mapIdx fun i pc ↦ (pc, io.partialConn i)

/-- The polls of partial connections in a run. -/
def handshakes (x : Externals) (ios : List RoundIo) (lb : LoadBalancer) :
    List (PartialConnection × PartialIo) :=
  (Action.steps (poll x) ios lb).flatMap fun e ↦ roundHandshakes x e.1 e.2

/-- A failed partial connection is in the list. -/
def KeepsFailed (lb : LoadBalancer) : Prop := ∃ pc ∈ lb.partialConns, pc.state = .error

/-- No completed partial connection is in the list. -/
def NoneCompleted (lb : LoadBalancer) : Prop := ∀ pc ∈ lb.partialConns, pc.isCompleted = false

/-- Before the partial connections are polled, the list has failed ones only if it had them,
and completed ones only if it had them. -/
theorem serviceStages_failed (x : Externals) (io : RoundIo) (lb : LoadBalancer) :
    (KeepsFailed (serviceStages x io lb).state ↔ KeepsFailed lb) ∧
      (NoneCompleted lb → NoneCompleted (serviceStages x io lb).state) := by
  unfold KeepsFailed NoneCompleted
  rw [serviceStages_partialConns]
  constructor
  · constructor
    · rintro ⟨pc, hpc, herror⟩
      rcases List.mem_append.mp hpc with hold | hnew
      · exact ⟨pc, hold, herror⟩
      · rw [acceptedConns_init hnew] at herror
        cases herror
    · rintro ⟨pc, hpc, herror⟩
      exact ⟨pc, List.mem_append_left _ hpc, herror⟩
  · intro hnone pc hpc
    rcases List.mem_append.mp hpc with hold | hnew
    · exact hnone pc hold
    · simp [PartialConnection.isCompleted, acceptedConns_init hnew]

/-- A round leaves no completed partial connection, and it leaves a failed one exactly when
one was there or a poll of the round fails. -/
theorem poll_unfinished (x : Externals) (io : RoundIo) (lb : LoadBalancer)
    (hnone : NoneCompleted lb) :
    NoneCompleted (poll x io lb).state ∧
      (KeepsFailed (poll x io lb).state ↔
        KeepsFailed lb ∨ ∃ e ∈ roundHandshakes x lb io, e.1.fails x e.2 = true) := by
  obtain ⟨hfailed, hcompleted⟩ := serviceStages_failed x io lb
  unfold poll roundHandshakes
  split
  · next e he =>
    rw [Action.andThen_of_error he, hfailed]
    exact ⟨hcompleted hnone, by simp⟩
  · next he =>
    rw [Action.andThen_of_ok he, handlePartialConnections_eq, ← hfailed]
    generalize (serviceStages x io lb).state = mid at *
    constructor
    · intro pc hpc
      simpa using (List.mem_filter.mp hpc).2
    · unfold KeepsFailed
      constructor
      · rintro ⟨pc, hpc, herror⟩
        obtain ⟨i, hi, rfl⟩ := List.mem_mapIdx.mp (List.mem_filter.mp hpc).1
        rcases (PartialConnection.poll_error_iff x _ _).mp herror with hold | hfails
        · exact .inl ⟨_, List.getElem_mem hi, hold⟩
        · exact .inr ⟨_, List.mem_mapIdx.mpr ⟨i, hi, rfl⟩, hfails⟩
      · intro h
        have hpoll : ∃ i, ∃ hi : i < mid.partialConns.length,
            (mid.partialConns[i].poll x (io.partialConn i)).state.state = .error := by
          rcases h with ⟨pc, hpc, herror⟩ | ⟨e, he, hfails⟩
          · obtain ⟨i, hi, rfl⟩ := List.getElem_of_mem hpc
            exact ⟨i, hi, (PartialConnection.poll_error_iff x _ _).mpr (.inl herror)⟩
          · obtain ⟨i, hi, rfl⟩ := List.mem_mapIdx.mp he
            exact ⟨i, hi, (PartialConnection.poll_error_iff x _ _).mpr (.inr hfails)⟩
        obtain ⟨i, hi, herror⟩ := hpoll
        refine ⟨_, List.mem_filter.mpr ⟨List.mem_mapIdx.mpr ⟨i, hi, rfl⟩, ?_⟩, herror⟩
        simp [PartialConnection.isCompleted, herror]

/-- A run leaves no completed partial connection, and it leaves a failed one exactly when one
was there or a poll of the run fails. -/
theorem serve_unfinished (x : Externals) (ios : List RoundIo) (lb : LoadBalancer)
    (hnone : NoneCompleted lb) :
    NoneCompleted (serve x ios lb).state ∧
      (KeepsFailed (serve x ios lb).state ↔
        KeepsFailed lb ∨ ∃ e ∈ handshakes x ios lb, e.1.fails x e.2 = true) := by
  induction ios generalizing lb with
  | nil => exact ⟨hnone, by simp [serve, Action.loop, Action.skip, Outcome.done, handshakes,
      Action.steps]⟩
  | cons io ios ih =>
    obtain ⟨hround, hfailed⟩ := poll_unfinished x io lb hnone
    obtain ⟨hrest, hfailed'⟩ := ih (poll x io lb).state hround
    refine ⟨hrest, hfailed'.trans ?_⟩
    rw [hfailed, or_assoc]
    simp only [handshakes, Action.steps, List.flatMap_cons, List.mem_append, or_and_right,
      exists_or]

/-- In every state reached from a configuration all partial connections are in `INIT` exactly
when no poll of a partial connection has failed in the run. -/
theorem partialConns_init_iff (x : Externals) (cfg : Configuration) (ios : List RoundIo) :
    (∀ pc ∈ (serve x ios cfg.load).state.partialConns, pc.state = .init) ↔
      ∀ e ∈ handshakes x ios cfg.load, e.1.fails x e.2 = false := by
  have hempty := cfg.initial_load.partialConns
  obtain ⟨hnone, hfailed⟩ := serve_unfinished x ios cfg.load (by simp [NoneCompleted, hempty])
  have hstart : ¬KeepsFailed cfg.load := by simp [KeepsFailed, hempty]
  have hinit : (∀ pc ∈ (serve x ios cfg.load).state.partialConns, pc.state = .init) ↔
      ¬KeepsFailed (serve x ios cfg.load).state := by
    constructor
    · rintro h ⟨pc, hpc, herror⟩
      rw [h pc hpc] at herror
      cases herror
    · intro h pc hpc
      cases hs : pc.state with
      | init => rfl
      | completed => simpa [PartialConnection.isCompleted, hs] using hnone pc hpc
      | error => exact absurd ⟨pc, hpc, hs⟩ h
  rw [hinit, hfailed]
  simp [hstart]

/-- A client that resets its stream during the handshake. -/
def brokenHandshake : List RoundIo :=
  [{ acceptRound [.stream ⟨3, ⟨[127, 0, 0, 1], 40000⟩⟩ {} (.ok ⟨true, none⟩)] with
      partialConn := fun _ ↦ ⟨.error (.other 104), ⟨true, none⟩⟩ }]

/-- A failed handshake stays in the list. -/
theorem brokenHandshake_stays :
    ¬∀ (x : Externals) (cfg : Configuration) (ios : List RoundIo),
      ∀ pc ∈ (serve x ios cfg.load).state.partialConns, pc.state = .init := by
  intro h
  have hinit := h firstClient oneServer brokenHandshake
    ⟨⟨3, ⟨[127, 0, 0, 1], 40000⟩⟩, ⟨true, none⟩, .error, none⟩ (by decide +kernel)
  cases hinit

end LoadBalancer
end TcpLoadBalancer
