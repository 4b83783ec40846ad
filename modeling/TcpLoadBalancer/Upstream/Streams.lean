import TcpLoadBalancer.Lib.Swarm
import TcpLoadBalancer.Upstream.Service

/-!
# The streams of the upstream server, side by side

The upstream server serves its streams by their position and removes them by their position, and
yet it is a swarm: every run of it is woven of the lives of the streams that it takes. A stream
is served in every round until a service fails; then it is removed, once. Nothing else ends it,
so a stream whose peer has closed it stays.
-/

namespace TcpLoadBalancer
open Lib

namespace Upstream

/-- A stream, and whether its last service failed. -/
abbrev Served := TcpStream × Bool

/-- What an event does to one stream. -/
inductive Acts : Served → ServerEvent → Option Served → Prop where
  | service (stream : TcpStream) (i : Nat) (io : StreamIo) :
      Acts (stream, false) (.served i io.received (serviceStream io).2) (some (stream, io.fails))
  | removal (stream : TcpStream) : Acts (stream, true) (.removed stream) none

/-- The bytes that an event reports to be written. -/
def ServerEvent.written : ServerEvent → Bytes
  | .served _ _ sent => sent
  | _ => []

/-- The answer to what an event reports to be read. -/
def ServerEvent.due : ServerEvent → Bytes
  | .served _ (some bytes) _ => reply bytes
  | _ => []

/-- An event writes a part of the answer to what it reads. -/
theorem Acts.sublist {before : Served} {event : ServerEvent} {after : Option Served}
    (h : Acts before event after) : event.written.Sublist event.due := by
  cases h with
  | service stream i io =>
    cases hread : io.read with
    | ok buf =>
      simp only [ServerEvent.written, StreamIo.received, hread, ServerEvent.due]
      exact (serviceStream_start hread).sublist
    | error kind =>
      have hnothing : (serviceStream io).2 = [] := by
        cases kind <;> simp [serviceStream, hread]
      rw [ServerEvent.written, hnothing]
      exact List.nil_sublist _
  | removal stream => exact List.nil_sublist _

/-- Streams: one is taken, served until a service fails, and then removed. -/
def species : Species Served ServerEvent where
  born event e := event = .accepted e.1 ∧ e.2 = false
  acts := Acts

/-- Between two rounds no service of a stream has failed. -/
def swarm (streams : List TcpStream) : Multiset Served := ↑(streams.map fun s ↦ (s, false))

/-- The server moves its streams as its events tell. -/
abbrev Swarmed (a : Action Error (List TcpStream) ServerEvent) : Prop :=
  Action.Simulated species.Step swarm some a

/-- Taking streams. -/
theorem swarmed_acceptStreams (incoming : List Incoming) : Swarmed (acceptStreams incoming) := by
  induction incoming with
  | nil => exact Action.simulated_skip
  | cons answer rest ih =>
    intro streams
    cases answer with
    | failed kind =>
      cases kind with
      | wouldBlock => rfl
      | interrupted => exact ih streams
      | writeZero => exact ih streams
      | other code => exact ih streams
    | stream s options =>
      unfold acceptStreams
      split
      · rfl
      · refine ⟨swarm (streams ++ [s]), .inl ⟨(s, false), ⟨rfl, rfl⟩, ?_⟩, ih (streams ++ [s])⟩
        rw [swarm, swarm, List.map_append, Multiset.cons_coe]
        exact Quotient.sound (List.perm_append_singleton _ _)

/-- What a pass does, in terms of the streams that fail. -/
theorem serviceStreams_eq (ios : Nat → StreamIo) (streams : List TcpStream) :
    serviceStreams ios streams =
      ⟨.ok (), (streams.zipIdx.filter fun e ↦ !(ios e.2).fails).map Prod.fst,
        streams.mapIdx (fun i _ ↦ .served i (ios i).received (serviceStream (ios i)).2) ++
          ((streams.zipIdx.filter fun e ↦ (ios e.2).fails).map Prod.fst).reverse.map
            .removed⟩ := by
  have hsent : (streams.zipIdx.map fun e ↦ (serviceStream (ios e.2)).2) =
      streams.mapIdx fun i _ ↦ (serviceStream (ios i)).2 := by
    rw [List.mapIdx_eq_zipIdx_map]
  simp only [serviceStreams, servicePass_eq, Option.get_some, serviceStream_removes, hsent,
    List.mapIdx_mapIdx]
  rfl

/-- After the services the streams are those that failed and those that stay. -/
theorem served_split (ios : Nat → StreamIo) (streams : List TcpStream) :
    (↑(streams.mapIdx fun i s ↦ (s, (ios i).fails)) : Multiset Served) =
      ↑(((streams.zipIdx.filter fun e ↦ (ios e.2).fails).map Prod.fst).reverse.map
          fun s ↦ (s, true)) +
        swarm ((streams.zipIdx.filter fun e ↦ !(ios e.2).fails).map Prod.fst) := by
  have hfailed : ((streams.zipIdx.filter fun e ↦ (ios e.2).fails).map Prod.fst).map
      (fun s ↦ (s, true)) =
      (streams.zipIdx.filter fun e ↦ (ios e.2).fails).map fun e ↦ (e.1, (ios e.2).fails) := by
    rw [List.map_map]
    apply List.map_congr_left
    intro e he
    rw [(List.mem_filter.mp he).2]
    rfl
  have hstay : ((streams.zipIdx.filter fun e ↦ !(ios e.2).fails).map Prod.fst).map
      (fun s ↦ (s, false)) =
      (streams.zipIdx.filter fun e ↦ !(ios e.2).fails).map fun e ↦ (e.1, (ios e.2).fails) := by
    rw [List.map_map]
    apply List.map_congr_left
    intro e he
    have hnot : (ios e.2).fails = false := by simpa using (List.mem_filter.mp he).2
    rw [hnot]
    rfl
  rw [swarm, hstay, List.map_reverse, hfailed, ← List.map_reverse, List.mapIdx_eq_zipIdx_map]
  exact coe_map_split (fun e ↦ (ios e.2).fails) (fun e ↦ (e.1, (ios e.2).fails)) streams.zipIdx

/-- Serving the streams and removing those that failed. -/
theorem swarmed_serviceStreams (ios : Nat → StreamIo) : Swarmed (serviceStreams ios) := by
  intro streams
  have hserve : Run species.Step (↑(streams.map fun s ↦ (s, false)) + 0)
      (streams.mapIdx fun i _ ↦ .served i (ios i).received (serviceStream (ios i)).2)
      (↑(streams.mapIdx fun i s ↦ (s, (ios i).fails)) + 0) :=
    Species.run_pass (fun i s ↦ Acts.service s i (ios i)) streams 0
  have hremove : Run species.Step
      (↑(((streams.zipIdx.filter fun e ↦ (ios e.2).fails).map Prod.fst).reverse.map
          fun s ↦ (s, true)) +
        swarm ((streams.zipIdx.filter fun e ↦ !(ios e.2).fails).map Prod.fst))
      (((streams.zipIdx.filter fun e ↦ (ios e.2).fails).map Prod.fst).reverse.map .removed)
      (swarm ((streams.zipIdx.filter fun e ↦ !(ios e.2).fails).map Prod.fst)) :=
    Species.run_leave (fun s _ ↦ Acts.removal s) _
  rw [← served_split] at hremove
  rw [add_zero, add_zero] at hserve
  rw [serviceStreams_eq, List.filterMap_some]
  exact hserve.append hremove

/-- What is written to a stream are answers to what was read on it. -/
theorem acts_answered {e : Served} {es : List ServerEvent} {e' : Option Served}
    (h : species.Acts e es e') :
    (es.flatMap ServerEvent.written).Sublist (es.flatMap ServerEvent.due) := by
  induction es generalizing e with
  | nil => exact List.nil_sublist _
  | cons event es ih =>
    rw [List.flatMap_cons, List.flatMap_cons]
    rcases h with ⟨hact, rfl, -⟩ | ⟨mid, hact, hrest⟩
    · exact (Acts.sublist hact).append (List.nil_sublist _)
    · exact (Acts.sublist hact).append (ih hrest)

/-- In every run from the start of the program, whatever the listener and the streams answer, the
events can be given to the streams that the server has taken, each to one, so that those of each
stream are a life of its own: it is taken, served until a service fails, and then removed, once.
The streams whose lives have not ended are exactly those in the list, and what is written to a
stream are answers to what was read on the same stream, in their order. -/
theorem served_apart (ios : List ServerIo) :
    ∃ tagged ends, species.Woven tagged ends ∧ tagged.map Prod.snd = (serve ios []).log ∧
      swarm (serve ios []).state = ↑ends.reduceOption ∧
      ∀ i < ends.length,
        ((Species.labelsOf i tagged).flatMap ServerEvent.written).Sublist
          ((Species.labelsOf i tagged).flatMap ServerEvent.due) := by
  have hround : ∀ io : ServerIo, Swarmed (round io) := fun io ↦
    (swarmed_acceptStreams io.incoming).andThen (swarmed_serviceStreams io.streams)
  have hrun : Run species.Step (swarm []) ((serve ios []).log.filterMap some)
      (swarm (serve ios []).state) := Action.simulated_forEach (fun io _ ↦ hround io) []
  obtain ⟨tagged, ends, hwoven, hlabels, hends⟩ :=
    Species.run_woven Species.woven_nil rfl hrun
  rw [List.nil_append] at hwoven
  rw [List.filterMap_some] at hlabels
  refine ⟨tagged, ends, hwoven, hlabels, hends, fun i hi ↦ ?_⟩
  obtain ⟨event, e, rest, htagged, ⟨rfl, -⟩, hacts⟩ :=
    hwoven.lives i _ (List.getElem?_eq_getElem hi)
  rw [htagged, List.flatMap_cons, List.flatMap_cons]
  exact (List.nil_sublist _).append (acts_answered hacts)

end Upstream
end TcpLoadBalancer
