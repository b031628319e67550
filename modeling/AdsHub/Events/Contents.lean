import AdsHub.Events.Server

/-!
# AdsHub.Events.Contents — what frames are made of

All that a stream sends comes from publishes: an event frame is a published event, and
a snapshot is the live visual state of some slots, each of which holds a published event
of its agent. A property that every published event has is therefore one of everything
in the queues and the frames (`contents_afterSteps`).
-/

namespace AdsHub.Events

variable (visual : VisualState) (P : Event → Prop)

/-- Every slot holds an event of its agent with the property. -/
def SlotsHave (slots : String → Option Event) : Prop :=
  ∀ a e, slots a = some e → e.agentId = a ∧ P e

/-- The frame is made of events with the property. -/
def Frame.MadeOf : Frame → Prop
  | .snapshot _ _ state => ∃ slots, SlotsHave P slots ∧ state = liveVisualState visual slots
  | .agentStateChanged event => P event
  | .heartbeat _ _ => True

/-- Everything in the process is made of events with the property. -/
structure Contents (s : Server) : Prop where
  slots : SlotsHave P s.bus.agentTaskState
  queues : ∀ c queue, registered? s.bus c = some queue → ∀ e ∈ queue, P e
  frames : ∀ c, ∀ f ∈ (s.connections c).frames, f.MadeOf visual P

variable {visual P}

/-- What a step can add to the queue and the frames of a connection. -/
theorem contents_connection {s : Server} (hs : WellFormed s) (h : Contents visual P s) {l : Step}
    (hl : ∀ now payload, l = .publish now payload → P (publishAgentState s.bus now payload).1)
    (c : ℕ) :
    (∀ queue, registered? (step visual s l).bus c = some queue → ∀ e ∈ queue, P e) ∧
    ∀ f ∈ ((step visual s l).connections c).frames, f.MadeOf visual P := by
  have hqueue := h.queues c
  have hframes := h.frames c
  have hmoves := step_moves visual hs l c
  generalize (step visual s l).connections c = con at hmoves ⊢
  generalize registered? (step visual s l).bus c = queue at hmoves ⊢
  cases hmoves with
  | idle _ => exact ⟨hqueue, hframes⟩
  | @offered now payload waiting hwaiting =>
    -- the event of this very publish, which `hl` is about
    refine ⟨?_, hframes⟩
    intro queue' hsome
    cases hsome
    have hold := hqueue waiting hwaiting
    split
    · rw [List.forall_mem_append, List.forall_mem_singleton]
      exact ⟨hold, hl now payload rfl⟩
    · exact hold
  | connected _ =>
    refine ⟨?_, fun _ hf => absurd hf List.not_mem_nil⟩
    intro queue' hsome
    cases hsome
    exact fun _ he => absurd he List.not_mem_nil
  | started _ =>
    -- a snapshot is made of the slots
    refine ⟨hqueue, ?_⟩
    rw [List.forall_mem_append, List.forall_mem_singleton]
    exact ⟨hframes, s.bus.agentTaskState, h.slots, rfl⟩
  | @delivered event waiting _ hwaiting =>
    -- the event moves from the queue to the frames
    have hold := hqueue (event :: waiting) hwaiting
    rw [List.forall_mem_cons] at hold
    constructor
    · intro queue' hsome
      cases hsome
      exact hold.2
    · rw [List.forall_mem_append, List.forall_mem_singleton]
      exact ⟨hframes, hold.1⟩
  | idled _ =>
    refine ⟨hqueue, ?_⟩
    rw [List.forall_mem_append, List.forall_mem_singleton]
    exact ⟨hframes, trivial⟩
  | cancelled _ => exact ⟨hqueue, hframes⟩
  | closed _ =>
    refine ⟨?_, hframes⟩
    intro queue' hsome
    cases hsome

/-- If every event published has the property, so have the slots, the queues and the frames
after the step. -/
theorem Contents.step {s : Server} (hs : WellFormed s) (h : Contents visual P s) {l : Step}
    (hl : ∀ now payload, l = .publish now payload → P (publishAgentState s.bus now payload).1) :
    Contents visual P (step visual s l) where
  slots := by
    rcases step_busMoves visual s l with ⟨_, _, hslots, _⟩ | ⟨_, _, hslots, _⟩ | ⟨_, hslots, _⟩
    · rw [hslots]
      exact h.slots
    · rw [hslots]
      exact h.slots
    · intro a e he
      rw [hslots, Function.update_apply] at he
      split at he
      · next hsame =>
        cases he
        exact ⟨hsame.symm, hl _ _ rfl⟩
      · exact h.slots a e he
  queues := fun c => (contents_connection hs h hl c).1
  frames := fun c => (contents_connection hs h hl c).2

theorem contents_init : Contents visual P {} where
  slots := fun _ _ he => by cases he
  queues := fun _ _ hqueue => by cases hqueue
  frames := fun _ _ hf => absurd hf List.not_mem_nil

/-- A property of all the events that a run publishes is one of all it sends. -/
theorem contents_afterSteps {ls : List Step}
    (hls : ∀ now payload, .publish now payload ∈ ls → ∀ bus, P (publishAgentState bus now payload).1) :
    Contents visual P (afterSteps visual ls) := by
  have hstep : ∀ s l, WellFormed s ∧ Contents visual P s →
      (∀ now payload, l = .publish now payload → ∀ bus, P (publishAgentState bus now payload).1) →
      WellFormed (step visual s l) ∧ Contents visual P (step visual s l) := by
    intro s l hs hl
    exact ⟨hs.1.step visual l,
      hs.2.step hs.1 (fun now payload hpublish => hl now payload hpublish s.bus)⟩
  have hlabels : ∀ l ∈ ls, ∀ now payload, l = .publish now payload →
      ∀ bus, P (publishAgentState bus now payload).1 := by
    intro l hmem now payload hl
    rw [hl] at hmem
    exact hls now payload hmem
  exact (Runs.run_invariant hstep ⟨wellFormed_init, contents_init⟩ hlabels
    (List.prefix_refl ls)).2

end AdsHub.Events
