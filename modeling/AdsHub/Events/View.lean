import AdsHub.Events.Delivery

/-!
# AdsHub.Events.View — the view of a client

A client takes the visual state of the snapshot and, for every event, lays the event
over the entry that its agent has at rest. `client_converges`: whenever the queue
of the connection is empty, this is the live visual state of the process, provided
that no event was lost on a full queue.

The queue is registered before the snapshot is taken, so a client can be sent an
event that its snapshot is ahead of. It does no harm: what waits for an agent ends
with the event in the agent's slot (`Waiting`), and only the last one shows.
-/

namespace AdsHub.Events

variable (visual : VisualState)

/-- The entry of the event's agent becomes the entry at rest with the event laid over
it. -/
def applyEvent (view : VisualState) (event : Event) : VisualState :=
  { view with
    agents := List.zipWith
      (fun base shown => if base.agentId = event.agentId then overlay base event else shown)
      visual.agents view.agents }

/-- What a client makes of a frame. -/
def receive (view : Option VisualState) : Frame → Option VisualState
  | .snapshot _ _ visualState => some visualState
  | .agentStateChanged event => view.map (applyEvent visual · event)
  | .heartbeat _ _ => view

/-- The view after the frames of a stream. -/
def clientView (frames : List Frame) : Option VisualState := frames.foldl (receive visual) none

/-- The client handles one frame at a time. -/
theorem clientView_concat (frames : List Frame) (f : Frame) :
    clientView visual (frames ++ [f]) = receive visual (clientView visual frames) f := by
  simp [clientView]

/-! ## Views and events -/

/-- The live visual state with the entry `g base` for the entry `base` at rest. -/
def showing (g : AgentView → AgentView) : VisualState :=
  { visual with
    taskBusConnected := true
    taskBusSource := some "production-only"
    agents := visual.agents.map g }

/-- The live state is the office with the slots laid over it. -/
theorem liveVisualState_eq (slots : String → Option Event) :
    liveVisualState visual slots = showing visual (liveAgent slots) := rfl

/-- The last event for an agent replaces its entry. -/
def patched (events : List Event) (g : AgentView → AgentView) (base : AgentView) : AgentView :=
  match Board.lastFor (fun e : Event => e.agentId) base.agentId events with
  | some event => overlay base event
  | none => g base

theorem patched_nil (g : AgentView → AgentView) : patched [] g = g := rfl

/-- Patches compose in order. -/
theorem patched_append (xs ys : List Event) (g : AgentView → AgentView) :
    patched (xs ++ ys) g = patched ys (patched xs g) := by
  funext base
  simp only [patched, Board.lastFor_append]
  cases Board.lastFor (fun e : Event => e.agentId) base.agentId ys <;> rfl

/-- Applying an event to a shown office patches it. -/
theorem applyEvent_showing (g : AgentView → AgentView) (event : Event) :
    applyEvent visual (showing visual g) event = showing visual (patched [event] g) := by
  have hagents : List.zipWith
      (fun base shown => if base.agentId = event.agentId then overlay base event else shown)
      visual.agents (visual.agents.map g) = visual.agents.map (patched [event] g) := by
    rw [List.zipWith_map_right, List.zipWith_self]
    refine List.map_congr_left ?_
    intro base _
    by_cases h : base.agentId = event.agentId
    · simp [patched, Board.lastFor, h]
    · simp [patched, Board.lastFor, h, Ne.symm h]
  simp only [applyEvent, showing, hagents]

/-! ## The queue and the slots -/

/-- What waits for an agent ends with the event in its slot. -/
def Waiting (queue : List Event) (slots : String → Option Event) : Prop :=
  ∀ agentId e, Board.lastFor (fun e : Event => e.agentId) agentId queue = some e →
    slots agentId = some e

/-- Replaying what waits changes nothing in the live state. -/
theorem Waiting.patched {queue : List Event} {slots : String → Option Event}
    (h : Waiting queue slots) : patched queue (liveAgent slots) = liveAgent slots := by
  funext base
  unfold Events.patched
  cases hlast : Board.lastFor (fun e : Event => e.agentId) base.agentId queue with
  | none => rfl
  | some e => simp [liveAgent, h base.agentId e hlast]

/-- An event published to a queue with room waits at its end and is in its slot. -/
theorem Waiting.concat {queue : List Event} {slots : String → Option Event}
    (h : Waiting queue slots) (event : Event) :
    Waiting (queue ++ [event]) (Function.update slots event.agentId (some event)) := by
  intro agentId e hlast
  rw [Board.lastFor_concat] at hlast
  by_cases ha : event.agentId = agentId
  · rw [if_pos ha] at hlast
    rw [← ha, Function.update_self, hlast]
  · rw [if_neg ha] at hlast
    rw [Function.update_of_ne (Ne.symm ha)]
    exact h agentId e hlast

/-- Delivering the first leaves the rest waiting. -/
theorem Waiting.tail {event : Event} {queue : List Event} {slots : String → Option Event}
    (h : Waiting (event :: queue) slots) : Waiting queue slots := by
  intro agentId e hlast
  refine h agentId e ?_
  rw [← List.singleton_append, Board.lastFor_append, hlast]
  rfl

/-- The new event is laid over the live state as over any view that shows it. -/
theorem patched_concat {queue : List Event} {slots : String → Option Event}
    {g : AgentView → AgentView} (h : patched queue g = liveAgent slots) (event : Event) :
    patched (queue ++ [event]) g =
      liveAgent (Function.update slots event.agentId (some event)) := by
  rw [patched_append, h]
  funext base
  by_cases ha : base.agentId = event.agentId
  · simp [patched, Board.lastFor, liveAgent, ha]
  · simp [patched, Board.lastFor, liveAgent, ha, Ne.symm ha]

/-! ## Every run -/

/-- A connection to which no event was lost: what waits ends with the slots, and once
the snapshot is sent, the client's view with what waits is the live state. -/
structure InSync (con : Connection) (queue : List Event) (slots : String → Option Event) :
    Prop where
  waiting : Waiting queue slots
  view : con.phase = .streaming → ∃ g, clientView visual con.frames = some (showing visual g) ∧
    patched queue g = liveAgent slots

/-- No event found the queue of the connection full. -/
def Roomy (con : Connection) : Prop := ∀ p ∈ con.offered, p.2 < queueMaxsize

/-- One step keeps a connection in sync as long as its queue never fills. -/
theorem inSync_step {s : Server} (hs : WellFormed s) (l : Step) {c : ℕ}
    (h : ∀ queue, registered? s.bus c = some queue → Roomy (s.connections c) →
      InSync visual (s.connections c) queue s.bus.agentTaskState)
    {queue' : List Event} (hreg : registered? (step visual s l).bus c = some queue')
    (hroom : Roomy ((step visual s l).connections c)) :
    InSync visual ((step visual s l).connections c) queue'
      (step visual s l).bus.agentTaskState := by
  have hmoves := step_moves visual hs l c
  have hslots : (∀ now payload, l ≠ .publish now payload) →
      (step visual s l).bus.agentTaskState = s.bus.agentTaskState :=
    fun hl => (step_other visual s hl).1
  generalize hs' : (step visual s l).bus.agentTaskState = slots at hslots ⊢
  generalize (step visual s l).connections c = con at hmoves hroom ⊢
  rw [hreg] at hmoves
  generalize hq : some queue' = queue at hmoves
  cases hmoves with
  | idle hidle =>
    -- an idle publish would have found the queue unregistered
    have hl : ∀ now payload, l ≠ .publish now payload := by
      intro now payload hl
      rw [hidle now payload hl] at hq
      cases hq
    rw [hslots hl]
    exact h queue' hq.symm hroom
  | @offered now payload queue hqueue =>
    -- the queue has room, so the event is both in its slot and at the end of the queue
    have hlt : queue.length < queueMaxsize :=
      hroom ((publishAgentState s.bus now payload).1, queue.length) (by simp)
    rw [if_pos hlt] at hq
    cases hq
    have hold := h queue hqueue (fun p hp => hroom p (List.mem_append_left _ hp))
    rw [← hs']
    refine ⟨hold.waiting.concat _, ?_⟩
    intro hphase
    obtain ⟨g, hview, hpatched⟩ := hold.view hphase
    exact ⟨g, hview, patched_concat hpatched _⟩
  | connected hc =>
    cases hq
    constructor
    · intro agentId e hlast
      cases hlast
    · intro hphase
      cases hphase
  | started hphase =>
    rw [hslots (fun _ _ => Step.noConfusion)]
    have hold := h queue' hq.symm hroom
    -- the snapshot is the live state; what still waits repeats a part of it
    refine ⟨hold.waiting, fun _ => ⟨liveAgent s.bus.agentTaskState, ?_, hold.waiting.patched⟩⟩
    rw [clientView_concat]
    rfl
  | @delivered event queue hphase hqueue =>
    cases hq
    rw [hslots (fun _ _ => Step.noConfusion)]
    have hold := h (event :: queue') hqueue hroom
    obtain ⟨g, hview, hpatched⟩ := hold.view hphase
    -- the first waiting event moves from the queue into the view
    refine ⟨hold.waiting.tail, fun _ => ⟨patched [event] g, ?_, ?_⟩⟩
    · rw [clientView_concat, hview, ← applyEvent_showing]
      rfl
    · rw [← patched_append]
      exact hpatched
  | idled hphase =>
    rw [hslots (fun _ _ => Step.noConfusion)]
    have hold := h queue' hq.symm hroom
    refine ⟨hold.waiting, fun _ => ?_⟩
    rw [clientView_concat]
    exact hold.view hphase
  | cancelled hphase =>
    rw [hslots (fun _ _ => Step.noConfusion)]
    have hold := h queue' hq.symm hroom
    exact ⟨hold.waiting, fun hended => by cases hended⟩
  | closed hphase => cases hq

/-- So does every run. -/
theorem inSync_afterSteps (ls : List Step) {c : ℕ} {queue : List Event}
    (hreg : registered? (afterSteps visual ls).bus c = some queue)
    (hroom : Roomy ((afterSteps visual ls).connections c)) :
    InSync visual ((afterSteps visual ls).connections c) queue
      (afterSteps visual ls).bus.agentTaskState := by
  have hinit : ∀ queue, registered? ({} : Server).bus c = some queue →
      Roomy (({} : Server).connections c) →
      InSync visual (({} : Server).connections c) queue ({} : Server).bus.agentTaskState := by
    intro queue h
    cases h
  have hstep : ∀ s l, WellFormed s →
      (∀ queue, registered? s.bus c = some queue → Roomy (s.connections c) →
        InSync visual (s.connections c) queue s.bus.agentTaskState) →
      ∀ queue, registered? (step visual s l).bus c = some queue →
        Roomy ((step visual s l).connections c) →
        InSync visual ((step visual s l).connections c) queue
          (step visual s l).bus.agentTaskState :=
    fun s l hs h _ => inSync_step visual hs l h
  exact afterSteps_invariant visual hinit hstep ls queue hreg hroom

/-- A streaming connection whose queue was never full at a publish and is empty now:
the client shows the live visual state. -/
theorem client_converges (ls : List Step) (c : ℕ)
    (hphase : ((afterSteps visual ls).connections c).phase = .streaming)
    (hroom : ∀ p ∈ ((afterSteps visual ls).connections c).offered, p.2 < 256)
    (hdrained : (afterSteps visual ls).queue c = []) :
    clientView visual ((afterSteps visual ls).connections c).frames =
      some (liveVisualState visual (afterSteps visual ls).bus.agentTaskState) := by
  obtain ⟨queue, hreg⟩ := (wellFormed_afterSteps visual ls).live c (Or.inr hphase)
  have hempty : queue = [] := by
    simpa [Server.queue, hreg] using hdrained
  obtain ⟨g, hview, hpatched⟩ := (inSync_afterSteps visual ls hreg hroom).view hphase
  rw [hempty, patched_nil] at hpatched
  rw [hview, hpatched, liveVisualState_eq]

/-- The event that the snapshot is ahead of is replayed, and the view is the live one. -/
theorem client_converges_replayed :
    clientView office ((afterSteps office [.connect, .publish morning writing,
        .start 0 morning, .deliver 0]).connections 0).frames =
      some (liveVisualState office (afterSteps office [.connect, .publish morning writing,
        .start 0 morning, .deliver 0]).bus.agentTaskState) := by
  refine client_converges office
    [.connect, .publish morning writing, .start 0 morning, .deliver 0] 0 rfl ?_ rfl
  intro p hp
  cases hp with
  | head => decide
  | tail _ h => cases h

end AdsHub.Events
