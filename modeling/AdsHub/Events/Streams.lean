import AdsHub.Events.Delivery

/-!
# AdsHub.Events.Streams — a stream from its first frame to its end

The ids of the frames are drawn from one counter, those of events when they are
published, those of snapshots and heartbeats when they are sent. `frame_ids` says
what order this gives on a stream: the ids increase, except that an event which was
waiting while a snapshot or a heartbeat was drawn is sent after it with a smaller
number (`event_after_snapshot`).

A queue is registered by the endpoint and taken out by the generator.
`subscribers_not_ended` is what this gives for the subscribers: they are all alive
as long as no connection ends between the two.
-/

namespace AdsHub.Events

variable (visual : VisualState)

/-! ## The order of the ids -/

/-- The later frame has the greater id, unless it is an event after a frame that is
none. -/
def InOrder (f g : Frame) : Prop :=
  f.id < g.id ∨ f.event? = none ∧ g.event? ≠ none ∧ g.id < f.id

/-- What a step does to the frames of a connection. -/
theorem frames_step {s : Server} (hs : WellFormed s) (l : Step) (c : ℕ) :
    ((step visual s l).connections c).frames = (s.connections c).frames ∨
    (∃ f, ((step visual s l).connections c).frames = (s.connections c).frames ++ [f] ∧
      f.event? = none ∧ f.id = s.bus.eventSequence + 1 ∧
      (step visual s l).bus.eventSequence = s.bus.eventSequence + 1 ∧
      (step visual s l).published = s.published ∧
      (step visual s l).queue c = s.queue c ∧ ∃ now, l = .start c now ∨ l = .heartbeat c now) ∨
    ∃ e, ((step visual s l).connections c).frames =
        (s.connections c).frames ++ [.agentStateChanged e] ∧
      s.queue c = e :: (step visual s l).queue c ∧
      (step visual s l).bus.eventSequence = s.bus.eventSequence ∧
      (step visual s l).published = s.published := by
  -- the frames are read off the move of the connection, counter and history off the step
  have hmoves := step_moves visual hs l c
  generalize hcon : (step visual s l).connections c = con at hmoves ⊢
  generalize hreg : registered? (step visual s l).bus c = queue at hmoves
  cases hmoves with
  | idle h => exact Or.inl rfl
  | offered hqueue => exact Or.inl rfl
  | connected h =>
    refine Or.inl ?_
    rw [hs.fresh c h.ge]
  | started h =>
    refine Or.inr (Or.inl ⟨_, rfl, rfl, rfl, ?_, ?_, ?_, _, Or.inl rfl⟩)
    · simp [step, start, h, nextEventSequence]
    · simp [step, start, h]
    · simp [Server.queue, hreg, hcon]
  | delivered h hqueue =>
    refine Or.inr (Or.inr ⟨_, rfl, ?_, ?_, ?_⟩)
    · simp [Server.queue, hreg, hqueue]
    · simp [step, deliver, h, Server.queue, hqueue]
    · simp [step, deliver, h, Server.queue, hqueue]
  | idled h =>
    refine Or.inr (Or.inl ⟨_, rfl, rfl, rfl, ?_, ?_, ?_, _, Or.inr rfl⟩)
    · simp [step, heartbeat, h, nextEventSequence]
    · simp [step, heartbeat, h]
    · simp [Server.queue, hreg, hcon]
  | cancelled h => exact Or.inl rfl
  | closed h => exact Or.inl rfl

/-- Published events are older ones or the one that is numbered next. -/
theorem mem_published_step {s : Server} {l : Step} {e : Event}
    (he : e ∈ (step visual s l).published) :
    e ∈ s.published ∨ e.sequence = s.bus.eventSequence + 1 := by
  rcases step_busMoves visual s l with ⟨_, _, _, hpub⟩ | ⟨_, _, _, hpub⟩ | ⟨_, _, hpub⟩
  · exact Or.inl (hpub ▸ he)
  · exact Or.inl (hpub ▸ he)
  · rw [hpub, List.mem_append, List.mem_singleton] at he
    rcases he with he | rfl
    · exact Or.inl he
    · exact Or.inr rfl

/-- The ids of a stream: not beyond the counter, and a snapshot or a heartbeat shares
its number with no event. -/
structure FrameIds (s : Server) (c : ℕ) : Prop where
  ordered : (s.connections c).frames.Pairwise InOrder
  bounded : ∀ f ∈ (s.connections c).frames, f.id ≤ s.bus.eventSequence
  own : ∀ f ∈ (s.connections c).frames, f.event? = none → ∀ e ∈ s.published, e.sequence ≠ f.id

theorem eq_of_event {f : Frame} {e : Event} (h : f.event? = some e) : f = .agentStateChanged e := by
  cases f with
  | snapshot sequence occurredAt visualState => cases h
  | agentStateChanged event =>
    cases h
    rfl
  | heartbeat sequence occurredAt => cases h

/-- Only published events are queued. -/
theorem queue_subset_published (ls : List Step) (c : ℕ) :
    (afterSteps visual ls).queue c ⊆ (afterSteps visual ls).published := by
  intro e he
  have hmem := (delivered_queue_sublist visual ls c).subset (List.mem_append_right _ he)
  exact List.mem_of_mem_drop hmem

/-- An event that waits has a greater id than the events that were sent. -/
theorem sent_lt_waiting {ls : List Step} {c : ℕ} {f : Frame} {e : Event}
    (hf : f ∈ ((afterSteps visual ls).connections c).frames) (hsome : f.event? ≠ none)
    (he : e ∈ (afterSteps visual ls).queue c) : f.id < e.sequence := by
  obtain ⟨sent, hsent⟩ := Option.ne_none_iff_exists'.1 hsome
  have hincreasing := delivered_queue_increasing visual ls c
  rw [List.pairwise_append] at hincreasing
  have hmem : sent ∈ ((afterSteps visual ls).connections c).delivered :=
    List.mem_filterMap.2 ⟨f, hf, hsent⟩
  rw [eq_of_event hsent]
  exact hincreasing.2.2 sent hmem e he

/-- Nothing is sent: a new event is numbered beyond everything that was. -/
theorem FrameIds.kept {s : Server} {c : ℕ} (h : FrameIds s c) {l : Step}
    (hframes : ((step visual s l).connections c).frames = (s.connections c).frames) :
    FrameIds (step visual s l) c where
  ordered := by
    rw [hframes]
    exact h.ordered
  bounded := by
    rw [hframes]
    intro f hf
    exact (h.bounded f hf).trans (step_counter_le visual s l)
  own := by
    rw [hframes]
    intro f hf hnone e he
    -- an event of this very step is numbered beyond the counter, so beyond the frame
    rcases mem_published_step visual he with he | he
    · exact h.own f hf hnone e he
    · have hle := h.bounded f hf
      omega

/-- A snapshot or a heartbeat is sent under the next number. -/
theorem FrameIds.drawn {s s' : Server} {c : ℕ} (h : FrameIds s c) (hnumbered : Numbered s)
    {f : Frame} (hframes : (s'.connections c).frames = (s.connections c).frames ++ [f])
    (hid : f.id = s.bus.eventSequence + 1)
    (hseq : s'.bus.eventSequence = s.bus.eventSequence + 1) (hpub : s'.published = s.published) :
    FrameIds s' c where
  ordered := by
    rw [hframes]
    refine pairwise_concat h.ordered ?_
    intro g hg
    have hle := h.bounded g hg
    exact Or.inl (by omega)
  bounded := by
    rw [hframes, List.forall_mem_append, List.forall_mem_singleton]
    refine ⟨?_, by omega⟩
    intro g hg
    have hle := h.bounded g hg
    omega
  own := by
    rw [hframes, hpub, List.forall_mem_append, List.forall_mem_singleton]
    refine ⟨h.own, ?_⟩
    intro _ e he
    -- all events published so far are numbered below the new frame
    have hle := hnumbered.bounded e he
    omega

/-- An event is sent: it comes after the events that were sent before it, and before
or after the other frames. -/
theorem FrameIds.sent {s s' : Server} {c : ℕ} (h : FrameIds s c) {e : Event}
    (hframes : (s'.connections c).frames = (s.connections c).frames ++ [.agentStateChanged e])
    (hseq : s'.bus.eventSequence = s.bus.eventSequence) (hpub : s'.published = s.published)
    (hmem : e ∈ s.published) (hle : e.sequence ≤ s.bus.eventSequence)
    (hsent : ∀ f ∈ (s.connections c).frames, f.event? ≠ none → f.id < e.sequence) :
    FrameIds s' c where
  ordered := by
    rw [hframes]
    refine pairwise_concat h.ordered ?_
    intro g hg
    -- a snapshot or heartbeat can be on either side of the event, an earlier event cannot
    by_cases hnone : g.event? = none
    · have hne : e.sequence ≠ g.id := h.own g hg hnone e hmem
      rcases Nat.lt_or_gt_of_ne hne with hlt | hgt
      · exact Or.inr ⟨hnone, Option.some_ne_none e, hlt⟩
      · exact Or.inl hgt
    · exact Or.inl (hsent g hg hnone)
  bounded := by
    rw [hframes, hseq, List.forall_mem_append, List.forall_mem_singleton]
    exact ⟨h.bounded, hle⟩
  own := by
    rw [hframes, hpub, List.forall_mem_append, List.forall_mem_singleton]
    exact ⟨h.own, fun hnone => absurd hnone (Option.some_ne_none e)⟩

/-- The ids of every stream, after every run. -/
theorem frameIds_afterSteps (ls : List Step) (c : ℕ) : FrameIds (afterSteps visual ls) c := by
  induction ls using List.reverseRecOn with
  | nil => exact ⟨List.Pairwise.nil, fun _ hf => absurd hf List.not_mem_nil,
      fun _ hf => absurd hf List.not_mem_nil⟩
  | append_singleton ls l ih =>
    -- the last step sends nothing, draws a number of its own, or sends the first waiting event
    have hnumbered := numbered_afterSteps visual ls
    rw [afterSteps, Runs.run_concat, ← afterSteps]
    rcases frames_step visual (wellFormed_afterSteps visual ls) l c with
      hframes | ⟨f, hframes, -, hid, hseq, hpub, -, -⟩ | ⟨e, hframes, hqueue, hseq, hpub⟩
    · exact ih.kept visual hframes
    · exact ih.drawn hnumbered hframes hid hseq hpub
    · have hwaiting : e ∈ (afterSteps visual ls).queue c := by
        rw [hqueue]
        exact List.mem_cons_self
      have hmem := queue_subset_published visual ls c hwaiting
      exact ih.sent hframes hseq hpub hmem (hnumbered.bounded e hmem)
        (fun f hf hsome => sent_lt_waiting visual hf hsome hwaiting)

/-! ## Streams that draw with an empty queue -/

/-- The step does not draw a number for connection `c` while an event is waiting for
it. -/
def DrawsIdle (c : ℕ) (s : Server) (l : Step) : Prop :=
  (∃ now, l = .start c now ∨ l = .heartbeat c now) → s.queue c = []

/-- A step queues at most the event it has just numbered. -/
theorem mem_queue_step {s : Server} (hs : WellFormed s) {l : Step} {c : ℕ} {e : Event}
    (he : e ∈ (step visual s l).queue c) :
    e ∈ s.queue c ∨ e.sequence = s.bus.eventSequence + 1 := by
  have hmoves := step_moves visual hs l c
  unfold Server.queue at he ⊢
  generalize (step visual s l).connections c = con at hmoves he
  generalize registered? (step visual s l).bus c = queue at hmoves he
  cases hmoves with
  | idle h => exact Or.inl he
  | offered hqueue =>
    rw [hqueue]
    rw [Option.getD_some] at he
    split at he
    · rw [List.mem_append, List.mem_singleton] at he
      -- the new event has the next number
      rcases he with he | rfl
      · exact Or.inl he
      · exact Or.inr rfl
    · exact Or.inl he
  | connected h => exact absurd he List.not_mem_nil
  | started h => exact Or.inl he
  | delivered h hqueue =>
    rw [hqueue]
    exact Or.inl (List.mem_cons_of_mem _ he)
  | idled h => exact Or.inl he
  | cancelled h => exact Or.inl he
  | closed h => exact Or.inl he

/-- The ids increase, and what is waiting has a greater number than what was sent. -/
structure Increasing (s : Server) (c : ℕ) : Prop where
  ordered : (s.connections c).frames.Pairwise (fun f g => f.id < g.id)
  ahead : ∀ f ∈ (s.connections c).frames, ∀ e ∈ s.queue c, f.id < e.sequence

/-- A number drawn on an idle queue is above everything sent. -/
theorem Increasing.step {s : Server} {c : ℕ} (h : Increasing s c) (hs : WellFormed s)
    (hbounded : ∀ f ∈ (s.connections c).frames, f.id ≤ s.bus.eventSequence)
    (hqueue : (s.queue c).Pairwise (fun a b => a.sequence < b.sequence)) {l : Step}
    (hl : DrawsIdle c s l) : Increasing (step visual s l) c := by
  -- the case that the condition is for is the second: a number drawn while something waits
  rcases frames_step visual hs l c with
    hframes | ⟨f, hframes, -, hid, -, -, hsame, hdraws⟩ | ⟨e, hframes, hwaiting, -, -⟩
  · refine ⟨by rw [hframes]; exact h.ordered, ?_⟩
    rw [hframes]
    intro f hf e he
    rcases mem_queue_step visual hs he with he | he
    · exact h.ahead f hf e he
    · have hle := hbounded f hf
      omega
  · constructor
    · rw [hframes]
      refine pairwise_concat h.ordered ?_
      intro g hg
      have hle := hbounded g hg
      omega
    · rw [hsame, hl hdraws]
      exact fun _ _ e he => absurd he List.not_mem_nil
  · rw [hwaiting, List.pairwise_cons] at hqueue
    have hahead : ∀ f ∈ (s.connections c).frames,
        ∀ e' ∈ e :: (Events.step visual s l).queue c, f.id < e'.sequence := by
      rw [← hwaiting]
      exact h.ahead
    constructor
    · rw [hframes]
      refine pairwise_concat h.ordered ?_
      intro g hg
      exact hahead g hg e List.mem_cons_self
    · rw [hframes, List.forall_mem_append, List.forall_mem_singleton]
      refine ⟨?_, hqueue.1⟩
      intro f hf e' he'
      exact hahead f hf e' (List.mem_cons_of_mem _ he')

/-- A stream that draws only when idle has increasing ids. -/
theorem increasing_afterSteps {ls : List Step} {c : ℕ}
    (h : Runs.Along (step visual) (DrawsIdle c) {} ls) : Increasing (afterSteps visual ls) c := by
  induction ls using List.reverseRecOn with
  | nil => exact ⟨List.Pairwise.nil, fun _ hf => absurd hf List.not_mem_nil⟩
  | append_singleton ls l ih =>
    rw [Runs.along_append] at h
    have hqueue := (delivered_queue_increasing visual ls c).sublist
      (List.sublist_append_right _ _)
    rw [afterSteps, Runs.run_concat, ← afterSteps]
    exact (ih h.1).step visual (wellFormed_afterSteps visual ls)
      (frameIds_afterSteps visual ls c).bounded hqueue h.2.1

/-- The ids on a stream: of two frames the later one has the greater id, unless the
earlier one is a snapshot or a heartbeat and the later one an event that was
numbered before it. If no number is drawn for the stream while an event is waiting
for it, the ids increase. -/
theorem frame_ids (ls : List Step) (c : ℕ) :
    ((afterSteps visual ls).connections c).frames.Pairwise
      (fun f g => f.id < g.id ∨ f.event? = none ∧ g.event? ≠ none ∧ g.id < f.id) ∧
    (Runs.Along (step visual) (DrawsIdle c) {} ls →
      ((afterSteps visual ls).connections c).frames.Pairwise (fun f g => f.id < g.id)) :=
  ⟨(frameIds_afterSteps visual ls c).ordered, fun h => (increasing_afterSteps visual h).ordered⟩

/-- The event finds the snapshot sent, and is sent before the next number is drawn. -/
theorem frame_ids_idle :
    ((afterSteps office [.connect, .start 0 morning, .publish morning writing, .deliver 0,
      .heartbeat 0 morning]).connections 0).frames.Pairwise (fun f g => f.id < g.id) := by
  refine (frame_ids office [.connect, .start 0 morning, .publish morning writing, .deliver 0,
    .heartbeat 0 morning] 0).2 ⟨fun _ => rfl, fun _ => rfl, fun _ => rfl, ?_, fun _ => rfl, trivial⟩
  rintro ⟨now, h | h⟩
  · cases h
  · cases h

/-- An event is published after the registration and before the snapshot. -/
def overtaken : List Step := [.connect, .publish morning writing, .start 0 morning, .deliver 0]

/-- The snapshot is number 2, and the event that follows it number 1. -/
theorem event_after_snapshot :
    ¬ ((afterSteps office overtaken).connections 0).frames.Pairwise (fun f g => f.id < g.id) := by
  intro h
  have hids := h.map Frame.id (fun f g hlt => hlt)
  exact absurd hids (by decide)

/-! ## Who is still registered -/

/-- Every queue among the subscribers is that of a connection that has not ended. -/
def Alive (s : Server) : Prop :=
  ∀ sub ∈ s.bus.eventSubscribers, (s.connections sub.id).phase = .returned ∨
    (s.connections sub.id).phase = .streaming

/-- The step does not end a connection before the first step of its generator. -/
def EndsStarted (s : Server) (l : Step) : Prop :=
  ∀ c, l = .close c → (s.connections c).phase ≠ .returned

/-- Alive means that every registered connection is waiting for its first frame or
streaming. -/
theorem alive_iff (s : Server) :
    Alive s ↔ ∀ c, registered? s.bus c ≠ none →
      (s.connections c).phase = .returned ∨ (s.connections c).phase = .streaming := by
  have hfind : ∀ c, registered? s.bus c ≠ none ↔ ∃ sub ∈ s.bus.eventSubscribers, sub.id = c := by
    intro c
    simp [registered?]
  constructor
  · intro h c hc
    obtain ⟨sub, hsub, rfl⟩ := (hfind c).1 hc
    exact h sub hsub
  · intro h sub hsub
    exact h sub.id ((hfind sub.id).2 ⟨sub, hsub, rfl⟩)

/-- Closing only streams that have started keeps the others alive. -/
theorem Alive.step {s : Server} (hs : WellFormed s) (h : Alive s) {l : Step}
    (hl : EndsStarted s l) : Alive (step visual s l) := by
  rw [alive_iff] at h ⊢
  intro c hc
  have hmoves := step_moves visual hs l c
  generalize (Events.step visual s l).connections c = con at hmoves ⊢
  generalize registered? (Events.step visual s l).bus c = queue at hmoves hc
  cases hmoves with
  | idle h' => exact h c hc
  | offered hqueue =>
    refine h c ?_
    rw [hqueue]
    exact Option.some_ne_none _
  | connected h' => exact Or.inl rfl
  | started h' => exact Or.inr rfl
  | delivered h' hqueue => exact Or.inr h'
  | idled h' => exact Or.inr h'
  -- the one move that ends a connection and leaves its queue
  | cancelled h' => exact absurd h' (hl c rfl)
  | closed h' => exact absurd rfl hc

/-- A generator that was never started leaves its queue behind. -/
theorem not_alive_of_cancelled {s : Server} (hs : WellFormed s) {c : ℕ}
    (h : (s.connections c).phase = .returned) : ¬ Alive (step visual s (.close c)) := by
  intro halive
  obtain ⟨queue, hqueue⟩ := hs.live c (Or.inl h)
  have hreg : registered? (step visual s (.close c)).bus c ≠ none := by
    simp [step, close, h, hqueue]
  have hphase : ((step visual s (.close c)).connections c).phase = .ended := by
    simp [step, close, h]
  rcases (alive_iff _).1 halive c hreg with h' | h'
  · simp [hphase] at h'
  · simp [hphase] at h'

/-- In every state of a run the subscribers are all alive, exactly if no connection
ends in it between the endpoint's return and the first step of its generator. -/
theorem subscribers_not_ended (ls : List Step) :
    (∀ pre, pre <+: ls → Alive (afterSteps visual pre)) ↔
      Runs.Along (step visual) EndsStarted {} ls := by
  constructor
  · intro h
    rw [Runs.along_iff_prefix]
    -- a step against the condition leads to a state that is not alive
    rintro pre l hpre c rfl hphase
    have halive := h _ hpre
    rw [afterSteps, Runs.run_concat] at halive
    exact not_alive_of_cancelled visual (wellFormed_afterSteps visual pre) hphase halive
  · intro h pre hpre
    have hstep : ∀ s l, WellFormed s ∧ Alive s → EndsStarted s l →
        WellFormed (step visual s l) ∧ Alive (step visual s l) := by
      intro s l hs hl
      exact ⟨hs.1.step visual l, hs.2.step visual hs.1 hl⟩
    exact (Runs.along_invariant hstep
      ⟨wellFormed_init, fun _ hsub => absurd hsub List.not_mem_nil⟩ h hpre).2

/-- A connection that is cancelled before its response is iterated stays among the
subscribers. -/
theorem cancelled_stays_registered : ¬ Alive (afterSteps office [.connect, .close 0]) := by
  intro h
  rcases h ⟨0, []⟩ List.mem_cons_self with h' | h'
  · cases h'
  · cases h'

end AdsHub.Events
