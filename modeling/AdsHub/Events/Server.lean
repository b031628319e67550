import AdsHub.Lib.Runs
import AdsHub.Lib.Mailbox
import AdsHub.VisualState

/-!
# AdsHub.Events.Server — `/v1/autonomy/events`

The process that the connections to the event stream share: the task bus, and for
every connection what its generator has done. What can happen, in any order:

* a publish;
* a connection arrives: its queue is registered and the response is returned;
* the generator of a connection makes its first step and sends the snapshot;
* it sends the next event of its queue, or a heartbeat after 15 idle seconds (a
  timeout can coincide with a publish, so the queue need not be empty then);
* the connection ends. A generator that has been started runs its `finally` block
  and takes the queue out of the subscribers; one that never was does not.

None of these contains an `await` between what it reads and what it writes, so each
is one step. A step that does not apply changes nothing.

Each connection is a mailbox in the sense of `AdsHub.Lib.Mailbox`
(`mailbox_step`), whatever the others do.
-/

namespace AdsHub.Events

/-- What a stream sends. -/
inductive Frame where
  | snapshot (sequence : ℕ) (occurredAt : String) (visualState : VisualState)
  | agentStateChanged (event : Event)
  | heartbeat (sequence : ℕ) (occurredAt : String)

/-- The `id:` of a frame. -/
def Frame.id : Frame → ℕ
  | .snapshot sequence _ _ => sequence
  | .agentStateChanged event => event.sequence
  | .heartbeat sequence _ => sequence

/-- The event of a frame, if it carries one. -/
def Frame.event? : Frame → Option Event
  | .agentStateChanged event => some event
  | _ => none

/-- Where a connection stands: not there yet, the response returned, the generator
started, or over. -/
inductive Phase where
  | absent
  | returned
  | streaming
  | ended
deriving DecidableEq

/-- A connection, with its history: `offered` has every event that was published
while its queue was registered, with the number of events in the queue at that
moment; `registeredAt` counts the events published before its registration;
`remaining` is what was in the queue when it was taken out. -/
structure Connection where
  phase : Phase := .absent
  frames : List Frame := []
  offered : List (Event × ℕ) := []
  registeredAt : ℕ := 0
  remaining : List Event := []

/-- The events that a connection has been sent. -/
def Connection.delivered (con : Connection) : List Event := con.frames.filterMap Frame.event?

/-- The process. Connections are numbered in the order of their arrival, which is also
the `id` of their queue; `published` is the history of the bus. -/
structure Server where
  bus : Bus := {}
  opened : ℕ := 0
  connections : ℕ → Connection := fun _ => {}
  published : List Event := []

/-- The queue of a connection among the subscribers. -/
def registered? (bus : Bus) (c : ℕ) : Option (List Event) :=
  (bus.eventSubscribers.find? (fun sub => sub.id = c)).map Subscriber.queue

/-- What waits in the queue of a connection. -/
def Server.queue (s : Server) (c : ℕ) : List Event :=
  (registered? s.bus c).getD (s.connections c).remaining

/-- The step labels. -/
inductive Step where
  | publish (now : Utc) (payload : Payload)
  | connect
  | start (c : ℕ) (now : Utc)
  | deliver (c : ℕ)
  | heartbeat (c : ℕ) (now : Utc)
  | close (c : ℕ)

/-- `await publish_agent_state(payload)`. -/
def publish (s : Server) (now : Utc) (payload : Payload) : Server :=
  let event := (publishAgentState s.bus now payload).1
  { s with
    bus := (publishAgentState s.bus now payload).2
    published := s.published ++ [event]
    connections := fun c =>
      match registered? s.bus c with
      | none => s.connections c
      | some queue =>
        { s.connections c with offered := (s.connections c).offered ++ [(event, queue.length)] } }

/-- `autonomy_events`, up to the return of the response. -/
def connect (s : Server) : Server :=
  { s with
    bus := { s.bus with eventSubscribers := s.bus.eventSubscribers ++ [⟨s.opened, []⟩] }
    opened := s.opened + 1
    connections := Function.update s.connections s.opened
      { phase := .returned, registeredAt := s.published.length } }

/-- The first step of the generator: the snapshot. -/
def start (visual : VisualState) (s : Server) (c : ℕ) (now : Utc) : Server :=
  match (s.connections c).phase with
  | .returned =>
    let (sequence, bus) := nextEventSequence s.bus
    let frame := .snapshot sequence now.isoformat (liveVisualState visual bus.agentTaskState)
    { s with
      bus := bus
      connections := Function.update s.connections c
        { s.connections c with
          phase := .streaming, frames := (s.connections c).frames ++ [frame] } }
  | _ => s

/-- `queue.get()` returns an event, which is sent. -/
def deliver (s : Server) (c : ℕ) : Server :=
  match (s.connections c).phase, s.queue c with
  | .streaming, event :: _ =>
    { s with
      bus := { s.bus with
        eventSubscribers := s.bus.eventSubscribers.map (fun sub =>
          if sub.id = c then { sub with queue := sub.queue.tail } else sub) }
      connections := Function.update s.connections c
        { s.connections c with
          frames := (s.connections c).frames ++ [.agentStateChanged event] } }
  | _, _ => s

/-- `queue.get()` times out, and a heartbeat is sent. -/
def heartbeat (s : Server) (c : ℕ) (now : Utc) : Server :=
  match (s.connections c).phase with
  | .streaming =>
    let (sequence, bus) := nextEventSequence s.bus
    { s with
      bus := bus
      connections := Function.update s.connections c
        { s.connections c with
          frames := (s.connections c).frames ++ [.heartbeat sequence now.isoformat] } }
  | _ => s

/-- The connection ends. Only a generator that was started has a `finally` to run. -/
def close (s : Server) (c : ℕ) : Server :=
  match (s.connections c).phase with
  | .returned =>
    { s with
      connections := Function.update s.connections c { s.connections c with phase := .ended } }
  | .streaming =>
    { s with
      bus := { s.bus with
        eventSubscribers := s.bus.eventSubscribers.filter (fun sub => sub.id ≠ c) }
      connections := Function.update s.connections c
        { s.connections c with phase := .ended, remaining := s.queue c } }
  | _ => s

/-- One step of the process; `visual` is what `visual_state()` answers. -/
def step (visual : VisualState) (s : Server) : Step → Server
  | .publish now payload => publish s now payload
  | .connect => connect s
  | .start c now => start visual s c now
  | .deliver c => deliver s c
  | .heartbeat c now => heartbeat s c now
  | .close c => close s c

/-! ## The queues among the subscribers -/

/-- A publish appends to every queue that has room. -/
theorem registered?_publish (bus : Bus) (now : Utc) (payload : Payload) (c : ℕ) :
    registered? (publishAgentState bus now payload).2 c =
      (registered? bus c).map (fun queue =>
        if queue.length < queueMaxsize then queue ++ [(publishAgentState bus now payload).1]
        else queue) := by
  simp only [registered?, publishAgentState, nextEventSequence, List.find?_map, Option.map_map]
  -- a put changes no subscriber's id, so the search for it finds the same one
  have hid : (fun sub : Subscriber => decide (sub.id = c)) ∘ Subscriber.putNowait
      (publishAgentState bus now payload).1 = fun sub => decide (sub.id = c) := by
    funext sub
    simp only [Function.comp_apply, Subscriber.putNowait]
    split <;> rfl
  simp only [publishAgentState, nextEventSequence] at hid
  rw [hid]
  congr 1
  funext sub
  simp only [Function.comp_apply, Subscriber.putNowait]
  split <;> rfl

theorem registered?_connect (bus : Bus) (o c : ℕ) :
    registered? { bus with eventSubscribers := bus.eventSubscribers ++ [⟨o, []⟩] } c =
      (registered? bus c).or (if o = c then some [] else none) := by
  simp only [registered?, List.find?_append]
  cases h : bus.eventSubscribers.find? (fun sub => decide (sub.id = c)) with
  | some sub => rfl
  | none =>
    by_cases hc : o = c
    · simp [hc]
    · simp [hc]

theorem registered?_deliver (bus : Bus) (d c : ℕ) :
    registered? { bus with
      eventSubscribers := bus.eventSubscribers.map (fun sub =>
        if sub.id = d then { sub with queue := sub.queue.tail } else sub) } c =
      (registered? bus c).map (fun queue => if c = d then queue.tail else queue) := by
  simp only [registered?, List.find?_map, Option.map_map]
  have hid : (fun sub : Subscriber => decide (sub.id = c)) ∘
      (fun sub => if sub.id = d then { sub with queue := sub.queue.tail } else sub) =
      fun sub => decide (sub.id = c) := by
    funext sub
    simp only [Function.comp_apply]
    split <;> rfl
  rw [hid]
  cases h : bus.eventSubscribers.find? (fun sub => decide (sub.id = c)) with
  | none => rfl
  | some sub =>
    have hsub : sub.id = c := by simpa using List.find?_some h
    simp only [Option.map_some, Function.comp_apply, hsub]
    split <;> rfl

theorem registered?_close (bus : Bus) (d c : ℕ) :
    registered? { bus with
      eventSubscribers := bus.eventSubscribers.filter (fun sub => sub.id ≠ d) } c =
      if c = d then none else registered? bus c := by
  simp only [registered?, List.find?_filter]
  by_cases hc : c = d
  · have hnone : bus.eventSubscribers.find?
        (fun sub => decide (decide (sub.id ≠ d) = true ∧ decide (sub.id = c) = true)) = none := by
      rw [List.find?_eq_none]
      intro sub _
      simp [hc]
    rw [if_pos hc, hnone]
    rfl
  · rw [if_neg hc]
    congr 2
    funext sub
    by_cases hsub : sub.id = c
    · simp [hsub, hc]
    · simp [hsub]

/-! ## What a step does to one connection -/

/-- The bookkeeping of the connections: no number that is still to come is in use, and
a connection that has not ended has its queue registered. -/
structure WellFormed (s : Server) : Prop where
  unused : ∀ c, s.opened ≤ c → registered? s.bus c = none
  fresh : ∀ c, s.opened ≤ c → s.connections c = {}
  live : ∀ c, (s.connections c).phase = .returned ∨ (s.connections c).phase = .streaming →
    ∃ queue, registered? s.bus c = some queue

/-- Everything that a step can do to connection `c` and its registered queue. -/
inductive Moves (visual : VisualState) (s : Server) (c : ℕ) :
    Step → Connection → Option (List Event) → Prop where
  -- no part of the step, or a publish after the queue was removed
  | idle {l : Step} (h : ∀ now payload, l = .publish now payload → registered? s.bus c = none) :
      Moves visual s c l (s.connections c) (registered? s.bus c)
  -- the event is recorded with the length it found, and queued if that is below the bound
  | offered {now : Utc} {payload : Payload} {queue : List Event}
      (hqueue : registered? s.bus c = some queue) :
      Moves visual s c (.publish now payload)
        { s.connections c with
          offered := (s.connections c).offered ++
            [((publishAgentState s.bus now payload).1, queue.length)] }
        (some (if queue.length < queueMaxsize then
          queue ++ [(publishAgentState s.bus now payload).1] else queue))
  -- `subscribe` registers an empty queue before the generator runs
  | connected (h : c = s.opened) :
      Moves visual s c .connect
        { phase := .returned, registeredAt := s.published.length } (some [])
  | started {now : Utc} (h : (s.connections c).phase = .returned) :
      Moves visual s c (.start c now)
        { s.connections c with
          phase := .streaming
          frames := (s.connections c).frames ++
            [.snapshot (s.bus.eventSequence + 1) now.isoformat
              (liveVisualState visual s.bus.agentTaskState)] }
        (registered? s.bus c)
  | delivered {event : Event} {queue : List Event} (h : (s.connections c).phase = .streaming)
      (hqueue : registered? s.bus c = some (event :: queue)) :
      Moves visual s c (.deliver c)
        { s.connections c with
          frames := (s.connections c).frames ++ [.agentStateChanged event] }
        (some queue)
  | idled {now : Utc} (h : (s.connections c).phase = .streaming) :
      Moves visual s c (.heartbeat c now)
        { s.connections c with
          frames := (s.connections c).frames ++
            [.heartbeat (s.bus.eventSequence + 1) now.isoformat] }
        (registered? s.bus c)
  -- closed before its first step: no `finally` runs, and the queue stays
  | cancelled (h : (s.connections c).phase = .returned) :
      Moves visual s c (.close c) { s.connections c with phase := .ended } (registered? s.bus c)
  -- the `finally` of the generator removes the queue
  | closed (h : (s.connections c).phase = .streaming) :
      Moves visual s c (.close c)
        { s.connections c with phase := .ended, remaining := s.queue c } none

/-- Each handler moves a connection in one of the ways of `Moves`; a lemma for each of them. -/
theorem publish_moves (visual : VisualState) (s : Server) (now : Utc) (payload : Payload) (c : ℕ) :
    Moves visual s c (.publish now payload) ((publish s now payload).connections c)
      (registered? (publish s now payload).bus c) := by
  simp only [publish, registered?_publish]
  cases h : registered? s.bus c with
  | none =>
    have hidle : Moves visual s c (.publish now payload) (s.connections c)
        (registered? s.bus c) := Moves.idle (fun _ _ _ => h)
    rw [h] at hidle
    exact hidle
  | some queue => exact Moves.offered h

theorem connect_moves (visual : VisualState) {s : Server} (hs : WellFormed s) (c : ℕ) :
    Moves visual s c .connect ((connect s).connections c) (registered? (connect s).bus c) := by
  simp only [connect, registered?_connect]
  by_cases hc : c = s.opened
  · subst hc
    -- nobody was registered under the new number
    rw [hs.unused s.opened (le_refl _), if_pos rfl, Function.update_self]
    exact Moves.connected rfl
  · rw [Function.update_of_ne hc, if_neg (Ne.symm hc), Option.or_none]
    exact Moves.idle (fun _ _ h => nomatch h)

/-- A step of one connection is idle for the others. -/
theorem moves_update {visual : VisualState} {s : Server} {l : Step} {d : ℕ} {next : Connection}
    (hmoves : Moves visual s d l next (registered? s.bus d))
    (hidle : ∀ c, Moves visual s c l (s.connections c) (registered? s.bus c)) (c : ℕ) :
    Moves visual s c l (Function.update s.connections d next c) (registered? s.bus c) := by
  by_cases hc : c = d
  · subst hc
    rw [Function.update_self]
    exact hmoves
  · rw [Function.update_of_ne hc]
    exact hidle c

theorem start_moves (visual : VisualState) (s : Server) (d : ℕ) (now : Utc) (c : ℕ) :
    Moves visual s c (.start d now) ((start visual s d now).connections c)
      (registered? (start visual s d now).bus c) := by
  unfold start
  have hidle : ∀ c, Moves visual s c (.start d now) (s.connections c) (registered? s.bus c) :=
    fun _ => Moves.idle (fun _ _ h => nomatch h)
  cases h : (s.connections d).phase with
  | returned => exact moves_update (Moves.started h) hidle c
  | absent => exact hidle c
  | streaming => exact hidle c
  | ended => exact hidle c

theorem deliver_moves (visual : VisualState) {s : Server} (hs : WellFormed s) (d c : ℕ) :
    Moves visual s c (.deliver d) ((deliver s d).connections c)
      (registered? (deliver s d).bus c) := by
  unfold deliver
  have hidle : Moves visual s c (.deliver d) (s.connections c) (registered? s.bus c) :=
    Moves.idle (fun _ _ h => nomatch h)
  split
  · next event queue hphase hqueue =>
    simp only [registered?_deliver]
    by_cases hc : c = d
    · subst hc
      -- a streaming connection reads its own registered queue
      rcases hs.live c (Or.inr hphase) with ⟨queue', hreg⟩
      have heq : queue' = event :: queue := by
        simpa [Server.queue, hreg] using hqueue
      rw [Function.update_self, hreg, heq, Option.map_some, if_pos rfl, List.tail_cons]
      exact Moves.delivered hphase (hreg.trans (congrArg some heq))
    · simp only [Function.update_of_ne hc, if_neg hc, Option.map_id']
      exact hidle
  · exact hidle

theorem heartbeat_moves (visual : VisualState) (s : Server) (d : ℕ) (now : Utc) (c : ℕ) :
    Moves visual s c (.heartbeat d now) ((heartbeat s d now).connections c)
      (registered? (heartbeat s d now).bus c) := by
  unfold heartbeat
  have hidle : ∀ c, Moves visual s c (.heartbeat d now) (s.connections c) (registered? s.bus c) :=
    fun _ => Moves.idle (fun _ _ h => nomatch h)
  cases h : (s.connections d).phase with
  | streaming => exact moves_update (Moves.idled h) hidle c
  | absent => exact hidle c
  | returned => exact hidle c
  | ended => exact hidle c

theorem close_moves (visual : VisualState) (s : Server) (d c : ℕ) :
    Moves visual s c (.close d) ((close s d).connections c) (registered? (close s d).bus c) := by
  unfold close
  have hidle : Moves visual s c (.close d) (s.connections c) (registered? s.bus c) :=
    Moves.idle (fun _ _ h => nomatch h)
  cases h : (s.connections d).phase with
  | returned =>
    by_cases hc : c = d
    · subst hc
      simp only [Function.update_self]
      exact Moves.cancelled h
    · simp only [Function.update_of_ne hc]
      exact hidle
  | streaming =>
    simp only [registered?_close]
    by_cases hc : c = d
    · subst hc
      rw [Function.update_self, if_pos rfl]
      exact Moves.closed h
    · rw [Function.update_of_ne hc, if_neg hc]
      exact hidle
  | absent => exact hidle
  | ended => exact hidle

/-- What one step can do to one connection. -/
theorem step_moves (visual : VisualState) {s : Server} (hs : WellFormed s) (l : Step) (c : ℕ) :
    Moves visual s c l ((step visual s l).connections c)
      (registered? (step visual s l).bus c) := by
  cases l with
  | publish now payload => exact publish_moves visual s now payload c
  | connect => exact connect_moves visual hs c
  | start d now => exact start_moves visual s d now c
  | deliver d => exact deliver_moves visual hs d c
  | heartbeat d now => exact heartbeat_moves visual s d now c
  | close d => exact close_moves visual s d c

/-! ## What a step does to the bus -/

/-- Only an arrival counts a connection. -/
theorem step_opened (visual : VisualState) (s : Server) (l : Step) :
    (step visual s l).opened = s.opened ∨
      l = .connect ∧ (step visual s l).opened = s.opened + 1 := by
  cases l with
  | publish now payload => exact Or.inl rfl
  | connect => exact Or.inr ⟨rfl, rfl⟩
  | start c now =>
    simp only [step, start]
    split <;> exact Or.inl rfl
  | deliver c =>
    simp only [step, deliver]
    split <;> exact Or.inl rfl
  | heartbeat c now =>
    simp only [step, heartbeat]
    split <;> exact Or.inl rfl
  | close c =>
    simp only [step, close]
    split <;> exact Or.inl rfl

/-- Everything that a step can do to the counter, the slots and the history. -/
inductive BusMoves (s : Server) : Step → Server → Prop where
  | same {l : Step} {s' : Server} (hl : ∀ now payload, l ≠ .publish now payload)
      (hseq : s'.bus.eventSequence = s.bus.eventSequence)
      (hslots : s'.bus.agentTaskState = s.bus.agentTaskState)
      (hpub : s'.published = s.published) : BusMoves s l s'
  | drawn {l : Step} {s' : Server} (hl : ∀ now payload, l ≠ .publish now payload)
      (hseq : s'.bus.eventSequence = s.bus.eventSequence + 1)
      (hslots : s'.bus.agentTaskState = s.bus.agentTaskState)
      (hpub : s'.published = s.published) : BusMoves s l s'
  | published {now : Utc} {payload : Payload} {s' : Server}
      (hseq : s'.bus.eventSequence = s.bus.eventSequence + 1)
      (hslots : s'.bus.agentTaskState = Function.update s.bus.agentTaskState payload.agentId
        (some (publishAgentState s.bus now payload).1))
      (hpub : s'.published = s.published ++ [(publishAgentState s.bus now payload).1]) :
      BusMoves s (.publish now payload) s'

/-- What one step can do to the shared bus. -/
theorem step_busMoves (visual : VisualState) (s : Server) (l : Step) :
    BusMoves s l (step visual s l) := by
  cases l with
  | publish now payload => exact .published rfl rfl rfl
  | connect => exact .same (fun _ _ => Step.noConfusion) rfl rfl rfl
  | start c now =>
    simp only [step, start]
    split
    · exact .drawn (fun _ _ => Step.noConfusion) rfl rfl rfl
    · exact .same (fun _ _ => Step.noConfusion) rfl rfl rfl
  | deliver c =>
    simp only [step, deliver]
    split
    · exact .same (fun _ _ => Step.noConfusion) rfl rfl rfl
    · exact .same (fun _ _ => Step.noConfusion) rfl rfl rfl
  | heartbeat c now =>
    simp only [step, heartbeat]
    split
    · exact .drawn (fun _ _ => Step.noConfusion) rfl rfl rfl
    · exact .same (fun _ _ => Step.noConfusion) rfl rfl rfl
  | close c =>
    simp only [step, close]
    split
    · exact .same (fun _ _ => Step.noConfusion) rfl rfl rfl
    · exact .same (fun _ _ => Step.noConfusion) rfl rfl rfl
    · exact .same (fun _ _ => Step.noConfusion) rfl rfl rfl

theorem step_counter_le (visual : VisualState) (s : Server) (l : Step) :
    s.bus.eventSequence ≤ (step visual s l).bus.eventSequence := by
  rcases step_busMoves visual s l with ⟨_, hseq, _, _⟩ | ⟨_, hseq, _, _⟩ | ⟨hseq, _, _⟩ <;> omega

/-- Only a publish writes the slots and the history. -/
theorem step_other (visual : VisualState) (s : Server) {l : Step}
    (hl : ∀ now payload, l ≠ .publish now payload) :
    (step visual s l).bus.agentTaskState = s.bus.agentTaskState ∧
      (step visual s l).published = s.published := by
  rcases step_busMoves visual s l with ⟨_, _, hslots, hpub⟩ | ⟨_, _, hslots, hpub⟩ | ⟨_, _, _⟩
  · exact ⟨hslots, hpub⟩
  · exact ⟨hslots, hpub⟩
  · exact absurd rfl (hl _ _)

/-! ## Reachable states -/

/-- A number that is still to come after a step is untouched by it. -/
theorem step_unused {s : Server} (hs : WellFormed s) (visual : VisualState) (l : Step) {c : ℕ}
    (hc : (step visual s l).opened ≤ c) :
    (step visual s l).connections c = {} ∧ registered? (step visual s l).bus c = none := by
  have hopened := step_opened visual s l
  have hle : s.opened ≤ c := by
    rcases hopened with h | ⟨-, h⟩ <;> omega
  have hreg := hs.unused c hle
  have hcon := hs.fresh c hle
  -- an absent connection can only be connected, and then its number is taken
  have habsent : (s.connections c).phase = .absent := by rw [hcon]
  have hmoves := step_moves visual hs l c
  generalize (step visual s l).connections c = con at hmoves ⊢
  generalize registered? (step visual s l).bus c = queue at hmoves ⊢
  cases hmoves with
  | idle h => exact ⟨hcon, hreg⟩
  | offered hqueue => simp [hreg] at hqueue
  | connected h =>
    rcases hopened with h' | ⟨-, h'⟩
    · simp [step, connect] at h'
    · omega
  | started h => simp [habsent] at h
  | delivered h hqueue => simp [habsent] at h
  | idled h => simp [habsent] at h
  | cancelled h => simp [habsent] at h
  | closed h => simp [habsent] at h

/-- Every step keeps the bookkeeping well formed. -/
theorem WellFormed.step {s : Server} (hs : WellFormed s) (visual : VisualState) (l : Step) :
    WellFormed (step visual s l) where
  unused := fun _ hc => (step_unused hs visual l hc).2
  fresh := fun _ hc => (step_unused hs visual l hc).1
  live := by
    intro c hphase
    have hmoves := step_moves visual hs l c
    generalize (Events.step visual s l).connections c = con at hmoves hphase
    generalize registered? (Events.step visual s l).bus c = queue at hmoves ⊢
    cases hmoves with
    | idle h => exact hs.live c hphase
    | offered hqueue => exact ⟨_, rfl⟩
    | connected h => exact ⟨_, rfl⟩
    | started h => exact hs.live c (Or.inl h)
    | delivered h hqueue => exact ⟨_, rfl⟩
    | idled h => exact hs.live c (Or.inr h)
    -- the two moves that end a connection leave nothing to show
    | cancelled h => simp at hphase
    | closed h => simp at hphase

theorem wellFormed_init : WellFormed {} where
  unused := fun _ _ => rfl
  fresh := fun _ _ => rfl
  live := by
    rintro c (h | h) <;> cases h

/-- The process after the steps `ls`, from its start. -/
def afterSteps (visual : VisualState) (ls : List Step) : Server :=
  Runs.run (step visual) {} ls

theorem wellFormed_afterSteps (visual : VisualState) (ls : List Step) :
    WellFormed (afterSteps visual ls) := by
  have hstep : ∀ s l, WellFormed s → True → WellFormed (step visual s l) :=
    fun s l hs _ => hs.step visual l
  exact Runs.run_invariant hstep wellFormed_init (fun _ _ => trivial) (List.prefix_refl ls)

/-- What holds at the start and is kept by the steps of well-formed states holds
always. -/
theorem afterSteps_invariant (visual : VisualState) {Inv : Server → Prop} (hinit : Inv {})
    (hstep : ∀ s l, WellFormed s → Inv s → Inv (step visual s l)) (ls : List Step) :
    Inv (afterSteps visual ls) := by
  have hboth : ∀ s l, WellFormed s ∧ Inv s → True →
      WellFormed (step visual s l) ∧ Inv (step visual s l) := by
    intro s l hs _
    exact ⟨hs.1.step visual l, hstep s l hs.1 hs.2⟩
  exact (Runs.run_invariant hboth ⟨wellFormed_init, hinit⟩ (fun _ _ => trivial)
    (List.prefix_refl ls)).2

end AdsHub.Events
