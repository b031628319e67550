import AdsHub.Events.Server

/-!
# AdsHub.Events.Delivery — what reaches a subscriber

The events that a connection is sent, for every order of the steps of the process:

* `fifo_delivery` — they arrive in the order of their publication, none twice, and
  none is missing that found room in the queue;
* `drained_last_event` — a connection that has caught up shows the last event of an
  agent exactly if that one found room: a full queue drops the newest event, and
  nothing makes up for it (`burst_leaves_stale`).
-/

namespace AdsHub.Events

variable (visual : VisualState)

/-! ## The bus -/

/-- The history of the bus: numbered upwards, and not beyond the counter. -/
structure Numbered (s : Server) : Prop where
  increasing : s.published.Pairwise (fun a b => a.sequence < b.sequence)
  bounded : ∀ e ∈ s.published, e.sequence ≤ s.bus.eventSequence

/-- One more at the end, related to all before it. -/
theorem pairwise_concat {α : Type*} {r : α → α → Prop} {xs : List α} {x : α} (h : xs.Pairwise r)
    (hx : ∀ a ∈ xs, r a x) : (xs ++ [x]).Pairwise r := by
  rw [List.pairwise_append]
  refine ⟨h, List.pairwise_singleton r x, ?_⟩
  intro a ha b hb
  rw [List.mem_singleton] at hb
  rw [hb]
  exact hx a ha

/-- A publish gives its event the next number, and no other step touches the events. -/
theorem Numbered.step {s : Server} (h : Numbered s) (l : Step) : Numbered (step visual s l) := by
  have hmoves := step_busMoves visual s l
  generalize Events.step visual s l = s' at hmoves ⊢
  cases hmoves with
  | same hl hseq hslots hpub =>
    refine ⟨by rw [hpub]; exact h.increasing, ?_⟩
    rw [hpub, hseq]
    exact h.bounded
  | drawn hl hseq hslots hpub =>
    refine ⟨by rw [hpub]; exact h.increasing, ?_⟩
    rw [hpub, hseq]
    intro e he
    exact Nat.le_succ_of_le (h.bounded e he)
  | published hseq hslots hpub =>
    -- the new number is above all that were given out
    constructor
    · rw [hpub]
      refine pairwise_concat h.increasing ?_
      intro e he
      exact Nat.lt_succ_of_le (h.bounded e he)
    · rw [hpub, hseq]
      intro e he
      rw [List.mem_append, List.mem_singleton] at he
      rcases he with he | rfl
      · exact Nat.le_succ_of_le (h.bounded e he)
      · exact le_refl _

theorem numbered_afterSteps (ls : List Step) : Numbered (afterSteps visual ls) := by
  have hstep : ∀ s l, WellFormed s → Numbered s → Numbered (step visual s l) :=
    fun _ l _ h => h.step visual l
  exact afterSteps_invariant visual ⟨List.Pairwise.nil, fun _ he => absurd he List.not_mem_nil⟩
    hstep ls

/-! ## The mailbox of a connection -/

/-- A connection and its registered queue as a mailbox. -/
def mailboxOf (con : Connection) (queue : Option (List Event)) : Mailbox Event where
  queue := queue.getD con.remaining
  delivered := con.delivered
  offered := con.offered

/-- The mailbox of connection `c`. -/
def Server.mailbox (s : Server) (c : ℕ) : Mailbox Event :=
  mailboxOf (s.connections c) (registered? s.bus c)

/-- To each connection the process is a mailbox: a step offers it an event, takes one
out, or does not concern it. -/
theorem mailbox_step {s : Server} (hs : WellFormed s) (l : Step) (c : ℕ) :
    (step visual s l).mailbox c = s.mailbox c ∨
    (∃ e, (step visual s l).mailbox c = (s.mailbox c).offer queueMaxsize e) ∨
    (step visual s l).mailbox c = (s.mailbox c).take := by
  have hmoves := step_moves visual hs l c
  unfold Server.mailbox
  generalize (step visual s l).connections c = con at hmoves ⊢
  generalize registered? (step visual s l).bus c = queue at hmoves ⊢
  cases hmoves with
  | idle h => exact Or.inl rfl
  | @offered now payload queue hqueue =>
    refine Or.inr (Or.inl ⟨(publishAgentState s.bus now payload).1, ?_⟩)
    rw [hqueue]
    rfl
  | connected h =>
    -- a connection that was not there had the empty mailbox already
    refine Or.inl ?_
    rw [hs.fresh c h.ge, hs.unused c h.ge]
    rfl
  | started h =>
    -- snapshots and heartbeats are not delivered events
    refine Or.inl ?_
    simp [mailboxOf, Connection.delivered, Frame.event?]
  | delivered h hqueue =>
    refine Or.inr (Or.inr ?_)
    rw [hqueue]
    simp [mailboxOf, Mailbox.take, Connection.delivered, Frame.event?]
  | idled h =>
    refine Or.inl ?_
    simp [mailboxOf, Connection.delivered, Frame.event?]
  | cancelled h => exact Or.inl rfl
  | closed h => exact Or.inl rfl

/-- A connection's mailbox is a sound bounded queue after every run. -/
theorem sound_afterSteps (ls : List Step) (c : ℕ) :
    ((afterSteps visual ls).mailbox c).Sound queueMaxsize := by
  have hstep : ∀ s l, WellFormed s → (s.mailbox c).Sound queueMaxsize →
      ((step visual s l).mailbox c).Sound queueMaxsize := by
    intro s l hs h
    rcases mailbox_step visual hs l c with heq | ⟨e, heq⟩ | heq
    · rw [heq]
      exact h
    · rw [heq]
      exact h.offer e
    · rw [heq]
      exact h.take
  exact afterSteps_invariant visual (Mailbox.sound_empty queueMaxsize) hstep ls

/-! ## Offers and publications -/

/-- The offers to a connection are the events published since its registration, all
of them as long as its queue is registered. -/
structure Recorded (published : List Event) (con : Connection) (queue : Option (List Event)) :
    Prop where
  since : con.registeredAt ≤ published.length
  part : con.offered.map Prod.fst <+: published.drop con.registeredAt
  all : queue.isSome → con.offered.map Prod.fst = published.drop con.registeredAt

/-- A publish reaches the record of every registered connection. -/
theorem Recorded.publish {published : List Event} {con : Connection} {queue : List Event}
    (h : Recorded published con (some queue)) (e : Event) (n : ℕ) (queue' : List Event) :
    Recorded (published ++ [e]) { con with offered := con.offered ++ [(e, n)] } (some queue') := by
  have hall : (con.offered ++ [(e, n)]).map Prod.fst =
      (published ++ [e]).drop con.registeredAt := by
    rw [List.map_append, h.all rfl, List.drop_append_of_le_length h.since]
    rfl
  refine ⟨?_, ?_, fun _ => hall⟩
  · have hsince := h.since
    rw [List.length_append]
    exact Nat.le_add_right_of_le hsince
  · exact hall ▸ List.prefix_refl _

/-- A publication that a connection is not offered leaves its record as it is. -/
theorem Recorded.other {published : List Event} {con : Connection}
    (h : Recorded published con none) (e : Event) : Recorded (published ++ [e]) con none := by
  refine ⟨?_, ?_, fun hsome => by cases hsome⟩
  · have hsince := h.since
    rw [List.length_append]
    exact Nat.le_add_right_of_le hsince
  · rw [List.drop_append_of_le_length h.since]
    exact h.part.trans (List.prefix_append _ _)

/-- One step keeps each connection's record a suffix of what was published. -/
theorem recorded_step {s : Server} (hs : WellFormed s) (l : Step) {c : ℕ}
    (h : Recorded s.published (s.connections c) (registered? s.bus c)) :
    Recorded (step visual s l).published ((step visual s l).connections c)
      (registered? (step visual s l).bus c) := by
  have hmoves := step_moves visual hs l c
  have hpub : (∀ now payload, l ≠ .publish now payload) →
      (step visual s l).published = s.published := fun hl => (step_other visual s hl).2
  generalize hs' : (step visual s l).published = published at hpub ⊢
  generalize (step visual s l).connections c = con at hmoves ⊢
  generalize registered? (step visual s l).bus c = queue at hmoves ⊢
  cases hmoves with
  | idle hidle =>
    -- idle at a publish means not registered: the record is then only part of the history
    by_cases hl : ∃ now payload, l = .publish now payload
    · rcases hl with ⟨now, payload, rfl⟩
      rw [hidle now payload rfl] at h ⊢
      rw [← hs']
      exact h.other _
    · rw [hpub (fun now payload heq => hl ⟨now, payload, heq⟩)]
      exact h
  | offered hqueue =>
    rw [hqueue] at h
    rw [← hs']
    exact h.publish _ _ _
  | connected hc =>
    rw [hpub (fun _ _ => Step.noConfusion)]
    -- the record starts at the present end of the history
    exact ⟨le_refl _, List.nil_prefix, fun _ => by simp⟩
  | started hphase =>
    rw [hpub (fun _ _ => Step.noConfusion)]
    exact ⟨h.since, h.part, h.all⟩
  | delivered hphase hqueue =>
    rw [hpub (fun _ _ => Step.noConfusion)]
    exact ⟨h.since, h.part, fun _ => h.all (by rw [hqueue]; rfl)⟩
  | idled hphase =>
    rw [hpub (fun _ _ => Step.noConfusion)]
    exact ⟨h.since, h.part, h.all⟩
  | cancelled hphase =>
    rw [hpub (fun _ _ => Step.noConfusion)]
    exact ⟨h.since, h.part, h.all⟩
  | closed hphase =>
    rw [hpub (fun _ _ => Step.noConfusion)]
    exact ⟨h.since, h.part, fun hsome => by cases hsome⟩

theorem recorded_afterSteps (ls : List Step) (c : ℕ) :
    Recorded (afterSteps visual ls).published ((afterSteps visual ls).connections c)
      (registered? (afterSteps visual ls).bus c) := by
  have hinit : Recorded ({} : Server).published (({} : Server).connections c)
      (registered? ({} : Server).bus c) :=
    ⟨le_refl _, List.prefix_refl _, fun _ => rfl⟩
  exact afterSteps_invariant visual hinit (fun s l hs h => recorded_step visual hs l h) ls

/-! ## In order, and without repetition -/

/-- Only opened connections are registered. -/
theorem lt_opened_of_registered {s : Server} (hs : WellFormed s) {c : ℕ} {queue : List Event}
    (h : registered? s.bus c = some queue) : c < s.opened := by
  by_contra hge
  rw [hs.unused c (not_lt.1 hge)] at h
  cases h

/-- The history of a connection only grows. -/
theorem mem_offered_step {s : Server} (hs : WellFormed s) (l : Step) {c : ℕ} (hc : c < s.opened)
    {x : Event × ℕ} (hx : x ∈ (s.connections c).offered) :
    x ∈ ((step visual s l).connections c).offered := by
  have hmoves := step_moves visual hs l c
  generalize (step visual s l).connections c = con at hmoves ⊢
  generalize registered? (step visual s l).bus c = queue at hmoves
  cases hmoves with
  | idle h => exact hx
  | offered hqueue => exact List.mem_append_left _ hx
  | connected h => omega
  | started h => exact hx
  | delivered h hqueue => exact hx
  | idled h => exact hx
  | cancelled h => exact hx
  | closed h => exact hx

/-- What was offered to a connection stays in its record. -/
theorem mem_offered_run {s : Server} (hs : WellFormed s) {c : ℕ} (hc : c < s.opened)
    {x : Event × ℕ} (hx : x ∈ (s.connections c).offered) (ls : List Step) :
    x ∈ ((Runs.run (step visual) s ls).connections c).offered := by
  induction ls generalizing s with
  | nil => exact hx
  | cons l ls ih =>
    -- numbers in use stay in use, so the connection is not reset
    have hopened : s.opened ≤ (step visual s l).opened := by
      rcases step_opened visual s l with h | ⟨-, h⟩ <;> omega
    exact ih (hs.step visual l) (lt_of_lt_of_le hc hopened) (mem_offered_step visual hs l hc hx)

/-- A publication while the queue of `c` is registered is on record, with the length
of the queue at that moment. -/
theorem mem_offered_of_publish {pre ls : List Step} {now : Utc} {payload : Payload}
    (hpre : pre ++ [.publish now payload] <+: ls) {c : ℕ} {queue : List Event}
    (hqueue : registered? (afterSteps visual pre).bus c = some queue) :
    ((publishAgentState (afterSteps visual pre).bus now payload).1, queue.length) ∈
      ((afterSteps visual ls).connections c).offered := by
  rcases hpre with ⟨post, rfl⟩
  have hwf := wellFormed_afterSteps visual pre
  have hc := lt_opened_of_registered hwf hqueue
  have hnow : ((publishAgentState (afterSteps visual pre).bus now payload).1, queue.length) ∈
      ((step visual (afterSteps visual pre) (.publish now payload)).connections c).offered := by
    simp [step, publish, hqueue]
  rw [List.append_assoc, afterSteps, Runs.run_append, List.singleton_append, Runs.run_cons]
  exact mem_offered_run visual (hwf.step visual _) hc hnow post

/-- What a connection got or still has queued is, in order, part of what was published since
it registered. -/
theorem delivered_queue_sublist (ls : List Step) (c : ℕ) :
    (((afterSteps visual ls).connections c).delivered ++ (afterSteps visual ls).queue c).Sublist
      ((afterSteps visual ls).published.drop
        ((afterSteps visual ls).connections c).registeredAt) :=
  (sound_afterSteps visual ls c).sublist.trans (recorded_afterSteps visual ls c).part.sublist

/-- With increasing numbers. -/
theorem delivered_queue_increasing (ls : List Step) (c : ℕ) :
    (((afterSteps visual ls).connections c).delivered ++ (afterSteps visual ls).queue c).Pairwise
      (fun a b => a.sequence < b.sequence) :=
  (numbered_afterSteps visual ls).increasing.sublist
    ((delivered_queue_sublist visual ls c).trans (List.drop_sublist _ _))

/-- For every connection of every run: the events it was sent and those in its queue
are, in order, among the events published since its registration, with strictly
increasing numbers and none twice; the queue has at most 256 places; and an event
that was published while the queue was registered is missing only if the queue was
full at that moment. -/
theorem fifo_delivery (ls : List Step) (c : ℕ) :
    (((afterSteps visual ls).connections c).delivered ++ (afterSteps visual ls).queue c).Sublist
      ((afterSteps visual ls).published.drop
        ((afterSteps visual ls).connections c).registeredAt) ∧
    (((afterSteps visual ls).connections c).delivered ++ (afterSteps visual ls).queue c).Pairwise
      (fun a b => a.sequence < b.sequence) ∧
    (((afterSteps visual ls).connections c).delivered ++ (afterSteps visual ls).queue c).Nodup ∧
    ((afterSteps visual ls).queue c).length ≤ 256 ∧
    ∀ pre now payload queue, pre ++ [.publish now payload] <+: ls →
      registered? (afterSteps visual pre).bus c = some queue →
      (publishAgentState (afterSteps visual pre).bus now payload).1 ∉
        ((afterSteps visual ls).connections c).delivered ++ (afterSteps visual ls).queue c →
      queue.length = 256 := by
  have hsound := sound_afterSteps visual ls c
  have hincreasing := delivered_queue_increasing visual ls c
  refine ⟨delivered_queue_sublist visual ls c, hincreasing, ?_, hsound.bounded, ?_⟩
  · refine hincreasing.imp ?_
    rintro a b hlt rfl
    exact lt_irrefl _ hlt
  · intro pre now payload queue hpre hqueue hmissing
    exact hsound.full_of_missing (mem_offered_of_publish visual hpre hqueue) hmissing

/-! ## After a burst -/

/-- No event is offered twice to a connection. -/
theorem offered_nodup (ls : List Step) (c : ℕ) :
    (((afterSteps visual ls).connections c).offered.map Prod.fst).Nodup := by
  have hincreasing := (numbered_afterSteps visual ls).increasing.sublist
    ((recorded_afterSteps visual ls c).part.sublist.trans (List.drop_sublist _ _))
  refine hincreasing.imp ?_
  rintro a b hlt rfl
  exact lt_irrefl _ hlt

/-- A connection that has nothing waiting was sent every event that found room. -/
theorem delivered_of_drained {ls : List Step} {c : ℕ}
    (hdrained : (afterSteps visual ls).queue c = []) :
    ((afterSteps visual ls).connections c).delivered =
      Mailbox.kept queueMaxsize ((afterSteps visual ls).connections c).offered := by
  have hsplit := (sound_afterSteps visual ls c).split
  have hqueue : ((afterSteps visual ls).mailbox c).queue = [] := hdrained
  rw [hqueue, List.append_nil] at hsplit
  exact hsplit

/-- What a streaming connection is offered is what was published since its
registration. -/
theorem offered_of_streaming {ls : List Step} {c : ℕ}
    (hphase : ((afterSteps visual ls).connections c).phase = .streaming) :
    ((afterSteps visual ls).connections c).offered.map Prod.fst =
      (afterSteps visual ls).published.drop
        ((afterSteps visual ls).connections c).registeredAt := by
  obtain ⟨queue, hqueue⟩ := (wellFormed_afterSteps visual ls).live c (Or.inr hphase)
  exact (recorded_afterSteps visual ls c).all (by rw [hqueue]; rfl)

/-- For a drained stream the last delivered event of an agent is the last published one
exactly when that one was not dropped. -/
theorem last_delivered_iff {ls : List Step} {c : ℕ}
    (hphase : ((afterSteps visual ls).connections c).phase = .streaming)
    (hdrained : (afterSteps visual ls).queue c = []) (agentId : String) :
    Board.lastFor (fun e : Event => e.agentId) agentId
        ((afterSteps visual ls).connections c).delivered =
      Board.lastFor (fun e : Event => e.agentId) agentId ((afterSteps visual ls).published.drop
        ((afterSteps visual ls).connections c).registeredAt) ↔
    ∀ e n, Board.lastFor (fun p : Event × ℕ => p.1.agentId) agentId
      ((afterSteps visual ls).connections c).offered = some (e, n) → n < 256 := by
  rw [delivered_of_drained visual hdrained, ← offered_of_streaming visual hphase]
  exact Mailbox.lastFor_kept_iff (offered_nodup visual ls c)

/-- A streaming connection that has drained its queue was last sent, for each agent,
the latest event that found room in the queue; that is the latest one published
since its registration exactly if fewer than 256 events were waiting when that one
was published. -/
theorem drained_last_event (ls : List Step) (c : ℕ)
    (hphase : ((afterSteps visual ls).connections c).phase = .streaming)
    (hdrained : (afterSteps visual ls).queue c = []) (agentId : String) :
    Board.lastFor (fun e : Event => e.agentId) agentId
        ((afterSteps visual ls).connections c).delivered =
      Board.lastFor (fun e : Event => e.agentId) agentId
        (Mailbox.kept 256 ((afterSteps visual ls).connections c).offered) ∧
    (Board.lastFor (fun e : Event => e.agentId) agentId
        ((afterSteps visual ls).connections c).delivered =
      Board.lastFor (fun e : Event => e.agentId) agentId ((afterSteps visual ls).published.drop
        ((afterSteps visual ls).connections c).registeredAt) ↔
    ∀ e n, Board.lastFor (fun p : Event × ℕ => p.1.agentId) agentId
      ((afterSteps visual ls).connections c).offered = some (e, n) → n < 256) := by
  refine ⟨?_, last_delivered_iff visual hphase hdrained agentId⟩
  rw [delivered_of_drained visual hdrained]
  rfl

/-- An office of one agent. -/
def office : VisualState := visualState emptyManifest [⟨"copywriter", "Copywriter"⟩]

def writing : Payload where
  agentId := "copywriter"
  operationalState := "working"
  taskId := some "m1"
  taskType := some "ads_operation"
  progress := 10
  priority := "normal"
  source := "production"

/-- A connection that has been sent everything: its only event is the latest. -/
theorem drained_last_event_one :
    Board.lastFor (fun e : Event => e.agentId) "copywriter" ((afterSteps office
        [.connect, .start 0 morning, .publish morning writing, .deliver 0]).connections 0).delivered =
      Board.lastFor (fun e : Event => e.agentId) "copywriter"
        ((afterSteps office
          [.connect, .start 0 morning, .publish morning writing, .deliver 0]).published.drop
        ((afterSteps office [.connect, .start 0 morning, .publish morning writing,
          .deliver 0]).connections 0).registeredAt) := by
  refine (drained_last_event office
    [.connect, .start 0 morning, .publish morning writing, .deliver 0] 0 rfl rfl "copywriter").2.2 ?_
  intro e n h
  have hwaiting : ((afterSteps office [.connect, .start 0 morning, .publish morning writing,
      .deliver 0]).connections 0).offered.map Prod.snd = [0] := rfl
  have hn : n ∈ [0] := by
    rw [← hwaiting]
    exact List.mem_map_of_mem (Board.mem_of_lastFor h).1
  rw [List.mem_singleton] at hn
  omega

/-- A row of publishes fills a queue to its bound and drops the rest. -/
theorem run_publishes {s : Server} {c : ℕ} {queue : List Event}
    (h : registered? s.bus c = some queue) (hle : queue.length ≤ 256) (now : Utc)
    (payload : Payload) (n : ℕ) :
    ∃ queue', registered? (Runs.run (step visual) s
        (List.replicate n (.publish now payload))).bus c = some queue' ∧
      queue'.length = min 256 (queue.length + n) ∧
      ((Runs.run (step visual) s (List.replicate n (.publish now payload))).connections c).phase =
        (s.connections c).phase := by
  induction n with
  | zero => exact ⟨queue, h, by omega, rfl⟩
  | succ n ih =>
    rcases ih with ⟨queue', hqueue, hlength, hphase⟩
    rw [List.replicate_succ', Runs.run_concat]
    generalize Runs.run (step visual) s (List.replicate n (.publish now payload)) = t at *
    refine ⟨_, by rw [step, publish, registered?_publish, hqueue]; rfl, ?_, ?_⟩
    · have hmax : queueMaxsize = 256 := rfl
      dsimp only
      split
      · rw [List.length_append, List.length_singleton]
        omega
      · omega
    · simp only [step, publish, hqueue]
      exact hphase

/-- A row of deliveries empties it from the front. -/
theorem run_deliveries {s : Server} {c : ℕ} {queue : List Event}
    (hphase : (s.connections c).phase = .streaming) (h : registered? s.bus c = some queue) (n : ℕ) :
    registered? (Runs.run (step visual) s (List.replicate n (.deliver c))).bus c =
        some (queue.drop n) ∧
      ((Runs.run (step visual) s (List.replicate n (.deliver c))).connections c).phase =
        .streaming ∧
      ((Runs.run (step visual) s (List.replicate n (.deliver c))).connections c).offered =
        (s.connections c).offered := by
  induction n generalizing s queue with
  | zero => exact ⟨h, hphase, rfl⟩
  | succ n ih =>
    have hwaiting : s.queue c = queue := by simp [Server.queue, h]
    rw [List.replicate_succ, Runs.run_cons]
    cases queue with
    | nil =>
      -- a delivery from an empty queue does nothing
      have hsame : step visual s (.deliver c) = s := by
        simp [step, deliver, hphase, hwaiting]
      rw [hsame]
      simpa using ih hphase h
    | cons e queue =>
      have hdeliver : registered? (step visual s (.deliver c)).bus c = some queue := by
        simp [step, deliver, hphase, hwaiting, registered?_deliver, h]
      have hcon : (step visual s (.deliver c)).connections c =
          { s.connections c with
            frames := (s.connections c).frames ++ [.agentStateChanged e] } := by
        simp [step, deliver, hphase, hwaiting]
      obtain ⟨hreg, hphase', hoffered⟩ := ih (by rw [hcon]; exact hphase) hdeliver
      exact ⟨hreg, hphase', by rw [hoffered, hcon]⟩

/-- A publish finds no room in a full queue. -/
theorem step_publish_full {s : Server} {c : ℕ} {queue : List Event}
    (h : registered? s.bus c = some queue) (hfull : queue.length = 256) (now : Utc)
    (payload : Payload) :
    registered? (step visual s (.publish now payload)).bus c = some queue ∧
      ((step visual s (.publish now payload)).connections c).phase = (s.connections c).phase ∧
      ((step visual s (.publish now payload)).connections c).offered =
        (s.connections c).offered ++ [((publishAgentState s.bus now payload).1, 256)] := by
  refine ⟨?_, ?_, ?_⟩
  · rw [step, publish, registered?_publish, h]
    simp [hfull, queueMaxsize]
  · simp only [step, publish, h]
  · simp [step, publish, h, hfull]

/-- A connection reads nothing while 257 events are published, and then 256. -/
def burst : List Step :=
  [.connect, .start 0 morning] ++ List.replicate 256 (.publish morning writing) ++
    [.publish morning writing] ++ List.replicate 256 (.deliver 0)

/-- The connection of the burst before the first event. -/
def opened : Server := afterSteps office [.connect, .start 0 morning]

theorem opened_streaming :
    registered? opened.bus 0 = some [] ∧ (opened.connections 0).phase = .streaming := ⟨rfl, rfl⟩

theorem afterSteps_burst : afterSteps office burst = Runs.run (step office)
    (step office (Runs.run (step office) opened (List.replicate 256 (.publish morning writing)))
      (.publish morning writing)) (List.replicate 256 (.deliver 0)) := by
  rw [afterSteps, burst, Runs.run_append, Runs.run_concat, Runs.run_append]
  rfl

/-- Then it has drained its queue and shows the last event but one. -/
theorem burst_leaves_stale :
    ((afterSteps office burst).connections 0).phase = .streaming ∧
    (afterSteps office burst).queue 0 = [] ∧
    Board.lastFor (fun e : Event => e.agentId) "copywriter"
        ((afterSteps office burst).connections 0).delivered ≠
      Board.lastFor (fun e : Event => e.agentId) "copywriter" ((afterSteps office burst).published.drop
        ((afterSteps office burst).connections 0).registeredAt) := by
  -- 256 publishes fill the queue
  rcases run_publishes office opened_streaming.1 (Nat.zero_le 256) morning writing 256 with
    ⟨queue, hqueue, hlength, hstreaming⟩
  -- one more finds no room
  obtain ⟨hlost, hphase, hoffered⟩ := step_publish_full office hqueue hlength morning writing
  rw [hstreaming, opened_streaming.2] at hphase
  -- and 256 deliveries empty the queue
  obtain ⟨hreg, hphase', hoffered'⟩ := run_deliveries office hphase hlost 256
  rw [← afterSteps_burst] at hreg hphase' hoffered'
  have hdrained : (afterSteps office burst).queue 0 = [] := by
    simp [Server.queue, hreg, hlength]
  refine ⟨hphase', hdrained, ?_⟩
  intro hsame
  have hroom := (last_delivered_iff office hphase' hdrained "copywriter").1 hsame
  rw [hoffered', hoffered, Board.lastFor_concat] at hroom
  have hlt : 256 < 256 := hroom _ 256 (if_pos rfl)
  exact lt_irrefl 256 hlt

end AdsHub.Events
