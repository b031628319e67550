import AdsHub.Events.View

/-!
# AdsHub.Events.CatchUp — a client that has lost events

A queue that is full drops events, and the generator never says so. `client_converges`
is about connections to which this never happened; here it may have happened any
number of times. What counts is the latest event for each agent: once that one has
found room, no earlier loss shows.

* `tracks_afterSteps`: agent by agent, the view with what still waits is the live
  entry, if the latest event for the agent was put into the queue.
* `client_catches_up`: a queue holds at most 256 events, so 256 deliveries without a
  publish in between are enough to show it, whatever else the process does meanwhile.
-/

namespace AdsHub.Events

variable (visual : VisualState)

/-- The latest event for the agent that was offered to the connection found room. -/
def Current (con : Connection) (agentId : String) : Prop :=
  ∀ p, Board.lastFor (fun p : Event × ℕ => p.1.agentId) agentId con.offered = some p →
    p.2 < queueMaxsize

/-- Every agent whose latest event was not lost: what waits for it ends with its slot,
and once the snapshot is sent, the view with what waits is its live entry. -/
structure Tracks (con : Connection) (queue : List Event) (slots : String → Option Event) :
    Prop where
  waiting : ∀ agentId, Current con agentId → ∀ e,
    Board.lastFor (fun e : Event => e.agentId) agentId queue = some e → slots agentId = some e
  view : con.phase = .streaming → ∃ g, clientView visual con.frames = some (showing visual g) ∧
    ∀ base, Current con base.agentId → patched queue g base = liveAgent slots base

/-! ## One publish -/

section

variable {con : Connection} {queue : List Event} {slots : String → Option Event} {event : Event}

/-- The connection after an offer. -/
def Connection.offer (con : Connection) (event : Event) (n : ℕ) : Connection :=
  { con with offered := con.offered ++ [(event, n)] }

/-- An event of another agent changes nothing for this one. -/
theorem current_offer_other {agentId : String} (h : event.agentId ≠ agentId) (n : ℕ) :
    Current (con.offer event n) agentId ↔ Current con agentId := by
  simp only [Current, Connection.offer, Board.lastFor_concat, if_neg h]

/-- After a lost offer the agent of the event is out of date. -/
theorem room_of_current_offer {n : ℕ} (h : Current (con.offer event n) event.agentId) :
    n < queueMaxsize := by
  refine h (event, n) ?_
  rw [Connection.offer, Board.lastFor_concat, if_pos rfl]

/-- Whether or not there is room: an agent of another event does not see the offer. -/
theorem lastFor_offer_other {agentId : String} (h : event.agentId ≠ agentId) :
    Board.lastFor (fun e : Event => e.agentId) agentId
        (if queue.length < queueMaxsize then queue ++ [event] else queue) =
      Board.lastFor (fun e : Event => e.agentId) agentId queue := by
  split
  · rw [Board.lastFor_concat, if_neg h]
  · rfl

/-- The agent of an event that has found room waits for this event. -/
theorem lastFor_offer_self (h : queue.length < queueMaxsize) :
    Board.lastFor (fun e : Event => e.agentId) event.agentId
        (if queue.length < queueMaxsize then queue ++ [event] else queue) = some event := by
  rw [if_pos h, Board.lastFor_concat, if_pos rfl]

/-- An offered event keeps the tracking, whether the queue takes it or drops it. -/
theorem Tracks.offer (h : Tracks visual con queue slots) (event : Event) :
    Tracks visual (con.offer event queue.length)
      (if queue.length < queueMaxsize then queue ++ [event] else queue)
      (Function.update slots event.agentId (some event)) := by
  constructor
  · intro agentId hcurrent e hlast
    by_cases ha : event.agentId = agentId
    · subst ha
      rw [lastFor_offer_self (room_of_current_offer hcurrent)] at hlast
      rw [Function.update_self, hlast]
    · rw [lastFor_offer_other ha] at hlast
      rw [Function.update_of_ne (Ne.symm ha)]
      exact h.waiting agentId ((current_offer_other ha _).1 hcurrent) e hlast
  · intro hphase
    obtain ⟨g, hview, hpatched⟩ := h.view hphase
    refine ⟨g, hview, ?_⟩
    intro base hcurrent
    by_cases ha : event.agentId = base.agentId
    · -- the event is both in the slot and the last one that waits
      rw [← ha] at hcurrent
      have hroom : queue.length < queueMaxsize := room_of_current_offer hcurrent
      rw [patched, ← ha, lastFor_offer_self hroom, liveAgent, ← ha, Function.update_self]
    · have hold := hpatched base ((current_offer_other ha _).1 hcurrent)
      rw [patched, liveAgent] at hold ⊢
      rw [lastFor_offer_other ha, Function.update_of_ne (Ne.symm ha)]
      exact hold

end

/-! ## Every run -/

/-- One step of the server keeps every registered connection on track. -/
theorem tracks_step {s : Server} (hs : WellFormed s) (l : Step) {c : ℕ}
    (h : ∀ queue, registered? s.bus c = some queue →
      Tracks visual (s.connections c) queue s.bus.agentTaskState)
    {queue' : List Event} (hreg : registered? (step visual s l).bus c = some queue') :
    Tracks visual ((step visual s l).connections c) queue'
      (step visual s l).bus.agentTaskState := by
  have hmoves := step_moves visual hs l c
  have hslots : (∀ now payload, l ≠ .publish now payload) →
      (step visual s l).bus.agentTaskState = s.bus.agentTaskState :=
    fun hl => (step_other visual s hl).1
  generalize hs' : (step visual s l).bus.agentTaskState = slots at hslots ⊢
  generalize (step visual s l).connections c = con at hmoves ⊢
  rw [hreg] at hmoves
  generalize hq : some queue' = queue at hmoves
  cases hmoves with
  | idle hidle =>
    -- an idle publish would have found the queue unregistered
    have hl : ∀ now payload, l ≠ .publish now payload := by
      intro now payload hl
      rw [hidle now payload hl] at hq
      cases hq
    rw [hslots hl]
    exact h queue' hq.symm
  | @offered now payload queue hqueue =>
    cases hq
    rw [← hs']
    exact (h queue hqueue).offer visual (publishAgentState s.bus now payload).1
  | connected hc =>
    cases hq
    constructor
    · intro agentId _ e hlast
      cases hlast
    · intro hphase
      cases hphase
  | started hphase =>
    rw [hslots (fun _ _ => Step.noConfusion)]
    have hold := h queue' hq.symm
    refine ⟨hold.waiting, fun _ => ⟨liveAgent s.bus.agentTaskState, ?_, ?_⟩⟩
    · rw [clientView_concat]
      rfl
    · -- the snapshot has the slot; what waits for a current agent ends with it too
      intro base hcurrent
      rw [patched]
      cases hlast : Board.lastFor (fun e : Event => e.agentId) base.agentId queue' with
      | none => rfl
      | some e => simp only [liveAgent, hold.waiting base.agentId hcurrent e hlast]
  | @delivered event queue hphase hqueue =>
    cases hq
    rw [hslots (fun _ _ => Step.noConfusion)]
    have hold := h (event :: queue') hqueue
    obtain ⟨g, hview, hpatched⟩ := hold.view hphase
    refine ⟨?_, fun _ => ⟨patched [event] g, ?_, ?_⟩⟩
    · intro agentId hcurrent e hlast
      refine hold.waiting agentId hcurrent e ?_
      rw [← List.singleton_append, Board.lastFor_append, hlast]
      rfl
    · rw [clientView_concat, hview, ← applyEvent_showing]
      rfl
    · intro base hcurrent
      rw [← patched_append]
      exact hpatched base hcurrent
  | idled hphase =>
    rw [hslots (fun _ _ => Step.noConfusion)]
    have hold := h queue' hq.symm
    refine ⟨hold.waiting, fun _ => ?_⟩
    rw [clientView_concat]
    exact hold.view hphase
  | cancelled hphase =>
    rw [hslots (fun _ _ => Step.noConfusion)]
    have hold := h queue' hq.symm
    exact ⟨hold.waiting, fun hended => by cases hended⟩
  | closed hphase => cases hq

/-- So does every run. -/
theorem tracks_afterSteps (ls : List Step) {c : ℕ} {queue : List Event}
    (hreg : registered? (afterSteps visual ls).bus c = some queue) :
    Tracks visual ((afterSteps visual ls).connections c) queue
      (afterSteps visual ls).bus.agentTaskState := by
  have hinit : ∀ queue, registered? ({} : Server).bus c = some queue →
      Tracks visual (({} : Server).connections c) queue ({} : Server).bus.agentTaskState := by
    intro queue h
    cases h
  have hstep : ∀ s l, WellFormed s →
      (∀ queue, registered? s.bus c = some queue →
        Tracks visual (s.connections c) queue s.bus.agentTaskState) →
      ∀ queue, registered? (step visual s l).bus c = some queue →
        Tracks visual ((step visual s l).connections c) queue
          (step visual s l).bus.agentTaskState :=
    fun s l hs h _ => tracks_step visual hs l h
  exact afterSteps_invariant visual hinit hstep ls queue hreg

/-- A streaming connection is registered, so its queue is empty because it was read. -/
theorem registered_of_drained {ls : List Step} {c : ℕ}
    (hphase : ((afterSteps visual ls).connections c).phase = .streaming)
    (hdrained : (afterSteps visual ls).queue c = []) :
    registered? (afterSteps visual ls).bus c = some [] := by
  obtain ⟨queue, hreg⟩ := (wellFormed_afterSteps visual ls).live c (Or.inr hphase)
  have hempty : queue = [] := by
    simpa [Server.queue, hreg] using hdrained
  rw [hreg, hempty]

/-- What a drained connection shows of the agents whose latest event was not lost. -/
theorem drained_entries (ls : List Step) {c : ℕ}
    (hphase : ((afterSteps visual ls).connections c).phase = .streaming)
    (hdrained : registered? (afterSteps visual ls).bus c = some []) :
    ∃ view, clientView visual ((afterSteps visual ls).connections c).frames = some view ∧
      ∀ (i : ℕ) (base : AgentView), visual.agents[i]? = some base →
        Current ((afterSteps visual ls).connections c) base.agentId →
        view.agents[i]? = some (liveAgent (afterSteps visual ls).bus.agentTaskState base) := by
  obtain ⟨g, hview, hpatched⟩ := (tracks_afterSteps visual ls hdrained).view hphase
  refine ⟨showing visual g, hview, ?_⟩
  intro i base hbase hcurrent
  have hentry := hpatched base hcurrent
  rw [patched_nil] at hentry
  simp only [showing, List.getElem?_map, hbase, Option.map_some, hentry]

/-! ## Catching up -/

/-- The step delivers to connection `c`. -/
def Step.delivers (c : ℕ) : Step → Bool
  | .deliver d => d = c
  | _ => false

/-- The step is neither a publish nor the end of connection `c`. -/
def Step.Quiet (c : ℕ) (l : Step) : Prop := (∀ now payload, l ≠ .publish now payload) ∧ l ≠ .close c

/-- A quiet step keeps the offers of a streaming connection, and takes an event out of its
queue exactly if it delivers to it. -/
theorem quiet_step {s : Server} (hs : WellFormed s) {l : Step} {c : ℕ} (hl : l.Quiet c)
    (hphase : (s.connections c).phase = .streaming) {queue : List Event}
    (hreg : registered? s.bus c = some queue) :
    registered? (step visual s l).bus c =
        some (queue.drop (if l.delivers c then 1 else 0)) ∧
      ((step visual s l).connections c).phase = .streaming ∧
      ((step visual s l).connections c).offered = (s.connections c).offered := by
  by_cases hdeliver : l = .deliver c
  · subst hdeliver
    have hone : Step.delivers c (.deliver c) = true := decide_eq_true rfl
    rw [hone, if_pos rfl]
    exact run_deliveries visual hphase hreg 1
  · have hnone : l.delivers c = false := by
      cases l with
      | deliver d =>
        refine decide_eq_false ?_
        intro hd
        exact hdeliver (congrArg Step.deliver hd)
      | _ => rfl
    rw [hnone, if_neg Bool.false_ne_true, List.drop_zero]
    have hmoves := step_moves visual hs l c
    generalize (step visual s l).connections c = con at hmoves ⊢
    generalize registered? (step visual s l).bus c = queue' at hmoves ⊢
    -- of the remaining moves only the idle ones are possible on a quiet step
    cases hmoves with
    | idle _ => exact ⟨hreg, hphase, rfl⟩
    | offered _ => exact absurd rfl (hl.1 _ _)
    | connected hc =>
      rw [hs.fresh c hc.ge] at hphase
      cases hphase
    | started hreturned => simp [hphase] at hreturned
    | delivered _ _ => exact absurd rfl hdeliver
    | idled _ => exact ⟨hreg, hphase, rfl⟩
    | cancelled hreturned => simp [hphase] at hreturned
    | closed _ => exact absurd rfl hl.2

/-- Quiet steps empty the queue by as many events as they deliver. -/
theorem quiet_run {s : Server} (hs : WellFormed s) {ms : List Step} {c : ℕ}
    (hms : ∀ l ∈ ms, l.Quiet c) (hphase : (s.connections c).phase = .streaming)
    {queue : List Event} (hreg : registered? s.bus c = some queue) :
    registered? (Runs.run (step visual) s ms).bus c =
        some (queue.drop (ms.countP (Step.delivers c))) ∧
      ((Runs.run (step visual) s ms).connections c).phase = .streaming ∧
      ((Runs.run (step visual) s ms).connections c).offered = (s.connections c).offered ∧
      (Runs.run (step visual) s ms).bus.agentTaskState = s.bus.agentTaskState := by
  induction ms generalizing s queue with
  | nil => exact ⟨hreg, hphase, rfl, rfl⟩
  | cons l ms ih =>
    rw [List.forall_mem_cons] at hms
    obtain ⟨hreg', hphase', hoffered'⟩ := quiet_step visual hs hms.1 hphase hreg
    obtain ⟨hrun, hstreaming, hoffered, hslots⟩ := ih (hs.step visual l) hms.2 hphase' hreg'
    rw [Runs.run_cons]
    refine ⟨?_, hstreaming, hoffered.trans hoffered',
      hslots.trans (step_other visual s hms.1.1).1⟩
    rw [hrun, List.drop_drop, List.countP_cons, Nat.add_comm]

/-- From any reachable state, after any steps without a publish among which there are 256
deliveries to a streaming connection: whatever its client has lost before, every agent
whose latest event found room in the queue is shown as the process has it. -/
theorem client_catches_up (ls ms : List Step) (c : ℕ)
    (hphase : ((afterSteps visual ls).connections c).phase = .streaming)
    (hquiet : ∀ l ∈ ms, (∀ now payload, l ≠ .publish now payload) ∧ l ≠ .close c)
    (hdeliveries : 256 ≤ ms.countP (Step.delivers c)) :
    ∃ view, clientView visual ((afterSteps visual (ls ++ ms)).connections c).frames = some view ∧
      ∀ (i : ℕ) (base : AgentView), visual.agents[i]? = some base →
        (∀ e n, Board.lastFor (fun p : Event × ℕ => p.1.agentId) base.agentId
          ((afterSteps visual ls).connections c).offered = some (e, n) → n < 256) →
        view.agents[i]? = some (liveAgent (afterSteps visual ls).bus.agentTaskState base) := by
  have hs := wellFormed_afterSteps visual ls
  obtain ⟨queue, hreg⟩ := hs.live c (Or.inr hphase)
  -- a queue is never longer than 256, so that many deliveries empty it
  have hlength : queue.length ≤ queueMaxsize := by
    have hbounded := (sound_afterSteps visual ls c).bounded
    simpa [Server.mailbox, mailboxOf, hreg] using hbounded
  obtain ⟨hrun, hstreaming, hoffered, hslots⟩ := quiet_run visual hs hquiet hphase hreg
  have hafter : Runs.run (step visual) (afterSteps visual ls) ms = afterSteps visual (ls ++ ms) := by
    rw [afterSteps, afterSteps, Runs.run_append]
  have hempty : queue.drop (ms.countP (Step.delivers c)) = [] := by
    rw [List.drop_eq_nil_iff]
    exact hlength.trans hdeliveries
  rw [hafter, hempty] at hrun
  rw [hafter] at hstreaming hoffered hslots
  obtain ⟨view, hview, hentries⟩ := drained_entries visual (ls ++ ms) hstreaming hrun
  refine ⟨view, hview, ?_⟩
  -- nothing is published meanwhile: the offers and the slots are those of before
  intro i base hbase hcurrent
  rw [← hslots]
  refine hentries i base hbase ?_
  intro p hp
  rw [hoffered] at hp
  exact hcurrent p.1 p.2 hp

/-- The connection of the burst has lost an event, and its queue is empty. -/
theorem burst_drained : registered? (afterSteps office burst).bus 0 = some [] ∧
    ((afterSteps office burst).connections 0).phase = .streaming := by
  rcases run_publishes office opened_streaming.1 (Nat.zero_le 256) morning writing 256 with
    ⟨queue, hqueue, hlength, hstreaming⟩
  obtain ⟨hlost, hphase, -⟩ := step_publish_full office hqueue hlength morning writing
  rw [hstreaming, opened_streaming.2] at hphase
  obtain ⟨hreg, hphase', -⟩ := run_deliveries office hphase hlost 256
  rw [← afterSteps_burst] at hreg hphase'
  have hempty : queue.drop 256 = [] := by
    rw [List.drop_eq_nil_iff]
    omega
  rw [hempty] at hreg
  exact ⟨hreg, hphase'⟩

theorem quiet_deliveries (n c : ℕ) :
    (∀ l ∈ List.replicate n (Step.deliver c), l.Quiet c) ∧
      (List.replicate n (Step.deliver c)).countP (Step.delivers c) = n := by
  constructor
  · intro l hl
    rw [List.eq_of_mem_replicate hl]
    exact ⟨fun _ _ => Step.noConfusion, Step.noConfusion⟩
  · simp [List.countP_replicate, Step.delivers]

/-- After the burst, one more event for the agent repairs what its client shows. -/
theorem client_catches_up_burst : ∃ view, clientView office
      ((afterSteps office ((burst ++ [.publish morning writing]) ++
        List.replicate 256 (.deliver 0))).connections 0).frames = some view ∧
    ∃ base, office.agents[0]? = some base ∧ view.agents[0]? = some (liveAgent
      (afterSteps office (burst ++ [.publish morning writing])).bus.agentTaskState base) := by
  obtain ⟨hreg, hphase⟩ := burst_drained
  have hpublish : afterSteps office (burst ++ [.publish morning writing]) =
      step office (afterSteps office burst) (.publish morning writing) := by
    rw [afterSteps, Runs.run_concat]
    rfl
  have hstreaming : ((afterSteps office
      (burst ++ [.publish morning writing])).connections 0).phase = .streaming := by
    rw [hpublish]
    simp only [step, publish, hreg]
    exact hphase
  obtain ⟨hquiet, hcount⟩ := quiet_deliveries 256 0
  obtain ⟨view, hview, hentries⟩ :=
    client_catches_up office _ _ 0 hstreaming hquiet hcount.ge
  refine ⟨view, hview, _, rfl, hentries 0 _ rfl ?_⟩
  -- the event was offered to an empty queue
  intro e n hlast
  change Board.lastFor _ "copywriter" _ = _ at hlast
  rw [hpublish] at hlast
  simp only [step, publish, hreg, Board.lastFor_concat] at hlast
  have hsame : (publishAgentState (afterSteps office burst).bus morning writing).1.agentId =
      "copywriter" := rfl
  rw [if_pos hsame] at hlast
  cases hlast
  exact Nat.zero_lt_succ 255

end AdsHub.Events
