import Mathlib.Data.List.Nodup
import AdsHub.Events.Streams

/-!
# AdsHub.Events.Numbers — one counter for all streams

`_next_event_sequence` numbers the published events, and the snapshots and heartbeats of
every stream. The counter is read by `GET /v1/autonomy/task-state` as well, which gives a
client that polls a version of what it is told.

* `numbers_once`: each number up to the counter is that of one published event, or of one
  snapshot or heartbeat on one stream, and of nothing else. So an `id:` that is seen on two
  streams is the same event on both.
* `poll_version`: the version tells what has changed. The entries with a greater number are
  the new ones, and they are what was published in between.
-/

namespace AdsHub.Events

variable (visual : VisualState)

/-! ## Who has which number -/

/-- The frame at place `n` of stream `c` was numbered when it was sent. -/
def Drawn (s : Server) (c n : ℕ) (f : Frame) : Prop :=
  (s.connections c).frames[n]? = some f ∧ f.event? = none

/-- The number `k` belongs to one event, or to one place on one stream. -/
def BelongsToEvent (s : Server) (k : ℕ) : Prop := ∃ e ∈ s.published, e.sequence = k

def BelongsToFrame (s : Server) (k : ℕ) : Prop := ∃ c n f, Drawn s c n f ∧ f.id = k

/-- What a step does to the counter. -/
theorem counter_step (s : Server) (l : Step) :
    (step visual s l).bus.eventSequence = s.bus.eventSequence ∨
    (step visual s l).bus.eventSequence = s.bus.eventSequence + 1 ∧
      ((∃ e, (step visual s l).published = s.published ++ [e] ∧
          e.sequence = s.bus.eventSequence + 1) ∨
        ∃ c f, ((step visual s l).connections c).frames = (s.connections c).frames ++ [f] ∧
          f.event? = none ∧ f.id = s.bus.eventSequence + 1) := by
  cases l with
  | publish now payload => exact Or.inr ⟨rfl, Or.inl ⟨_, rfl, rfl⟩⟩
  | start c now =>
    -- the snapshot takes the number; a second start of the same stream does nothing
    simp only [step, start]
    split
    · refine Or.inr ⟨rfl, Or.inr ⟨c, .snapshot (s.bus.eventSequence + 1) now.isoformat
        (liveVisualState visual s.bus.agentTaskState), ?_, rfl, rfl⟩⟩
      dsimp only
      rw [Function.update_self]
      rfl
    · exact Or.inl rfl
  | heartbeat c now =>
    simp only [step, heartbeat]
    split
    · refine Or.inr ⟨rfl, Or.inr ⟨c, .heartbeat (s.bus.eventSequence + 1) now.isoformat, ?_, rfl,
        rfl⟩⟩
      dsimp only
      rw [Function.update_self]
      rfl
    · exact Or.inl rfl
  -- the other steps take none
  | connect => exact Or.inl rfl
  | deliver c =>
    simp only [step, deliver]
    split <;> exact Or.inl rfl
  | close c =>
    simp only [step, close]
    split <;> exact Or.inl rfl

/-- A stream only grows. -/
theorem frames_prefix {s : Server} (hs : WellFormed s) (l : Step) (c : ℕ) :
    (s.connections c).frames <+: ((step visual s l).connections c).frames := by
  rcases frames_step visual hs l c with hframes | ⟨f, hframes, -⟩ | ⟨e, hframes, -⟩
  · exact hframes ▸ List.prefix_refl _
  · rw [hframes]
    exact List.prefix_append _ _
  · rw [hframes]
    exact List.prefix_append _ _

/-- A frame drawn stays drawn. -/
theorem Drawn.step {s : Server} (hs : WellFormed s) {c n : ℕ} {f : Frame} (h : Drawn s c n f)
    (l : Step) : Drawn (Events.step visual s l) c n f := by
  obtain ⟨rest, hrest⟩ := frames_prefix visual hs l c
  refine ⟨?_, h.2⟩
  rw [← hrest, List.getElem?_append_left (List.getElem?_eq_some_iff.1 h.1).1]
  exact h.1

/-- A frame that is drawn was so before, or is the last one of the stream that the step is
about. -/
theorem drawn_step {s : Server} (hs : WellFormed s) {l : Step} {c n : ℕ} {f : Frame}
    (h : Drawn (step visual s l) c n f) :
    Drawn s c n f ∨ n = (s.connections c).frames.length ∧ f.id = s.bus.eventSequence + 1 ∧
      ∃ now, l = .start c now ∨ l = .heartbeat c now := by
  obtain ⟨hplace, hnone⟩ := h
  -- a frame at the end of the stream is the one that was appended
  have hlast : ∀ g, ((step visual s l).connections c).frames = (s.connections c).frames ++ [g] →
      Drawn s c n f ∨ n = (s.connections c).frames.length ∧ f = g := by
    intro g hframes
    rw [hframes] at hplace
    have hlt := (List.getElem?_eq_some_iff.1 hplace).1
    rw [List.length_append, List.length_singleton] at hlt
    rcases Nat.lt_or_eq_of_le (Nat.lt_succ_iff.1 hlt) with hold | hnew
    · rw [List.getElem?_append_left hold] at hplace
      exact Or.inl ⟨hplace, hnone⟩
    · rw [hnew, List.getElem?_concat_length, Option.some.injEq] at hplace
      exact Or.inr ⟨hnew, hplace.symm⟩
  rcases frames_step visual hs l c with
    hframes | ⟨g, hframes, -, hid, -, -, -, hnow⟩ | ⟨e, hframes, -⟩
  · rw [hframes] at hplace
    exact Or.inl ⟨hplace, hnone⟩
  · rcases hlast g hframes with hold | ⟨hn, rfl⟩
    · exact Or.inl hold
    · exact Or.inr ⟨hn, hid, hnow⟩
  · rcases hlast _ hframes with hold | ⟨-, rfl⟩
    · exact Or.inl hold
    · cases hnone

/-- Every number up to the counter is given, and no two frames draw the same one. -/
structure Numbering (s : Server) : Prop where
  given : ∀ k, 1 ≤ k → k ≤ s.bus.eventSequence → BelongsToEvent s k ∨ BelongsToFrame s k
  once : ∀ (c n : ℕ) (f : Frame) (c' n' : ℕ) (f' : Frame), Drawn s c n f → Drawn s c' n' f' → f.id = f'.id → c = c' ∧ n = n'

/-- One step keeps the numbering: it hands out the next number or none. -/
theorem Numbering.step {s : Server} (hs : WellFormed s) (h : Numbering s)
    (hbounded : ∀ c n f, Drawn s c n f → f.id ≤ s.bus.eventSequence) (l : Step) :
    Numbering (Events.step visual s l) := by
  constructor
  · -- given: what had an owner keeps it
    intro k hone hle
    have hold : k ≤ s.bus.eventSequence → BelongsToEvent (Events.step visual s l) k ∨
        BelongsToFrame (Events.step visual s l) k := by
      intro hk
      rcases h.given k hone hk with ⟨e, he, hseq⟩ | ⟨c, n, f, hdrawn, hid⟩
      · refine Or.inl ⟨e, ?_, hseq⟩
        rcases step_busMoves visual s l with ⟨_, _, _, hpub⟩ | ⟨_, _, _, hpub⟩ | ⟨_, _, hpub⟩
        · rw [hpub]
          exact he
        · rw [hpub]
          exact he
        · rw [hpub]
          exact List.mem_append_left _ he
      · exact Or.inr ⟨c, n, f, hdrawn.step visual hs l, hid⟩
    rcases counter_step visual s l with hseq | ⟨hseq, hgiven⟩
    · exact hold (by omega)
    · rcases Nat.lt_or_eq_of_le hle with hlt | heq
      · exact hold (by omega)
      · -- the number of this very step
        rw [hseq] at heq
        rcases hgiven with ⟨e, hpub, he⟩ | ⟨c, f, hframes, hnone, hid⟩
        · refine Or.inl ⟨e, ?_, he.trans heq.symm⟩
          rw [hpub]
          exact List.mem_append_right _ (List.mem_singleton_self e)
        · refine Or.inr ⟨c, (s.connections c).frames.length, f, ⟨?_, hnone⟩, hid.trans heq.symm⟩
          rw [hframes]
          exact List.getElem?_concat_length
  · -- once: an old frame is within the old counter, the new one is beyond it
    intro c n f c' n' f' hdrawn hdrawn' hid
    rcases drawn_step visual hs hdrawn with hold | ⟨hn, hnew, now, hl⟩
    · rcases drawn_step visual hs hdrawn' with hold' | ⟨hn', hnew', -⟩
      · exact h.once c n f c' n' f' hold hold' hid
      · have hle := hbounded c n f hold
        omega
    · rcases drawn_step visual hs hdrawn' with hold' | ⟨hn', hnew', now', hl'⟩
      · have hle := hbounded c' n' f' hold'
        omega
      · -- both are of this step, which is about one stream
        have hc : c = c' := by
          rcases hl with rfl | rfl
          · rcases hl' with heq | heq
            · cases heq
              rfl
            · cases heq
          · rcases hl' with heq | heq
            · cases heq
            · cases heq
              rfl
        subst hc
        exact ⟨rfl, hn.trans hn'.symm⟩

theorem numbering_afterSteps (ls : List Step) : Numbering (afterSteps visual ls) := by
  induction ls using List.reverseRecOn with
  | nil =>
    refine ⟨fun k hone hle => absurd (hone.trans hle) (Nat.not_succ_le_zero 0), ?_⟩
    rintro c n f c' n' f' ⟨hplace, -⟩
    cases hplace
  | append_singleton ls l ih =>
    rw [afterSteps, Runs.run_concat, ← afterSteps]
    refine ih.step visual (wellFormed_afterSteps visual ls) ?_ l
    intro c n f hdrawn
    exact (frameIds_afterSteps visual ls c).bounded f (List.mem_of_getElem? hdrawn.1)

theorem sequence_of_event {f : Frame} {e : Event} (h : f.event? = some e) : e.sequence = f.id := by
  rw [eq_of_event h]
  rfl

/-- No two events share a number. -/
theorem published_inj (ls : List Step) {e e' : Event} (he : e ∈ (afterSteps visual ls).published)
    (he' : e' ∈ (afterSteps visual ls).published) (hseq : e.sequence = e'.sequence) : e = e' := by
  have hnodup : ((afterSteps visual ls).published.map Event.sequence).Nodup := by
    rw [List.Nodup, List.pairwise_map]
    exact (numbered_afterSteps visual ls).increasing.imp Nat.ne_of_lt
  exact List.inj_on_of_nodup_map hnodup he he' hseq

/-- An event on a stream was published. -/
theorem event_published (ls : List Step) {c n : ℕ} {f : Frame} {e : Event}
    (hf : ((afterSteps visual ls).connections c).frames[n]? = some f) (he : f.event? = some e) :
    e ∈ (afterSteps visual ls).published := by
  have hmem : e ∈ ((afterSteps visual ls).connections c).delivered :=
    List.mem_filterMap.2 ⟨f, List.mem_of_getElem? hf, he⟩
  have hsublist := delivered_queue_sublist visual ls c
  exact List.mem_of_mem_drop (hsublist.subset (List.mem_append_left _ hmem))

/-- After any steps: every number from one to the counter belongs to a published event or to
a snapshot or heartbeat of some stream, and not to both; no event and no such frame share
one; and two frames with the same id, on whatever streams, are the same frame, on the same
stream unless it is an event. -/
theorem numbers_once (ls : List Step) :
    (∀ k, 1 ≤ k → k ≤ (afterSteps visual ls).bus.eventSequence →
      (BelongsToEvent (afterSteps visual ls) k ↔ ¬ BelongsToFrame (afterSteps visual ls) k)) ∧
    (∀ e ∈ (afterSteps visual ls).published, ∀ e' ∈ (afterSteps visual ls).published,
      e.sequence = e'.sequence → e = e') ∧
    ∀ (c n : ℕ) (f : Frame) (c' n' : ℕ) (f' : Frame),
      ((afterSteps visual ls).connections c).frames[n]? = some f →
      ((afterSteps visual ls).connections c').frames[n']? = some f' → f.id = f'.id →
      f = f' ∧ (f.event? = none → c = c' ∧ n = n') := by
  have hnumbering := numbering_afterSteps visual ls
  have hids := frameIds_afterSteps visual ls
  refine ⟨?_, fun e he e' he' hseq => published_inj visual ls he he' hseq, ?_⟩
  · intro k hone hle
    constructor
    · -- `own` keeps the two kinds of owners apart, `given` leaves no number without one
      rintro ⟨e, he, hseq⟩ ⟨c, n, f, hdrawn, hid⟩
      exact (hids c).own f (List.mem_of_getElem? hdrawn.1) hdrawn.2 e he (hseq.trans hid.symm)
    · intro hframe
      rcases hnumbering.given k hone hle with hevent | habsurd
      · exact hevent
      · exact absurd habsurd hframe
  · intro c n f c' n' f' hplace hplace' hid
    -- by the kinds of the two frames; an event and a drawn frame share no number
    cases hf : f.event? with
    | none =>
      cases hf' : f'.event? with
      | none =>
        obtain ⟨rfl, rfl⟩ := hnumbering.once c n f c' n' f' ⟨hplace, hf⟩ ⟨hplace', hf'⟩ hid
        exact ⟨Option.some.inj (hplace.symm.trans hplace'), fun _ => ⟨rfl, rfl⟩⟩
      | some e' =>
        have hseq : e'.sequence = f.id := (sequence_of_event hf').trans hid.symm
        exact absurd hseq ((hids c).own f (List.mem_of_getElem? hplace) hf e'
          (event_published visual ls hplace' hf'))
    | some e =>
      have hmem := event_published visual ls hplace hf
      have hseq := sequence_of_event hf
      cases hf' : f'.event? with
      | none =>
        exact absurd (hseq.trans hid) ((hids c').own f' (List.mem_of_getElem? hplace') hf' e hmem)
      | some e' =>
        have hseq' := sequence_of_event hf'
        -- both are events, and an event is determined by its number
        have heq := published_inj visual ls hmem (event_published visual ls hplace' hf')
          (hseq.trans (hid.trans hseq'.symm))
        refine ⟨?_, fun habsurd => absurd habsurd (Option.some_ne_none e)⟩
        rw [eq_of_event hf, eq_of_event hf', heq]

/-! ## Polling -/

/-- What `GET /v1/autonomy/task-state` answers; the dictionary of the agents is a partial
function. -/
structure TaskStateView where
  connected : Bool
  source : String
  sequence : ℕ
  agents : String → Option Event

/-- `current_task_state`. -/
def currentTaskState (bus : Bus) : TaskStateView where
  connected := true
  source := "production-only"
  sequence := bus.eventSequence
  agents := bus.agentTaskState

open Board (lastFor)

/-- A slot holds the latest event of its agent. -/
theorem slots_eq_lastFor (ls : List Step) (agentId : String) :
    (afterSteps visual ls).bus.agentTaskState agentId =
      lastFor (fun e : Event => e.agentId) agentId (afterSteps visual ls).published := by
  have hstep : ∀ s l, WellFormed s →
      s.bus.agentTaskState agentId = lastFor (fun e : Event => e.agentId) agentId s.published →
      (step visual s l).bus.agentTaskState agentId =
        lastFor (fun e : Event => e.agentId) agentId (step visual s l).published := by
    intro s l _ h
    have hmoves := step_busMoves visual s l
    generalize step visual s l = s' at hmoves ⊢
    cases hmoves with
    | same hl hseq hslots hpub =>
      rw [hslots, hpub]
      exact h
    | drawn hl hseq hslots hpub =>
      rw [hslots, hpub]
      exact h
    | @published now payload _ hseq hslots hpub =>
      -- only a publish changes a slot, and it appends the event it stores there
      have hagent : (publishAgentState s.bus now payload).1.agentId = payload.agentId := rfl
      rw [hslots, hpub, Board.lastFor_concat, hagent]
      by_cases ha : agentId = payload.agentId
      · rw [ha, Function.update_self, if_pos rfl]
      · rw [Function.update_of_ne ha, if_neg (Ne.symm ha)]
        exact h
  have hinit : ({} : Server).bus.agentTaskState agentId =
      lastFor (fun e : Event => e.agentId) agentId ({} : Server).published := rfl
  exact afterSteps_invariant visual hinit hstep ls

/-- The history goes on behind what there was, with numbers beyond the counter. -/
theorem published_after (ls ms : List Step) :
    ∃ new, (afterSteps visual (ls ++ ms)).published = (afterSteps visual ls).published ++ new ∧
      (∀ e ∈ new, (afterSteps visual ls).bus.eventSequence < e.sequence) ∧
      (afterSteps visual ls).bus.eventSequence ≤ (afterSteps visual (ls ++ ms)).bus.eventSequence := by
  induction ms using List.reverseRecOn with
  | nil =>
    refine ⟨[], ?_, fun e he => absurd he List.not_mem_nil, ?_⟩
    · rw [List.append_nil, List.append_nil]
    · rw [List.append_nil]
  | append_singleton ms l ih =>
    obtain ⟨new, hpub, hnew, hle⟩ := ih
    have hlast : afterSteps visual (ls ++ (ms ++ [l])) =
        step visual (afterSteps visual (ls ++ ms)) l := by
      rw [← List.append_assoc, afterSteps, Runs.run_concat, ← afterSteps]
    have hcounter := step_counter_le visual (afterSteps visual (ls ++ ms)) l
    rw [hlast]
    -- only a publish lengthens the history, with the number behind the counter
    rcases step_busMoves visual (afterSteps visual (ls ++ ms)) l with
      ⟨_, _, _, hsame⟩ | ⟨_, _, _, hsame⟩ | @⟨now, payload, _, _, _, hmore⟩
    · exact ⟨new, hsame.trans hpub, hnew, hle.trans hcounter⟩
    · exact ⟨new, hsame.trans hpub, hnew, hle.trans hcounter⟩
    · refine ⟨new ++ [(publishAgentState (afterSteps visual (ls ++ ms)).bus now payload).1], ?_, ?_,
        hle.trans hcounter⟩
      · rw [hmore, hpub, List.append_assoc]
      · rw [List.forall_mem_append, List.forall_mem_singleton]
        exact ⟨hnew, Nat.lt_succ_of_le hle⟩

/-- Two polls, with any steps before and between them: the version never falls, and as long
as it is the same so are the agents; an entry of the later poll was in the earlier one
exactly if its number is not beyond the earlier version; and the later agents are the
earlier ones with the events laid over them that were published beyond that version. -/
theorem poll_version (ls ms : List Step) :
    let before := currentTaskState (afterSteps visual ls).bus
    let after := currentTaskState (afterSteps visual (ls ++ ms)).bus
    before.sequence ≤ after.sequence ∧
    (after.sequence = before.sequence → after.agents = before.agents) ∧
    (∀ a e, after.agents a = some e →
      (before.agents a = some e ↔ e.sequence ≤ before.sequence)) ∧
    ∀ a, after.agents a =
      (lastFor (fun e : Event => e.agentId) a
        ((afterSteps visual (ls ++ ms)).published.filter
          (fun e => before.sequence < e.sequence))).or (before.agents a) := by
  intro before after
  obtain ⟨new, hpub, hnew, hle⟩ := published_after visual ls ms
  have hold := (numbered_afterSteps visual ls).bounded
  have hfilter : (afterSteps visual (ls ++ ms)).published.filter
      (fun e => before.sequence < e.sequence) = new := by
    rw [hpub, List.filter_append, List.filter_eq_nil_iff.2, List.nil_append, List.filter_eq_self]
    · intro e he
      exact decide_eq_true (hnew e he)
    · intro e he
      rw [decide_eq_true_eq, Nat.not_lt]
      exact hold e he
  have hagents : ∀ a, after.agents a =
      (lastFor (fun e : Event => e.agentId) a new).or (before.agents a) := by
    intro a
    show (afterSteps visual (ls ++ ms)).bus.agentTaskState a =
      (lastFor _ a new).or ((afterSteps visual ls).bus.agentTaskState a)
    rw [slots_eq_lastFor, slots_eq_lastFor, hpub, Board.lastFor_append]
  refine ⟨hle, ?_, ?_, ?_⟩
  · intro hsame
    -- a new event would have a number beyond the counter
    have hnone : new = [] := by
      rw [List.eq_nil_iff_forall_not_mem]
      intro e he
      have hbounded := (numbered_afterSteps visual (ls ++ ms)).bounded e (by
        rw [hpub]
        exact List.mem_append_right _ he)
      have hbeyond := hnew e he
      have hseq : (afterSteps visual (ls ++ ms)).bus.eventSequence =
          (afterSteps visual ls).bus.eventSequence := hsame
      omega
    funext a
    rw [hagents a, hnone]
    rfl
  · intro a e hafter
    constructor
    · intro hbefore
      have hslot : (afterSteps visual ls).bus.agentTaskState a = some e := hbefore
      rw [slots_eq_lastFor] at hslot
      exact hold e (Board.mem_of_lastFor hslot).1
    · intro hseq
      rw [hagents a] at hafter
      cases hlast : lastFor (fun e : Event => e.agentId) a new with
      | none =>
        rw [hlast, Option.none_or] at hafter
        exact hafter
      | some e' =>
        rw [hlast, Option.some_or, Option.some.injEq] at hafter
        subst hafter
        have hbeyond := hnew e' (Board.mem_of_lastFor hlast).1
        exact absurd hbeyond (Nat.not_lt.2 hseq)
  · intro a
    rw [hfilter]
    exact hagents a

end AdsHub.Events
