import Mathlib.Algebra.BigOperators.Group.Finset.Piecewise
import Mathlib.Algebra.Order.BigOperators.Group.Finset
import AdsHub.Handoffs

/-!
# AdsHub.Events.Capacity — how many missions fit into a queue

A queue of the task bus has room for 256 events, and what finds no room is lost. A queue
never holds more than was published since it was registered (`Room`), and a mission that
follows the handoffs publishes at most twelve times. So a client loses nothing as long as,
since it connected, the missions that were active and the states that were posted make no
more than 256 publishes, however slowly it reads (`missions_fit_queue`): 21 missions are
never too many.
-/

namespace AdsHub

namespace Events

variable {visual : VisualState} {s : Server} {c : ℕ}

/-- Since it was registered, a queue has been offered no more than was published. -/
structure Room (s : Server) (c : ℕ) : Prop where
  queue : ∀ queue, registered? s.bus c = some queue →
    (s.connections c).registeredAt + queue.length ≤ s.published.length
  offers : ∀ p ∈ (s.connections c).offered,
    (s.connections c).registeredAt + p.2 < s.published.length

theorem published_le_step (visual : VisualState) (s : Server) (l : Step) :
    s.published.length ≤ (step visual s l).published.length := by
  rcases step_busMoves visual s l with ⟨_, _, _, hpub⟩ | ⟨_, _, _, hpub⟩ | ⟨_, _, hpub⟩
  · rw [hpub]
  · rw [hpub]
  · rw [hpub, List.length_append]
    omega

/-- One step keeps the count of a queue below that of the publishes. -/
theorem Room.step (hs : WellFormed s) (h : Room s c) (l : Step) :
    Room (Events.step visual s l) c := by
  have hmoves := step_moves visual hs l c
  have hgrown := published_le_step visual s l
  have hqueue := h.queue
  have hoffers : ∀ p ∈ (s.connections c).offered,
      (s.connections c).registeredAt + p.2 < (Events.step visual s l).published.length := by
    intro p hp
    exact (h.offers p hp).trans_le hgrown
  have hpublish : ∀ now payload, l = .publish now payload →
      (Events.step visual s l).published.length = s.published.length + 1 := by
    rintro now payload rfl
    simp [Events.step, publish]
  suffices hnew : (∀ queue, registered? (Events.step visual s l).bus c = some queue →
      ((Events.step visual s l).connections c).registeredAt + queue.length ≤
        (Events.step visual s l).published.length) ∧
      ∀ p ∈ ((Events.step visual s l).connections c).offered,
        ((Events.step visual s l).connections c).registeredAt + p.2 <
          (Events.step visual s l).published.length from ⟨hnew.1, hnew.2⟩
  -- from here on only what `Moves` says of the connection matters, not the step
  generalize (Events.step visual s l).published.length = n at hgrown hoffers hpublish ⊢
  generalize (Events.step visual s l).connections c = con at hmoves ⊢
  generalize registered? (Events.step visual s l).bus c = queue' at hmoves ⊢
  have hsame : ∀ queue, registered? s.bus c = some queue →
      (s.connections c).registeredAt + queue.length ≤ n := by
    intro queue hreg
    exact (hqueue queue hreg).trans hgrown
  cases hmoves with
  | idle _ | started _ | idled _ | cancelled _ => exact ⟨hsame, hoffers⟩
  | @offered now payload queue hreg =>
    -- the one case where the queue grows, and the history grows with it
    have hn := hpublish now payload rfl
    have hroom := hqueue queue hreg
    constructor
    · intro queue' hqueue'
      cases hqueue'
      show (s.connections c).registeredAt + _ ≤ n
      split
      · rw [List.length_append, List.length_singleton]
        omega
      · omega
    · show ∀ p ∈ (s.connections c).offered ++ _, (s.connections c).registeredAt + p.2 < n
      rw [List.forall_mem_append, List.forall_mem_singleton]
      refine ⟨hoffers, ?_⟩
      show (s.connections c).registeredAt + queue.length < n
      omega
  | connected hopened =>
    -- a new queue is empty and is registered at the end of the history
    refine ⟨?_, List.forall_mem_nil _⟩
    intro queue hreg
    cases hreg
    exact hgrown
  | @delivered event queue hphase hreg =>
    refine ⟨?_, hoffers⟩
    intro queue' hqueue'
    cases hqueue'
    have hroom := hqueue _ hreg
    rw [List.length_cons] at hroom
    show (s.connections c).registeredAt + queue.length ≤ n
    omega
  | closed hphase =>
    -- no queue is left to bound
    refine ⟨?_, hoffers⟩
    intro queue hreg
    cases hreg

/-- So it holds after every run. -/
theorem room_afterSteps (ls : List Step) (c : ℕ) : Room (afterSteps visual ls) c := by
  have hinit : Room {} c := by
    refine ⟨?_, List.forall_mem_nil _⟩
    intro queue hreg
    cases hreg
  have hstep : ∀ s l, WellFormed s → Room s c → Room (Events.step visual s l) c :=
    fun _ l hs h => h.step hs l
  exact afterSteps_invariant visual hinit hstep ls

/-- The connection is yet to come, or was registered when there were `n` publishes or
more. -/
structure Later (n : ℕ) (s : Server) (c : ℕ) : Prop where
  reached : n ≤ s.published.length
  later : s.opened ≤ c ∨ n ≤ (s.connections c).registeredAt

/-- A connection that opened after the first `n` events keeps doing so. -/
theorem Later.step {n : ℕ} (hs : WellFormed s) (h : Later n s c) (l : Step) :
    Later n (Events.step visual s l) c := by
  refine ⟨h.reached.trans (published_le_step visual s l), ?_⟩
  -- either the connection is still to come, or its registration is not touched again
  rcases h.later with hle | hregistered
  · by_cases hconnect : l = .connect
    · subst hconnect
      by_cases hc : c = s.opened
      · -- it is the one that connects now
        refine Or.inr ?_
        show n ≤ (Function.update s.connections s.opened _ c).registeredAt
        rw [hc, Function.update_self]
        exact h.reached
      · refine Or.inl ?_
        show s.opened + 1 ≤ c
        omega
    · refine Or.inl ?_
      rcases step_opened visual s l with hopened | ⟨habsurd, -⟩
      · rw [hopened]
        exact hle
      · exact absurd habsurd hconnect
  · refine Or.inr ?_
    have hmoves := step_moves visual hs l c
    generalize (Events.step visual s l).connections c = con at hmoves ⊢
    generalize registered? (Events.step visual s l).bus c = queue' at hmoves
    cases hmoves with
    | connected _ => exact h.reached
    | _ => exact hregistered

end Events

open Board (lastFor)

variable {ι : Type} [DecidableEq ι] (manifest : Manifest) (posts : List AgentPost)
  (missions : ι → MissionCall)

/-! ## Publishes of missions and posts -/

def Action.isPost : Action ι → Bool
  | .post _ _ => true
  | _ => false

/-- A mission that follows the handoffs publishes at most twelve times. -/
theorem length_script {call : MissionCall}
    (h : ∀ team, buildTeam posts = some team → team.DistinctNames ∧
      FollowsHandoffs team (Mission.mk call.request team call.runAgent).calls) :
    (call.script posts).length ≤ 12 := by
  unfold MissionCall.script
  cases hteam : buildTeam posts with
  | none => exact Nat.zero_le _
  | some team =>
    obtain ⟨hnames, hfollows⟩ := h team hteam
    have hchain : HandoffChain (Mission.mk call.request team call.runAgent).started :=
      hfollows.chain hteam hnames
    have hle : (Mission.mk call.request team call.runAgent).published.length ≤ 12 :=
      Mission.length_published_le hnames hchain
    exact hle

/-- A mission posts no more than its script. -/
theorem posted_le_script (as : List (Action ι)) (i : ι) :
    (afterActions manifest posts missions as).posted i ≤ ((missions i).script posts).length := by
  have hstep : ∀ (h : Hub ι) a, h.posted i ≤ ((missions i).script posts).length → True →
      (act manifest posts missions h a).posted i ≤ ((missions i).script posts).length := by
    intro h a hle _
    cases a with
    | mission j now =>
      cases hnext : ((missions j).script posts)[h.posted j]? with
      | none =>
        simp only [act, hnext]
        exact hle
      | some payload =>
        simp only [act, hnext]
        by_cases hj : i = j
        · subst hj
          rw [Function.update_self]
          exact (List.getElem?_eq_some_iff.1 hnext).1
        · rw [Function.update_of_ne hj]
          exact hle
    | _ => exact hle
  exact Runs.run_invariant hstep (Nat.zero_le _) (fun _ _ => trivial) (List.prefix_refl as)

/-- What an action publishes is the next state of an active mission or posted. -/
theorem act_count (h : Hub ι) (a : Action ι) (active : Finset ι)
    (hactive : ∀ i now, a = .mission i now → i ∈ active) :
    (act manifest posts missions h a).server.published.length + ∑ i ∈ active, h.posted i ≤
      h.server.published.length + ∑ i ∈ active, (act manifest posts missions h a).posted i +
        [a].countP Action.isPost := by
  -- an action that publishes nothing and moves no mission on
  have hsame : ∀ h' : Hub ι, h'.server.published = h.server.published → h'.posted = h.posted →
      h'.server.published.length + ∑ i ∈ active, h.posted i ≤
        h.server.published.length + ∑ i ∈ active, h'.posted i + [a].countP Action.isPost := by
    intro h' hpublished hposted
    rw [hpublished, hposted]
    omega
  have hquiet : ∀ l : Events.Step, (∀ now payload, l ≠ .publish now payload) →
      (Events.step (visualState manifest posts) h.server l).published = h.server.published :=
    fun l hl => (Events.step_other _ h.server hl).2
  cases a with
  | post now data =>
    -- a post that is refused publishes nothing; the others count for one
    have hone : [Action.post (ι := ι) now data].countP Action.isPost = 1 := rfl
    rcases taskState_cases posts h.server now data with ⟨e, heq⟩ | ⟨-, heq⟩
    · exact hsame _ (by simp only [act, heq]) rfl
    · have hpublished : (act manifest posts missions h (.post now data)).server.published.length =
          h.server.published.length + 1 := by
        simp only [act, heq, Events.publish, List.length_append, List.length_singleton]
      rw [hpublished, hone]
      show h.server.published.length + 1 + _ ≤ _ + ∑ i ∈ active, h.posted i + _
      omega
  | mission j now =>
    cases hnext : ((missions j).script posts)[h.posted j]? with
    | none => exact hsame _ (by simp only [act, hnext]) (by simp only [act, hnext])
    | some payload =>
      -- the mission moves one state on, and it is among the active ones
      have hj : j ∈ active := hactive j now rfl
      have hsum : ∑ i ∈ active, Function.update h.posted j (h.posted j + 1) i =
          ∑ i ∈ active, h.posted i + 1 := by
        rw [Finset.sum_update_of_mem hj, Finset.sum_eq_add_sum_sdiff_singleton_of_mem hj h.posted]
        omega
      simp only [act, hnext, Events.publish, List.length_append, List.length_singleton, hsum]
      omega
  | connect => exact hsame _ (hquiet .connect (fun _ _ => Events.Step.noConfusion)) rfl
  | start c now => exact hsame _ (hquiet (.start c now) (fun _ _ => Events.Step.noConfusion)) rfl
  | deliver c => exact hsame _ (hquiet (.deliver c) (fun _ _ => Events.Step.noConfusion)) rfl
  | heartbeat c now =>
    exact hsame _ (hquiet (.heartbeat c now) (fun _ _ => Events.Step.noConfusion)) rfl
  | close c => exact hsame _ (hquiet (.close c) (fun _ _ => Events.Step.noConfusion)) rfl

/-- What is published behind the actions `as₁` is published by the active missions or
posted. -/
theorem published_count (as₁ as₂ : List (Action ι)) (active : Finset ι)
    (hactive : ∀ i now, .mission i now ∈ as₂ → i ∈ active) :
    (afterActions manifest posts missions (as₁ ++ as₂)).server.published.length +
        ∑ i ∈ active, (afterActions manifest posts missions as₁).posted i ≤
      (afterActions manifest posts missions as₁).server.published.length +
        ∑ i ∈ active, (afterActions manifest posts missions (as₁ ++ as₂)).posted i +
        as₂.countP Action.isPost := by
  induction as₂ using List.reverseRecOn with
  | nil => simp
  | append_singleton as₂ a ih =>
    have hbefore := ih (fun i now hmem => hactive i now (List.mem_append_left [a] hmem))
    have hafter : afterActions manifest posts missions (as₁ ++ (as₂ ++ [a])) =
        act manifest posts missions (afterActions manifest posts missions (as₁ ++ as₂)) a := by
      rw [← List.append_assoc, afterActions, Runs.run_concat]
      rfl
    have hlast := act_count manifest posts missions
      (afterActions manifest posts missions (as₁ ++ as₂)) a active (by
        rintro i now rfl
        exact hactive i now (List.mem_append_right as₂ (List.mem_singleton_self _)))
    rw [hafter, List.countP_append]
    omega

/-! ## What a client misses -/

/-- A connection that came behind the actions `as₁`, seen behind all of them. -/
theorem later_after (as₁ as₂ : List (Action ι)) {c : ℕ}
    (hlater : (afterActions manifest posts missions as₁).server.opened ≤ c) :
    Events.Later (afterActions manifest posts missions as₁).server.published.length
      (afterActions manifest posts missions (as₁ ++ as₂)).server c := by
  have hstep : ∀ (h : Hub ι) a,
      Events.WellFormed h.server ∧
        Events.Later (afterActions manifest posts missions as₁).server.published.length h.server c →
      True →
      Events.WellFormed (act manifest posts missions h a).server ∧
        Events.Later (afterActions manifest posts missions as₁).server.published.length
          (act manifest posts missions h a).server c := by
    rintro h a ⟨hwell, hlater⟩ _
    -- an action is one step of the server or none
    rcases act_server manifest posts missions h a with heq | ⟨l, heq, -⟩
    · rw [heq]
      exact ⟨hwell, hlater⟩
    · rw [heq]
      exact ⟨hwell.step (visualState manifest posts) l, hlater.step hwell l⟩
  have hinit : Events.WellFormed (afterActions manifest posts missions as₁).server := by
    obtain ⟨ls, hserver, -⟩ := hub_server manifest posts missions as₁
    rw [hserver]
    exact Events.wellFormed_afterSteps _ ls
  have hrun := Runs.run_invariant hstep ⟨hinit, le_refl _, Or.inl hlater⟩ (fun _ _ => trivial)
    (List.prefix_refl as₂)
  have happend : afterActions manifest posts missions (as₁ ++ as₂) =
      Runs.run (act manifest posts missions) (afterActions manifest posts missions as₁) as₂ :=
    Runs.run_append (act manifest posts missions) {} as₁ as₂
  rw [happend]
  exact hrun.2

/-- However the missions and the posts interleave and however slowly a client reads: if
since it connected twelve publishes for each active mission and one for each posted state
make no more than 256, it has lost nothing, and once it has read what waits it shows the
live state. -/
theorem missions_fit_queue (as₁ as₂ : List (Action ι)) (active : Finset ι)
    (hactive : ∀ i now, .mission i now ∈ as₂ → i ∈ active)
    (hfollows : ∀ i ∈ active, ∀ team, buildTeam posts = some team → team.DistinctNames ∧
      FollowsHandoffs team
        (Mission.mk (missions i).request team (missions i).runAgent).calls)
    (hfew : 12 * active.card + as₂.countP Action.isPost ≤ 256) (c : ℕ)
    (hlater : (afterActions manifest posts missions as₁).server.opened ≤ c)
    (hphase : ((afterActions manifest posts missions (as₁ ++ as₂)).server.connections c).phase =
      .streaming) :
    (∀ p ∈ ((afterActions manifest posts missions (as₁ ++ as₂)).server.connections c).offered,
      p.2 < 256) ∧
    ((afterActions manifest posts missions (as₁ ++ as₂)).server.queue c = [] →
      Events.clientView (visualState manifest posts)
          ((afterActions manifest posts missions (as₁ ++ as₂)).server.connections c).frames =
        some (liveVisualState (visualState manifest posts)
          (afterActions manifest posts missions (as₁ ++ as₂)).server.bus.agentTaskState)) := by
  have hcount := published_count manifest posts missions as₁ as₂ active hactive
  have hsum : ∑ i ∈ active, (afterActions manifest posts missions (as₁ ++ as₂)).posted i ≤
      active.card • 12 := by
    refine Finset.sum_le_card_nsmul active _ 12 ?_
    intro i hi
    exact (posted_le_script manifest posts missions (as₁ ++ as₂) i).trans
      (length_script posts (hfollows i hi))
  obtain ⟨-, hregistered⟩ := later_after manifest posts missions as₁ as₂ hlater
  obtain ⟨ls, hserver, -⟩ := hub_server manifest posts missions (as₁ ++ as₂)
  rw [hserver] at hphase hcount hregistered ⊢
  have hroom : Events.Roomy ((Events.afterSteps (visualState manifest posts) ls).connections c) := by
    intro p hp
    have hoffer := (Events.room_afterSteps ls c).offers p hp
    have hwell := Events.wellFormed_afterSteps (visualState manifest posts) ls
    rcases hregistered with hunused | hregistered
    · -- a connection that is not opened does not stream
      rw [hwell.fresh c hunused] at hphase
      cases hphase
    · rw [nsmul_eq_mul, Nat.cast_id] at hsum
      show p.2 < 256
      omega
  refine ⟨hroom, ?_⟩
  intro hdrained
  have hreg := Events.registered_of_drained (visualState manifest posts) hphase hdrained
  obtain ⟨g, hview, hpatched⟩ :=
    (Events.inSync_afterSteps (visualState manifest posts) ls hreg hroom).view hphase
  rw [Events.patched_nil] at hpatched
  rw [hview, hpatched, Events.liveVisualState_eq]

def copyCall : MissionCall := ⟨copyMission.request, copyMission.runAgent⟩

/-- A client connects while a mission is under way. -/
def midway : List (Action Unit) := List.replicate 3 (.mission () morning)

def midwayOn : List (Action Unit) :=
  [.connect, .start 0 morning] ++ List.replicate 9 (.mission () morning) ++
    [.post morning
      { agentId := "copywriter", operationalState := "working", progress := 40 }] ++
    List.replicate 10 (.deliver 0)

/-- It is shown what the bus holds. -/
theorem missions_fit_queue_midway :
    Events.clientView (visualState emptyManifest fullRegistry)
        ((afterActions emptyManifest fullRegistry (fun _ : Unit => copyCall)
          (midway ++ midwayOn)).server.connections 0).frames =
      some (liveVisualState (visualState emptyManifest fullRegistry)
        (afterActions emptyManifest fullRegistry (fun _ : Unit => copyCall)
          (midway ++ midwayOn)).server.bus.agentTaskState) := by
  refine (missions_fit_queue emptyManifest fullRegistry (fun _ : Unit => copyCall)
    midway midwayOn {()} (fun _ _ _ => Finset.mem_singleton_self ()) ?_ (by decide) 0
    (by decide +kernel) (by decide +kernel)).2 (by decide +kernel)
  intro i _ team hteam
  rw [buildTeam_full, Option.some.injEq] at hteam
  subst hteam
  exact copyMission_follows

end AdsHub
