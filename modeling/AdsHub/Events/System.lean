import Mathlib.Data.List.Forall2
import AdsHub.Events.CatchUp
import AdsHub.Events.Canonical
import AdsHub.Events.Contents

/-!
# AdsHub.Events.System — missions, posted states and streams together

The system of `AdsHub.Events.Canonical`: any number of missions and posts publish on one
bus, while clients come, read and leave. Two connections carry what is known of its
parts over to it:

* to the event server, a run of the system is a run of the server (`hub_server`), whose
  publishes are canonical, so whatever a stream sends is (`stream_canonical`);
* to an agent that nobody posts a state for, the system is a board of missions
  (`Hub.board`, `hub_holds`), so when all missions have ended, an up-to-date client shows
  the agent as it was before they began (`office_back_at_rest`).
-/

namespace AdsHub

open Board (lastFor)

variable {ι : Type} [DecidableEq ι] (manifest : Manifest) (posts : List AgentPost)
  (missions : ι → MissionCall)

/-! ## The server of the system -/

/-- What reaches the server in a run of the system is a run of the server that publishes
canonical states only. -/
theorem hub_server (as : List (Action ι)) :
    ∃ ls, (afterActions manifest posts missions as).server =
        Events.afterSteps (visualState manifest posts) ls ∧
      ∀ now payload, .publish now payload ∈ ls → payload.Canonical posts := by
  have hstep : ∀ (h : Hub ι) a,
      (∃ ls, h.server = Events.afterSteps (visualState manifest posts) ls ∧
        ∀ now payload, .publish now payload ∈ ls → payload.Canonical posts) → True →
      ∃ ls, (act manifest posts missions h a).server =
          Events.afterSteps (visualState manifest posts) ls ∧
        ∀ now payload, .publish now payload ∈ ls → payload.Canonical posts := by
    rintro h a ⟨ls, hserver, hls⟩ _
    rcases act_server manifest posts missions h a with heq | ⟨l, heq, hl⟩
    · exact ⟨ls, heq.trans hserver, hls⟩
    · refine ⟨ls ++ [l], ?_, ?_⟩
      · rw [heq, hserver, Events.afterSteps, Events.afterSteps, Runs.run_concat]
      · intro now payload hmem
        rcases List.mem_append.1 hmem with hmem | hmem
        · exact hls now payload hmem
        · exact hl now payload (List.mem_singleton.1 hmem).symm
  have hinit : ∃ ls, ({} : Hub ι).server = Events.afterSteps (visualState manifest posts) ls ∧
      ∀ now payload, .publish now payload ∈ ls → payload.Canonical posts :=
    ⟨[], rfl, fun _ _ hmem => absurd hmem List.not_mem_nil⟩
  exact Runs.run_invariant hstep hinit (fun _ _ => trivial) (List.prefix_refl as)

/-- The entry that a client may be shown for a post: the one at rest, or with a canonical
event of its agent laid over it. -/
def Shown (post : AgentPost) (entry : AgentView) : Prop :=
  entry = agentView manifest post ∨
    ∃ e : Event, e.toPayload.Canonical posts ∧ e.agentId = post.id ∧
      entry = overlay (agentView manifest post) e

/-- Whatever is sent on a stream, in any run: a snapshot has one entry for each post of the
registry, in its order, at rest or with a canonical event of its own agent laid over it;
and an event is canonical. -/
theorem stream_canonical (as : List (Action ι)) (c : ℕ) :
    ∀ f ∈ ((afterActions manifest posts missions as).server.connections c).frames,
      (∀ sequence occurredAt state, f = .snapshot sequence occurredAt state →
        List.Forall₂ (Shown manifest posts) posts state.agents) ∧
      ∀ e, f = .agentStateChanged e → e.toPayload.Canonical posts := by
  obtain ⟨ls, hserver, hls⟩ := hub_server manifest posts missions as
  have hcontents : Events.Contents (visualState manifest posts)
      (fun e => e.toPayload.Canonical posts) (Events.afterSteps (visualState manifest posts) ls) :=
    Events.contents_afterSteps (fun now payload hmem _ => hls now payload hmem)
  intro f hf
  rw [hserver] at hf
  have hmade := hcontents.frames c f hf
  constructor
  · rintro sequence occurredAt state rfl
    obtain ⟨slots, hslots, rfl⟩ := hmade
    rw [liveVisualState, visualState, List.map_map, List.forall₂_map_right_iff,
      List.forall₂_same]
    intro post _
    rw [Function.comp_apply]
    unfold liveAgent
    cases hslot : slots (agentView manifest post).agentId with
    | none => exact Or.inl rfl
    | some e =>
      obtain ⟨hown, hcanonical⟩ := hslots _ e hslot
      exact Or.inr ⟨e, hcanonical, hown, rfl⟩
  · rintro e rfl
    exact hmade

/-! ## The board of the missions -/

/-- The bus, and what each mission has published on it. -/
def Hub.board (h : Hub ι) : Board.State ι Bus Payload where
  store := h.server.bus
  posted := fun i => ((missions i).script posts).take (h.posted i)

variable {posts missions}

/-- A publish of a mission is a post on the board. -/
theorem board_mission {h : Hub ι} {i : ι} {payload : Payload}
    (hnext : ((missions i).script posts)[h.posted i]? = some payload) (now : Utc) :
    (act manifest posts missions h (.mission i now)).board posts missions =
      Board.post taskBoard (h.board posts missions) i now payload := by
  simp only [act, hnext, Hub.board, Board.post, Board.State.mk.injEq]
  refine ⟨rfl, ?_⟩
  funext j
  by_cases hj : j = i
  · subst hj
    rw [Function.update_self, Function.update_self, List.take_add_one, hnext]
    rfl
  · rw [Function.update_of_ne hj, Function.update_of_ne hj]

omit [DecidableEq ι] in
/-- What a slot holds depends on the slot and the missions only. -/
theorem holds_congr {h h' : Hub ι} {a : String}
    (hslot : h'.server.bus.agentTaskState a = h.server.bus.agentTaskState a)
    (hposted : h'.posted = h.posted)
    (hholds : Board.Holds taskBoard {} (h.board posts missions) a) :
    Board.Holds taskBoard {} (h'.board posts missions) a := by
  have hslot' : taskBoard.slot (h'.board posts missions).store a =
      taskBoard.slot (h.board posts missions).store a := hslot
  have hposted' : (h'.board posts missions).posted = (h.board posts missions).posted := by
    simp only [Hub.board, hposted]
  rw [Board.Holds, hslot', hposted']
  exact hholds

/-- A post that is turned away, or is for another agent, does not write the slot. -/
theorem taskState_slot {s : Events.Server} {now : Utc} {data : AgentTaskStateIn} {a : String}
    (h : data.agentId = a → data.source ≠ "production") :
    (taskState posts s now data).2.bus.agentTaskState a = s.bus.agentTaskState a := by
  rcases taskState_cases posts s now data with ⟨e, heq⟩ | ⟨hcanonical, heq⟩
  · rw [heq]
  · rw [heq]
    refine publish_slot_other s.bus now data.modelDump ?_
    intro ha
    exact h ha.symm hcanonical.production

/-- The hub's slots hold the last state published for an agent without posts of its own. -/
theorem hub_holds {a : String} {as : List (Action ι)}
    (hposts : ∀ now data, .post now data ∈ as → data.agentId = a → data.source ≠ "production") :
    Board.Holds taskBoard {} ((afterActions manifest posts missions as).board posts missions) a := by
  have hstep : ∀ (h : Hub ι) l, Board.Holds taskBoard {} (h.board posts missions) a →
      (∀ now data, l = .post now data → data.agentId = a → data.source ≠ "production") →
      Board.Holds taskBoard {} ((act manifest posts missions h l).board posts missions) a := by
    intro h l hholds hl
    have hother : ∀ m : Events.Step, (∀ now payload, m ≠ .publish now payload) →
        (Events.step (visualState manifest posts) h.server m).bus.agentTaskState a =
          h.server.bus.agentTaskState a :=
      fun m hm => congrFun (Events.step_other _ h.server hm).1 a
    cases l with
    | post now data => exact holds_congr (taskState_slot (hl now data rfl)) rfl hholds
    | mission i now =>
      cases hnext : ((missions i).script posts)[h.posted i]? with
      | none =>
        have hsame : act manifest posts missions h (.mission i now) = h := by
          simp only [act, hnext]
        rw [hsame]
        exact hholds
      | some payload =>
        rw [board_mission manifest hnext now]
        exact Board.post_holds hholds i now payload
    -- the steps of the connections leave the slots alone
    | connect => exact holds_congr rfl rfl hholds
    | start c now =>
      exact holds_congr (hother (.start c now) (fun _ _ => Events.Step.noConfusion)) rfl hholds
    | deliver c =>
      exact holds_congr (hother (.deliver c) (fun _ _ => Events.Step.noConfusion)) rfl hholds
    | heartbeat c now =>
      exact holds_congr (hother (.heartbeat c now) (fun _ _ => Events.Step.noConfusion)) rfl hholds
    | close c =>
      exact holds_congr (hother (.close c) (fun _ _ => Events.Step.noConfusion)) rfl hholds
  have hinit : Board.Holds taskBoard {} (({} : Hub ι).board posts missions) a := by
    refine Or.inl ⟨rfl, ?_⟩
    intro i
    rfl
  have hlabels : ∀ l ∈ as, ∀ now data, l = .post now data → data.agentId = a →
      data.source ≠ "production" := by
    intro l hmem now data hl
    rw [hl] at hmem
    exact hposts now data hmem
  exact Runs.run_invariant hstep hinit hlabels (List.prefix_refl as)

/-! ## When the missions have ended -/

/-- The last that a mission publishes for an agent is its rest. -/
theorem lastFor_script {call : MissionCall} {a : String} {p : Payload}
    (h : lastFor Payload.agentId a (call.script posts) = some p) : p = restPayload a := by
  unfold MissionCall.script at h
  cases hteam : buildTeam posts with
  | none =>
    rw [hteam] at h
    cases h
  | some team =>
    rw [hteam] at h
    have htouched := Mission.published_touched ⟨call.request, team, call.runAgent⟩
      (Board.mem_of_lastFor h).1
    rw [(Board.mem_of_lastFor h).2] at htouched
    have hrest := Mission.lastFor_published ⟨call.request, team, call.runAgent⟩ htouched
    exact Option.some.inj (h.symm.trans hrest)

/-- When all missions have ended, an agent that nobody posted a state for has an empty slot
or one that says it rests. -/
theorem slot_at_rest {a : String} {as : List (Action ι)}
    (hended : ∀ i, (afterActions manifest posts missions as).posted i =
      ((missions i).script posts).length)
    (hposts : ∀ now data, .post now data ∈ as → data.agentId = a → data.source ≠ "production") :
    (afterActions manifest posts missions as).server.bus.agentTaskState a = none ∨
    ∃ e, (afterActions manifest posts missions as).server.bus.agentTaskState a = some e ∧
      e.toPayload = restPayload a := by
  rcases hub_holds manifest hposts with ⟨hsame, -⟩ | ⟨i, e, he, hlast⟩
  · exact Or.inl hsame
  · refine Or.inr ⟨e, he, ?_⟩
    -- the script of the mission that wrote the slot is over
    have hall : ((afterActions manifest posts missions as).board posts missions).posted i =
        (missions i).script posts := by
      simp only [Hub.board, hended i, List.take_length]
    rw [hall] at hlast
    exact lastFor_script hlast

/-- The entry of an agent that rests is the one at rest, with a new time. -/
theorem liveAgent_at_rest {slots : String → Option Event} {post : AgentPost}
    (h : slots post.id = none ∨ ∃ e, slots post.id = some e ∧ e.toPayload = restPayload post.id) :
    ∃ updatedAt, liveAgent slots (agentView manifest post) =
      { agentView manifest post with updatedAt := updatedAt } := by
  have hid : (agentView manifest post).agentId = post.id := rfl
  unfold liveAgent
  rw [hid]
  rcases h with hnone | ⟨e, hsome, hpayload⟩
  · rw [hnone]
    exact ⟨none, rfl⟩
  · rw [hsome]
    refine ⟨some e.occurredAt, ?_⟩
    simp only [overlay, hpayload]
    rfl

variable (posts missions)

/-- When all missions have ended, a client that is up to date shows every agent for which
no state was accepted from outside exactly as it stood before any mission began, but for
the time of its last change. -/
theorem office_back_at_rest (as : List (Action ι))
    (hended : ∀ i, (afterActions manifest posts missions as).posted i =
      ((missions i).script posts).length)
    (c : ℕ)
    (hphase : ((afterActions manifest posts missions as).server.connections c).phase = .streaming)
    (hdrained : (afterActions manifest posts missions as).server.queue c = [])
    {n : ℕ} {post : AgentPost} (hpost : posts[n]? = some post)
    (hposts : ∀ now data, .post now data ∈ as → data.agentId = post.id →
      data.source ≠ "production")
    (hcurrent : ∀ e m, lastFor (fun p : Event × ℕ => p.1.agentId) post.id
      ((afterActions manifest posts missions as).server.connections c).offered = some (e, m) →
        m < 256) :
    ∃ view updatedAt, Events.clientView (visualState manifest posts)
        ((afterActions manifest posts missions as).server.connections c).frames = some view ∧
      view.agents[n]? = some { agentView manifest post with updatedAt := updatedAt } := by
  have hrest := slot_at_rest manifest hended hposts
  obtain ⟨ls, hserver, -⟩ := hub_server manifest posts missions as
  rw [hserver] at hphase hdrained hcurrent hrest ⊢
  have hreg := Events.registered_of_drained (visualState manifest posts) hphase hdrained
  obtain ⟨view, hview, hentries⟩ :=
    Events.drained_entries (visualState manifest posts) ls hphase hreg
  obtain ⟨updatedAt, hlive⟩ := liveAgent_at_rest manifest hrest
  refine ⟨view, updatedAt, hview, ?_⟩
  have hbase : (visualState manifest posts).agents[n]? = some (agentView manifest post) := by
    rw [visualState, List.getElem?_map, hpost]
    rfl
  rw [hentries n _ hbase (fun p hp => hcurrent p.1 p.2 hp), hlive]

/-! ## One mission and one client -/

/-- A registry with all the posts of `build_team`. -/
def fullRegistry : List AgentPost := visualPosts.map (fun entry => ⟨entry.1, entry.1⟩)

/-- The chief hands over to the copywriter, who writes the result. -/
def oneMission (_ : Unit) : MissionCall where
  request := { missionId := "m1", objective := "write" }
  runAgent := fun chief _ _ =>
    ([.onAgentStart chief, .onHandoff chief ⟨"copywriter"⟩, .onAgentStart ⟨"copywriter"⟩],
      .returned (.str "done") ⟨"copywriter"⟩)

/-- A client reads along, and somebody tries to post a simulated state. -/
def oneMissionRun : List (Action Unit) :=
  [.connect, .start 0 morning] ++ List.replicate 6 (.mission () morning) ++
    [.post morning { agentId := "copywriter", operationalState := "working", source := "demo" }] ++
    List.replicate 6 (.deliver 0)

/-- The snapshot that the client is sent first. -/
theorem stream_canonical_first : ∃ state : VisualState,
    .snapshot 1 morning.isoformat state ∈
      ((afterActions emptyManifest fullRegistry oneMission [.connect, .start 0 morning]).server.connections
        0).frames ∧
    List.Forall₂ (Shown emptyManifest fullRegistry) fullRegistry state.agents := by
  have hsent : .snapshot 1 morning.isoformat
        (liveVisualState (visualState emptyManifest fullRegistry) (fun _ => none)) ∈
      ((afterActions emptyManifest fullRegistry oneMission [.connect, .start 0 morning]).server.connections
        0).frames := List.mem_singleton.2 rfl
  exact ⟨_, hsent, (stream_canonical emptyManifest fullRegistry oneMission
    [.connect, .start 0 morning] 0 _ hsent).1 1 morning.isoformat _ rfl⟩

/-- At the end the client shows the copywriter as before. -/
theorem office_back_at_rest_one : ∃ view updatedAt,
    Events.clientView (visualState emptyManifest fullRegistry)
        ((afterActions emptyManifest fullRegistry oneMission oneMissionRun).server.connections
          0).frames = some view ∧
      view.agents[11]? = some
        { agentView emptyManifest ⟨"copywriter", "copywriter"⟩ with updatedAt := updatedAt } := by
  have hended : ∀ i, (afterActions emptyManifest fullRegistry oneMission oneMissionRun).posted i =
      ((oneMission i).script fullRegistry).length := by
    rintro ⟨⟩
    decide +kernel
  refine office_back_at_rest emptyManifest fullRegistry oneMission oneMissionRun hended 0
    (by decide +kernel) (by decide +kernel) rfl ?_ ?_
  · -- the one post there is says that it is no production state
    intro now data hmem _
    simp only [oneMissionRun, List.mem_append, List.mem_cons, List.mem_replicate, List.not_mem_nil,
      reduceCtorEq, and_false, or_false, false_or, Action.post.injEq] at hmem
    rw [hmem.2]
    decide
  · intro e m hlast
    have hwaiting : ∀ m ∈ ((afterActions emptyManifest fullRegistry oneMission
        oneMissionRun).server.connections 0).offered.map Prod.snd, m < 256 := by decide +kernel
    exact hwaiting m (List.mem_map_of_mem (Board.mem_of_lastFor hlast).1)

end AdsHub
