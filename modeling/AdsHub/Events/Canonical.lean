import AdsHub.Http
import AdsHub.Orchestrator
import AdsHub.Events.Delivery

/-!
# AdsHub.Events.Canonical — who writes the canonical states

Two producers write the slots of the task bus: `POST /v1/autonomy/task-state`, which
checks what it is given, and the missions, which publish without a check. Both are
bound to the registry, one by its check and the other by its team, so the slots hold
production states of agents of the registry in every reachable state
(`canonical_states`).

The registry file is read at import, for every mission and for every snapshot; it is
one argument here.
-/

namespace AdsHub

/-! ## The team -/

/-- The keys of `SPECIALIST_INSTRUCTIONS`, in their order. -/
def specialistIds : List String :=
  ["marketing_strategist", "market_intelligence", "consumer_intelligence", "product_portfolio",
   "performance_scientist", "marketing_science", "attribution_specialist", "budget_allocator",
   "experiment_scientist", "creative_director", "copywriter", "meta_media_buyer",
   "tiktok_media_buyer", "risk_guardian", "ads_operations"]

/-- `{p.id: p for p in posts()}`: of several posts with one id the last one stays. -/
def registryPost (posts : List AgentPost) (id : String) : Option AgentPost :=
  posts.reverse.find? (fun post => post.id = id)

/-- The agents of the given ids under the titles of their posts, or a `KeyError`. -/
def registryAgents (posts : List AgentPost) : List String → Option (List (String × Agent))
  | [] => some []
  | id :: ids =>
    match registryPost posts id, registryAgents posts ids with
    | some post, some agents => some ((id, ⟨post.title⟩) :: agents)
    | _, _ => none

/-- The agents built are those asked for, in order. -/
theorem registryAgents_ids {posts : List AgentPost} {ids : List String}
    {agents : List (String × Agent)} (h : registryAgents posts ids = some agents) :
    agents.map Prod.fst = ids := by
  induction ids generalizing agents with
  | nil =>
    cases h
    rfl
  | cons id ids ih =>
    unfold registryAgents at h
    split at h
    · next post agents' hpost hagents =>
      cases h
      rw [List.map_cons, ih hagents]
    · cases h

theorem teamIds_nodup : ("chief_ads_officer" :: specialistIds).Nodup := by decide

/-- `build_team`, as far as the orchestrator reads it; `none` is the `KeyError` of an
id that is not in the registry. -/
def buildTeam (posts : List AgentPost) : Option RuntimeTeam :=
  match hs : registryAgents posts specialistIds, registryPost posts "chief_ads_officer" with
  | some specialists, some chief =>
    some
      { chief := ⟨chief.title⟩
        agents := ("chief_ads_officer", ⟨chief.title⟩) :: specialists
        ids_nodup := by
          rw [List.map_cons, registryAgents_ids hs]
          exact teamIds_nodup }
  | _, _ => none

theorem mem_posts_of_registryPost {posts : List AgentPost} {id : String} {post : AgentPost}
    (h : registryPost posts id = some post) : id ∈ posts.map AgentPost.id := by
  have hid : post.id = id := by simpa using List.find?_some h
  rw [← hid]
  exact List.mem_map_of_mem (List.mem_reverse.1 (List.mem_of_find?_eq_some h))

/-- A team is built only of registered agents. -/
theorem mem_posts_of_registryAgents {posts : List AgentPost} {ids : List String}
    {agents : List (String × Agent)} (h : registryAgents posts ids = some agents) :
    ∀ id ∈ ids, id ∈ posts.map AgentPost.id := by
  induction ids generalizing agents with
  | nil => exact fun _ hid => absurd hid List.not_mem_nil
  | cons id ids ih =>
    unfold registryAgents at h
    split at h
    · next post agents' hpost hagents =>
      rw [List.forall_mem_cons]
      exact ⟨mem_posts_of_registryPost hpost, ih hagents⟩
    · cases h

/-- Every agent of the team is one of the registry. -/
theorem buildTeam_ids {posts : List AgentPost} {team : RuntimeTeam}
    (h : buildTeam posts = some team) : ∀ entry ∈ team.agents, entry.1 ∈ posts.map AgentPost.id := by
  unfold buildTeam at h
  split at h
  · next specialists chief hspecialists hchief =>
    cases h
    rw [List.forall_mem_cons]
    refine ⟨mem_posts_of_registryPost hchief, ?_⟩
    intro entry hentry
    refine mem_posts_of_registryAgents hspecialists entry.1 ?_
    rw [← registryAgents_ids hspecialists]
    exact List.mem_map_of_mem hentry
  · cases h

/-! ## What a mission publishes -/

/-- What the canonical bus may be given. -/
structure Payload.Canonical (posts : List AgentPost) (p : Payload) : Prop where
  known : p.agentId ∈ posts.map AgentPost.id
  production : p.source = "production"
  progress : 0 ≤ p.progress ∧ p.progress ≤ 100

/-- A production state with its progress in range, for whatever agent. -/
def Payload.InRange (p : Payload) : Prop :=
  p.source = "production" ∧ 0 ≤ p.progress ∧ p.progress ≤ 100

/-- Publishing a state keeps the progress in range when the state's own is. -/
theorem setState_inRange {m : MissionState} (h : ∀ p ∈ m.published, p.InRange)
    (request : MissionRequest) (agentId state : String) {progress : ℚ}
    (hprogress : 0 ≤ progress ∧ progress ≤ 100) :
    ∀ p ∈ (setState request m agentId state progress).published, p.InRange := by
  rw [setState, List.forall_mem_append, List.forall_mem_singleton]
  exact ⟨h, rfl, hprogress⟩

/-- A start publishes only fixed progress values. -/
theorem onAgentStart_inRange {request : MissionRequest} {nameToId : String → Option String}
    {m : MissionState} (h : ∀ p ∈ m.published, p.InRange) (agent : Agent) :
    ∀ p ∈ (onAgentStart request nameToId m agent).published, p.InRange := by
  unfold onAgentStart
  cases truthy (nameToId agent.name) with
  | none => exact h
  | some nextId =>
    have hprogress : (0 : ℚ) ≤ (if nextId = "chief_ads_officer" then 1 else 50) ∧
        (if nextId = "chief_ads_officer" then 1 else 50) ≤ (100 : ℚ) := by
      split <;> decide
    -- the agent that is handed over to comes after the one that waits
    refine setState_inRange ?_ request nextId "working" hprogress
    cases truthy m.currentId with
    | none => exact h
    | some currentId =>
      dsimp only
      split
      · exact setState_inRange h request currentId "waiting" (by decide)
      · exact h

/-- So do the exit paths. -/
theorem concluding_inRange {request : MissionRequest} {m : MissionState}
    (h : ∀ p ∈ m.published, p.InRange) (outcome : Outcome) :
    ∀ p ∈ (concluding request m outcome).published, p.InRange := by
  unfold concluding
  split
  · exact setState_inRange h request _ "working" (by decide)
  · exact setState_inRange h request _ "attention" (by decide)
  · exact h

theorem beforeRest_inRange (request : MissionRequest) (team : RuntimeTeam) (runAgent : Runner) :
    ∀ p ∈ (beforeRest request team runAgent).published, p.InRange := by
  have hcalls : ∀ calls, ∀ p ∈ (afterCalls request (agentIdByName team) calls).published,
      p.InRange := by
    intro calls
    have hstart : ∀ p ∈ ({} : MissionState).published, p.InRange :=
      fun p hp => absurd hp List.not_mem_nil
    have hstep : ∀ (m : MissionState) call, (∀ p ∈ m.published, p.InRange) → True →
        ∀ p ∈ (MissionHooks.call request (agentIdByName team) m call).published, p.InRange := by
      intro m call hm _
      cases call with
      | onAgentStart agent => exact onAgentStart_inRange hm agent
      | onHandoff fromAgent toAgent => exact hm
    exact Runs.run_invariant hstep hstart (fun _ _ => trivial) (List.prefix_refl calls)
  exact concluding_inRange (hcalls _) _

/-- Everything a mission publishes has its progress between 0 and 100. -/
theorem Mission.published_inRange (mission : Mission) {p : Payload} (h : p ∈ mission.published) :
    p.InRange := by
  rw [mission.published_eq, List.mem_append, List.mem_map] at h
  rcases h with h | ⟨a, -, rfl⟩
  · exact beforeRest_inRange mission.request mission.team mission.runAgent p h
  · have hzero : (0 : ℚ) ≤ 0 ∧ (0 : ℚ) ≤ 100 := by decide
    exact ⟨rfl, hzero⟩

/-- The agents a mission touches are agents of its team. -/
theorem Mission.touched_team (mission : Mission) {a : String} (h : a ∈ mission.touched) :
    ∃ entry ∈ mission.team.agents, entry.1 = a := by
  rw [mission.mem_touched_iff, starts, List.mem_filterMap] at h
  rcases h with ⟨call, -, hcall⟩
  cases call with
  | onHandoff fromAgent toAgent => cases hcall
  | onAgentStart agent =>
    -- an agent is touched under the id that the team gives its name
    have hname := (truthy_eq_some.1 hcall).1
    rw [agentIdByName, Option.map_eq_some_iff] at hname
    rcases hname with ⟨entry, hentry, rfl⟩
    exact ⟨entry, List.mem_reverse.1 (List.mem_of_find?_eq_some hentry), rfl⟩

/-- Everything a mission publishes is canonical for the registry its team was built from. -/
theorem Mission.published_canonical {posts : List AgentPost} (mission : Mission)
    (hteam : buildTeam posts = some mission.team) {p : Payload} (h : p ∈ mission.published) :
    p.Canonical posts := by
  rcases mission.touched_team (mission.published_touched h) with ⟨entry, hentry, hid⟩
  have hrange := mission.published_inRange h
  refine ⟨?_, hrange.1, hrange.2⟩
  rw [← hid]
  exact buildTeam_ids hteam entry hentry

/-! ## The endpoint -/

/-- `AgentTaskStateIn`: a value is a body that has passed its checks. -/
structure AgentTaskStateIn where
  agentId : String
  operationalState : String
  taskId : Option String := none
  taskType : Option String := none
  room : Option String := none
  destination : Option String := none
  progress : ℚ := 0
  priority : String := "normal"
  tool : Option String := none
  source : String := "production"
  progress_range : 0 ≤ progress ∧ progress ≤ 100 := by decide

/-- `data.model_dump()`. -/
def AgentTaskStateIn.modelDump (data : AgentTaskStateIn) : Payload where
  agentId := data.agentId
  operationalState := data.operationalState
  taskId := data.taskId
  taskType := data.taskType
  progress := data.progress
  priority := data.priority
  source := data.source
  room := some data.room
  destination := some data.destination
  tool := some data.tool

/-- `{'accepted': True, 'event': event}`. -/
structure TaskStateAccepted where
  accepted : Bool
  event : Event

/-- `POST /v1/autonomy/task-state`. -/
def taskState (posts : List AgentPost) (s : Events.Server) (now : Utc) (data : AgentTaskStateIn) :
    Except (HttpException String) TaskStateAccepted × Events.Server :=
  if data.agentId ∉ posts.map AgentPost.id then (.error ⟨404, "unknown agent_id"⟩, s)
  else if data.source ≠ "production" then
    (.error ⟨409, "simulation cannot drive canonical agency state"⟩, s)
  else
    (.ok ⟨true, (publishAgentState s.bus now data.modelDump).1⟩, Events.publish s now data.modelDump)

/-- What a posted state can do: it is turned away and leaves no trace, or it is
canonical and published. -/
theorem taskState_cases (posts : List AgentPost) (s : Events.Server) (now : Utc)
    (data : AgentTaskStateIn) :
    (∃ e, taskState posts s now data = (.error e, s)) ∨
    data.modelDump.Canonical posts ∧ taskState posts s now data =
      (.ok ⟨true, (publishAgentState s.bus now data.modelDump).1⟩,
        Events.publish s now data.modelDump) := by
  unfold taskState
  by_cases hid : data.agentId ∉ posts.map AgentPost.id
  · rw [if_pos hid]
    exact Or.inl ⟨_, rfl⟩
  · rw [if_neg hid]
    by_cases hsource : data.source ≠ "production"
    · rw [if_pos hsource]
      exact Or.inl ⟨_, rfl⟩
    · rw [if_neg hsource]
      exact Or.inr ⟨⟨not_not.1 hid, not_not.1 hsource, data.progress_range⟩, rfl⟩

/-! ## The system -/

/-- A call of `/v1/autonomy/missions/run`: the request and the runner that serves it. -/
structure MissionCall where
  request : MissionRequest
  runAgent : Runner

/-- What a mission publishes: nothing if `build_team` raises. -/
def MissionCall.script (posts : List AgentPost) (call : MissionCall) : List Payload :=
  match buildTeam posts with
  | none => []
  | some team => (executeMission call.request team call.runAgent).2

/-- So is the script of a call, where no team publishes nothing. -/
theorem MissionCall.script_canonical (posts : List AgentPost) (call : MissionCall) {p : Payload}
    (h : p ∈ call.script posts) : p.Canonical posts := by
  unfold MissionCall.script at h
  cases hteam : buildTeam posts with
  | none =>
    rw [hteam] at h
    exact absurd h List.not_mem_nil
  | some team =>
    rw [hteam] at h
    exact Mission.published_canonical ⟨call.request, team, call.runAgent⟩ hteam h

variable {ι : Type} [DecidableEq ι]

/-- The process, and how many publishes each mission has made. -/
structure Hub (ι : Type) where
  server : Events.Server := {}
  posted : ι → ℕ := fun _ => 0

/-- What can happen: a posted task state, the next publish of a mission, or a step of
a connection to the event stream. -/
inductive Action (ι : Type) where
  | post (now : Utc) (data : AgentTaskStateIn)
  | mission (i : ι) (now : Utc)
  | connect
  | start (c : ℕ) (now : Utc)
  | deliver (c : ℕ)
  | heartbeat (c : ℕ) (now : Utc)
  | close (c : ℕ)

variable (manifest : Manifest) (posts : List AgentPost) (missions : ι → MissionCall)

/-- One step of the system. -/
def act (h : Hub ι) : Action ι → Hub ι
  | .post now data => { h with server := (taskState posts h.server now data).2 }
  | .mission i now =>
    match ((missions i).script posts)[h.posted i]? with
    | none => h
    | some payload =>
      { server := Events.publish h.server now payload
        posted := Function.update h.posted i (h.posted i + 1) }
  | .connect => { h with server := Events.connect h.server }
  | .start c now => { h with server := Events.start (visualState manifest posts) h.server c now }
  | .deliver c => { h with server := Events.deliver h.server c }
  | .heartbeat c now => { h with server := Events.heartbeat h.server c now }
  | .close c => { h with server := Events.close h.server c }

/-- The system after the actions `as`, from its start. -/
def afterActions (as : List (Action ι)) : Hub ι := Runs.run (act manifest posts missions) {} as

/-- To the event server, an action is nothing, a step of a connection, or the publish
of something canonical. -/
theorem act_server (h : Hub ι) (a : Action ι) :
    (act manifest posts missions h a).server = h.server ∨
    ∃ l, (act manifest posts missions h a).server =
        Events.step (visualState manifest posts) h.server l ∧
      ∀ now payload, l = .publish now payload → payload.Canonical posts := by
  cases a with
  | post now data =>
    -- a post that is accepted has passed the checks of the route
    rcases taskState_cases posts h.server now data with ⟨e, heq⟩ | ⟨hcanonical, heq⟩
    · refine Or.inl ?_
      simp only [act, heq]
    · refine Or.inr ⟨.publish now data.modelDump, ?_, ?_⟩
      · simp only [act, heq]
        rfl
      · intro now' payload hl
        cases hl
        exact hcanonical
  | mission i now =>
    cases hnext : ((missions i).script posts)[h.posted i]? with
    | none =>
      refine Or.inl ?_
      simp only [act, hnext]
    | some payload =>
      refine Or.inr ⟨.publish now payload, by simp only [act, hnext]; rfl, ?_⟩
      intro now' payload' hl
      cases hl
      -- a mission publishes for its own team, which is of the registry
      exact (missions i).script_canonical posts (List.mem_of_getElem? hnext)
  | connect => exact Or.inr ⟨.connect, rfl, fun _ _ hl => nomatch hl⟩
  | start c now => exact Or.inr ⟨.start c now, rfl, fun _ _ hl => nomatch hl⟩
  | deliver c => exact Or.inr ⟨.deliver c, rfl, fun _ _ hl => nomatch hl⟩
  | heartbeat c now => exact Or.inr ⟨.heartbeat c now, rfl, fun _ _ hl => nomatch hl⟩
  | close c => exact Or.inr ⟨.close c, rfl, fun _ _ hl => nomatch hl⟩

/-! ## The slots -/

/-- The slots of the bus: each holds the latest event of its agent, and that event is
canonical. -/
structure CanonicalSlots (s : Events.Server) : Prop where
  canonical : ∀ a e, s.bus.agentTaskState a = some e → e.toPayload.Canonical posts
  own : ∀ a e, s.bus.agentTaskState a = some e → e.agentId = a
  published : ∀ a e, s.bus.agentTaskState a = some e → e ∈ s.published
  latest : ∀ a e, s.bus.agentTaskState a = some e →
    ∀ e' ∈ s.published, e'.agentId = a → e'.sequence ≤ e.sequence

variable {manifest posts}

/-- A step that publishes only canonical payloads keeps the slots canonical. -/
theorem CanonicalSlots.step {visual : VisualState} {s : Events.Server}
    (h : CanonicalSlots posts s) (hnumbered : Events.Numbered s) {l : Events.Step}
    (hl : ∀ now payload, l = .publish now payload → payload.Canonical posts) :
    CanonicalSlots posts (Events.step visual s l) := by
  by_cases hpub : ∃ now payload, l = .publish now payload
  · rcases hpub with ⟨now, payload, rfl⟩
    have hpayload := hl now payload rfl
    -- the slot that is written holds the new event, which has the greatest number
    have hslot : ∀ a e, (publishAgentState s.bus now payload).2.agentTaskState a = some e →
        a = payload.agentId ∧ e = (publishAgentState s.bus now payload).1 ∨
        a ≠ payload.agentId ∧ s.bus.agentTaskState a = some e := by
      intro a e he
      by_cases ha : a = payload.agentId
      · rw [ha, publish_slot_same] at he
        exact Or.inl ⟨ha, (Option.some.inj he).symm⟩
      · rw [publish_slot_other s.bus now payload ha] at he
        exact Or.inr ⟨ha, he⟩
    refine ⟨?_, ?_, ?_, ?_⟩
    · intro a e he
      rcases hslot a e he with ⟨-, rfl⟩ | ⟨-, he⟩
      · exact hpayload
      · exact h.canonical a e he
    · intro a e he
      rcases hslot a e he with ⟨rfl, rfl⟩ | ⟨-, he⟩
      · rfl
      · exact h.own a e he
    · intro a e he
      rcases hslot a e he with ⟨-, rfl⟩ | ⟨-, he⟩
      · exact List.mem_append_right _ (List.mem_singleton.2 rfl)
      · exact List.mem_append_left _ (h.published a e he)
    · intro a e he e' he' ha'
      rcases List.mem_append.1 he' with he' | he'
      · rcases hslot a e he with ⟨-, rfl⟩ | ⟨-, he⟩
        · exact Nat.le_succ_of_le (hnumbered.bounded e' he')
        · exact h.latest a e he e' he' ha'
      · rw [List.mem_singleton] at he'
        rcases hslot a e he with ⟨-, rfl⟩ | ⟨hne, -⟩
        · rw [he']
        · rw [he'] at ha'
          exact absurd ha'.symm hne
  · have hother := Events.step_other visual s (fun now payload hl' => hpub ⟨now, payload, hl'⟩)
    refine ⟨?_, ?_, ?_, ?_⟩
    · rw [hother.1]
      exact h.canonical
    · rw [hother.1]
      exact h.own
    · rw [hother.1, hother.2]
      exact h.published
    · rw [hother.1, hother.2]
      exact h.latest

variable (manifest posts)

/-- By induction on the actions: posts are validated, missions are canonical by
construction. -/
theorem canonicalSlots_afterActions (as : List (Action ι)) :
    Events.Numbered (afterActions manifest posts missions as).server ∧
      CanonicalSlots posts (afterActions manifest posts missions as).server := by
  -- the numbering of the events is needed for the greatest number, so both are carried along
  have hinit : Events.Numbered ({} : Hub ι).server ∧ CanonicalSlots posts ({} : Hub ι).server := by
    refine ⟨⟨List.Pairwise.nil, fun _ he => absurd he List.not_mem_nil⟩, ?_, ?_, ?_, ?_⟩ <;>
      intro a e he <;> cases he
  have hstep : ∀ (h : Hub ι) a, Events.Numbered h.server ∧ CanonicalSlots posts h.server → True →
      Events.Numbered (act manifest posts missions h a).server ∧
        CanonicalSlots posts (act manifest posts missions h a).server := by
    intro h a hinv _
    rcases act_server manifest posts missions h a with heq | ⟨l, heq, hl⟩
    · rw [heq]
      exact hinv
    · rw [heq]
      exact ⟨hinv.1.step _ l, hinv.2.step hinv.1 hl⟩
  exact Runs.run_invariant hstep hinit (fun _ _ => trivial) (List.prefix_refl as)

/-- In every reachable state: a slot belongs to an agent of the registry and holds an
event of that agent, from production and with its progress in range, whose number is
the greatest that was published for the agent and not beyond the counter; no two
published events share a number; and a posted state that is turned away leaves
everything as it is. -/
theorem canonical_states (as : List (Action ι)) :
    (∀ a e, (afterActions manifest posts missions as).server.bus.agentTaskState a = some e →
      a ∈ posts.map AgentPost.id ∧ e.agentId = a ∧ e.source = "production" ∧
      (0 ≤ e.progress ∧ e.progress ≤ 100) ∧
      e ∈ (afterActions manifest posts missions as).server.published ∧
      (∀ e' ∈ (afterActions manifest posts missions as).server.published, e'.agentId = a →
        e'.sequence ≤ e.sequence) ∧
      e.sequence ≤ (afterActions manifest posts missions as).server.bus.eventSequence) ∧
    (afterActions manifest posts missions as).server.published.Pairwise
      (fun a b => a.sequence ≠ b.sequence) ∧
    ∀ now data err, (taskState posts (afterActions manifest posts missions as).server now data).1 =
        .error err →
      act manifest posts missions (afterActions manifest posts missions as) (.post now data) =
        afterActions manifest posts missions as := by
  rcases canonicalSlots_afterActions manifest posts missions as with ⟨hnumbered, hslots⟩
  refine ⟨?_, ?_, ?_⟩
  · intro a e he
    have hcanonical := hslots.canonical a e he
    have hown := hslots.own a e he
    have hmem := hslots.published a e he
    refine ⟨?_, hown, hcanonical.production, hcanonical.progress, hmem, hslots.latest a e he,
      hnumbered.bounded e hmem⟩
    rw [← hown]
    exact hcanonical.known
  · -- increasing along the history, hence distinct
    exact hnumbered.increasing.imp (fun hlt => ne_of_lt hlt)
  · intro now data err herr
    rcases taskState_cases posts (afterActions manifest posts missions as).server now data with
      ⟨e, heq⟩ | ⟨-, heq⟩
    · simp only [act, heq]
    · rw [heq] at herr
      cases herr

end AdsHub
