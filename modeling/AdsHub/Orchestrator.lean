import AdsHub.Lib.Json
import AdsHub.TaskBus

/-!
# AdsHub.Orchestrator — `execute_mission`

A mission hands the team to a runner and mirrors what the runner's hooks report
to the task bus. The runner is outside the program: all that reaches the mission
is the sequence of hook calls it makes and the way it ends, so a runner is any
function that gives these two. `publish` never fails and never suspends, hence the
publishes of a mission are a list that is fixed by the runner's answer.

The main fact is the shape of that list (`published_eq`): first publishes that are
no `rest`, all for touched agents, then one `rest` for each touched agent.
-/

namespace AdsHub

/-- `MissionRequest`. -/
structure MissionRequest where
  missionId : String
  objective : String
  taskType : String := "ads_operation"
  priority : String := "normal"
  maxTurns : ℕ := 20

/-- An agent of the SDK: the orchestrator reads its name only. -/
structure Agent where
  name : String
deriving DecidableEq

/-- `RuntimeTeam`: the chief and the agents by id, in the order of the dictionary. -/
structure RuntimeTeam where
  chief : Agent
  agents : List (String × Agent)
  ids_nodup : (agents.map Prod.fst).Nodup

/-- `agent_id_by_name`: of several agents with one name the last one stays. -/
def agentIdByName (team : RuntimeTeam) (name : String) : Option String :=
  (team.agents.reverse.find? (fun entry => entry.2.name = name)).map Prod.fst

/-- A string or `None` in a condition: neither `None` nor the empty string holds. -/
def truthy (value : Option String) : Option String :=
  value.filter (fun text => text ≠ "")

/-- A call that the runner makes on `MissionHooks`. -/
inductive HookCall where
  | onAgentStart (agent : Agent)
  | onHandoff (fromAgent toAgent : Agent)

/-- How the runner ends: with a result, with an `Exception`, or cancelled. -/
inductive Outcome where
  | returned (finalOutput : Json) (lastAgent : Agent)
  | raised
  | cancelled

/-- `run_agent(chief, objective, max_turns=..., hooks=...)`. -/
abbrev Runner := Agent → String → ℕ → List HookCall × Outcome

/-- The local variables of a mission, and what it has published. -/
structure MissionState where
  touched : List String := []
  currentId : Option String := none
  published : List Payload := []

/-- `set_state`. -/
def setState (request : MissionRequest) (m : MissionState) (agentId state : String)
    (progress : ℚ) : MissionState :=
  { m with
    touched := if agentId ∈ m.touched then m.touched else m.touched ++ [agentId]
    published := m.published ++
      [{ agentId := agentId
         operationalState := state
         taskId := some request.missionId
         taskType := some request.taskType
         progress := progress
         priority := request.priority
         source := "production" }] }

/-- `on_agent_start`. -/
def onAgentStart (request : MissionRequest) (nameToId : String → Option String) (m : MissionState)
    (agent : Agent) : MissionState :=
  match truthy (nameToId agent.name) with
  | none => m
  | some nextId =>
    let waited :=
      match truthy m.currentId with
      | none => m
      | some currentId =>
        if currentId ≠ nextId then setState request m currentId "waiting" 50 else m
    setState request { waited with currentId := some nextId } nextId "working"
      (if nextId = "chief_ads_officer" then 1 else 50)

/-- A hook call; `on_handoff` does nothing. -/
def MissionHooks.call (request : MissionRequest) (nameToId : String → Option String)
    (m : MissionState) : HookCall → MissionState
  | .onAgentStart agent => onAgentStart request nameToId m agent
  | .onHandoff _ _ => m

/-- The mission after the hook calls of the runner. -/
def afterCalls (request : MissionRequest) (nameToId : String → Option String)
    (calls : List HookCall) : MissionState :=
  calls.foldl (MissionHooks.call request nameToId) {}

/-- The publish between the run and the clean-up: `working` at 100 after a result,
`attention` after an `Exception`, nothing on cancellation. -/
def concluding (request : MissionRequest) (m : MissionState) (outcome : Outcome) : MissionState :=
  match truthy m.currentId, outcome with
  | some currentId, .returned _ _ => setState request m currentId "working" 100
  | some currentId, .raised => setState request m currentId "attention" 0
  | _, _ => m

/-- The publish of the `finally` block for one agent. -/
def restPayload (agentId : String) : Payload where
  agentId := agentId
  operationalState := "rest"
  taskId := none
  taskType := none
  progress := 0
  priority := "normal"
  source := "production"

/-- The result of a mission. -/
structure MissionResult where
  missionId : String
  status : String
  lastAgentId : String
  agentsTouched : List String
  finalOutput : Json

/-- How a mission ends without a result. -/
inductive MissionFailure where
  | exception
  | cancelled

/-- `execute_mission` up to the `finally` block. -/
def beforeRest (request : MissionRequest) (team : RuntimeTeam) (runAgent : Runner) : MissionState :=
  let (calls, outcome) := runAgent team.chief request.objective request.maxTurns
  concluding request (afterCalls request (agentIdByName team) calls) outcome

/-- What `execute_mission` returns or raises. -/
def missionResult (request : MissionRequest) (team : RuntimeTeam) (runAgent : Runner) :
    Except MissionFailure MissionResult :=
  let m := beforeRest request team runAgent
  match (runAgent team.chief request.objective request.maxTurns).2 with
  | .raised => .error .exception
  | .cancelled => .error .cancelled
  | .returned finalOutput lastAgent =>
    .ok
      { missionId := request.missionId
        status := "completed"
        lastAgentId := (agentIdByName team lastAgent.name).getD
          ((truthy m.currentId).getD "chief_ads_officer")
        agentsTouched := m.touched
        finalOutput := finalOutput }

/-- `execute_mission`: its end, and everything it has published. -/
def executeMission (request : MissionRequest) (team : RuntimeTeam) (runAgent : Runner) :
    Except MissionFailure MissionResult × List Payload :=
  let m := beforeRest request team runAgent
  (missionResult request team runAgent, m.published ++ m.touched.reverse.map restPayload)

/-! ## While the runner is at work -/

variable {request : MissionRequest} {nameToId : String → Option String} {m : MissionState}

/-- What holds of a mission before its clean-up: nothing is at rest yet, and all it
has published is about agents it remembers, each once. -/
structure MissionState.Running (m : MissionState) : Prop where
  no_rest : ∀ p ∈ m.published, p.operationalState ≠ "rest"
  of_touched : ∀ p ∈ m.published, p.agentId ∈ m.touched
  nodup : m.touched.Nodup

theorem mem_touched_setState {agentId state : String} {progress : ℚ} {a : String} :
    a ∈ (setState request m agentId state progress).touched ↔ a ∈ m.touched ∨ a = agentId := by
  unfold setState
  split
  · next h =>
    constructor
    · exact Or.inl
    · rintro (ha | rfl)
      · exact ha
      · exact h
  · simp

/-- `set_state` with anything but `rest` keeps the mission running. -/
theorem setState_running (h : m.Running) (request : MissionRequest) (agentId : String)
    {state : String} (hstate : state ≠ "rest") (progress : ℚ) :
    (setState request m agentId state progress).Running where
  no_rest := by
    intro p hp
    rw [setState, List.mem_append, List.mem_singleton] at hp
    rcases hp with hp | rfl
    · exact h.no_rest p hp
    · exact hstate
  of_touched := by
    intro p hp
    rw [mem_touched_setState]
    rw [setState, List.mem_append, List.mem_singleton] at hp
    rcases hp with hp | rfl
    · exact Or.inl (h.of_touched p hp)
    · exact Or.inr rfl
  nodup := by
    unfold setState
    split
    · exact h.nodup
    · next hnew =>
      rw [List.nodup_append]
      refine ⟨h.nodup, by simp, ?_⟩
      intro a ha b hb hab
      rw [List.mem_singleton] at hb
      exact hnew (hb ▸ hab ▸ ha)

theorem onAgentStart_running (h : m.Running) (agent : Agent) :
    (onAgentStart request nameToId m agent).Running := by
  unfold onAgentStart
  cases truthy (nameToId agent.name) with
  | none => exact h
  | some nextId =>
    -- the first publish, if there is one, is `waiting`; setting `current_id` changes
    -- nothing that `Running` speaks about
    refine setState_running ?_ request nextId (by decide) _
    cases truthy m.currentId with
    | none => exact ⟨h.no_rest, h.of_touched, h.nodup⟩
    | some currentId =>
      by_cases hne : currentId ≠ nextId
      · have hwait := setState_running h request currentId (by decide : "waiting" ≠ "rest") 50
        simp only [if_pos hne]
        exact ⟨hwait.no_rest, hwait.of_touched, hwait.nodup⟩
      · simp only [if_neg hne]
        exact ⟨h.no_rest, h.of_touched, h.nodup⟩

theorem concluding_running (h : m.Running) (outcome : Outcome) :
    (concluding request m outcome).Running := by
  unfold concluding
  split
  · exact setState_running h request _ (by decide) 100
  · exact setState_running h request _ (by decide) 0
  · exact h

/-- Up to the clean-up, a mission is running. -/
theorem beforeRest_running (request : MissionRequest) (team : RuntimeTeam) (runAgent : Runner) :
    (beforeRest request team runAgent).Running := by
  have hstart : MissionState.Running {} :=
    ⟨fun p hp => absurd hp List.not_mem_nil, fun p hp => absurd hp List.not_mem_nil,
      List.nodup_nil⟩
  unfold beforeRest
  refine concluding_running ?_ _
  refine Runs.run_invariant (fun m call hm _ => ?_) hstart (fun _ _ => trivial) (List.prefix_refl _)
  cases call with
  | onAgentStart agent => exact onAgentStart_running hm agent
  | onHandoff fromAgent toAgent => exact hm

/-! ## Which agents a mission touches -/

/-- The agent whose start is mirrored, if the call is the start of a known one. -/
def knownStart (nameToId : String → Option String) : HookCall → Option String
  | .onAgentStart agent => truthy (nameToId agent.name)
  | .onHandoff _ _ => none

/-- The known agents that the calls start, one by one. -/
def starts (nameToId : String → Option String) (calls : List HookCall) : List String :=
  calls.filterMap (knownStart nameToId)

theorem starts_concat (nameToId : String → Option String) (calls : List HookCall)
    (call : HookCall) : starts nameToId (calls ++ [call]) =
      starts nameToId calls ++ (knownStart nameToId call).toList := by
  unfold starts
  rw [List.filterMap_append]
  cases h : knownStart nameToId call <;> simp [h]

theorem afterCalls_concat (request : MissionRequest) (nameToId : String → Option String)
    (calls : List HookCall) (call : HookCall) :
    afterCalls request nameToId (calls ++ [call]) =
      MissionHooks.call request nameToId (afterCalls request nameToId calls) call := by
  simp [afterCalls]

theorem truthy_eq_some {value : Option String} {text : String} :
    truthy value = some text ↔ value = some text ∧ text ≠ "" := by
  simp [truthy, Option.filter_eq_some_iff]

/-- The start of an unknown agent changes nothing. -/
theorem onAgentStart_unknown {agent : Agent} (h : truthy (nameToId agent.name) = none) :
    onAgentStart request nameToId m agent = m := by
  simp [onAgentStart, h]

/-- The start of a known agent makes it the current one and touches it, and no agent
beside it that was not touched before. -/
theorem onAgentStart_known (request : MissionRequest) {agent : Agent} {nextId : String}
    (h : truthy (nameToId agent.name) = some nextId) (hcur : ∀ c ∈ m.currentId, c ∈ m.touched) :
    (onAgentStart request nameToId m agent).currentId = some nextId ∧
      ∀ a, a ∈ (onAgentStart request nameToId m agent).touched ↔ a ∈ m.touched ∨ a = nextId := by
  unfold onAgentStart
  rw [h]
  refine ⟨rfl, ?_⟩
  intro a
  rw [mem_touched_setState]
  cases hc : truthy m.currentId with
  | none => exact Iff.rfl
  | some currentId =>
    have hmem : currentId ∈ m.touched := hcur currentId (truthy_eq_some.1 hc).1
    by_cases hne : currentId ≠ nextId
    · -- `waiting` for the agent before is about an agent that is touched already
      simp only [if_pos hne, mem_touched_setState]
      constructor
      · rintro ((ha | rfl) | ha)
        · exact Or.inl ha
        · exact Or.inl hmem
        · exact Or.inr ha
      · rintro (ha | ha)
        · exact Or.inl (Or.inl ha)
        · exact Or.inr ha
    · simp only [if_neg hne]

/-- After any hook calls: the current agent is the last known one that was started,
and the touched agents are the known ones that were started. -/
theorem afterCalls_spec (request : MissionRequest) (nameToId : String → Option String)
    (calls : List HookCall) :
    (afterCalls request nameToId calls).currentId = (starts nameToId calls).getLast? ∧
      ∀ a, a ∈ (afterCalls request nameToId calls).touched ↔ a ∈ starts nameToId calls := by
  induction calls using List.reverseRecOn with
  | nil => exact ⟨rfl, fun a => Iff.rfl⟩
  | append_singleton calls call ih =>
    rw [afterCalls_concat, starts_concat]
    cases call with
    | onHandoff fromAgent toAgent =>
      rw [knownStart, Option.toList_none, List.append_nil]
      exact ih
    | onAgentStart agent =>
      rw [knownStart, MissionHooks.call]
      cases hknown : truthy (nameToId agent.name) with
      | none =>
        rw [onAgentStart_unknown hknown, Option.toList_none, List.append_nil]
        exact ih
      | some nextId =>
        rcases ih with ⟨hcurrent, htouched⟩
        -- the agent that is put on waiting has been started before
        have hcur : ∀ c ∈ (afterCalls request nameToId calls).currentId,
            c ∈ (afterCalls request nameToId calls).touched := by
          intro c hc
          rw [hcurrent] at hc
          exact (htouched c).2 (List.mem_of_getLast? hc)
        rcases onAgentStart_known request hknown hcur with ⟨hid, hmem⟩
        refine ⟨?_, ?_⟩
        · rw [hid, Option.toList_some, List.getLast?_concat]
        · intro a
          rw [hmem, htouched, Option.toList_some, List.mem_append, List.mem_singleton]

theorem afterCalls_current_mem (request : MissionRequest) (nameToId : String → Option String)
    (calls : List HookCall) :
    ∀ c ∈ (afterCalls request nameToId calls).currentId,
      c ∈ (afterCalls request nameToId calls).touched := by
  intro c hc
  rcases afterCalls_spec request nameToId calls with ⟨hcurrent, htouched⟩
  rw [hcurrent] at hc
  exact (htouched c).2 (List.mem_of_getLast? hc)

/-- The publish after the run is about the current agent, which is touched already. -/
theorem concluding_touched (hcur : ∀ c ∈ m.currentId, c ∈ m.touched) (outcome : Outcome)
    (a : String) : a ∈ (concluding request m outcome).touched ↔ a ∈ m.touched := by
  have hset : ∀ {currentId : String}, truthy m.currentId = some currentId →
      ∀ state progress, a ∈ (setState request m currentId state progress).touched ↔
        a ∈ m.touched := by
    intro currentId hc state progress
    rw [mem_touched_setState]
    constructor
    · rintro (ha | rfl)
      · exact ha
      · exact hcur a (truthy_eq_some.1 hc).1
    · exact Or.inl
  unfold concluding
  split
  · next hc => exact hset hc "working" 100
  · next hc => exact hset hc "attention" 0
  · exact Iff.rfl

/-! ## Missions -/

/-- A mission: what was asked for, the team, and the runner that does it. -/
structure Mission where
  request : MissionRequest
  team : RuntimeTeam
  runAgent : Runner

namespace Mission

variable (mission : Mission)

/-- The hook calls that the runner makes. -/
def calls : List HookCall :=
  (mission.runAgent mission.team.chief mission.request.objective mission.request.maxTurns).1

/-- What the mission publishes up to the clean-up. -/
def work : List Payload :=
  (beforeRest mission.request mission.team mission.runAgent).published

/-- The agents that the mission touches, in the order of their first start. -/
def touched : List String :=
  (beforeRest mission.request mission.team mission.runAgent).touched

/-- Everything that the mission publishes. -/
def published : List Payload :=
  (executeMission mission.request mission.team mission.runAgent).2

/-- First the work, then a `rest` for each touched agent. -/
theorem published_eq :
    mission.published = mission.work ++ mission.touched.reverse.map restPayload := rfl

theorem work_no_rest {p : Payload} (h : p ∈ mission.work) : p.operationalState ≠ "rest" :=
  (beforeRest_running mission.request mission.team mission.runAgent).no_rest p h

theorem work_touched {p : Payload} (h : p ∈ mission.work) : p.agentId ∈ mission.touched :=
  (beforeRest_running mission.request mission.team mission.runAgent).of_touched p h

/-- The touched agents are the known ones that the runner has started. -/
theorem mem_touched_iff (a : String) :
    a ∈ mission.touched ↔ a ∈ starts (agentIdByName mission.team) mission.calls := by
  have hcur := afterCalls_current_mem mission.request (agentIdByName mission.team) mission.calls
  rw [← (afterCalls_spec mission.request (agentIdByName mission.team) mission.calls).2]
  exact concluding_touched hcur _ a

/-- Of the clean-up, the last publish for a touched agent is its `rest`. -/
theorem lastFor_rests {touched : List String} {a : String} (h : a ∈ touched) :
    Board.lastFor Payload.agentId a (touched.reverse.map restPayload) = some (restPayload a) := by
  unfold Board.lastFor
  rw [← List.map_reverse, List.reverse_reverse, List.find?_map]
  have hfind : touched.find? ((fun p => decide (p.agentId = a)) ∘ restPayload) = some a := by
    induction touched with
    | nil => exact absurd h List.not_mem_nil
    | cons b touched ih =>
      by_cases hb : b = a
      · simp [restPayload, hb]
      · have ha : a ∈ touched := (List.mem_cons.1 h).resolve_left (Ne.symm hb)
        simpa [restPayload, hb] using ih ha
  rw [hfind]
  rfl

/-- The last publish of a mission for an agent it has touched is a `rest`. -/
theorem lastFor_published {a : String} (h : a ∈ mission.touched) :
    Board.lastFor Payload.agentId a mission.published = some (restPayload a) := by
  rw [published_eq, Board.lastFor_append, lastFor_rests h]
  rfl

/-- A mission publishes for the agents it touches only. -/
theorem published_touched {p : Payload} (h : p ∈ mission.published) :
    p.agentId ∈ mission.touched := by
  rw [published_eq, List.mem_append, List.mem_map] at h
  rcases h with h | ⟨a, ha, rfl⟩
  · exact mission.work_touched h
  · exact List.mem_reverse.1 ha

/-- A `rest` is always the one of the clean-up. -/
theorem eq_restPayload {p : Payload} (h : p ∈ mission.published)
    (hrest : p.operationalState = "rest") : p = restPayload p.agentId := by
  rw [published_eq, List.mem_append, List.mem_map] at h
  rcases h with h | ⟨a, -, rfl⟩
  · exact absurd hrest (mission.work_no_rest h)
  · rfl

/-- Once a mission has published a `rest`, its work is behind it. -/
theorem work_prefix_of_rest {posted : List Payload} (hpre : posted <+: mission.published)
    {p : Payload} (hp : p ∈ posted) (hrest : p.operationalState = "rest") :
    mission.work <+: posted := by
  rw [published_eq] at hpre
  rcases List.prefix_or_prefix_of_prefix hpre (List.prefix_append mission.work _) with h | h
  · -- still at work: then there is no `rest` among what it has published
    exact absurd hrest (mission.work_no_rest (h.subset hp))
  · exact h

end Mission

end AdsHub
