import Mathlib.Data.List.Nodup
import AdsHub.MissionRuns

/-!
# AdsHub.MissionTrace — what one mission publishes, publish by publish

The trace of a mission is determined by the known agents that its runner starts and by
the way it ends. `published_eq_trace` writes it out: each start puts the agent before
it on `waiting` and the new one on `working`, the end adds one publish at most, and
the clean-up brings the touched agents to `rest`. From that come the two statements
about whole missions: what is in the trace (`mission_trace`), and that in every part
of it at most one agent is at work (`one_worker`).

An agent is known if the team has an entry with its name. An entry with an empty id
is none to the hooks, so it does not count here either.
-/

namespace AdsHub

open Board (lastFor)

/-- The id under which the team has the agent. -/
def RuntimeTeam.idOf (team : RuntimeTeam) (agent : Agent) : Option String :=
  truthy ((team.agents.find? (fun entry => entry.2.name = agent.name)).map Prod.fst)

/-- The known agents that the calls start, in order and as often as they do. -/
def RuntimeTeam.started (team : RuntimeTeam) (calls : List HookCall) : List String :=
  calls.filterMap fun
    | .onAgentStart agent => team.idOf agent
    | .onHandoff _ _ => none

/-- No two agents of the team have one name. -/
def RuntimeTeam.DistinctNames (team : RuntimeTeam) : Prop :=
  (team.agents.map (fun entry => entry.2.name)).Nodup

instance (team : RuntimeTeam) : Decidable team.DistinctNames :=
  inferInstanceAs (Decidable (List.Nodup _))

/-- The publish of `set_state`. -/
def statePayload (request : MissionRequest) (agentId state : String) (progress : ℚ) : Payload where
  agentId := agentId
  operationalState := state
  taskId := some request.missionId
  taskType := some request.taskType
  progress := progress
  priority := request.priority
  source := "production"

/-- What the start of `next` publishes after that of `current`. -/
def startTrace (request : MissionRequest) (current : Option String) (next : String) :
    List Payload :=
  (current.filter (fun c => c ≠ next)).toList.map (fun c => statePayload request c "waiting" 50) ++
    [statePayload request next "working" (if next = "chief_ads_officer" then 1 else 50)]

/-- What the end of the run publishes. -/
def endTrace (request : MissionRequest) (current : Option String) : Outcome → List Payload
  | .returned _ _ => current.toList.map (fun c => statePayload request c "working" 100)
  | .raised => current.toList.map (fun c => statePayload request c "attention" 0)
  | .cancelled => []

/-! ## The trace -/

section

variable (request : MissionRequest) (nameToId : String → Option String) (calls : List HookCall)

/-- With distinct names it does not matter which of two entries a dictionary keeps. -/
theorem agentIdByName_eq {team : RuntimeTeam} (h : team.DistinctNames) (name : String) :
    agentIdByName team name =
      (team.agents.find? (fun entry => entry.2.name = name)).map Prod.fst := by
  unfold agentIdByName
  congr 1
  cases hlast : team.agents.reverse.find? (fun entry => entry.2.name = name) with
  | none =>
    rw [List.find?_eq_none] at hlast
    symm
    rw [List.find?_eq_none]
    intro entry hentry
    exact hlast entry (List.mem_reverse.2 hentry)
  | some last =>
    have hlastName : last.2.name = name := by simpa using List.find?_some hlast
    have hlastMem : last ∈ team.agents := List.mem_reverse.1 (List.mem_of_find?_eq_some hlast)
    cases hfirst : team.agents.find? (fun entry => entry.2.name = name) with
    | none =>
      rw [List.find?_eq_none] at hfirst
      exact absurd (by simpa using hlastName) (hfirst last hlastMem)
    | some first =>
      have hfirstName : first.2.name = name := by simpa using List.find?_some hfirst
      rw [List.inj_on_of_nodup_map h (List.mem_of_find?_eq_some hfirst) hlastMem
        (hfirstName.trans hlastName.symm)]

/-- With distinct names the hooks' lookup gives the team's own ids. -/
theorem starts_eq_started {team : RuntimeTeam} (h : team.DistinctNames) :
    starts (agentIdByName team) calls = team.started calls := by
  unfold starts RuntimeTeam.started
  congr 1
  funext call
  cases call with
  | onAgentStart agent => simp only [knownStart, agentIdByName_eq h, RuntimeTeam.idOf]
  | onHandoff fromAgent toAgent => rfl

theorem mem_starts_ne_empty {a : String} (h : a ∈ starts nameToId calls) : a ≠ "" := by
  rcases List.mem_filterMap.1 h with ⟨call, -, hcall⟩
  cases call with
  | onAgentStart agent => exact (truthy_eq_some.1 hcall).2
  | onHandoff fromAgent toAgent => cases hcall

/-- The current agent is the last known one that was started. -/
theorem truthy_current :
    truthy (afterCalls request nameToId calls).currentId = (starts nameToId calls).getLast? := by
  rw [(afterCalls_spec request nameToId calls).1]
  cases hlast : (starts nameToId calls).getLast? with
  | none => rfl
  | some a =>
    exact truthy_eq_some.2 ⟨rfl, mem_starts_ne_empty nameToId calls (List.mem_of_getLast? hlast)⟩

/-- A call that starts no known agent changes nothing. -/
theorem afterCalls_unknown {call : HookCall} (h : knownStart nameToId call = none) :
    afterCalls request nameToId (calls ++ [call]) = afterCalls request nameToId calls := by
  rw [afterCalls_concat]
  cases call with
  | onAgentStart agent => exact onAgentStart_unknown h
  | onHandoff fromAgent toAgent => rfl

theorem published_setState (m : MissionState) (agentId state : String) (progress : ℚ) :
    (setState request m agentId state progress).published =
      m.published ++ [statePayload request agentId state progress] := rfl

/-- The start of a known agent publishes `waiting` for the one before it, if that is
another one, and `working` for itself. -/
theorem published_known {call : HookCall} {next : String}
    (h : knownStart nameToId call = some next) :
    (afterCalls request nameToId (calls ++ [call])).published =
      (afterCalls request nameToId calls).published ++
        startTrace request (starts nameToId calls).getLast? next := by
  rw [afterCalls_concat]
  cases call with
  | onHandoff fromAgent toAgent => cases h
  | onAgentStart agent =>
    have hknown : truthy (nameToId agent.name) = some next := h
    have hcurrent := truthy_current request nameToId calls
    simp only [MissionHooks.call, onAgentStart, hknown, hcurrent, published_setState, startTrace]
    cases (starts nameToId calls).getLast? with
    | none => rfl
    | some current =>
      by_cases hne : current ≠ next
      · simp [hne, published_setState, Option.filter]
      · simp [hne, Option.filter]

/-- The first occurrences of a list with one more element. -/
theorem eraseDups_concat (l : List String) (a : String) :
    (l ++ [a]).eraseDups = if a ∈ l then l.eraseDups else l.eraseDups ++ [a] := by
  rw [List.eraseDups_append]
  by_cases h : a ∈ l
  · simp [h, List.removeAll]
  · simp [h, List.removeAll, List.eraseDups_cons]

/-- The touched agents, in the order in which they were started first. -/
theorem touched_eq_eraseDups :
    (afterCalls request nameToId calls).touched = (starts nameToId calls).eraseDups := by
  induction calls using List.reverseRecOn with
  | nil => rfl
  | append_singleton calls call ih =>
    rw [starts_concat]
    cases hknown : knownStart nameToId call with
    | none => rw [afterCalls_unknown request nameToId calls hknown, Option.toList_none,
        List.append_nil, ih]
    | some next =>
      rw [Option.toList_some, eraseDups_concat, afterCalls_concat]
      cases call with
      | onHandoff fromAgent toAgent => cases hknown
      | onAgentStart agent =>
        have htruthy : truthy (nameToId agent.name) = some next := hknown
        simp only [MissionHooks.call, onAgentStart, htruthy]
        -- the agent before is touched already, so `waiting` adds nothing
        have hwaited : ∀ m : MissionState, m.touched = (afterCalls request nameToId calls).touched →
            (setState request { m with currentId := some next } next "working"
              (if next = "chief_ads_officer" then 1 else 50)).touched =
              if next ∈ starts nameToId calls then (starts nameToId calls).eraseDups
              else (starts nameToId calls).eraseDups ++ [next] := by
          intro m hm
          simp only [setState, hm, ih, List.mem_eraseDups]
        apply hwaited
        cases hcurrent : truthy (afterCalls request nameToId calls).currentId with
        | none => rfl
        | some current =>
          have hcur := afterCalls_current_mem request nameToId calls current
            (truthy_eq_some.1 hcurrent).1
          by_cases hne : current ≠ next
          · simp only [if_pos hne, setState, if_pos hcur]
          · simp only [if_neg hne]

end

namespace Mission

variable (mission : Mission)

/-- How the runner ends. -/
def outcome : Outcome :=
  (mission.runAgent mission.team.chief mission.request.objective mission.request.maxTurns).2

/-- The known agents that the runner starts. -/
def started : List String := mission.team.started mission.calls

variable {mission}

/-- The exit paths publish the end trace of the agent at work. -/
theorem concluding_published (request : MissionRequest) (m : MissionState) (outcome : Outcome) :
    (concluding request m outcome).published =
      m.published ++ endTrace request (truthy m.currentId) outcome := by
  unfold concluding endTrace
  cases truthy m.currentId with
  | none => cases outcome <;> simp
  | some current => cases outcome <;> simp [published_setState]

/-- They touch no agent that was not touched before. -/
theorem concluding_touched_eq {request : MissionRequest} {m : MissionState}
    (hcur : ∀ c ∈ m.currentId, c ∈ m.touched) (outcome : Outcome) :
    (concluding request m outcome).touched = m.touched := by
  unfold concluding
  split
  · next hc => simp [setState, hcur _ (truthy_eq_some.1 hc).1]
  · next hc => simp [setState, hcur _ (truthy_eq_some.1 hc).1]
  · rfl

/-- The agents touched are those started, once each. -/
theorem touched_eq (h : mission.team.DistinctNames) :
    mission.touched = mission.started.eraseDups := by
  have hcur := afterCalls_current_mem mission.request (agentIdByName mission.team) mission.calls
  rw [started, ← starts_eq_started mission.calls h,
    ← touched_eq_eraseDups mission.request (agentIdByName mission.team)]
  exact concluding_touched_eq hcur mission.outcome

/-- What the calls `done` of the runner make the mission publish. -/
def publishedBy (mission : Mission) (done : List HookCall) : List Payload :=
  (afterCalls mission.request (agentIdByName mission.team) done).published

/-- A hook for an agent without an id publishes nothing. -/
theorem publishedBy_unknown {call : HookCall}
    (h : knownStart (agentIdByName mission.team) call = none) (done : List HookCall) :
    mission.publishedBy (done ++ [call]) = mission.publishedBy done :=
  congrArg MissionState.published (afterCalls_unknown mission.request _ done h)

/-- A start adds its trace: the waiting of the agent before it and its own work. -/
theorem publishedBy_known {call : HookCall} {next : String}
    (h : knownStart (agentIdByName mission.team) call = some next) (done : List HookCall) :
    mission.publishedBy (done ++ [call]) = mission.publishedBy done ++
      startTrace mission.request (starts (agentIdByName mission.team) done).getLast? next :=
  published_known mission.request _ done h

/-- More calls publish more. -/
theorem publishedBy_prefix (mission : Mission) (done rest : List HookCall) :
    mission.publishedBy done <+: mission.publishedBy (done ++ rest) := by
  induction rest using List.reverseRecOn with
  | nil => rw [List.append_nil]
  | append_singleton rest call ih =>
    rw [← List.append_assoc]
    cases hknown : knownStart (agentIdByName mission.team) call with
    | none => rwa [publishedBy_unknown hknown]
    | some next =>
      rw [publishedBy_known hknown]
      exact ih.trans (List.prefix_append _ _)

/-- Everything published before the rests. -/
theorem work_eq (h : mission.team.DistinctNames) :
    mission.work = mission.publishedBy mission.calls ++
      endTrace mission.request mission.started.getLast? mission.outcome := by
  rw [started, ← starts_eq_started mission.calls h,
    ← truthy_current mission.request (agentIdByName mission.team)]
  exact concluding_published mission.request _ mission.outcome

/-! ## What is in the trace -/

/-- What a hook call publishes is about the mission and a known agent, and is `waiting`
or `working`. -/
theorem mem_publishedBy {done : List HookCall} {p : Payload} (h : p ∈ mission.publishedBy done) :
    ∃ agentId progress, p = statePayload mission.request agentId "waiting" progress ∨
      p = statePayload mission.request agentId "working" progress := by
  induction done using List.reverseRecOn with
  | nil => exact absurd h List.not_mem_nil
  | append_singleton done call ih =>
    cases hknown : knownStart (agentIdByName mission.team) call with
    | none =>
      rw [publishedBy_unknown hknown] at h
      exact ih h
    | some next =>
      rw [publishedBy_known hknown, List.mem_append, startTrace, List.mem_append, List.mem_map,
        List.mem_singleton] at h
      rcases h with h | ⟨current, -, rfl⟩ | rfl
      · exact ih h
      · exact ⟨current, 50, Or.inl rfl⟩
      · exact ⟨next, _, Or.inr rfl⟩

/-- An end trace is about the agent at work: done, or attention after an exception. -/
theorem mem_endTrace {request : MissionRequest} {current : Option String} {outcome : Outcome}
    {p : Payload} (h : p ∈ endTrace request current outcome) :
    ∃ agentId, current = some agentId ∧ (p = statePayload request agentId "working" 100 ∨
      outcome = .raised ∧ p = statePayload request agentId "attention" 0) := by
  cases outcome with
  | returned finalOutput lastAgent =>
    obtain ⟨agentId, hagent, rfl⟩ := List.mem_map.1 h
    exact ⟨agentId, Option.mem_toList.1 hagent, Or.inl rfl⟩
  | raised =>
    obtain ⟨agentId, hagent, rfl⟩ := List.mem_map.1 h
    exact ⟨agentId, Option.mem_toList.1 hagent, Or.inr ⟨rfl, rfl⟩⟩
  | cancelled => exact absurd h List.not_mem_nil

variable (mission) in
/-- What is in the trace of a mission. -/
structure Trace : Prop where
  agents : ∀ p ∈ mission.published, p.agentId ∈ mission.started
  shape : ∃ work, mission.published = work ++ mission.started.eraseDups.reverse.map restPayload ∧
    ∀ p ∈ work, p.operationalState ≠ "rest" ∧ p.taskId = some mission.request.missionId ∧
      p.taskType = some mission.request.taskType ∧ p.priority = mission.request.priority ∧
      p.source = "production"
  attention : (∃ p ∈ mission.published, p.operationalState = "attention") ↔
    mission.outcome = .raised ∧ mission.started ≠ []
  attention_once : mission.outcome = .raised → ∀ a, mission.started.getLast? = some a →
    ∃ before, mission.published = before ++ [statePayload mission.request a "attention" 0] ++
        mission.started.eraseDups.reverse.map restPayload ∧
      ∀ p ∈ before, p.operationalState ≠ "attention"
  touched : ∀ finalOutput lastAgent, mission.outcome = .returned finalOutput lastAgent →
    ∃ result, (executeMission mission.request mission.team mission.runAgent).1 = .ok result ∧
      result.agentsTouched = mission.started.eraseDups

/-- The whole mission in order: the starts, the ending, and the rests in reverse. -/
theorem published_eq_trace (h : mission.team.DistinctNames) :
    mission.published = mission.publishedBy mission.calls ++
      endTrace mission.request mission.started.getLast? mission.outcome ++
      mission.started.eraseDups.reverse.map restPayload := by
  rw [published_eq, work_eq h, touched_eq h]

/-- No start publishes attention. -/
theorem publishedBy_not_attention {done : List HookCall} {p : Payload}
    (h : p ∈ mission.publishedBy done) : p.operationalState ≠ "attention" := by
  rcases mem_publishedBy h with ⟨agentId, progress, rfl | rfl⟩
  · simp [statePayload]
  · simp [statePayload]

/-- The trace of every mission of a team with distinct names: only known agents that
were started are in it; it ends with one `rest` for each of them, the one that was
started first being the last; everything before is about the mission; `attention` is
there exactly if an exception ended the run after a known agent had started, once, for
the last one and right before the rests; and a result lists the agents as they were
started first. -/
theorem mission_trace (mission : Mission) (h : mission.team.DistinctNames) : mission.Trace where
  agents := by
    intro p hp
    have hmem := mission.published_touched hp
    rwa [touched_eq h, List.mem_eraseDups] at hmem
  shape := by
    refine ⟨mission.work, by rw [published_eq, touched_eq h], ?_⟩
    intro p hp
    refine ⟨mission.work_no_rest hp, ?_⟩
    rw [work_eq h, List.mem_append] at hp
    rcases hp with hp | hp
    · rcases mem_publishedBy hp with ⟨agentId, progress, rfl | rfl⟩
      · exact ⟨rfl, rfl, rfl, rfl⟩
      · exact ⟨rfl, rfl, rfl, rfl⟩
    · rcases mem_endTrace hp with ⟨agentId, -, rfl | ⟨-, rfl⟩⟩
      · exact ⟨rfl, rfl, rfl, rfl⟩
      · exact ⟨rfl, rfl, rfl, rfl⟩
  attention := by
    rw [published_eq_trace h]
    constructor
    · rintro ⟨p, hp, hstate⟩
      rw [List.mem_append, List.mem_append, List.mem_map] at hp
      -- a start or a rest is no `attention`, so it is in the end trace
      rcases hp with (hp | hp) | ⟨a, -, rfl⟩
      · exact absurd hstate (publishedBy_not_attention hp)
      · rcases mem_endTrace hp with ⟨agentId, hlast, rfl | ⟨hraised, -⟩⟩
        · simp [statePayload] at hstate
        · exact ⟨hraised, List.ne_nil_of_mem (List.mem_of_getLast? hlast)⟩
      · simp [restPayload] at hstate
    · rintro ⟨hraised, hsome⟩
      refine ⟨statePayload mission.request (mission.started.getLast hsome) "attention" 0, ?_, rfl⟩
      simp [hraised, endTrace, List.getLast?_eq_some_getLast hsome]
  attention_once := by
    intro hraised a hlast
    -- the end trace of an exception is this one payload, right before the rests
    refine ⟨mission.publishedBy mission.calls, ?_, fun p hp => publishedBy_not_attention hp⟩
    rw [published_eq_trace h, hraised, hlast]
    rfl
  touched := by
    intro finalOutput lastAgent hreturned
    unfold outcome at hreturned
    simp only [executeMission, missionResult, hreturned]
    exact ⟨_, rfl, touched_eq h⟩

/-- The mission that fails has an `attention`, for the copywriter. -/
theorem mission_trace_failed :
    ∃ p ∈ (twoMissions false).published, p.operationalState = "attention" :=
  (mission_trace (twoMissions false) (by decide)).attention.2 ⟨rfl, by decide⟩

/-! ## At most one worker -/

variable (mission) in
/-- The calls `done` are those that are through when the mission has published
`posted`: what they publish is in it, and what the next one publishes is not, or not
all of it. -/
def Completed (posted : List Payload) (done : List HookCall) : Prop :=
  done <+: mission.calls ∧ mission.publishedBy done <+: posted ∧
    ∀ call, done ++ [call] <+: mission.calls → ¬ mission.publishedBy (done ++ [call]) <+: posted

/-- At work is nobody but the current agent, and everybody else is waiting. -/
def AtWork (current : Option String) (posted : List Payload) : Prop :=
  ∀ a, latest posted a = none ∨ latest posted a = some "waiting" ∨
    latest posted a = some "working" ∧ current = some a

/-- Publishing a state changes the latest one of its agent only. -/
theorem latest_state (posted : List Payload) (request : MissionRequest) (agentId state : String)
    (progress : ℚ) (a : String) :
    latest (posted ++ [statePayload request agentId state progress]) a =
      if agentId = a then some state else latest posted a := by
  unfold latest
  rw [Board.lastFor_concat]
  exact apply_ite _ _ _ _

/-- After the waiting of the agent at work nobody is at work. -/
theorem atWork_waiting {current : String} {posted : List Payload}
    (h : AtWork (some current) posted) (request : MissionRequest) (progress : ℚ) :
    AtWork none (posted ++ [statePayload request current "waiting" progress]) := by
  intro a
  rw [latest_state]
  by_cases ha : current = a
  · exact Or.inr (Or.inl (if_pos ha))
  · rw [if_neg ha]
    rcases h a with hnone | hwaiting | ⟨-, hcurrent⟩
    · exact Or.inl hnone
    · exact Or.inr (Or.inl hwaiting)
    · exact absurd (Option.some.inj hcurrent) ha

/-- After a start exactly its agent is at work. -/
theorem atWork_working {current : Option String} {posted : List Payload}
    (h : AtWork current posted) {next : String} (hcurrent : ∀ c ∈ current, c = next)
    (request : MissionRequest) (progress : ℚ) :
    AtWork (some next) (posted ++ [statePayload request next "working" progress]) := by
  intro a
  rw [latest_state]
  by_cases ha : next = a
  · exact Or.inr (Or.inr ⟨if_pos ha, congrArg some ha⟩)
  · rw [if_neg ha]
    rcases h a with hnone | hwaiting | ⟨-, hsome⟩
    · exact Or.inl hnone
    · exact Or.inr (Or.inl hwaiting)
    · exact absurd (hcurrent a hsome).symm ha

/-- A start publishes `working` alone if no other agent was current, and else `waiting`
for that one before it. -/
theorem startTrace_cases (request : MissionRequest) (current : Option String) (next : String) :
    ∃ progress, (∀ c ∈ current, c = next) ∧
        startTrace request current next = [statePayload request next "working" progress] ∨
      ∃ c, current = some c ∧ startTrace request current next =
        [statePayload request c "waiting" 50, statePayload request next "working" progress] := by
  refine ⟨if next = "chief_ads_officer" then 1 else 50, ?_⟩
  cases current with
  | none => exact Or.inl ⟨fun c hc => absurd hc (Option.not_mem_none c), rfl⟩
  | some c =>
    by_cases hsame : c = next
    · refine Or.inl ⟨?_, by simp [startTrace, hsame]⟩
      intro c' hc'
      exact (Option.some.inj hc').symm.trans hsame
    · exact Or.inr ⟨c, rfl, by simp [startTrace, Option.filter, hsame]⟩

/-- With the publishes of a start, the new agent is the one at work. -/
theorem atWork_startTrace {current : Option String} {posted : List Payload}
    (h : AtWork current posted) (request : MissionRequest) (next : String) :
    AtWork (some next) (posted ++ startTrace request current next) := by
  rcases startTrace_cases request current next with
    ⟨progress, ⟨hcurrent, htrace⟩ | ⟨c, rfl, htrace⟩⟩
  · rw [htrace]
    exact atWork_working h hcurrent request progress
  · rw [htrace, List.append_cons]
    exact atWork_working (atWork_waiting h request 50)
      (fun c hc => absurd hc (Option.not_mem_none c)) request progress

/-- After any calls of the runner the last known agent that was started is at work, and
the others wait. -/
theorem atWork_publishedBy (h : mission.team.DistinctNames) (done : List HookCall) :
    AtWork (mission.team.started done).getLast? (mission.publishedBy done) := by
  induction done using List.reverseRecOn with
  | nil => exact fun a => Or.inl rfl
  | append_singleton done call ih =>
    rw [← starts_eq_started done h] at ih
    rw [← starts_eq_started (done ++ [call]) h, starts_concat]
    cases hknown : knownStart (agentIdByName mission.team) call with
    | none =>
      rw [publishedBy_unknown hknown, Option.toList_none, List.append_nil]
      exact ih
    | some next =>
      rw [publishedBy_known hknown, Option.toList_some, List.getLast?_concat]
      exact atWork_startTrace ih mission.request next

/-- There are calls that are through, whatever has been published. -/
theorem exists_completed (mission : Mission) (posted : List Payload) :
    ∃ done, mission.Completed posted done := by
  -- from calls that are through, go on to the first one that is not
  have hnext : ∀ rest done, done ++ rest = mission.calls → mission.publishedBy done <+: posted →
      ∃ done, mission.Completed posted done := by
    intro rest
    induction rest with
    | nil =>
      intro done hcalls hdone
      rw [List.append_nil] at hcalls
      refine ⟨done, hcalls ▸ List.prefix_refl _, hdone, ?_⟩
      intro call hcall
      have hlength := hcall.length_le
      rw [hcalls, List.length_append, List.length_singleton] at hlength
      omega
    | cons call rest ih =>
      intro done hcalls hdone
      rw [List.append_cons] at hcalls
      by_cases hcall : mission.publishedBy (done ++ [call]) <+: posted
      · exact ih (done ++ [call]) hcalls hcall
      · refine ⟨done, (List.prefix_append done [call]).trans ⟨rest, hcalls⟩, hdone, ?_⟩
        intro call' hcall'
        -- the next call is this one
        have hsame : done ++ [call'] = done ++ [call] :=
          (List.prefix_of_prefix_length_le hcall' ⟨rest, hcalls⟩ (by simp)).eq_of_length (by simp)
        rw [hsame]
        exact hcall
  exact hnext mission.calls [] rfl List.nil_prefix

/-- While a call is under way, what it has published is nothing, or `waiting` for the
agent before: either way nobody but that agent is at work. -/
theorem atWork_midway {current : Option String} {posted all : List Payload}
    (h : AtWork current posted) {request : MissionRequest} {next : String}
    (hpre : all <+: posted ++ startTrace request current next) (hstart : posted <+: all)
    (hmid : ¬ posted ++ startTrace request current next <+: all) : AtWork current all := by
  obtain ⟨new, rfl⟩ := hstart
  rw [List.prefix_append_right_inj] at hpre hmid
  rcases startTrace_cases request current next with ⟨progress, ⟨-, htrace⟩ | ⟨c, rfl, htrace⟩⟩
  · rw [htrace] at hpre hmid
    rcases List.prefix_cons_iff.1 hpre with rfl | ⟨last, rfl, hlast⟩
    · rwa [List.append_nil]
    · rw [List.prefix_nil.1 hlast] at hmid
      exact absurd (List.prefix_refl _) hmid
  · rw [htrace] at hpre hmid
    rcases List.prefix_cons_iff.1 hpre with rfl | ⟨rest, rfl, hrest⟩
    · rwa [List.append_nil]
    · rcases List.prefix_cons_iff.1 hrest with rfl | ⟨last, rfl, hlast⟩
      · intro a
        rcases atWork_waiting h request 50 a with hnone | hwaiting | ⟨-, habsurd⟩
        · exact Or.inl hnone
        · exact Or.inr (Or.inl hwaiting)
        · cases habsurd
      · rw [List.prefix_nil.1 hlast] at hmid
        exact absurd (List.prefix_refl _) hmid

/-- While the runner is at work: whatever has been published, nobody is at work but the
last known agent that was started, and everybody else waits. -/
theorem atWork_running (h : mission.team.DistinctNames) {posted : List Payload}
    (hposted : posted <+: mission.publishedBy mission.calls) {done : List HookCall}
    (hdone : mission.Completed posted done) :
    AtWork (mission.team.started done).getLast? posted := by
  obtain ⟨⟨rest, hcalls⟩, hstart, hmid⟩ := hdone
  have hwork := atWork_publishedBy h done
  cases rest with
  | nil =>
    rw [List.append_nil] at hcalls
    rw [← hcalls] at hposted
    rwa [hposted.eq_of_length_le hstart.length_le]
  | cons call rest =>
    rw [List.append_cons] at hcalls
    have hcall := hmid call ⟨rest, hcalls⟩
    -- the call under way has not published all of what it publishes
    have hbefore : posted <+: mission.publishedBy (done ++ [call]) := by
      have hall : mission.publishedBy (done ++ [call]) <+: mission.publishedBy mission.calls := by
        rw [← hcalls]
        exact publishedBy_prefix mission (done ++ [call]) rest
      exact (List.prefix_or_prefix_of_prefix hposted hall).resolve_right hcall
    cases hknown : knownStart (agentIdByName mission.team) call with
    | none =>
      rw [publishedBy_unknown hknown] at hcall
      exact absurd hstart hcall
    | some next =>
      rw [publishedBy_known hknown, starts_eq_started done h] at hcall hbefore
      exact atWork_midway hwork hbefore hstart hcall

/-- Once the runner has ended, all its calls are through. -/
theorem completed_ended {posted : List Payload}
    (hposted : mission.publishedBy mission.calls <+: posted) {done : List HookCall}
    (hdone : mission.Completed posted done) : done = mission.calls := by
  obtain ⟨⟨rest, hcalls⟩, -, hmid⟩ := hdone
  cases rest with
  | nil => rwa [List.append_nil] at hcalls
  | cons call rest =>
    rw [List.append_cons] at hcalls
    have hall := publishedBy_prefix mission (done ++ [call]) rest
    rw [hcalls] at hall
    exact absurd (hall.trans hposted) (hmid call ⟨rest, hcalls⟩)

/-- Publishes that bring nobody else to work leave the current agent as the only one
that may be at work. -/
theorem working_append {current : Option String} {posted new : List Payload}
    (h : AtWork current posted)
    (hnew : ∀ p ∈ new, p.operationalState = "working" → current = some p.agentId) {a : String}
    (ha : latest (posted ++ new) a = some "working") : current = some a := by
  unfold latest at ha
  rw [Board.lastFor_append] at ha
  cases hlast : lastFor Payload.agentId a new with
  | none =>
    rw [hlast, Option.none_or] at ha
    rcases h a with hnone | hwaiting | ⟨-, hcurrent⟩
    · rw [latest, ha] at hnone
      cases hnone
    · rw [latest, ha] at hwaiting
      exact absurd (Option.some.inj hwaiting) (by decide)
    · exact hcurrent
  | some p =>
    rw [hlast, Option.some_or] at ha
    rcases Board.mem_of_lastFor hlast with ⟨hmem, rfl⟩
    exact hnew p hmem (Option.some.inj ha)

variable (mission) in
/-- At most one agent of a mission is at work, at every moment. -/
structure OneWorker : Prop where
  prefixes : ∀ posted, posted <+: mission.published → ∃ done, mission.Completed posted done ∧
    (∀ a b, latest posted a = some "working" → latest posted b = some "working" → a = b) ∧
    (∀ a, latest posted a = some "working" → (mission.team.started done).getLast? = some a) ∧
    (posted <+: mission.publishedBy mission.calls →
      ∀ p ∈ posted, latest posted p.agentId ≠ some "working" →
        latest posted p.agentId = some "waiting")
  success : ∀ finalOutput lastAgent, mission.outcome = .returned finalOutput lastAgent →
    ∀ a, mission.started.getLast? = some a →
      (mission.published.filter (fun p => p.operationalState ≠ "rest")).getLast? =
        some (statePayload mission.request a "working" 100)

/-- An agent shown working is the last one started. -/
theorem working_started (h : mission.team.DistinctNames) {posted : List Payload}
    (hposted : posted <+: mission.published) {done : List HookCall}
    (hdone : mission.Completed posted done) {a : String}
    (ha : latest posted a = some "working") : (mission.team.started done).getLast? = some a := by
  rw [published_eq_trace h, List.append_assoc] at hposted
  rcases List.prefix_or_prefix_of_prefix hposted (List.prefix_append _ _) with hrunning | hended
  · rcases atWork_running h hrunning hdone a with hnone | hwaiting | ⟨-, hcurrent⟩
    · rw [ha] at hnone
      cases hnone
    · rw [ha] at hwaiting
      exact absurd (Option.some.inj hwaiting) (by decide)
    · exact hcurrent
  · -- in the end phase the only `working` is that of a result, for the current agent
    obtain rfl := completed_ended hended hdone
    obtain ⟨new, rfl⟩ := hended
    rw [List.prefix_append_right_inj] at hposted
    refine working_append (atWork_publishedBy h mission.calls) ?_ ha
    intro p hp hstate
    rcases List.mem_append.1 (hposted.subset hp) with hend | hrest
    · rcases mem_endTrace hend with ⟨agentId, hcurrent, rfl | ⟨-, rfl⟩⟩
      · exact hcurrent
      · exact absurd hstate (by simp [statePayload])
    · obtain ⟨agentId, -, rfl⟩ := List.mem_map.1 hrest
      exact absurd hstate (by simp [restPayload])

/-- In every part of the trace of a mission of a team with distinct names, at most one
agent is at work, namely the known one that was started last; before the run has ended
all others wait; and the last publish before the clean-up of a mission with a result
is that agent's `working` at 100. -/
theorem one_worker (mission : Mission) (h : mission.team.DistinctNames) : mission.OneWorker where
  prefixes := by
    intro posted hposted
    -- the hook calls that had completed when the last of these was published
    rcases mission.exists_completed posted with ⟨done, hdone⟩
    refine ⟨done, hdone, ?_, ?_, ?_⟩
    · intro a b ha hb
      have hlast := working_started h hposted hdone ha
      rw [working_started h hposted hdone hb] at hlast
      exact (Option.some.inj hlast).symm
    · exact fun a ha => working_started h hposted hdone ha
    · intro hrunning p hp hnot
      rcases atWork_running h hrunning hdone p.agentId with hnone | hwaiting | ⟨hworking, -⟩
      · exact absurd (Option.map_eq_none_iff.1 hnone) (Board.lastFor_ne_none hp)
      · exact hwaiting
      · exact absurd hworking hnot
  success := by
    intro finalOutput lastAgent hreturned a hlast
    -- without the rests only the work is left, which ends with the end trace
    have hrests : (mission.touched.reverse.map restPayload).filter
        (fun p => p.operationalState ≠ "rest") = [] := by
      simp [List.filter_eq_nil_iff, restPayload]
    have hwork : mission.work.filter (fun p => p.operationalState ≠ "rest") = mission.work := by
      rw [List.filter_eq_self]
      intro p hp
      simpa using mission.work_no_rest hp
    rw [published_eq, List.filter_append, hrests, hwork, List.append_nil, work_eq h, hreturned,
      hlast]
    exact List.getLast?_concat

/-- The mission that returns ends with the chief at work, at 100. -/
theorem one_worker_returned :
    ((twoMissions true).published.filter (fun p => p.operationalState ≠ "rest")).getLast? =
      some (statePayload (twoMissions true).request "chief_ads_officer" "working" 100) :=
  (one_worker (twoMissions true) (by decide)).success (.str "done") ⟨"Chief Ads Officer"⟩ rfl
    "chief_ads_officer" (by decide)

end Mission

end AdsHub
