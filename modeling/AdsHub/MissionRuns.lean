import AdsHub.Lib.Runs
import AdsHub.Orchestrator

/-!
# AdsHub.MissionRuns — missions that share the task bus

Any number of missions publish on one bus, in any interleaving of their
publishes. The bus keeps one slot per agent, whatever the mission, so what a slot
shows is the latest publish of *some* mission for that agent.

`quiescence` is what that is enough for: when all missions have ended, every
touched agent is at rest. While they run, a slot can show the `rest` of a mission
that ends although the agent works for another one (`chief_rests_while_working`);
`rest_of_other_mission` says that this is the only way.
-/

namespace AdsHub

open Board (lastFor)

variable {ι : Type} [DecidableEq ι] (missions : ι → Mission) (bus : Bus)

/-- The bus and what each mission has published, after the publishes `ls`: the
mission `i` of an entry `(i, now)` makes its next publish, at `now`. -/
def afterPublishes (ls : List (ι × Utc)) : Board.State ι Bus Payload :=
  Runs.run (Board.step taskBoard (fun i => (missions i).published)) (Board.start bus) ls

/-- The operational state that the canonical slot of an agent shows. -/
def canonicalState (s : Board.State ι Bus Payload) (a : String) : Option String :=
  (s.store.agentTaskState a).map (fun e => e.operationalState)

/-- The latest state in a part of a trace for an agent. -/
def Mission.latest (posted : List Payload) (a : String) : Option String :=
  (lastFor Payload.agentId a posted).map Payload.operationalState

/-- The last state that mission `i` has published for an agent. -/
def lastState (s : Board.State ι Bus Payload) (i : ι) (a : String) : Option String :=
  Mission.latest (s.posted i) a

variable (ls : List (ι × Utc))

/-! ## While missions run -/

/-- A slot that somebody has published for shows the latest publish of a mission
for that agent. -/
theorem slot_of_published {i : ι} {a : String}
    (h : lastFor Payload.agentId a ((afterPublishes missions bus ls).posted i) ≠ none) :
    ∃ j e, (afterPublishes missions bus ls).store.agentTaskState a = some e ∧
      lastFor Payload.agentId a ((afterPublishes missions bus ls).posted j) = some e.toPayload := by
  rcases Board.slot_run taskBoard (fun i => (missions i).published) bus ls a with
    ⟨-, hnone⟩ | ⟨j, e, he, hj⟩
  · exact absurd (hnone i) h
  · exact ⟨j, e, he, hj⟩

/-- If the last state that a mission has published for an agent is `working` and
its slot shows `rest`, then that `rest` is one of another mission, which has
touched the agent, is through with its work and is cleaning up. -/
theorem rest_of_other_mission {i : ι} {a : String}
    (hworking : lastState (afterPublishes missions bus ls) i a = some "working")
    (hrest : canonicalState (afterPublishes missions bus ls) a = some "rest") :
    ∃ j, j ≠ i ∧ a ∈ (missions j).touched ∧
      (missions j).work <+: (afterPublishes missions bus ls).posted j ∧
      ∃ e, (afterPublishes missions bus ls).store.agentTaskState a = some e ∧
        e.toPayload = restPayload a ∧
        lastFor Payload.agentId a ((afterPublishes missions bus ls).posted j) =
          some (restPayload a) := by
  have hsome : lastFor Payload.agentId a ((afterPublishes missions bus ls).posted i) ≠ none := by
    intro hnone
    simp [lastState, Mission.latest, hnone] at hworking
  rcases slot_of_published missions bus ls hsome with ⟨j, e, he, hj⟩
  have hstate : e.operationalState = "rest" := by
    simpa [canonicalState, he] using hrest
  have hpre : (afterPublishes missions bus ls).posted j <+: (missions j).published :=
    Board.posted_prefix taskBoard (fun i => (missions i).published) bus ls j
  rcases Board.mem_of_lastFor hj with ⟨hmem, hkey⟩
  have hpayload : e.toPayload = restPayload a := by
    rw [← hkey]
    exact (missions j).eq_restPayload (hpre.subset hmem) hstate
  refine ⟨j, ?_, ?_, (missions j).work_prefix_of_rest hpre hmem hstate, e, he, hpayload, ?_⟩
  · -- mission `i` itself has published nothing for the agent since `working`
    rintro rfl
    rw [lastState, Mission.latest, hj, hpayload] at hworking
    simp [restPayload] at hworking
  · rw [← hkey]
    exact (missions j).published_touched (hpre.subset hmem)
  · rw [hj, hpayload]

/-! ## When all missions have ended -/

/-- When every mission has ended, each touched agent is at rest, with no task and
no progress, and the slot of any other agent is as it was at the start. -/
theorem quiescence (hended : ∀ i, (afterPublishes missions bus ls).posted i = (missions i).published) :
    (∀ i, ∀ a ∈ (missions i).touched, ∃ e,
      (afterPublishes missions bus ls).store.agentTaskState a = some e ∧
      e.operationalState = "rest" ∧ e.taskId = none ∧ e.progress = 0) ∧
    ∀ a, (∀ i, a ∉ (missions i).touched) →
      (afterPublishes missions bus ls).store.agentTaskState a = bus.agentTaskState a := by
  constructor
  · intro i a ha
    have hi := (missions i).lastFor_published ha
    have hsome : lastFor Payload.agentId a ((afterPublishes missions bus ls).posted i) ≠ none := by
      rw [hended i, hi]
      exact Option.some_ne_none _
    -- whichever mission wrote the slot last, it ended with a `rest` for the agent
    rcases slot_of_published missions bus ls hsome with ⟨j, e, he, hj⟩
    rw [hended j] at hj
    rcases Board.mem_of_lastFor hj with ⟨hmem, hkey⟩
    have htouched : a ∈ (missions j).touched := by
      rw [← hkey]
      exact (missions j).published_touched hmem
    have hpayload : e.toPayload = restPayload a := by
      rw [(missions j).lastFor_published htouched] at hj
      exact (Option.some.inj hj).symm
    refine ⟨e, he, ?_⟩
    rw [hpayload]
    exact ⟨rfl, rfl, rfl⟩
  · intro a ha
    rcases Board.slot_run taskBoard (fun i => (missions i).published) bus ls a with
      ⟨hsame, -⟩ | ⟨j, e, he, hj⟩
    · exact hsame
    · have hj' : lastFor Payload.agentId a ((afterPublishes missions bus ls).posted j) =
          some e.toPayload := hj
      rw [hended j] at hj'
      rcases Board.mem_of_lastFor hj' with ⟨hmem, hkey⟩
      have htouched := (missions j).published_touched hmem
      rw [hkey] at htouched
      exact absurd htouched (ha j)

/-! ## Two missions of the same team -/

/-- A team of the chief and one specialist. -/
def smallTeam : RuntimeTeam where
  chief := ⟨"Chief Ads Officer"⟩
  agents := [("chief_ads_officer", ⟨"Chief Ads Officer"⟩), ("copywriter", ⟨"Copywriter"⟩)]
  ids_nodup := by decide

/-- The first mission has the chief at work and returns; in the second one the chief
hands over to the copywriter, an agent outside the team is started, and it fails. -/
def twoMissions : Bool → Mission
  | true =>
    { request := { missionId := "m1", objective := "plan" }
      team := smallTeam
      runAgent := fun chief _ _ => ([.onAgentStart chief], .returned (.str "done") chief) }
  | false =>
    { request := { missionId := "m2", objective := "write" }
      team := smallTeam
      runAgent := fun chief _ _ =>
        ([.onAgentStart chief, .onHandoff chief ⟨"Copywriter"⟩, .onAgentStart ⟨"Copywriter"⟩,
          .onAgentStart ⟨"Guest"⟩], .raised) }

def noon : Utc := { morning with hour := 12, time_range := by decide }

/-- The first mission starts the chief, and then the second one runs from its start
to its end. -/
def overlapping : List (Bool × Utc) := (true, noon) :: List.replicate 6 (false, noon)

/-- The second mission ends and leaves the chief at rest, who still works for the
first one. -/
theorem chief_rests_while_working :
    (afterPublishes twoMissions {} overlapping).posted true ≠ (twoMissions true).published ∧
      lastState (afterPublishes twoMissions {} overlapping) true "chief_ads_officer" =
        some "working" ∧
      canonicalState (afterPublishes twoMissions {} overlapping) "chief_ads_officer" =
        some "rest" := by
  decide +kernel

/-- In that run the `rest` is the second mission's. -/
theorem rest_of_other_mission_overlapping :
    ∃ j, j ≠ true ∧ "chief_ads_officer" ∈ (twoMissions j).touched := by
  rcases rest_of_other_mission twoMissions {} overlapping (i := true) (a := "chief_ads_officer")
    (by decide +kernel) (by decide +kernel) with ⟨j, hne, htouched, -⟩
  exact ⟨j, hne, htouched⟩

/-- The same, and then the first mission to its end. -/
def allEnded : List (Bool × Utc) := overlapping ++ List.replicate 2 (true, noon)

/-- The copywriter is at rest, and an agent nobody has started has no slot. -/
theorem quiescence_all_ended :
    (∃ e, (afterPublishes twoMissions {} allEnded).store.agentTaskState "copywriter" = some e ∧
      e.operationalState = "rest" ∧ e.taskId = none ∧ e.progress = 0) ∧
    (afterPublishes twoMissions {} allEnded).store.agentTaskState "risk_guardian" = none := by
  rcases quiescence twoMissions {} allEnded (by decide +kernel) with ⟨hrest, hother⟩
  exact ⟨hrest false "copywriter" (by decide +kernel), hother "risk_guardian" (by decide +kernel)⟩

end AdsHub
