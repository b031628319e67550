import Mathlib.Data.List.Chain
import AdsHub.MissionTrace
import AdsHub.Events.System

/-!
# AdsHub.Handoffs — missions along the handoffs of `build_team`

`build_team` gives every agent the list of those it can hand over to. The runner of the
SDK starts the chief, and after a handoff the agent that was handed over to; it starts
nobody else. So the agents of a mission are a chain of handoffs from the chief.

The handoffs are a tree of height three: along a handoff the height falls
(`height_lt`), and nobody is handed over to by two agents (`handoff_unique`). Hence a
mission starts at most four agents, none of them twice, its last agent determines them
all, and it publishes at most twelve times (`handoff_mission`).
-/

namespace AdsHub

/-! ## Chains of handoffs -/

/-- The `handoffs` of an agent, by the ids of the team. -/
def handoffs (id : String) : List String :=
  if id = "chief_ads_officer" then
    ["marketing_strategist", "product_portfolio", "performance_scientist", "budget_allocator",
     "meta_media_buyer", "tiktok_media_buyer", "risk_guardian", "ads_operations"]
  else if id = "marketing_strategist" then
    ["market_intelligence", "consumer_intelligence", "creative_director"]
  else if id = "creative_director" then ["copywriter"]
  else if id = "performance_scientist" then
    ["marketing_science", "attribution_specialist", "experiment_scientist"]
  else []

/-- A chain of handoffs from the chief, or nothing at all. -/
structure HandoffChain (ids : List String) : Prop where
  chief : ∀ id ∈ ids.head?, id = "chief_ads_officer"
  handed : ids.IsChain (fun a b => b ∈ handoffs a)

/-- How many handoffs can follow. -/
def height (id : String) : ℕ :=
  if id = "chief_ads_officer" then 3
  else if id = "marketing_strategist" then 2
  else if id = "creative_director" ∨ id = "performance_scientist" then 1
  else 0

/-- A handoff goes strictly down, so there is no cycle. -/
theorem height_lt {a b : String} (h : b ∈ handoffs a) : height b < height a := by
  unfold handoffs at h
  split at h
  · next ha =>
    subst ha
    revert b
    decide
  · split at h
    · next ha =>
      subst ha
      revert b
      decide
    · split at h
      · next ha =>
        subst ha
        revert b
        decide
      · split at h
        · next ha =>
          subst ha
          revert b
          decide
        · cases h

/-- Who hands over. -/
theorem mem_handoffs {a b : String} (h : b ∈ handoffs a) :
    a ∈ ["chief_ads_officer", "marketing_strategist", "creative_director",
      "performance_scientist"] := by
  unfold handoffs at h
  split at h
  · next ha => simp [ha]
  · split at h
    · next ha => simp [ha]
    · split at h
      · next ha => simp [ha]
      · split at h
        · next ha => simp [ha]
        · cases h

/-- Nobody is handed over to by two agents. -/
theorem handoff_unique {a a' b : String} (h : b ∈ handoffs a) (h' : b ∈ handoffs a') : a = a' := by
  have hall : ∀ a ∈ ["chief_ads_officer", "marketing_strategist", "creative_director",
      "performance_scientist"], ∀ a' ∈ ["chief_ads_officer", "marketing_strategist",
      "creative_director", "performance_scientist"], ∀ b ∈ handoffs a, b ∈ handoffs a' → a = a' := by
    decide
  exact hall a (mem_handoffs h) a' (mem_handoffs h') b h h'

/-- Nobody hands back to the chief. -/
theorem chief_not_handed (a : String) : "chief_ads_officer" ∉ handoffs a := by
  intro h
  have hlt := height_lt h
  have hall : ∀ a ∈ ["chief_ads_officer", "marketing_strategist", "creative_director",
      "performance_scientist"], height a ≤ 3 := by
    decide
  have hle := hall a (mem_handoffs h)
  have hchief : height "chief_ads_officer" = 3 := rfl
  omega

/-- The chain of handoffs to an agent, by going back to who has handed over. -/
def chainBack : ℕ → String → List String
  | 0, id => [id]
  | n + 1, id =>
    match ("chief_ads_officer" :: specialistIds).find? (fun a => id ∈ handoffs a) with
    | some a => chainBack n a ++ [id]
    | none => [id]

def chainTo (id : String) : List String := chainBack 3 id

namespace HandoffChain

variable {ids : List String}

/-- The heights fall along a chain. -/
theorem pairwise (h : HandoffChain ids) : ids.Pairwise (fun a b => height b < height a) := by
  have hchain : (ids.map height).IsChain (fun m n => n < m) := by
    rw [List.isChain_map]
    exact h.handed.imp (fun _ _ => height_lt)
  rw [← List.pairwise_map (f := height) (R := fun m n => n < m), ← List.isChain_iff_pairwise]
  exact hchain

/-- No agent comes twice in a chain of handoffs. -/
theorem nodup (h : HandoffChain ids) : ids.Nodup := by
  refine h.pairwise.imp ?_
  rintro a b hlt rfl
  exact lt_irrefl _ hlt

/-- A chain from an agent is no longer than the agent's height. -/
theorem length_le_height {a : String} {rest : List String}
    (h : (a :: rest).IsChain (fun a b => b ∈ handoffs a)) : rest.length ≤ height a := by
  induction rest generalizing a with
  | nil => exact Nat.zero_le _
  | cons b rest ih =>
    rw [List.isChain_cons_cons] at h
    have hrest := ih h.2
    have hlt := height_lt h.1
    rw [List.length_cons]
    omega

/-- At most four agents work on a mission. -/
theorem length_le (h : HandoffChain ids) : ids.length ≤ 4 := by
  cases ids with
  | nil => exact Nat.zero_le _
  | cons a rest =>
    have hchief := h.chief a rfl
    have hrest := length_le_height h.handed
    rw [hchief] at hrest
    have hthree : height "chief_ads_officer" = 3 := rfl
    rw [List.length_cons]
    omega

/-- A chain without its last agent is a chain. -/
theorem init {a : String} (h : HandoffChain (ids ++ [a])) : HandoffChain ids where
  chief := by
    intro id hid
    refine h.chief id ?_
    rw [List.head?_append, Option.mem_def.1 hid]
    rfl
  handed := (List.isChain_append.1 h.handed).1

/-- The last agent is the chief, or the one before it has handed over. -/
theorem last {a : String} (h : HandoffChain (ids ++ [a])) :
    ids = [] ∧ a = "chief_ads_officer" ∨ ∃ b, ids.getLast? = some b ∧ a ∈ handoffs b := by
  cases hlast : ids.getLast? with
  | none =>
    rw [List.getLast?_eq_none_iff] at hlast
    rw [hlast] at h
    exact Or.inl ⟨hlast, h.chief a rfl⟩
  | some b => exact Or.inr ⟨b, rfl, (List.isChain_append.1 h.handed).2.2 b hlast a rfl⟩

/-- The last agent determines the chain. -/
theorem unique {ids' : List String} (h : HandoffChain ids) (h' : HandoffChain ids')
    (hlast : ids.getLast? = ids'.getLast?) : ids = ids' := by
  induction ids using List.reverseRecOn generalizing ids' with
  | nil =>
    rw [List.getLast?_nil, eq_comm, List.getLast?_eq_none_iff] at hlast
    exact hlast.symm
  | append_singleton ids a ih =>
    rcases List.eq_nil_or_concat ids' with rfl | ⟨rest, b, rfl⟩
    · rw [List.getLast?_concat] at hlast
      cases hlast
    · rw [List.concat_eq_append] at h' hlast ⊢
      rw [List.getLast?_concat, List.getLast?_concat, Option.some.injEq] at hlast
      subst hlast
      have hsame : ids.getLast? = rest.getLast? := by
        rcases h.last with ⟨rfl, hchief⟩ | ⟨b, hb, hhanded⟩
        · rcases h'.last with ⟨rfl, -⟩ | ⟨b', -, hhanded'⟩
          · rfl
          · rw [hchief] at hhanded'
            exact absurd hhanded' (chief_not_handed b')
        · rcases h'.last with ⟨-, hchief⟩ | ⟨b', hb', hhanded'⟩
          · rw [hchief] at hhanded
            exact absurd hhanded (chief_not_handed b)
          · rw [hb, hb', handoff_unique hhanded hhanded']
      rw [ih h.init h'.init hsame]

/-- Whoever a chain ends with is in the team. -/
theorem mem_team (h : HandoffChain ids) {last : String} (hlast : ids.getLast? = some last) :
    last ∈ "chief_ads_officer" :: specialistIds := by
  obtain ⟨before, rfl⟩ := List.getLast?_eq_some_iff.1 hlast
  rcases h.last with ⟨-, hchief⟩ | ⟨b, -, hhanded⟩
  · rw [hchief]
    exact List.mem_cons_self
  · have hall : ∀ b ∈ ["chief_ads_officer", "marketing_strategist", "creative_director",
        "performance_scientist"], ∀ a ∈ handoffs b, a ∈ specialistIds := by
      decide
    exact List.mem_cons_of_mem _ (hall b (mem_handoffs hhanded) last hhanded)

/-- Every agent of the team has its chain. -/
theorem chainTo_spec : ∀ id ∈ "chief_ads_officer" :: specialistIds,
    (chainTo id).head? = some "chief_ads_officer" ∧
      (chainTo id).IsChain (fun a b => b ∈ handoffs a) ∧ (chainTo id).getLast? = some id := by
  decide +kernel

/-- Every member of the team is reached by a chain. -/
theorem of_chainTo {id : String} (h : id ∈ "chief_ads_officer" :: specialistIds) :
    HandoffChain (chainTo id) := by
  obtain ⟨hhead, hhanded, -⟩ := chainTo_spec id h
  refine ⟨?_, hhanded⟩
  intro a ha
  rw [hhead] at ha
  exact (Option.some.inj ha).symm

/-- The chain to an agent is unique: the handoffs form a tree. -/
theorem eq_chainTo (h : HandoffChain ids) {last : String} (hlast : ids.getLast? = some last) :
    ids = chainTo last := by
  have hmem := h.mem_team hlast
  exact h.unique (of_chainTo hmem) (hlast.trans (chainTo_spec last hmem).2.2.symm)

end HandoffChain

/-! ## The agents of a mission -/

/-- The agents that the calls start, in order. -/
def startedAgents (calls : List HookCall) : List Agent :=
  calls.filterMap fun
    | .onAgentStart agent => some agent
    | .onHandoff _ _ => none

/-- The runner starts agents along a chain of handoffs. -/
def FollowsHandoffs (team : RuntimeTeam) (calls : List HookCall) : Prop :=
  ∃ ids, HandoffChain ids ∧
    List.Forall₂ (fun id agent => (id, agent) ∈ team.agents) ids (startedAgents calls)

section

variable {posts : List AgentPost} {team : RuntimeTeam} {id : String} {agent : Agent}

/-- A team member's id is never empty. -/
theorem buildTeam_id_ne (hteam : buildTeam posts = some team) (h : (id, agent) ∈ team.agents) :
    id ≠ "" := by
  have hids : team.agents.map Prod.fst = "chief_ads_officer" :: specialistIds := by
    unfold buildTeam at hteam
    split at hteam
    · next specialists chief hspecialists hchief =>
      cases hteam
      rw [List.map_cons, registryAgents_ids hspecialists]
    · cases hteam
  have hmem : id ∈ team.agents.map Prod.fst := List.mem_map_of_mem h
  rw [hids] at hmem
  rintro rfl
  revert hmem
  decide

/-- Of distinct names, each is found with its entry. -/
theorem find_entry (hnames : team.DistinctNames) (h : (id, agent) ∈ team.agents) :
    team.agents.find? (fun entry => entry.2.name = agent.name) = some (id, agent) := by
  unfold RuntimeTeam.DistinctNames at hnames
  generalize team.agents = agents at hnames h ⊢
  induction agents with
  | nil => cases h
  | cons entry agents ih =>
    rw [List.map_cons, List.nodup_cons] at hnames
    rcases List.mem_cons.1 h with rfl | h
    · rw [List.find?_cons_of_pos (by simp)]
    · have hne : entry.2.name ≠ agent.name := by
        intro hname
        rw [hname] at hnames
        exact hnames.1 (List.mem_map_of_mem (f := fun entry : String × Agent => entry.2.name) h)
      rw [List.find?_cons_of_neg (by simpa using hne)]
      exact ih hnames.2 h

/-- With distinct names a member is found back by its name. -/
theorem idOf_entry (hteam : buildTeam posts = some team) (hnames : team.DistinctNames)
    (h : (id, agent) ∈ team.agents) : team.idOf agent = some id := by
  rw [RuntimeTeam.idOf, find_entry hnames h]
  exact truthy_eq_some.2 ⟨rfl, buildTeam_id_ne hteam h⟩

/-- The ids started are those of the agents the hooks name. -/
theorem started_eq (calls : List HookCall) :
    team.started calls = (startedAgents calls).filterMap team.idOf := by
  unfold RuntimeTeam.started startedAgents
  rw [List.filterMap_filterMap]
  congr 1
  funext call
  cases call <;> rfl

/-- The known agents of such a runner are a chain of handoffs. -/
theorem FollowsHandoffs.chain {calls : List HookCall} (hteam : buildTeam posts = some team)
    (hnames : team.DistinctNames) (h : FollowsHandoffs team calls) :
    HandoffChain (team.started calls) := by
  obtain ⟨ids, hchain, hagents⟩ := h
  have hids : (startedAgents calls).filterMap team.idOf = ids := by
    clear hchain
    generalize startedAgents calls = agents at hagents ⊢
    induction hagents with
    | nil => rfl
    | @cons id agent ids agents hentry _ ih =>
      rw [List.filterMap_cons_some (idOf_entry hteam hnames hentry), ih]
  rw [started_eq, hids]
  exact hchain

end

/-! ## What is published -/

namespace Mission

variable {mission : Mission}

/-- A start publishes the new agent, and the waiting of the one before it. -/
theorem length_startTrace (request : MissionRequest) {current : Option String} {next : String}
    (h : ∀ c ∈ current, c ≠ next) :
    (startTrace request current next).length = if current.isSome then 2 else 1 := by
  unfold startTrace
  cases current with
  | none => rfl
  | some c => simp [Option.filter, h c rfl]

/-- The first start publishes once, every further one twice. -/
theorem length_publishedBy (hnames : mission.team.DistinctNames) {done : List HookCall}
    (h : (mission.team.started done).Nodup) :
    (mission.publishedBy done).length = 2 * (mission.team.started done).length - 1 := by
  induction done using List.reverseRecOn with
  | nil => rfl
  | append_singleton done call ih =>
    rw [← starts_eq_started done hnames] at ih
    rw [← starts_eq_started (done ++ [call]) hnames, starts_concat] at h ⊢
    cases hknown : knownStart (agentIdByName mission.team) call with
    | none =>
      rw [hknown, Option.toList_none, List.append_nil] at h
      rw [publishedBy_unknown hknown, Option.toList_none, List.append_nil]
      exact ih h
    | some next =>
      rw [hknown, Option.toList_some, List.nodup_append] at h
      have hnew : ∀ c ∈ (starts (agentIdByName mission.team) done).getLast?, c ≠ next := by
        intro c hc
        exact h.2.2 c (List.mem_of_getLast? hc) next (List.mem_singleton_self next)
      rw [publishedBy_known hknown, List.length_append, length_startTrace mission.request hnew,
        ih h.1, Option.toList_some, List.length_append, List.length_singleton]
      cases hlast : (starts (agentIdByName mission.team) done).getLast? with
      | none =>
        rw [List.getLast?_eq_none_iff.1 hlast]
        rfl
      | some c =>
        have hpos := List.length_pos_of_mem (List.mem_of_getLast? hlast)
        rw [Option.isSome_some, if_pos rfl]
        omega

theorem eraseDups_nodup {l : List String} (h : l.Nodup) : l.eraseDups = l := by
  induction l using List.reverseRecOn with
  | nil => rfl
  | append_singleton l a ih =>
    rw [List.nodup_append] at h
    have hnew : a ∉ l := fun ha => h.2.2 a ha a (List.mem_singleton_self a) rfl
    rw [eraseDups_concat, if_neg hnew, ih h.1]

/-- What holds of a mission whose runner follows the handoffs. -/
structure AlongHandoffs (mission : Mission) : Prop where
  chain : HandoffChain mission.started
  touched : mission.touched = mission.started
  distinct : mission.started.Nodup
  depth : mission.started.length ≤ 4
  publishes : mission.started ≠ [] → mission.outcome ≠ .cancelled →
    mission.published.length = 3 * mission.started.length
  few : mission.published.length ≤ 12
  determined : ∀ last, mission.started.getLast? = some last → mission.started = chainTo last

/-- An ending publishes at most one state before the rests, and exactly one unless the
mission is cancelled. -/
theorem length_endTrace (request : MissionRequest) (current : Option String) (outcome : Outcome) :
    (endTrace request current outcome).length ≤ 1 ∧
      (current.isSome → outcome ≠ .cancelled → (endTrace request current outcome).length = 1) := by
  cases outcome with
  | returned finalOutput lastAgent => cases current <;> simp [endTrace]
  | raised => cases current <;> simp [endTrace]
  | cancelled => simp [endTrace]

/-- Of distinct agents, each publishes twice on the way and once when it is cleared, the
first one once less; one more publish is the end of the mission. -/
theorem length_published (hnames : mission.team.DistinctNames) (hnodup : mission.started.Nodup) :
    mission.published.length = (2 * mission.started.length - 1) +
      (endTrace mission.request mission.started.getLast? mission.outcome).length +
      mission.started.length := by
  rw [published_eq_trace hnames, List.length_append, List.length_append,
    length_publishedBy hnames hnodup, List.length_map, List.length_reverse, eraseDups_nodup hnodup]
  rfl

/-- A mission publishes at most twelve states. -/
theorem length_published_le (hnames : mission.team.DistinctNames)
    (hchain : HandoffChain mission.started) : mission.published.length ≤ 12 := by
  have hdepth := hchain.length_le
  have hend :=
    (length_endTrace mission.request mission.started.getLast? mission.outcome).1
  rw [length_published hnames hchain.nodup]
  omega

/-- Every mission of a runner that follows the handoffs, however it ends: the agents that it
touches are a chain of handoffs from the chief, at most four and none of them twice, the
last one determines the others, and there are three publishes for each agent. -/
theorem handoff_mission (posts : List AgentPost) (mission : Mission)
    (hteam : buildTeam posts = some mission.team) (hnames : mission.team.DistinctNames)
    (h : FollowsHandoffs mission.team mission.calls) : mission.AlongHandoffs := by
  have hchain : HandoffChain mission.started := h.chain hteam hnames
  refine ⟨hchain, ?_, hchain.nodup, hchain.length_le, ?_, length_published_le hnames hchain,
    fun _ => hchain.eq_chainTo⟩
  · rw [touched_eq hnames, eraseDups_nodup hchain.nodup]
  · intro hne houtcome
    have hsome : mission.started.getLast?.isSome = true := List.getLast?_isSome.2 hne
    have hpos := List.length_pos_iff.2 hne
    rw [length_published hnames hchain.nodup,
      (length_endTrace mission.request mission.started.getLast? mission.outcome).2 hsome houtcome]
    omega

end Mission

/-- The team of that registry. -/
def fullTeam : RuntimeTeam := (buildTeam fullRegistry).get (by decide +kernel)

/-- A runner that hands over down to the copywriter. -/
def copyMission : Mission where
  request := { missionId := "m1", objective := "write" }
  team := fullTeam
  runAgent := fun chief _ _ =>
    ([.onAgentStart chief, .onHandoff chief ⟨"marketing_strategist"⟩,
      .onAgentStart ⟨"marketing_strategist"⟩, .onAgentStart ⟨"creative_director"⟩,
      .onAgentStart ⟨"copywriter"⟩], .returned (.str "done") ⟨"copywriter"⟩)

theorem buildTeam_full : buildTeam fullRegistry = some fullTeam := by
  have hsome : (buildTeam fullRegistry).isSome = true := by decide +kernel
  exact (Option.some_get hsome).symm

theorem copyMission_follows :
    fullTeam.DistinctNames ∧ FollowsHandoffs fullTeam copyMission.calls := by
  have hnames : fullTeam.DistinctNames := by decide +kernel
  have hentries : ∀ p ∈ (chainTo "copywriter").zip (startedAgents copyMission.calls),
      p ∈ fullTeam.agents := by
    decide +kernel
  refine ⟨hnames, chainTo "copywriter", HandoffChain.of_chainTo (by decide), ?_⟩
  exact List.forall₂_iff_zip.2 ⟨by decide +kernel, fun hmem => hentries _ hmem⟩

/-- It is as long as a mission can be. -/
theorem handoff_mission_copy :
    copyMission.touched = chainTo "copywriter" ∧ copyMission.published.length = 12 := by
  have halong := Mission.handoff_mission fullRegistry copyMission buildTeam_full
    copyMission_follows.1 copyMission_follows.2
  have hstarted : copyMission.started = chainTo "copywriter" :=
    halong.determined "copywriter" (by decide +kernel)
  refine ⟨halong.touched.trans hstarted, ?_⟩
  rw [halong.publishes, hstarted]
  · decide +kernel
  · rw [hstarted]
    decide +kernel
  · intro hcancelled
    cases hcancelled

end AdsHub
