import AdsHub.Http
import AdsHub.Lib.Board
import AdsHub.Lib.Text

/-!
# AdsHub.ModelRouter — the model routes of `app/autonomy.py`

`evaluate_model_route` picks the providers of a route from what the vault says about
them. The entries it is given are first put into a dictionary under their lower-cased
names, where a later entry replaces an earlier one, and only then it is asked which
of them is eligible for the route. So an entry for one vault level can hide an
eligible one for the other (`ready_entry_hidden`), and `entries_count_iff` says when
the answer is the one that all entries together give. `get_model_route` answers from
the policy alone; `evaluate_refines_get` says how the first route lies within it.

`lower` is `str.lower`; nothing depends on what it does to a name. The policy is
taken with the types that its file has.
-/

namespace AdsHub

/-- `Literal[1, 2]`. -/
inductive VaultLevel where
  | one
  | two
deriving DecidableEq

def VaultLevel.toNat : VaultLevel → ℕ
  | .one => 1
  | .two => 2

/-- `ProviderReadiness`. -/
structure ProviderReadiness where
  provider : String
  vaultLevel : VaultLevel
  configured : Bool
  validated : Bool
  enabled : Bool := true
  provider_length : 1 ≤ provider.length ∧ provider.length ≤ 80 := by decide

/-- `RouteEvaluationIn`. -/
structure RouteEvaluationIn where
  systemPrimary : Bool := false
  allowPaid : Bool := false
  providers : List ProviderReadiness := []

/-- A record of the policy or of a route: the provider, and its other keys. -/
structure ModelRecord where
  provider : String
  other : List (String × Json)

/-- `model_policy()`, as far as the routes read it. -/
structure ModelPolicy where
  mode : String
  systemPrimary : ModelRecord
  agentProviderOrder : List String
  paidAuxiliariesEnabled : Bool

/-- What a route answers. -/
structure ModelRoute where
  mode : String
  selected : ModelRecord
  fallbacks : List ModelRecord
  source : String

/-- `_expected_level`. -/
def expectedLevel (systemPrimary : Bool) : VaultLevel := if systemPrimary then .one else .two

/-- `_eligible`. -/
def eligible (readiness : ProviderReadiness) (level : VaultLevel) : Bool :=
  readiness.vaultLevel = level && readiness.configured && readiness.validated && readiness.enabled

/-- `{'provider': p, 'role': 'agent-free'}`. -/
def agentFree (provider : String) : ModelRecord := ⟨provider, [("role", .str "agent-free")]⟩

/-- `get_model_route`. -/
def getModelRoute (policy : ModelPolicy) (systemPrimary : Bool := false)
    (allowPaid : Bool := false) : Except (HttpException Json) ModelRoute :=
  if allowPaid && !policy.paidAuxiliariesEnabled then
    .error ⟨409, .str "paid auxiliary routes are disabled by FREE-FIRST policy"⟩
  else if systemPrimary then
    .ok
      { mode := policy.mode
        selected := policy.systemPrimary
        fallbacks := []
        source := "policy-only" }
  else
    match policy.agentProviderOrder with
    | [] => .error ⟨503, .str "no free agent provider route configured"⟩
    | first :: rest =>
      .ok
        { mode := policy.mode
          selected := agentFree first
          fallbacks := rest.map agentFree
          source := "policy-only" }

variable (lower : String → String)

/-- `{item.provider.lower(): item for item in data.providers}`, read at a key: the
last entry for it stays. -/
def readinessOf (providers : List ProviderReadiness) (provider : String) :
    Option ProviderReadiness :=
  Board.lastFor (fun item : ProviderReadiness => lower item.provider) provider providers

/-- The provider is in the dictionary, and its entry there is eligible. -/
def chosen (providers : List ProviderReadiness) (level : VaultLevel) (provider : String) : Bool :=
  match readinessOf lower providers provider with
  | some item => eligible item level
  | none => false

/-- `evaluate_model_route`. -/
def evaluateModelRoute (policy : ModelPolicy) (data : RouteEvaluationIn) :
    Except (HttpException Json) ModelRoute :=
  if data.allowPaid && !policy.paidAuxiliariesEnabled then
    .error ⟨409, .str "paid auxiliary routes are disabled by FREE-FIRST policy"⟩
  else
    let level := expectedLevel data.systemPrimary
    if data.systemPrimary then
      let provider := lower policy.systemPrimary.provider
      -- the primary has no fallback
      if chosen lower data.providers level provider then
        .ok
          { mode := policy.mode
            selected := policy.systemPrimary
            fallbacks := []
            source := "vault-readiness" }
      else
        .error ⟨503, .obj
          [("reason", .str "system_primary_provider_not_ready"),
           ("provider", .str provider),
           ("required_vault_level", .num level.toNat)]⟩
    else
      let ordered := policy.agentProviderOrder.map lower
      -- the order is that of the policy, not that of the readiness list
      match ordered.filter (chosen lower data.providers level) with
      | [] =>
        .error ⟨503, .obj
          [("reason", .str "no_ready_free_agent_provider"),
           ("required_vault_level", .num level.toNat)]⟩
      | first :: rest =>
        .ok
          { mode := policy.mode
            selected := agentFree first
            fallbacks := rest.map agentFree
            source := "vault-readiness" }

/-- The providers of a route, the selected one first; none if there is no route. -/
def routeProviders {ε : Type} : Except ε ModelRoute → List String
  | .ok route => (route.selected :: route.fallbacks).map ModelRecord.provider
  | .error _ => []

/-- The agents' route goes over the providers in their order. -/
theorem routeProviders_agents {ε : Type} (e : ε) (mode source : String) (providers : List String) :
    routeProviders (match providers with
      | [] => .error e
      | first :: rest => .ok ⟨mode, agentFree first, rest.map agentFree, source⟩) = providers := by
  cases providers with
  | nil => rfl
  | cons first rest => simp [routeProviders, agentFree, Function.comp_def]

/-! ## What an answer depends on -/

/-- The request is turned away before its entries are read. -/
def Refused (policy : ModelPolicy) (data : RouteEvaluationIn) : Prop :=
  data.allowPaid = true ∧ policy.paidAuxiliariesEnabled = false

/-- The providers that a request asks about. -/
def asked (policy : ModelPolicy) (data : RouteEvaluationIn) : List String :=
  if data.systemPrimary then [lower policy.systemPrimary.provider]
  else policy.agentProviderOrder.map lower

variable {lower} {policy : ModelPolicy} {data : RouteEvaluationIn}

theorem guard_of_not_refused (h : ¬ Refused policy data) :
    (data.allowPaid && !policy.paidAuxiliariesEnabled) = false := by
  unfold Refused at h
  cases hpaid : data.allowPaid <;> cases henabled : policy.paidAuxiliariesEnabled <;> simp_all

/-- A refused request is answered 409 before anything is read. -/
theorem evaluate_refused (h : Refused policy data) :
    evaluateModelRoute lower policy data =
      .error ⟨409, .str "paid auxiliary routes are disabled by FREE-FIRST policy"⟩ := by
  simp [evaluateModelRoute, h.1, h.2]

/-- The primary route exists when the primary's last entry is eligible at level one. -/
theorem evaluate_primary (h : ¬ Refused policy data) (hprimary : data.systemPrimary = true) :
    (∃ route, evaluateModelRoute lower policy data = .ok route) ↔
      chosen lower data.providers .one (lower policy.systemPrimary.provider) = true := by
  simp only [evaluateModelRoute, guard_of_not_refused h, hprimary, expectedLevel, if_true,
    Bool.false_eq_true, if_false]
  split
  · next hchosen => exact ⟨fun _ => hchosen, fun _ => ⟨_, rfl⟩⟩
  · next hchosen =>
    constructor
    · rintro ⟨route, hroute⟩
      cases hroute
    · intro h'
      exact absurd h' hchosen

/-- The agents' route is the policy's order, filtered. -/
theorem evaluate_agents (h : ¬ Refused policy data) (hagents : data.systemPrimary = false) :
    routeProviders (evaluateModelRoute lower policy data) =
      (policy.agentProviderOrder.map lower).filter (chosen lower data.providers .two) := by
  simp only [evaluateModelRoute, guard_of_not_refused h, hagents, expectedLevel,
    Bool.false_eq_true, if_false]
  exact routeProviders_agents _ _ _ _

/-- The answer is fixed by which of the providers asked about are chosen. -/
theorem evaluate_congr {providers : List ProviderReadiness}
    (h : ∀ p ∈ asked lower policy data,
      chosen lower providers (expectedLevel data.systemPrimary) p =
        chosen lower data.providers (expectedLevel data.systemPrimary) p) :
    evaluateModelRoute lower policy { data with providers := providers } =
      evaluateModelRoute lower policy data := by
  unfold evaluateModelRoute
  unfold asked at h
  cases hprimary : data.systemPrimary with
  | true =>
    rw [hprimary] at h
    rw [if_pos rfl, List.forall_mem_singleton] at h
    simp only [h, if_true]
  | false =>
    rw [hprimary] at h
    rw [if_neg Bool.false_ne_true] at h
    simp only [List.filter_congr h, Bool.false_eq_true, if_false]

/-! ## All entries of a provider -/

/-- Some entry for the provider is eligible. -/
def Ready (lower : String → String) (providers : List ProviderReadiness) (level : VaultLevel)
    (provider : String) : Prop :=
  ∃ item ∈ providers, lower item.provider = provider ∧ eligible item level = true

instance (providers : List ProviderReadiness) (level : VaultLevel) (provider : String) :
    Decidable (Ready lower providers level provider) :=
  inferInstanceAs (Decidable (∃ item ∈ providers, _ ∧ _))

/-- Some entry for the provider is not. -/
def Unready (lower : String → String) (providers : List ProviderReadiness) (level : VaultLevel)
    (provider : String) : Prop :=
  ∃ item ∈ providers, lower item.provider = provider ∧ eligible item level = false

/-- Of several entries with one lowered name the last one is read. -/
theorem readinessOf_isSome (lower : String → String) {providers : List ProviderReadiness}
    {item : ProviderReadiness} (h : item ∈ providers) :
    ∃ last ∈ providers, readinessOf lower providers (lower item.provider) = some last ∧
      lower last.provider = lower item.provider := by
  cases hlast : readinessOf lower providers (lower item.provider) with
  | some last =>
    obtain ⟨hmem, hkey⟩ := Board.mem_of_lastFor hlast
    exact ⟨last, hmem, rfl, hkey⟩
  | none => exact absurd hlast (Board.lastFor_ne_none h)

/-- A chosen provider has an eligible entry. -/
theorem ready_of_chosen {providers : List ProviderReadiness} {level : VaultLevel} {p : String}
    (h : chosen lower providers level p = true) : Ready lower providers level p := by
  unfold chosen at h
  split at h
  · next item hitem =>
    obtain ⟨hmem, hkey⟩ := Board.mem_of_lastFor hitem
    exact ⟨item, hmem, hkey, h⟩
  · cases h

/-- Unless a provider has entries of both kinds, its last entry stands for all. -/
theorem chosen_iff_ready {providers : List ProviderReadiness} {level : VaultLevel} {p : String}
    (h : ¬ (Ready lower providers level p ∧ Unready lower providers level p)) :
    chosen lower providers level p = true ↔ Ready lower providers level p := by
  constructor
  · exact ready_of_chosen
  · intro hready
    unfold chosen
    rcases hready with ⟨item, hitem, rfl, heligible⟩
    -- the entry that decides is the last one; if it were not eligible, both kinds would occur
    obtain ⟨last, hlast, hfind, hkey⟩ := readinessOf_isSome lower hitem
    simp only [hfind]
    cases hlevel : eligible last level with
    | true => rfl
    | false => exact absurd ⟨⟨item, hitem, rfl, heligible⟩, last, hlast, hkey, hlevel⟩ h

/-- The last entry decides, wherever it stood in another order of the entries. -/
theorem exists_perm_chosen (lower : String → String) {providers : List ProviderReadiness}
    {item : ProviderReadiness} (h : item ∈ providers) (level : VaultLevel) :
    ∃ providers', providers'.Perm providers ∧
      chosen lower providers' level (lower item.provider) = eligible item level := by
  obtain ⟨before, after, rfl⟩ := List.append_of_mem h
  -- the entry is moved to the end
  refine ⟨before ++ after ++ [item], ?_, ?_⟩
  · rw [List.append_assoc]
    exact (List.perm_append_comm.trans (List.Perm.refl _)).append_left before
  · have hlast : readinessOf lower (before ++ after ++ [item]) (lower item.provider) = some item := by
      rw [readinessOf, Board.lastFor_concat, if_pos rfl]
    simp only [chosen, hlast]

/-! ## When the order does not matter -/

variable (lower policy data)

/-- The entries count, not their order: a route for the system succeeds exactly if the
primary provider has a ready entry of level 1; a route for the agents has the
providers of the policy's order that have a ready entry of level 2; and no
permutation of the entries changes the answer. A request that is turned away for
`allow_paid` gets neither kind of route. -/
structure EntriesCount : Prop where
  primary : ¬ Refused policy data → data.systemPrimary = true →
    ((∃ route, evaluateModelRoute lower policy data = .ok route) ↔
      ∃ item ∈ data.providers, lower item.provider = lower policy.systemPrimary.provider ∧
        item.vaultLevel = .one ∧ item.configured ∧ item.validated ∧ item.enabled)
  agents : ¬ Refused policy data → data.systemPrimary = false →
    routeProviders (evaluateModelRoute lower policy data) =
      (policy.agentProviderOrder.map lower).filter (fun p =>
        ∃ item ∈ data.providers, lower item.provider = p ∧
          item.vaultLevel = .two ∧ item.configured ∧ item.validated ∧ item.enabled)
  perm : ∀ providers, providers.Perm data.providers →
    evaluateModelRoute lower policy { data with providers := providers } =
      evaluateModelRoute lower policy data

/-- No provider that is asked about has both an eligible entry and one that is not. -/
def Unmixed : Prop :=
  ∀ p ∈ asked lower policy data,
    ¬ (Ready lower data.providers (expectedLevel data.systemPrimary) p ∧
      Unready lower data.providers (expectedLevel data.systemPrimary) p)

variable {lower policy data}

theorem ready_iff {providers : List ProviderReadiness} {level : VaultLevel} {p : String} :
    Ready lower providers level p ↔ ∃ item ∈ providers, lower item.provider = p ∧
      item.vaultLevel = level ∧ item.configured ∧ item.validated ∧ item.enabled := by
  simp only [Ready, eligible, Bool.and_eq_true, decide_eq_true_eq, and_assoc]

/-- Without mixed entries the order of the list does not matter. -/
theorem chosen_perm (h : Unmixed lower policy data) {providers : List ProviderReadiness}
    (hperm : providers.Perm data.providers) {p : String} (hp : p ∈ asked lower policy data) :
    chosen lower providers (expectedLevel data.systemPrimary) p =
      chosen lower data.providers (expectedLevel data.systemPrimary) p := by
  have hready : Ready lower providers (expectedLevel data.systemPrimary) p ↔
      Ready lower data.providers (expectedLevel data.systemPrimary) p := by
    simp only [Ready, hperm.mem_iff]
  have hunready : Unready lower providers (expectedLevel data.systemPrimary) p ↔
      Unready lower data.providers (expectedLevel data.systemPrimary) p := by
    simp only [Unready, hperm.mem_iff]
  have hmixed := h p hp
  rw [Bool.eq_iff_iff, chosen_iff_ready hmixed, chosen_iff_ready (by rwa [hready, hunready]),
    hready]

/-- Without mixed entries every eligible entry counts. -/
theorem entriesCount_of_unmixed (h : Unmixed lower policy data) :
    EntriesCount lower policy data where
  primary := by
    intro hrefused hprimary
    have hp := h (lower policy.systemPrimary.provider)
    simp only [asked, hprimary, if_true, List.mem_singleton, expectedLevel, forall_const] at hp
    rw [evaluate_primary hrefused hprimary, chosen_iff_ready hp, ready_iff]
  agents := by
    intro hrefused hagents
    rw [evaluate_agents hrefused hagents]
    refine List.filter_congr ?_
    intro p hp
    have hmixed := h p
    simp only [asked, hagents, Bool.false_eq_true, if_false, expectedLevel] at hmixed
    rw [Bool.eq_iff_iff, chosen_iff_ready (hmixed hp), ready_iff, decide_eq_true_iff]
  perm := fun _ hperm => evaluate_congr (fun _ hp => chosen_perm h hperm hp)

/-- Two orders in which one provider's answer differs give different answers. -/
theorem evaluate_ne_of_chosen {data' : RouteEvaluationIn} (hrefused : ¬ Refused policy data)
    (hrefused' : ¬ Refused policy data') (hsystem : data'.systemPrimary = data.systemPrimary)
    {p : String} (hp : p ∈ asked lower policy data)
    (h : chosen lower data.providers (expectedLevel data.systemPrimary) p = true)
    (h' : chosen lower data'.providers (expectedLevel data.systemPrimary) p = false) :
    evaluateModelRoute lower policy data' ≠ evaluateModelRoute lower policy data := by
  intro heq
  cases hprimary : data.systemPrimary with
  | true =>
    simp only [asked, hprimary, if_true, List.mem_singleton] at hp
    simp only [hprimary, expectedLevel, if_true, hp] at h h'
    -- for the system only the primary provider is asked about
    have hroute := (evaluate_primary hrefused hprimary).2 h
    rw [← heq, evaluate_primary hrefused' (hsystem.trans hprimary), h'] at hroute
    cases hroute
  | false =>
    simp only [asked, hprimary, Bool.false_eq_true, if_false] at hp
    simp only [hprimary, expectedLevel, Bool.false_eq_true, if_false] at h h'
    -- for the agents the provider is in one route and not in the other
    have hmem : p ∈ routeProviders (evaluateModelRoute lower policy data) := by
      rw [evaluate_agents hrefused hprimary]
      exact List.mem_filter.2 ⟨hp, h⟩
    rw [← heq, evaluate_agents hrefused' (hsystem.trans hprimary), List.mem_filter, h'] at hmem
    cases hmem.2

/-- The answer to a request is that of all its entries together, in whatever order,
exactly if it is turned away for `allow_paid` or no provider it asks about has both
an eligible entry and one that is not. -/
theorem entries_count_iff (lower : String → String) (policy : ModelPolicy)
    (data : RouteEvaluationIn) :
    EntriesCount lower policy data ↔ Refused policy data ∨ Unmixed lower policy data := by
  constructor
  · intro h
    by_cases hrefused : Refused policy data
    · exact Or.inl hrefused
    · refine Or.inr ?_
      rintro p hp ⟨⟨item, hitem, rfl, heligible⟩, item', hitem', hkey, heligible'⟩
      -- one order with the eligible entry at the end, one with the other
      rcases exists_perm_chosen lower hitem (expectedLevel data.systemPrimary) with
        ⟨providers, hperm, hchosen⟩
      rcases exists_perm_chosen lower hitem' (expectedLevel data.systemPrimary) with
        ⟨providers', hperm', hchosen'⟩
      rw [heligible] at hchosen
      rw [hkey, heligible'] at hchosen'
      have hne : evaluateModelRoute lower policy { data with providers := providers' } ≠
          evaluateModelRoute lower policy { data with providers := providers } :=
        evaluate_ne_of_chosen hrefused hrefused rfl hp hchosen hchosen'
      exact hne ((h.perm providers' hperm').trans (h.perm providers hperm).symm)
  · rintro (hrefused | hunmixed)
    · refine ⟨fun h => absurd hrefused h, fun h => absurd hrefused h, ?_⟩
      intro providers _
      have hpaid : Refused policy { data with providers := providers } := hrefused
      rw [evaluate_refused hpaid, evaluate_refused hrefused]
    · exact entriesCount_of_unmixed hunmixed

/-- The policy of the repository. -/
def freeFirst : ModelPolicy where
  mode := "FREE-FIRST"
  systemPrimary := ⟨"openai", [("role", .str "system-primary"), ("replaceable", .bool true)]⟩
  agentProviderOrder := ["groq", "qwen", "glm", "deepseek", "kimi", "siliconflow"]
  paidAuxiliariesEnabled := false

/-- A ready entry of level 1 for the primary provider, and one of level 2 after it. -/
def bothLevels : RouteEvaluationIn where
  systemPrimary := true
  providers :=
    [{ provider := "openai", vaultLevel := .one, configured := true, validated := true },
     { provider := "openai", vaultLevel := .two, configured := true, validated := true }]

/-- The entry of level 2 hides the ready one of level 1: the route is answered with 503. -/
theorem ready_entry_hidden : ¬ EntriesCount Text.asciiLower freeFirst bothLevels := by
  intro h
  have hroute := (h.primary (by simp [Refused, bothLevels]) rfl).2
    ⟨{ provider := "openai", vaultLevel := .one, configured := true, validated := true },
      List.mem_cons_self, rfl, rfl, rfl, rfl, rfl⟩
  rcases hroute with ⟨route, hroute⟩
  have hnone : routeProviders (evaluateModelRoute Text.asciiLower freeFirst bothLevels) = [] := by
    decide
  rw [hroute] at hnone
  cases hnone

/-! ## The two routers -/

/-- The router answers with an error of the status. -/
def AnswersStatus (status : ℕ) (answer : Except (HttpException Json) ModelRoute) : Prop :=
  ∃ detail, answer = .error ⟨status, detail⟩

/-- Every provider of the policy's order has exactly one entry, in whatever case it is
written, and the entry is ready for agents. -/
def AllReadyOnce (lower : String → String) (policy : ModelPolicy)
    (providers : List ProviderReadiness) : Prop :=
  ∀ p ∈ policy.agentProviderOrder, ∃ item,
    providers.filter (fun item => lower item.provider = lower p) = [item] ∧
      item.vaultLevel = .two ∧ item.configured ∧ item.validated ∧ item.enabled

/-- The policy route lists every agent provider. -/
theorem get_agents (h : ¬ Refused policy data) (hagents : data.systemPrimary = false) :
    routeProviders (getModelRoute policy data.systemPrimary data.allowPaid) =
      policy.agentProviderOrder := by
  simp only [getModelRoute, guard_of_not_refused h, hagents, Bool.false_eq_true, if_false]
  exact routeProviders_agents _ _ _ _

/-- It refuses what the evaluation refuses, with the same words. -/
theorem get_refused (h : Refused policy data) :
    getModelRoute policy data.systemPrimary data.allowPaid =
      .error ⟨409, .str "paid auxiliary routes are disabled by FREE-FIRST policy"⟩ := by
  simp [getModelRoute, h.1, h.2]

/-- 409 is the refusal and nothing else. -/
theorem evaluate_conflict_iff (lower : String → String) (policy : ModelPolicy)
    (data : RouteEvaluationIn) :
    AnswersStatus 409 (evaluateModelRoute lower policy data) ↔ Refused policy data := by
  constructor
  · rintro ⟨detail, hanswer⟩
    by_contra h
    simp only [evaluateModelRoute, guard_of_not_refused h, Bool.false_eq_true, if_false] at hanswer
    -- past the guard every error is a 503
    split at hanswer
    · split at hanswer <;> cases hanswer
    · split at hanswer <;> cases hanswer
  · intro h
    exact ⟨_, evaluate_refused h⟩

/-- On the policy route too. -/
theorem get_conflict_iff (policy : ModelPolicy) (data : RouteEvaluationIn) :
    AnswersStatus 409 (getModelRoute policy data.systemPrimary data.allowPaid) ↔
      Refused policy data := by
  constructor
  · rintro ⟨detail, hanswer⟩
    by_contra h
    simp only [getModelRoute, guard_of_not_refused h, Bool.false_eq_true, if_false] at hanswer
    split at hanswer
    · cases hanswer
    · split at hanswer <;> cases hanswer
  · intro h
    exact ⟨_, get_refused h⟩

theorem not_refused_of_route {route : ModelRoute}
    (h : evaluateModelRoute lower policy data = .ok route) : ¬ Refused policy data := by
  intro hrefused
  rw [evaluate_refused hrefused] at h
  cases h

/-- An answered route is never empty. -/
theorem routeProviders_ne_nil {ε : Type} {answer : Except ε ModelRoute} :
    routeProviders answer ≠ [] ↔ ∃ route, answer = .ok route := by
  cases answer with
  | ok route => simp [routeProviders]
  | error e => simp [routeProviders]

/-- A provider with one entry, which is ready, is chosen. -/
theorem chosen_of_allReadyOnce (h : AllReadyOnce lower policy data.providers) {p : String}
    (hp : p ∈ policy.agentProviderOrder) : chosen lower data.providers .two (lower p) = true := by
  rcases h p hp with ⟨item, honly, hready⟩
  have hmem : ∀ entry, entry ∈ data.providers ∧ lower entry.provider = lower p ↔ entry = item := by
    intro entry
    have hentry : entry ∈ data.providers.filter (fun item => lower item.provider = lower p) ↔
        entry ∈ [item] := by
      rw [honly]
    simpa using hentry
  rw [chosen_iff_ready, ready_iff]
  · exact ⟨item, ((hmem item).2 rfl).1, ((hmem item).2 rfl).2, hready⟩
  · rintro ⟨-, entry, hentry, hkey, hunready⟩
    -- the unready entry would be the ready one
    rw [(hmem entry).1 ⟨hentry, hkey⟩] at hunready
    simp [eligible, hready] at hunready

variable (lower policy data) in
/-- What `evaluate_model_route` answers lies within what `get_model_route` answers. -/
structure RefinesPolicyRoute : Prop where
  conflict : AnswersStatus 409 (evaluateModelRoute lower policy data) ↔
    AnswersStatus 409 (getModelRoute policy data.systemPrimary data.allowPaid)
  agents : data.systemPrimary = false →
    ∀ route, evaluateModelRoute lower policy data = .ok route →
      ∃ route', getModelRoute policy data.systemPrimary data.allowPaid = .ok route' ∧
        (routeProviders (evaluateModelRoute lower policy data)).Sublist
          ((routeProviders (getModelRoute policy data.systemPrimary data.allowPaid)).map lower) ∧
        ∀ p ∈ routeProviders (evaluateModelRoute lower policy data),
          ∃ item ∈ data.providers, lower item.provider = p ∧
            item.vaultLevel = .two ∧ item.configured ∧ item.validated ∧ item.enabled
  whole : data.systemPrimary = false → AllReadyOnce lower policy data.providers →
    routeProviders (evaluateModelRoute lower policy data) =
      (routeProviders (getModelRoute policy data.systemPrimary data.allowPaid)).map lower
  system : data.systemPrimary = true →
    ∀ route, evaluateModelRoute lower policy data = .ok route →
      (∃ route', getModelRoute policy data.systemPrimary data.allowPaid = .ok route' ∧
        route'.selected = route.selected) ∧
      ∃ item ∈ data.providers, lower item.provider = lower policy.systemPrimary.provider ∧
        item.vaultLevel = .one ∧ item.configured ∧ item.validated ∧ item.enabled

/-- The readiness router refines the policy-only one, for every policy, request and
list of entries. -/
theorem evaluate_refines_get (lower : String → String) (policy : ModelPolicy)
    (data : RouteEvaluationIn) : RefinesPolicyRoute lower policy data where
  conflict := by
    rw [evaluate_conflict_iff, get_conflict_iff]
  agents := by
    intro hagents route hroute
    have hrefused := not_refused_of_route hroute
    have hsome : routeProviders (evaluateModelRoute lower policy data) ≠ [] :=
      routeProviders_ne_nil.2 ⟨route, hroute⟩
    have hsub : (routeProviders (evaluateModelRoute lower policy data)).Sublist
        ((routeProviders (getModelRoute policy data.systemPrimary data.allowPaid)).map lower) := by
      rw [evaluate_agents hrefused hagents, get_agents hrefused hagents]
      exact List.filter_sublist
    -- a policy with a provider that is ready has a provider
    have hget : ∃ route', getModelRoute policy data.systemPrimary data.allowPaid = .ok route' := by
      apply routeProviders_ne_nil.1
      intro hnone
      rw [hnone, List.map_nil] at hsub
      exact hsome (List.sublist_nil.1 hsub)
    rcases hget with ⟨route', hget⟩
    refine ⟨route', hget, hsub, ?_⟩
    intro p hp
    rw [evaluate_agents hrefused hagents, List.mem_filter] at hp
    exact ready_iff.1 (ready_of_chosen hp.2)
  whole := by
    intro hagents hready
    by_cases hrefused : Refused policy data
    · rw [evaluate_refused hrefused, get_refused hrefused]
      rfl
    · rw [evaluate_agents hrefused hagents, get_agents hrefused hagents, List.filter_eq_self]
      intro p hp
      obtain ⟨name, hname, rfl⟩ := List.mem_map.1 hp
      exact chosen_of_allReadyOnce hready hname
  system := by
    intro hprimary route hroute
    have hrefused := not_refused_of_route hroute
    have hchosen := (evaluate_primary hrefused hprimary).1 ⟨route, hroute⟩
    constructor
    · simp only [evaluateModelRoute, guard_of_not_refused hrefused, hprimary, expectedLevel,
        if_true, Bool.false_eq_true, if_false, hchosen] at hroute
      simp only [getModelRoute, guard_of_not_refused hrefused, hprimary, if_true,
        Bool.false_eq_true, if_false]
      cases hroute
      exact ⟨_, rfl, rfl⟩
    · exact ready_iff.1 (ready_of_chosen hchosen)

end AdsHub
