import AdsHub.Lib.Runs
import AdsHub.Core.Config
import AdsHub.Service

/-!
# AdsHub.DryRun — when the hub writes, and what it says about it

The sandbox is on if `ADS_DRY_RUN` is read as true, and `env_bool` reads every text
that it does not know as false. So the hub is live on a misspelt or an empty value
(`misspelt_value_goes_live`); `fail_safe_iff` has the environments on which it is
fail-safe.

What a request did is reported by two parts that decide for themselves: the adapter
simulates in dry run and without credentials, and the flag `dry_run` of the answer is
the setting alone. `reports_exact_iff` says when the two agree.

A platform may fail to answer a write: `client.post`, `raise_for_status` or `r.json`
raises, or `ActionResult` does because the answer is not an object. The write is sent
all the same, and the request is answered with an exception. An adapter that raises by
itself does so before its write. All of this holds in every arithmetic.
-/

namespace AdsHub

/-- A request to `POST /v1/actions`, and what its platform answers if it is sent a
write: JSON, or nothing if the transport raises. -/
structure Call where
  req : ActionRequest
  answer : Option Json

/-- The platform has answered with an object, as `ActionResult.upstream` needs it. -/
def Call.answered (call : Call) : Bool :=
  match call.answer with
  | some (.obj _) => true
  | _ => false

/-- `actions` over a transport that can fail; none is an exception. -/
def actionsOver (ar : Arithmetic) (settings : Settings) (call : Call) :
    Option (Except ActionError Executed) × List HttpPost :=
  match actions ar settings (fun _ => call.answer.getD .null) call.req with
  | (answer, posts) =>
    if posts.isEmpty || call.answered then (some answer, posts) else (none, posts)

/-- The writes that the calls issue, in order. -/
def issuedWrites (ar : Arithmetic) (settings : Settings) (calls : List Call) : List HttpPost :=
  calls.flatMap (fun call => (actionsOver ar settings call).2)

/-! ## One call -/

variable {ar : Arithmetic} {settings : Settings}

/-- A failing transport does not take a write back. -/
theorem actionsOver_posts (ar : Arithmetic) (settings : Settings) (call : Call) :
    (actionsOver ar settings call).2 =
      (actions ar settings (fun _ => call.answer.getD .null) call.req).2 := by
  unfold actionsOver
  split
  · next hanswer =>
    rw [hanswer]
    split <;> rfl

/-- A write is issued exactly for a request that sends. -/
theorem issued_iff_sends (ar : Arithmetic) (settings : Settings) (call : Call) :
    (actionsOver ar settings call).2 ≠ [] ↔ sends ar settings call.req = true := by
  rw [actionsOver_posts, actions_posts]
  cases hsends : sends ar settings call.req with
  | true =>
    rcases execute_sends (fun _ => call.answer.getD .null) hsends with ⟨post, change, hexec, -⟩
    simp [hexec]
  | false =>
    have hsilent := execute_silent (fun _ => call.answer.getD .null) hsends
    simp [hsilent]

theorem issuedWrites_eq_nil {calls : List Call} :
    issuedWrites ar settings calls = [] ↔ ∀ call ∈ calls, sends ar settings call.req = false := by
  unfold issuedWrites
  rw [List.flatMap_eq_nil_iff]
  refine forall₂_congr ?_
  intro call _
  rw [← Bool.not_eq_true, ← issued_iff_sends, not_not]

/-! ## The sandbox -/

/-- `ADS_DRY_RUN` is set to an explicit negative. -/
def SetNegative (lower : StrLower) (env : Env) : Prop :=
  ∃ value, env "ADS_DRY_RUN" = some value ∧
    lower.toFun (Text.strip value) ∈ ["0", "false", "no", "off"]

/-- It is set to one of the texts that mean true. -/
def SetPositive (lower : StrLower) (env : Env) : Prop :=
  ∃ value, env "ADS_DRY_RUN" = some value ∧ lower.toFun (Text.strip value) ∈ trueTexts

/-- The environment has both credentials of the platform. -/
def HasCredentials (env : Env) : Platform → Prop
  | .meta => getenv env "META_ACCESS_TOKEN" "" ≠ "" ∧ getenv env "META_AD_ACCOUNT_ID" "" ≠ ""
  | .tiktok => getenv env "TIKTOK_ACCESS_TOKEN" "" ≠ "" ∧ getenv env "TIKTOK_ADVERTISER_ID" "" ≠ ""

/-- Unless the environment says no to the dry run, no sequence of requests issues a
write. -/
def FailSafe (ar : Arithmetic) (lower : StrLower) (float : String → Option ℚ) (env : Env) : Prop :=
  ¬ SetNegative lower env → ∀ settings, Settings.ofEnv lower float env = some settings →
    ∀ calls, issuedWrites ar settings calls = []

variable {lower : StrLower} {float : String → Option ℚ} {env : Env}

theorem ofEnv_dryRun (h : Settings.ofEnv lower float env = some settings) :
    settings.dryRun = envBool lower env "ADS_DRY_RUN" true := by
  obtain ⟨limit, -, rfl⟩ := Option.map_eq_some_iff.1 h
  rfl

theorem ofEnv_configured (h : Settings.ofEnv lower float env = some settings)
    (platform : Platform) : configured settings platform = true ↔ HasCredentials env platform := by
  obtain ⟨limit, -, rfl⟩ := Option.map_eq_some_iff.1 h
  cases platform with
  | «meta» => simp [configured, MetaAdapter.configured, HasCredentials]
  | tiktok => simp [configured, TikTokAdapter.configured, HasCredentials]

theorem dryRun_iff (lower : StrLower) (env : Env) :
    envBool lower env "ADS_DRY_RUN" true = true ↔
      env "ADS_DRY_RUN" = none ∨ SetPositive lower env := by
  cases hvalue : env "ADS_DRY_RUN" with
  | none => simp [envBool_unset lower hvalue]
  | some value => simp [envBool_set lower hvalue, SetPositive, hvalue]

/-- A request to pause a campaign, which the policy always admits. -/
def pauseRequest (platform : Platform) : ActionRequest :=
  { platform := platform, action := .pauseCampaign, objectId := "123" }

/-- Live with credentials, a pause is written. -/
theorem sends_pause (ar : Arithmetic) (hdry : settings.dryRun = false) {platform : Platform}
    (hconf : configured settings platform = true) :
    sends ar settings (pauseRequest platform) = true := by
  have hallowed : (evaluateAction settings (pauseRequest platform)).allowed = true :=
    evaluateAction_other settings ActionType.noConfusion
  have hlive : live settings (pauseRequest platform) = true := live_iff.2 ⟨hallowed, hdry, hconf⟩
  have hover : overflows ar (pauseRequest platform) = false := by
    simp [overflows, pauseRequest]
  rw [sends, hlive, hover]
  rfl

/-- Started with credentials and a value that means neither yes nor no, it writes. -/
theorem not_failSafe (hstart : Settings.ofEnv lower float env = some settings)
    (hset : env "ADS_DRY_RUN" ≠ none) (hnegative : ¬ SetNegative lower env)
    (hpositive : ¬ SetPositive lower env) {platform : Platform}
    (hcredentials : HasCredentials env platform) : ¬ FailSafe ar lower float env := by
  intro h
  have hdry : settings.dryRun = false := by
    rw [ofEnv_dryRun hstart, ← Bool.not_eq_true, dryRun_iff]
    exact not_or.2 ⟨hset, hpositive⟩
  have hconf := (ofEnv_configured hstart platform).2 hcredentials
  -- one pause is enough
  have hnone := h hnegative settings hstart [⟨pauseRequest platform, none⟩]
  rw [issuedWrites_eq_nil, List.forall_mem_singleton, sends_pause ar hdry hconf] at hnone
  cases hnone

/-- The hub is fail-safe in an environment exactly if it does not start there, or
`ADS_DRY_RUN` is unset, an explicit negative or an explicit positive, or neither
platform has both its credentials. -/
theorem fail_safe_iff (ar : Arithmetic) (lower : StrLower) (float : String → Option ℚ) (env : Env) :
    FailSafe ar lower float env ↔
      float (getenv env "ADS_MAX_BUDGET_INCREASE_PCT" "20") = none ∨
      env "ADS_DRY_RUN" = none ∨ SetNegative lower env ∨ SetPositive lower env ∨
      ∀ platform, ¬ HasCredentials env platform := by
  constructor
  · intro h
    cases hstart : Settings.ofEnv lower float env with
    | none => exact Or.inl (Option.map_eq_none_iff.1 hstart)
    | some settings =>
      refine Or.inr ?_
      -- any other text turns dry run off, and one admitted request is then sent
      by_contra hcon
      simp only [not_or, not_forall, not_not] at hcon
      rcases hcon with ⟨hset, hnegative, hpositive, platform, hcredentials⟩
      exact not_failSafe hstart hset hnegative hpositive hcredentials h
  · intro h hnegative settings hstart calls
    rw [issuedWrites_eq_nil]
    intro call _
    -- in each of the cases the hub is in dry run or the platform is not configured
    have hoff : (!settings.dryRun && configured settings call.req.platform) = false := by
      rcases h with hfloat | hunset | hno | hyes | hcredentials
      · simp [Settings.ofEnv, hfloat] at hstart
      · rw [ofEnv_dryRun hstart, (dryRun_iff lower env).2 (Or.inl hunset)]
        rfl
      · exact absurd hno hnegative
      · rw [ofEnv_dryRun hstart, (dryRun_iff lower env).2 (Or.inr hyes)]
        rfl
      · have hconf := mt (ofEnv_configured hstart call.req.platform).1
          (hcredentials call.req.platform)
        rw [Bool.not_eq_true] at hconf
        rw [hconf, Bool.and_false]
    rw [sends, live, hoff, Bool.and_false, Bool.false_and]

/-- `str.lower` of texts in ASCII. -/
def asciiFold : StrLower where
  toFun := Text.asciiLower
  ascii := fun _ _ => rfl

/-- An environment with credentials for Meta, where the operator wrote `ture`. -/
def misspelt : Env := fun name =>
  if name = "ADS_DRY_RUN" then some "ture"
  else if name = "META_ACCESS_TOKEN" then some "mt"
  else if name = "META_AD_ACCOUNT_ID" then some "act_1"
  else none

/-- The hub is live there, and a pause goes out. -/
theorem misspelt_value_goes_live :
    ¬ FailSafe .binary64 asciiFold (fun _ => some 20) misspelt := by
  have hread : asciiFold.toFun (Text.strip "ture") = "ture" := by decide
  have hvalue : misspelt "ADS_DRY_RUN" = some "ture" := rfl
  have hcredentials : HasCredentials misspelt .meta := ⟨by decide, by decide⟩
  refine not_failSafe rfl (by simp [hvalue]) ?_ ?_ hcredentials
  · rintro ⟨value, hset, hmem⟩
    cases hvalue.symm.trans hset
    rw [hread] at hmem
    exact absurd hmem (by decide)
  · rintro ⟨value, hset, hmem⟩
    cases hvalue.symm.trans hset
    rw [hread] at hmem
    exact absurd hmem (by decide)

/-! ## The reports -/

/-- The result that a response carries: in its body, or in the detail of a 409. -/
def carriedResult : Option (Except ActionError Executed) → Option ActionResult
  | some (.ok data) => data.result
  | some (.error (.refused exception)) => exception.detail.result
  | some (.error (.raised _)) => none
  | none => none

/-- The response says that the action was done: accepted, and not in dry run. -/
def reported (ar : Arithmetic) (settings : Settings) (call : Call) : Bool :=
  (carriedResult (actionsOver ar settings call).1).any (fun result =>
    result.accepted && !result.dryRun)

/-- A write was issued for the request. -/
def issued (ar : Arithmetic) (settings : Settings) (call : Call) : Bool :=
  !(actionsOver ar settings call).2.isEmpty

theorem issued_eq_sends (ar : Arithmetic) (settings : Settings) (call : Call) :
    issued ar settings call = sends ar settings call.req := by
  have h := issued_iff_sends ar settings call
  rw [Bool.eq_iff_iff, ← h]
  simp [issued]

/-- A refused request reaches no adapter. -/
theorem execute_refused (ar : Arithmetic) (respond : HttpPost → Json) {req : ActionRequest}
    (h : (evaluateAction settings req).allowed = false) :
    execute ar settings respond req = (.ok ⟨evaluateAction settings req, none⟩, []) := by
  simp [execute, h]

/-- In dry run and without credentials the answer is the adapter's simulation. -/
theorem execute_simulated (ar : Arithmetic) (respond : HttpPost → Json) {req : ActionRequest}
    (hallowed : (evaluateAction settings req).allowed = true)
    (h : (!settings.dryRun && configured settings req.platform) = false) :
    execute ar settings respond req = (.ok (executed settings req (simulated req)), []) := by
  simp only [execute, hallowed, if_true, adapterExecute_simulated respond h]

/-- What `execute` returns for an admitted request is the response. -/
theorem actions_executed {respond : HttpPost → Json} {req : ActionRequest} {upstream : Json}
    {posts : List HttpPost} (hallowed : (evaluateAction settings req).allowed = true)
    (h : execute ar settings respond req = (.ok (executed settings req upstream), posts)) :
    actions ar settings respond req = (.ok (executed settings req upstream), posts) := by
  have hdecision : (executed settings req upstream).decision.allowed = true := hallowed
  simp only [actions, h, hdecision, if_true]

/-- The response says done if the request is admitted, the setting is live, and on a
configured platform neither the adapter raised nor its write failed. -/
theorem reported_eq (ar : Arithmetic) (settings : Settings) (call : Call) :
    reported ar settings call =
      ((evaluateAction settings call.req).allowed && (!settings.dryRun &&
        (!configured settings call.req.platform ||
          (!overflows ar call.req && call.answered)))) := by
  unfold reported
  cases hallowed : (evaluateAction settings call.req).allowed with
  | false =>
    -- a 409, whose detail has no result
    have hexec := execute_refused ar (fun _ => call.answer.getD .null) hallowed
    simp [actionsOver, actions, hexec, hallowed, carriedResult]
  | true =>
    cases hsent : (!settings.dryRun && configured settings call.req.platform) with
    | false =>
      -- simulated, and reported under the flag of the setting
      have hactions := actions_executed hallowed
        (execute_simulated ar (fun _ => call.answer.getD .null) hallowed hsent)
      have hresult : carriedResult (actionsOver ar settings call).1 =
          (executed settings call.req (simulated call.req)).result := by
        simp [actionsOver, hactions, carriedResult]
      rw [hresult]
      cases hdry : settings.dryRun with
      | true => simp [executed, hdry]
      | false =>
        rw [hdry, Bool.not_false, Bool.true_and] at hsent
        simp [executed, hdry, hsent]
    | true =>
      have hlive : live settings call.req = true := by
        rw [live, hallowed, hsent]
        rfl
      rw [Bool.and_eq_true, Bool.not_eq_true'] at hsent
      cases hover : overflows ar call.req with
      | true =>
        -- the exception of the adapter carries no result
        have hexec := execute_overflow (fun _ => call.answer.getD .null) hlive hover
        simp [actionsOver, actions, hexec, carriedResult, hsent]
      | false =>
        have hsends : sends ar settings call.req = true := by
          rw [sends, hlive, hover]
          rfl
        rcases execute_sends (fun _ => call.answer.getD .null) hsends with ⟨post, change, hexec, -⟩
        have hactions := actions_executed hallowed hexec
        cases hanswered : call.answered with
        | true => simp [actionsOver, hactions, hanswered, carriedResult, executed, hsent]
        | false => simp [actionsOver, hactions, hanswered, carriedResult, hsent]

/-- The requests that are reported as done are those for which a write was issued exactly if
every request that the policy admits comes in dry run, or to a configured platform whose
adapter raises before its write (the cents of a Meta budget overflow), or which answers the
write with an object. -/
theorem reports_exact_iff (ar : Arithmetic) (settings : Settings) (calls : List Call) :
    calls.filter (reported ar settings) = calls.filter (issued ar settings) ↔
      ∀ call ∈ calls, (evaluateAction settings call.req).allowed = true →
        settings.dryRun = true ∨
          configured settings call.req.platform = true ∧
            (overflows ar call.req = true ∨ call.answered = true) := by
  rw [Runs.filter_eq_filter_iff]
  refine forall₂_congr ?_
  intro call _
  rw [reported_eq, issued_eq_sends, sends, live]
  cases (evaluateAction settings call.req).allowed with
  | false => simp
  | true =>
    cases settings.dryRun with
    | true => simp
    | false =>
      cases configured settings call.req.platform with
      | false => simp
      | true =>
        cases overflows ar call.req with
        | true => simp
        | false => simp

/-- A live hub without credentials. -/
def withoutCredentials : Settings := { dryRun := false }

/-- It simulates a pause, and says that it was done. -/
theorem simulation_reported_as_done :
    [(⟨pauseRequest .meta, none⟩ : Call)].filter (reported .binary64 withoutCredentials) ≠
      [(⟨pauseRequest .meta, none⟩ : Call)].filter (issued .binary64 withoutCredentials) := by
  intro h
  rw [Runs.filter_eq_filter_iff, List.forall_mem_singleton, reported_eq, issued_eq_sends] at h
  exact absurd h (by decide)

end AdsHub
