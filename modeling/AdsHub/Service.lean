import AdsHub.Adapters

/-!
# AdsHub.Service — from a request to the writes it causes

`execute` of `app/service.py` and the endpoint `POST /v1/actions`: the policy is
asked, an admitted request goes to the adapter of its platform, and the answer
reports it. `outboundWrites` is what a sequence of requests sends out.

Policy, service and adapters line up: for every setting and every sequence of
requests there is one write per admitted request of a live, configured platform and
none for any other, put together for that request's object. Whether the platform also
reads the request off it is another matter for Meta. The object is put into the URL
unescaped, and the budget is a product of floats whose fraction is cut off:
`meta_budget_loses_a_cent` sets a budget of 1.15 to 1.14. `outbound_writes_exact_iff`
has the requests on which every write is exact.
-/

namespace AdsHub

/-- `ActionResult`. -/
structure ActionResult where
  accepted : Bool
  dryRun : Bool
  platform : Platform
  action : ActionType
  objectId : String
  upstream : Json

/-- What `execute` returns: `{"decision": ..., "result": ...}`. -/
structure Executed where
  decision : ActionDecision
  result : Option ActionResult

/-- The answer of `execute` to an admitted request. -/
def executed (settings : Settings) (req : ActionRequest) (upstream : Json) : Executed where
  decision := evaluateAction settings req
  result := some
    { accepted := true
      dryRun := settings.dryRun
      platform := req.platform
      action := req.action
      objectId := req.objectId
      upstream := upstream }

/-- `execute`, with the writes that its adapter has sent. -/
def execute (ar : Arithmetic) (settings : Settings) (respond : HttpPost → Json)
    (req : ActionRequest) : Except PyError Executed × List HttpPost :=
  let decision := evaluateAction settings req
  if decision.allowed then
    match adapterExecute ar settings respond req with
    | (.ok upstream, posts) => (.ok (executed settings req upstream), posts)
    | (.error e, posts) => (.error e, posts)
  else (.ok { decision := decision, result := none }, [])

/-- How `POST /v1/actions` can fail: a 409 with the decision, or an exception. -/
inductive ActionError where
  | refused (exception : HttpException Executed)
  | raised (error : PyError)

/-- `actions`, the endpoint `POST /v1/actions`. -/
def actions (ar : Arithmetic) (settings : Settings) (respond : HttpPost → Json)
    (req : ActionRequest) : Except ActionError Executed × List HttpPost :=
  match execute ar settings respond req with
  | (.error e, posts) => (.error (.raised e), posts)
  | (.ok data, posts) =>
    if data.decision.allowed then (.ok data, posts)
    else (.error (.refused ⟨409, data⟩), posts)

/-- The writes that the requests cause, in order. -/
def outboundWrites (ar : Arithmetic) (settings : Settings) (respond : HttpPost → Json)
    (reqs : List ActionRequest) : List HttpPost :=
  reqs.flatMap (fun req => (actions ar settings respond req).2)

/-- The request is admitted, the hub is live and the platform is configured. -/
def live (settings : Settings) (req : ActionRequest) : Bool :=
  (evaluateAction settings req).allowed && (!settings.dryRun && configured settings req.platform)

/-- The request causes a write: it is live, and its adapter does not raise before. -/
def sends (ar : Arithmetic) (settings : Settings) (req : ActionRequest) : Bool :=
  live settings req && !overflows ar req

/-! ## One request -/

variable {ar : Arithmetic} {settings : Settings} {req : ActionRequest}

theorem actions_posts (ar : Arithmetic) (settings : Settings) (respond : HttpPost → Json)
    (req : ActionRequest) :
    (actions ar settings respond req).2 = (execute ar settings respond req).2 := by
  unfold actions
  split
  · next h => rw [h]
  · next h =>
    rw [h]
    split <;> rfl

/-- A request that is live was admitted, by a hub that is live with credentials. -/
theorem live_iff : live settings req = true ↔ (evaluateAction settings req).allowed = true ∧
    settings.dryRun = false ∧ configured settings req.platform = true := by
  rw [live, Bool.and_eq_true, Bool.and_eq_true, Bool.not_eq_true']

theorem live_of_sends (h : sends ar settings req = true) : live settings req = true := by
  rw [sends, Bool.and_eq_true] at h
  exact h.1

/-- A request that sends is answered, and its one write is put together for its object. -/
theorem execute_sends (respond : HttpPost → Json) (h : sends ar settings req = true) :
    ∃ post change,
      execute ar settings respond req = (.ok (executed settings req (respond post)), [post]) ∧
      sentChange ar req = some change ∧ writtenPost settings req.platform post =
        some ⟨req.platform, accountOf settings req.platform, req.objectId, change⟩ := by
  rw [sends, Bool.and_eq_true, Bool.not_eq_true', live_iff] at h
  obtain ⟨⟨hallowed, hdry, hconf⟩, hover⟩ := h
  -- the policy has rejected every update without a new budget
  obtain ⟨change, hchange⟩ :=
    sentChange_isSome (fun haction => newBudget_of_allowed haction hallowed) hover
  obtain ⟨post, hexec, hwritten⟩ := adapterExecute_live respond hdry hconf hchange
  refine ⟨post, change, ?_, hchange, hwritten⟩
  simp only [execute, hallowed, hexec, if_true]

/-- A live request whose cents overflow ends in an exception. -/
theorem execute_overflow (respond : HttpPost → Json) (hlive : live settings req = true)
    (hover : overflows ar req = true) :
    execute ar settings respond req = (.error .overflowError, []) := by
  obtain ⟨hallowed, hdry, hconf⟩ := live_iff.1 hlive
  simp only [execute, hallowed, if_true, adapterExecute_overflow respond hdry hconf hover]

/-- Any other request sends nothing, and no adapter raises on it. -/
theorem execute_not_live (ar : Arithmetic) (respond : HttpPost → Json)
    (h : live settings req = false) : ∃ data, execute ar settings respond req = (.ok data, []) := by
  unfold live at h
  unfold execute
  cases hallowed : (evaluateAction settings req).allowed with
  | false => exact ⟨{ decision := evaluateAction settings req, result := none }, by simp [hallowed]⟩
  | true =>
    rw [hallowed, Bool.true_and] at h
    refine ⟨executed settings req (simulated req), ?_⟩
    simp only [hallowed, if_true, adapterExecute_simulated respond h]

/-- A request that does not send writes nothing. -/
theorem execute_silent (respond : HttpPost → Json) (h : sends ar settings req = false) :
    (execute ar settings respond req).2 = [] := by
  cases hlive : live settings req with
  | false =>
    obtain ⟨data, hexec⟩ := execute_not_live ar respond hlive
    rw [hexec]
  | true =>
    rw [sends, hlive, Bool.true_and, Bool.not_eq_false'] at h
    rw [execute_overflow respond hlive h]

/-- No adapter ever meets a missing budget. -/
theorem execute_ne_typeError (ar : Arithmetic) (settings : Settings) (respond : HttpPost → Json)
    (req : ActionRequest) : (execute ar settings respond req).1 ≠ .error .typeError := by
  cases hsends : sends ar settings req with
  | true =>
    obtain ⟨post, change, hexec, -⟩ := execute_sends respond hsends
    simp [hexec]
  | false =>
    cases hlive : live settings req with
    | false =>
      obtain ⟨data, hexec⟩ := execute_not_live ar respond hlive
      simp [hexec]
    | true =>
      rw [sends, hlive, Bool.true_and, Bool.not_eq_false'] at hsends
      simp [execute_overflow respond hlive hsends]

/-! ## Exact writes -/

/-- The change is what the request asks for: its status, or its new budget. A budget is a
float, so an amount stands for the float it is read as. -/
def Conveys (req : ActionRequest) : Change → Prop
  | .pause => req.action = .pauseCampaign
  | .activate => req.action = .activateCampaign
  | .budget amount =>
    req.action = .updateBudget ∧
      ∃ new, req.newBudget = some new ∧ (amount = new ∨ Binary64.round amount = some new)

/-- The write goes to the platform of the request, names its object (and the configured
account) and nothing else there, and carries what it asks for. -/
def Carries (settings : Settings) (req : ActionRequest) (post : HttpPost) : Prop :=
  ∃ change, readPost settings req.platform post =
      some ⟨req.platform, accountOf settings req.platform, req.objectId, change⟩ ∧
    Conveys req change

/-- The writes are matched one to one, in order, with the admitted requests of live and
configured platforms, each carrying its own request; no admitted budget update comes
without a new budget, and no adapter meets one. -/
structure ExactWrites (settings : Settings) (respond : HttpPost → Json)
    (reqs : List ActionRequest) : Prop where
  matched : List.Forall₂ (Carries settings) (reqs.filter (live settings))
    (outboundWrites .binary64 settings respond reqs)
  budget : ∀ req ∈ reqs, (evaluateAction settings req).allowed = true →
    req.action = .updateBudget → ∃ new, req.newBudget = some new
  met : ∀ req ∈ reqs, (execute .binary64 settings respond req).1 ≠ .error .typeError

/-- The budget is a whole number `m` of cents (or the float that `m` cents are read as), and
the product of floats that is cut to an integer is cut to `m`: the exact `new * 100` is
between the points from which doubles are rounded to `m` and to `m + 1`, and short of the
one from which they overflow. -/
def InCents (new : ℚ) : Prop :=
  ∃ m : ℕ, ((m / 100 : ℚ) = new ∨ Binary64.round (m / 100) = some new) ∧
    Binary64.Reaches m (new * 100) ∧ ¬ Binary64.Reaches (m + 1) (new * 100) ∧
    ¬ Binary64.Reaches (2 ^ 1024) (new * 100)

/-- A Meta request whose write says what the request does: neither the configured version nor
the object changes the URL that is built, and the budget comes in cents. -/
def Sound (settings : Settings) (req : ActionRequest) : Prop :=
  req.platform = .meta → Url.pathText settings.metaGraphVersion = true ∧
    Url.plainSegment req.objectId = true ∧
    (req.action = .updateBudget → ∀ new, req.newBudget = some new → InCents new)

/-- Meta's adapter sends the cents of a budget exactly if it comes in cents. -/
theorem inCents_iff {new : ℚ} (hnew : 0 ≤ new) :
    InCents new ↔ ∃ cents, Arithmetic.binary64.times new 100 = some cents ∧
      ((pyInt cents / 100 : ℚ) = new ∨ Binary64.round (pyInt cents / 100) = some new) := by
  have hproduct : 0 ≤ new * 100 := mul_nonneg hnew (by norm_num)
  have hcut : pyInt (Binary64.nearest (new * 100)) = ⌊Binary64.nearest (new * 100)⌋ := by
    rw [pyInt, if_pos (Binary64.nearest_nonneg hproduct)]
  constructor
  · rintro ⟨m, hm, hreach, hnext, hlimit⟩
    refine ⟨Binary64.nearest (new * 100), Binary64.round_eq_some hproduct hlimit, ?_⟩
    rw [hcut, (Binary64.floor_nearest_eq_iff hproduct).2 ⟨hreach, hnext⟩, Int.cast_natCast]
    exact hm
  · rintro ⟨cents, htimes, hcents⟩
    have htimes' : Binary64.round (new * 100) = some cents := htimes
    have hlimit : ¬ Binary64.Reaches (2 ^ 1024) (new * 100) := by
      rw [← Binary64.round_eq_none_iff hproduct, htimes']
      exact Option.some_ne_none cents
    rw [Binary64.round_eq_some hproduct hlimit, Option.some.injEq] at htimes'
    rw [← htimes', hcut] at hcents
    -- the cents are not negative, so they are a natural number
    obtain ⟨m, hm⟩ := Int.eq_ofNat_of_zero_le
      (Int.floor_nonneg.2 (Binary64.nearest_nonneg hproduct))
    obtain ⟨hreach, hnext⟩ := (Binary64.floor_nearest_eq_iff hproduct).1 hm
    rw [hm, Int.cast_natCast] at hcents
    exact ⟨m, hcents, hreach, hnext, hlimit⟩

/-- A whole number of currency units below `2 ^ 46` comes in cents. -/
theorem inCents_natCast {n : ℕ} (hn : n < 2 ^ 46) : InCents n := by
  have hproduct : (n : ℚ) * 100 = ((n * 100 : ℕ) : ℚ) := by push_cast; rfl
  have hnear : Binary64.nearest ((n * 100 : ℕ) : ℚ) = ((n * 100 : ℕ) : ℚ) :=
    Binary64.nearest_natCast (by omega)
  have hordinary : |Binary64.nearest ((n * 100 : ℕ) : ℚ)| ≤ 2 ^ 53 := by
    rw [hnear, abs_of_nonneg (Nat.cast_nonneg _)]
    exact_mod_cast (by omega : n * 100 ≤ 2 ^ 53)
  refine (inCents_iff (Nat.cast_nonneg n)).2 ⟨((n * 100 : ℕ) : ℚ), ?_, Or.inl ?_⟩
  · show Binary64.round _ = _
    rw [hproduct, Binary64.round_eq_nearest hordinary, hnear]
  · rw [pyInt, if_pos (Nat.cast_nonneg _), Int.floor_natCast]
    push_cast
    field_simp

/-- What is written for a request conveys it exactly if Meta's budgets come in cents. -/
theorem conveys_iff {change : Change} (hchange : sentChange .binary64 req = some change) :
    Conveys req change ↔ (req.platform = .meta → req.action = .updateBudget →
      ∀ new, req.newBudget = some new → InCents new) := by
  unfold sentChange at hchange
  split at hchange
  · next haction =>
    cases hchange
    simp [Conveys, haction]
  · next haction =>
    cases hchange
    simp [Conveys, haction]
  · next new haction hnew =>
    have hnonneg := req.new_nonneg new hnew
    split at hchange
    · next hplatform =>
      obtain ⟨cents, htimes, rfl⟩ := Option.map_eq_some_iff.1 hchange
      simp [Conveys, haction, hnew, hplatform, inCents_iff hnonneg, htimes]
    · next hplatform =>
      cases hchange
      simp [Conveys, haction, hnew, hplatform]
  · cases hchange

/-- A budget whose cents overflow does not come in cents. -/
theorem not_sound_of_overflows (h : overflows .binary64 req = true) : ¬ Sound settings req := by
  simp only [overflows, Bool.and_eq_true, decide_eq_true_eq, Option.any_eq_true,
    Option.isNone_iff_eq_none] at h
  obtain ⟨⟨hplatform, haction⟩, new, hnew, hcents⟩ := h
  intro hsound
  obtain ⟨cents, htimes, -⟩ :=
    (inCents_iff (req.new_nonneg new hnew)).1 ((hsound hplatform).2.2 haction new hnew)
  rw [hcents] at htimes
  cases htimes

/-- A write is exact if its platform can name the object and the budget comes in cents. -/
theorem carries_iff_sound {change : Change} {post : HttpPost}
    (hchange : sentChange .binary64 req = some change)
    (hwritten : writtenPost settings req.platform post =
      some ⟨req.platform, accountOf settings req.platform, req.objectId, change⟩) :
    Carries settings req post ↔ Sound settings req := by
  have hread := readPost_eq_written_iff hwritten
  have hcarries : Carries settings req post ↔
      nameable settings req.platform req.objectId = true ∧ Conveys req change := by
    constructor
    · rintro ⟨change', hread', hconveys⟩
      have hsame : change' = change := change_of_readPost hwritten hread'
      rw [hsame] at hread' hconveys
      exact ⟨hread.1 hread', hconveys⟩
    · rintro ⟨hname, hconveys⟩
      exact ⟨change, hread.2 hname, hconveys⟩
  rw [hcarries, conveys_iff hchange, Sound]
  cases hplatform : req.platform with
  | tiktok => simp [nameable]
  | «meta» => simp [nameable, and_assoc]

/-! ## Sequences of requests -/

/-- There are no more writes than live requests. -/
theorem outboundWrites_length_le (ar : Arithmetic) (settings : Settings)
    (respond : HttpPost → Json) (reqs : List ActionRequest) :
    (outboundWrites ar settings respond reqs).length ≤ (reqs.filter (live settings)).length := by
  unfold outboundWrites
  induction reqs with
  | nil => exact Nat.le_refl 0
  | cons req reqs ih =>
    rw [List.flatMap_cons, actions_posts, List.length_append, List.filter_cons]
    cases hsends : sends ar settings req with
    | true =>
      obtain ⟨post, change, hexec, -⟩ := execute_sends respond hsends
      rw [hexec, live_of_sends hsends, if_pos rfl, List.length_singleton, List.length_cons]
      omega
    | false =>
      rw [execute_silent respond hsends, List.length_nil, Nat.zero_add]
      split
      · exact ih.trans (Nat.le_succ _)
      · exact ih

/-- The writes are matched exactly if every live request is sound. -/
theorem matched_iff (settings : Settings) (respond : HttpPost → Json) (reqs : List ActionRequest) :
    List.Forall₂ (Carries settings) (reqs.filter (live settings))
        (outboundWrites .binary64 settings respond reqs) ↔
      ∀ req ∈ reqs, live settings req = true → Sound settings req := by
  induction reqs with
  | nil => exact iff_of_true .nil (fun req hreq => absurd hreq List.not_mem_nil)
  | cons req reqs ih =>
    have hwrites : outboundWrites .binary64 settings respond (req :: reqs) =
        (execute .binary64 settings respond req).2 ++
          outboundWrites .binary64 settings respond reqs := by
      rw [outboundWrites, List.flatMap_cons, actions_posts]
      rfl
    rw [hwrites, List.forall_mem_cons, ← ih, List.filter_cons]
    cases hlive : live settings req with
    | false =>
      -- the request is filtered out, and writes nothing
      obtain ⟨data, hexec⟩ := execute_not_live .binary64 respond hlive
      simp [hexec]
    | true =>
      cases hover : overflows .binary64 req with
      | true =>
        -- the adapter raises: a write is missing, and the budget does not come in cents
        rw [execute_overflow respond hlive hover, if_pos rfl, List.nil_append]
        refine iff_of_false ?_ ?_
        · intro hmatched
          have hlength := hmatched.length_eq
          have hle := outboundWrites_length_le .binary64 settings respond reqs
          rw [List.length_cons] at hlength
          omega
        · rintro ⟨hsound, -⟩
          exact not_sound_of_overflows hover (hsound rfl)
      | false =>
        -- the one write of the request is matched with it
        have hsends : sends .binary64 settings req = true := by
          rw [sends, hlive, hover]
          rfl
        obtain ⟨post, change, hexec, hchange, hwritten⟩ := execute_sends respond hsends
        rw [hexec, if_pos rfl, List.singleton_append, List.forall₂_cons,
          carries_iff_sound hchange hwritten]
        exact and_congr_left' ⟨fun h _ => h, fun h => h rfl⟩

/-- For every value of the settings and every sequence of requests, the writes are exactly the
admitted requests of live and configured platforms, one write each and in order, if and only
if each of these requests that goes to Meta is one whose object and configured version leave
the URL as it is built, and whose new budget comes in cents. -/
theorem outbound_writes_exact_iff (settings : Settings) (respond : HttpPost → Json)
    (reqs : List ActionRequest) :
    ExactWrites settings respond reqs ↔
      ∀ req ∈ reqs, live settings req = true → Sound settings req := by
  constructor
  · intro h
    exact (matched_iff settings respond reqs).1 h.matched
  · intro h
    refine ⟨(matched_iff settings respond reqs).2 h, ?_, ?_⟩
    · intro req _ hallowed haction
      exact newBudget_of_allowed haction hallowed
    · intro req _
      exact execute_ne_typeError .binary64 settings respond req

/-- A live hub with credentials for both platforms. -/
def liveSettings : Settings :=
  { dryRun := false, metaToken := "mt", metaAccountId := "act_1"
    tiktokToken := "tt", tiktokAdvertiserId := "adv" }

/-- The float that `1.15` is read as. -/
def onePointFifteen : ℚ := 2589569785738035 / 2251799813685248

/-- A Meta budget update from 1 to 1.15, within the autonomous limit. -/
def raiseToFifteen : ActionRequest :=
  { platform := .meta, action := .updateBudget, objectId := "456"
    currentBudget := some 1, newBudget := some onePointFifteen
    new_nonneg := by decide +kernel }

/-- The write for it. -/
def centLessPost : HttpPost where
  url := "https://graph.facebook.com/v26.0/456"
  headers := []
  body := .form [("access_token", "mt"), ("daily_budget", "114")]

/-- The product of the floats is 114.99999999999998579. -/
theorem times_onePointFifteen :
    Arithmetic.binary64.times onePointFifteen 100 = some (8092405580431359 / 70368744177664) := by
  have hproduct : onePointFifteen * 100 = 64739244643450875 / 562949953421312 := by
    norm_num [onePointFifteen]
  have hround : Rounding.roundHalfEven (64739244643450875 / 562949953421312 / 2 ^ (-46 : ℤ)) =
      8092405580431359 := by
    apply Rounding.roundHalfEven_unique
    · norm_num [abs_le]
    · norm_num [abs_of_pos]
  have hnear : Binary64.nearest (64739244643450875 / 562949953421312) =
      8092405580431359 / 70368744177664 := by
    rw [Binary64.nearest_eq (e := -46) (by norm_num) (by norm_num) (by norm_num), hround]
    norm_num
  show Binary64.round (onePointFifteen * 100) = _
  rw [hproduct, Binary64.round_eq_nearest (by rw [hnear]; norm_num [abs_of_pos]), hnear]

/-- 114 cents are neither that float nor read as it. -/
theorem not_conveys_cent_less : ¬ Conveys raiseToFifteen (.budget (114 / 100)) := by
  rintro ⟨-, new, hnew, hsame⟩
  obtain rfl : onePointFifteen = new := Option.some.inj hnew
  rcases hsame with heq | hround
  · norm_num [onePointFifteen] at heq
  · -- the double for 1.14 is below 1.141
    have hbelow : Rounding.roundHalfEven (114 / 100 / 2 ^ (-52 : ℤ)) ≤ 5138616987114768 :=
      Rounding.roundHalfEven_le (by norm_num)
    have hnear : Binary64.nearest (114 / 100) =
        Rounding.roundHalfEven (114 / 100 / 2 ^ (-52 : ℤ)) * 2 ^ (-52 : ℤ) :=
      Binary64.nearest_eq (by norm_num) (by norm_num) (by norm_num)
    have hsame : Binary64.nearest (114 / 100) = onePointFifteen := by
      unfold Binary64.round at hround
      split at hround
      · exact Option.some.inj hround
      · cases hround
    have hcast : ((Rounding.roundHalfEven (114 / 100 / 2 ^ (-52 : ℤ)) : ℤ) : ℚ) ≤
        5138616987114768 := by exact_mod_cast hbelow
    have hlow : Binary64.nearest (114 / 100) < onePointFifteen := by
      rw [hnear, onePointFifteen]
      norm_num
      linarith
    exact hlow.ne hsame

theorem adapterExecute_raiseToFifteen :
    adapterExecute .binary64 liveSettings (fun _ => .obj []) raiseToFifteen =
      (.ok (.obj []), [centLessPost]) := by
  have hcents : pyInt (8092405580431359 / 70368744177664) = 114 := by
    rw [pyInt, if_pos (by norm_num)]
    norm_num
  have hfield : MetaAdapter.field .binary64 raiseToFifteen = .ok ("daily_budget", "114") := by
    simp only [MetaAdapter.field, raiseToFifteen, times_onePointFifteen, hcents]
    rfl
  have hlive : (liveSettings.dryRun || !MetaAdapter.configured liveSettings) = false := by decide
  have hurl : metaBase liveSettings ++ raiseToFifteen.objectId =
      "https://graph.facebook.com/v26.0/456" := by decide
  show MetaAdapter.execute .binary64 liveSettings (fun _ => .obj []) raiseToFifteen = _
  simp only [MetaAdapter.execute, hlive, hfield, hurl]
  rfl

/-- A raise to 1.15 is written, and read, as one to 1.14. -/
theorem meta_budget_loses_a_cent :
    raiseToFifteen.newBudget = some onePointFifteen ∧
      outboundWrites .binary64 liveSettings (fun _ => .obj []) [raiseToFifteen] = [centLessPost] ∧
      readPost liveSettings .meta centLessPost =
        some ⟨.meta, none, "456", .budget (114 / 100)⟩ ∧
      ¬ ExactWrites liveSettings (fun _ => .obj []) [raiseToFifteen] := by
  have hallowed : (evaluateAction liveSettings raiseToFifteen).allowed = true := by decide +kernel
  have hwrites : outboundWrites .binary64 liveSettings (fun _ => .obj []) [raiseToFifteen] =
      [centLessPost] := by
    simp only [outboundWrites, List.flatMap_cons, List.flatMap_nil, List.append_nil, actions_posts,
      execute, hallowed, if_true, adapterExecute_raiseToFifteen]
  have hread : readPost liveSettings .meta centLessPost =
      some ⟨.meta, none, "456", .budget (114 / 100)⟩ := by decide +kernel
  refine ⟨rfl, hwrites, hread, ?_⟩
  intro hexact
  have hlive : live liveSettings raiseToFifteen = true := by decide +kernel
  have hmatched := hexact.matched
  rw [hwrites, List.filter_cons_of_pos hlive, List.forall₂_cons] at hmatched
  obtain ⟨⟨change, hread', hconveys⟩, -⟩ := hmatched
  obtain rfl : Change.budget (114 / 100) = change := by
    have hsame := hread.symm.trans hread'
    exact congrArg Effect.change (Option.some.inj hsame)
  exact not_conveys_cent_less hconveys

end AdsHub
