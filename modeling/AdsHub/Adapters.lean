import AdsHub.Lib.Rounding
import AdsHub.Lib.Text
import AdsHub.Lib.Url
import AdsHub.Http
import AdsHub.Core.Policy

/-!
# AdsHub.Adapters — the two platform adapters

`execute` of `app/adapters/meta.py` and `app/adapters/tiktok.py`: what is written
to which platform for an admitted request. Each returns its answer together with
the writes it has sent; `respond` is the platform's JSON answer to a write (the
transport is taken to succeed). Meta's budget goes through a product of floats, so
its adapter takes the arithmetic as an argument: `Arithmetic.binary64` is the one
Python has, `Arithmetic.exact` the one of statements in exact arithmetic.

The other half is what the platforms make of a write: `readMeta` and `readTiktok`
take a write apart completely (every part of the URL and of the body is accounted
for) and say which object it names and what it carries. TikTok's object stands in
the body. Meta's is put into the URL as it is, so what the write was meant for
(`writtenMeta`) and what Meta reads may differ: they agree if the object is `nameable`.
-/

namespace AdsHub

/-- The exceptions that a Python operation of an adapter can raise here: arithmetic on
`None`, and `int` of an infinity. -/
inductive PyError where
  | typeError
  | overflowError
deriving DecidableEq, Repr

/-- How two amounts are multiplied; none is an infinity. -/
structure Arithmetic where
  times : ℚ → ℚ → Option ℚ

/-- Without rounding. -/
def Arithmetic.exact : Arithmetic where
  times x y := some (x * y)

/-- Python's floats: the product is rounded to the nearest double. -/
def Arithmetic.binary64 : Arithmetic where
  times x y := Binary64.round (x * y)

/-- `int(x)`: truncation towards zero. -/
def pyInt (x : ℚ) : ℤ := if 0 ≤ x then ⌊x⌋ else ⌈x⌉

/-! ## Writing -/

/-- `{"simulated": True, "action": req.action, "object_id": req.object_id}`. -/
def simulated (req : ActionRequest) : Json :=
  .obj [("simulated", .bool true), ("action", .str req.action.text),
    ("object_id", .str req.objectId)]

/-- `MetaAdapter.configured`. -/
def MetaAdapter.configured (settings : Settings) : Bool :=
  settings.metaToken != "" && settings.metaAccountId != ""

/-- `TikTokAdapter.configured`. -/
def TikTokAdapter.configured (settings : Settings) : Bool :=
  settings.tiktokToken != "" && settings.tiktokAdvertiserId != ""

/-- `adapters[platform].configured`. -/
def configured (settings : Settings) : Platform → Bool
  | .meta => MetaAdapter.configured settings
  | .tiktok => TikTokAdapter.configured settings

/-- The part of the Meta URL in front of the object id. -/
def metaBase (settings : Settings) : String :=
  "https://graph.facebook.com/" ++ settings.metaGraphVersion ++ "/"

/-- The field that `MetaAdapter.execute` adds to the form for an action. -/
def MetaAdapter.field (ar : Arithmetic) (req : ActionRequest) :
    Except PyError (String × String) :=
  match req.action, req.newBudget with
  | .pauseCampaign, _ => .ok ("status", "PAUSED")
  | .activateCampaign, _ => .ok ("status", "ACTIVE")
  | .updateBudget, some new =>
    match ar.times new 100 with
    | some cents => .ok ("daily_budget", toString (pyInt cents))
    | none => .error .overflowError
  | .updateBudget, none => .error .typeError

/-- `MetaAdapter.execute`. -/
def MetaAdapter.execute (ar : Arithmetic) (settings : Settings) (respond : HttpPost → Json)
    (req : ActionRequest) : Except PyError Json × List HttpPost :=
  if settings.dryRun || !MetaAdapter.configured settings then (.ok (simulated req), [])
  else
    match MetaAdapter.field ar req with
    | .error e => (.error e, [])
    | .ok field =>
      let post : HttpPost :=
        { url := metaBase settings ++ req.objectId
          headers := []
          body := .form [("access_token", settings.metaToken), field] }
      (.ok (respond post), [post])

/-- `TikTokAdapter.headers`. -/
def TikTokAdapter.headers (settings : Settings) : List (String × String) :=
  [("Access-Token", settings.tiktokToken), ("Content-Type", "application/json")]

/-- A nullable number of a JSON body. -/
def jsonNumber : Option ℚ → Json
  | none => .null
  | some b => .num b

/-- The write of `TikTokAdapter.execute`. -/
def TikTokAdapter.post (settings : Settings) (req : ActionRequest) : HttpPost :=
  match req.action with
  | .updateBudget =>
    { url := settings.tiktokApiBase ++ "/campaign/update/"
      headers := TikTokAdapter.headers settings
      body := .json [("advertiser_id", .str settings.tiktokAdvertiserId),
        ("campaign_id", .str req.objectId), ("budget", jsonNumber req.newBudget)] }
  | _ =>
    { url := settings.tiktokApiBase ++ "/campaign/status/update/"
      headers := TikTokAdapter.headers settings
      body := .json [("advertiser_id", .str settings.tiktokAdvertiserId),
        ("campaign_ids", .arr [.str req.objectId]),
        ("operation_status",
          .str (if req.action = .pauseCampaign then "DISABLE" else "ENABLE"))] }

/-- `TikTokAdapter.execute`. -/
def TikTokAdapter.execute (settings : Settings) (respond : HttpPost → Json) (req : ActionRequest) :
    Except PyError Json × List HttpPost :=
  if settings.dryRun || !TikTokAdapter.configured settings then (.ok (simulated req), [])
  else (.ok (respond (TikTokAdapter.post settings req)), [TikTokAdapter.post settings req])

/-- `adapters[platform].execute`. -/
def adapterExecute (ar : Arithmetic) (settings : Settings) (respond : HttpPost → Json)
    (req : ActionRequest) : Except PyError Json × List HttpPost :=
  match req.platform with
  | .meta => MetaAdapter.execute ar settings respond req
  | .tiktok => TikTokAdapter.execute settings respond req

/-! ## Reading -/

/-- What a write asks of a campaign. -/
inductive Change where
  | pause
  | activate
  | budget (amount : ℚ)
deriving DecidableEq

/-- A write as its platform reads it: the account it names (`none` where the API
takes it from the token), the one object it names, and what it carries. -/
structure Effect where
  platform : Platform
  account : Option String
  objectId : String
  change : Change
deriving DecidableEq

/-- The field of a Meta form; budgets come in cents, an integer in decimal. -/
def readMetaField (field : String × String) : Option Change :=
  let cents := Text.intValue field.2.toList
  if field = ("status", "PAUSED") then some .pause
  else if field = ("status", "ACTIVE") then some .activate
  else if field.1 = "daily_budget" ∧ field.2.toList = Text.intText cents then
    some (.budget (cents / 100))
  else none

/-- A Meta write as it was put together: the token, one field, and the object as the text
behind the base of the URL. -/
def writtenMeta (settings : Settings) (post : HttpPost) : Option Effect :=
  match post.headers, post.body, Text.after (metaBase settings) post.url with
  | [], .form [credential, field], some objectId =>
    if credential = ("access_token", settings.metaToken) then
      (readMetaField field).map (fun change => ⟨.meta, none, objectId, change⟩)
    else none
  | _, _, _ => none

/-- The object that a URL names: the one segment of its path behind the base. -/
def metaObject (settings : Settings) (url : String) : Option String :=
  ((Url.path url).bind (Text.after (metaBase settings))).filter Url.plainSegment

/-- A Meta write as Meta reads it: of the URL, only the path names the object. -/
def readMeta (settings : Settings) (post : HttpPost) : Option Effect :=
  (writtenMeta settings post).bind (fun effect =>
    (metaObject settings post.url).map (fun objectId => { effect with objectId := objectId }))

/-- `operation_status` of a TikTok write. -/
def readOperationStatus (op : String) : Option Change :=
  if op = "DISABLE" then some .pause else if op = "ENABLE" then some .activate else none

/-- A TikTok write: the account, one campaign, and a status or a budget. -/
def readTiktok (settings : Settings) (post : HttpPost) : Option Effect :=
  match post.body, Text.after settings.tiktokApiBase post.url with
  | .json [(k₁, .str account), (k₂, .arr [.str objectId]), (k₃, .str op)], some path =>
    if post.headers = TikTokAdapter.headers settings ∧ path = "/campaign/status/update/"
        ∧ [k₁, k₂, k₃] = ["advertiser_id", "campaign_ids", "operation_status"] then
      (readOperationStatus op).map (fun change => ⟨.tiktok, some account, objectId, change⟩)
    else none
  | .json [(k₁, .str account), (k₂, .str objectId), (k₃, .num amount)], some path =>
    if post.headers = TikTokAdapter.headers settings ∧ path = "/campaign/update/"
        ∧ [k₁, k₂, k₃] = ["advertiser_id", "campaign_id", "budget"] then
      some ⟨.tiktok, some account, objectId, .budget amount⟩
    else none
  | _, _ => none

/-- The write as it was put together for its platform. -/
def writtenPost (settings : Settings) : Platform → HttpPost → Option Effect
  | .meta => writtenMeta settings
  | .tiktok => readTiktok settings

/-- The write as its platform reads it. -/
def readPost (settings : Settings) : Platform → HttpPost → Option Effect
  | .meta => readMeta settings
  | .tiktok => readTiktok settings

/-- The URL that the hub builds for the object names that object. TikTok's object is not in
the URL. -/
def nameable (settings : Settings) : Platform → String → Bool
  | .meta, objectId => Url.pathText settings.metaGraphVersion && Url.plainSegment objectId
  | .tiktok, _ => true

/-! ## What the writes carry -/

/-- An amount in whole cents, the rest cut off: what Meta's integer field holds. -/
def wholeCents (amount : ℚ) : ℚ := (⌊amount * 100⌋ : ℤ) / 100

/-- The change that the write for a request carries: Meta's budget is the product of the
floats, cut to an integer. -/
def sentChange (ar : Arithmetic) (req : ActionRequest) : Option Change :=
  match req.action, req.newBudget with
  | .pauseCampaign, _ => some .pause
  | .activateCampaign, _ => some .activate
  | .updateBudget, some new =>
    if req.platform = .meta then (ar.times new 100).map (fun cents => .budget (pyInt cents / 100))
    else some (.budget new)
  | .updateBudget, none => none

/-- The request sets the budget of a Meta campaign to so much that its cents are an
infinity. -/
def overflows (ar : Arithmetic) (req : ActionRequest) : Bool :=
  req.platform = .meta && req.action = .updateBudget &&
    req.newBudget.any (fun new => (ar.times new 100).isNone)

/-- The account that a write names: TikTok's advertiser. -/
def accountOf (settings : Settings) : Platform → Option String
  | .meta => none
  | .tiktok => some settings.tiktokAdvertiserId

theorem wholeCents_le (amount : ℚ) : wholeCents amount ≤ amount := by
  have h := Int.floor_le (amount * 100)
  unfold wholeCents
  linarith

/-- In exact arithmetic the cents of an amount are cut, and never an infinity. -/
theorem sentChange_exact {req : ActionRequest} {new : ℚ} (haction : req.action = .updateBudget)
    (hnew : req.newBudget = some new) :
    sentChange .exact req = some (.budget (if req.platform = .meta then wholeCents new else new)) := by
  have hnonneg : 0 ≤ new * 100 := mul_nonneg (req.new_nonneg new hnew) (by norm_num)
  cases hplatform : req.platform with
  | «meta» =>
    simp [sentChange, haction, hnew, hplatform, Arithmetic.exact, pyInt, hnonneg, wholeCents]
  | tiktok => simp [sentChange, haction, hnew, hplatform]

theorem overflows_exact (req : ActionRequest) : overflows .exact req = false := by
  simp [overflows, Arithmetic.exact]

/-! ## What Meta makes of a URL -/

/-- The base of the URL stays in the path if the configured version does. -/
theorem pathText_metaBase (settings : Settings) :
    Url.pathText (metaBase settings) = Url.pathText settings.metaGraphVersion := by
  have hhost : Url.pathText "https://graph.facebook.com/" = true := by decide +kernel
  have hslash : Url.pathText "/" = true := by decide
  calc Url.pathText (metaBase settings)
      = (Url.pathText ("https://graph.facebook.com/" ++ settings.metaGraphVersion) &&
          Url.pathText "/") := Url.pathText_append _ _
    _ = Url.pathText ("https://graph.facebook.com/" ++ settings.metaGraphVersion) := by
        rw [hslash, Bool.and_true]
    _ = (Url.pathText "https://graph.facebook.com/" && Url.pathText settings.metaGraphVersion) :=
        Url.pathText_append _ _
    _ = Url.pathText settings.metaGraphVersion := by rw [hhost, Bool.true_and]

/-- The URL built for an object names it exactly if the object is nameable. -/
theorem metaObject_eq_self_iff (settings : Settings) (objectId : String) :
    metaObject settings (metaBase settings ++ objectId) = some objectId ↔
      nameable settings .meta objectId = true := by
  rw [nameable, Bool.and_eq_true, ← pathText_metaBase]
  constructor
  · intro h
    obtain ⟨hafter, hplain⟩ := Option.filter_eq_some_iff.1 h
    obtain ⟨p, hpath, hp⟩ := Option.bind_eq_some_iff.1 hafter
    -- what is left of the URL still starts with the base
    exact ⟨Url.pathText_of_after (Url.pathText_of_path hpath) hp, hplain⟩
  · rintro ⟨hbase, hplain⟩
    have hurl : Url.pathText (metaBase settings ++ objectId) = true := by
      rw [Url.pathText_append, hbase, Url.pathText_of_plainSegment hplain]
      rfl
    rw [metaObject, Url.path_eq_self hurl, Option.bind_some, Text.after_append,
      Option.filter_some_pos hplain]

/-- The object of a Meta write stands behind the base of its URL. -/
theorem url_of_writtenMeta {settings : Settings} {post : HttpPost} {effect : Effect}
    (h : writtenMeta settings post = some effect) :
    post.url = metaBase settings ++ effect.objectId := by
  unfold writtenMeta at h
  split at h
  · next hafter =>
    split at h
    · obtain ⟨change, -, rfl⟩ := Option.map_eq_some_iff.1 h
      exact Text.eq_append_of_after hafter
    · cases h
  · cases h

/-- A platform reads a write as it was meant exactly if it can name its object. -/
theorem readPost_eq_written_iff {settings : Settings} {platform : Platform} {post : HttpPost}
    {effect : Effect} (h : writtenPost settings platform post = some effect) :
    readPost settings platform post = some effect ↔
      nameable settings platform effect.objectId = true := by
  cases platform with
  | tiktok =>
    have hread : readPost settings .tiktok post = some effect := h
    simp [hread, nameable]
  | «meta» =>
    have hwritten : writtenMeta settings post = some effect := h
    rw [← metaObject_eq_self_iff, ← url_of_writtenMeta hwritten]
    show readMeta settings post = some effect ↔ _
    rw [readMeta, hwritten, Option.bind_some]
    constructor
    · intro hread
      obtain ⟨objectId, hobject, heq⟩ := Option.map_eq_some_iff.1 hread
      rw [hobject, ← heq]
    · intro hobject
      rw [hobject]
      rfl

/-- Whatever object a platform reads, it reads the change as it was meant. -/
theorem change_of_readPost {settings : Settings} {platform : Platform} {post : HttpPost}
    {effect effect' : Effect} (h : writtenPost settings platform post = some effect)
    (hread : readPost settings platform post = some effect') : effect'.change = effect.change := by
  cases platform with
  | tiktok =>
    have hsame : effect = effect' := Option.some.inj (h.symm.trans hread)
    rw [hsame]
  | «meta» =>
    have hwritten : writtenMeta settings post = some effect := h
    have hread' : readMeta settings post = some effect' := hread
    rw [readMeta, hwritten, Option.bind_some] at hread'
    obtain ⟨objectId, -, rfl⟩ := Option.map_eq_some_iff.1 hread'
    rfl

/-! ## What an adapter does -/

variable {ar : Arithmetic} {settings : Settings} {req : ActionRequest}

/-- The form field of a Meta write carries the change; without a change there is no field. -/
theorem readMetaField_field (hplatform : req.platform = .meta) {field : String × String}
    (h : MetaAdapter.field ar req = .ok field) : readMetaField field = sentChange ar req := by
  unfold MetaAdapter.field at h
  unfold sentChange
  cases haction : req.action with
  | pauseCampaign =>
    simp only [haction, Except.ok.injEq] at h
    subst h
    rfl
  | activateCampaign =>
    simp only [haction, Except.ok.injEq] at h
    subst h
    simp [readMetaField]
  | updateBudget =>
    cases hnew : req.newBudget with
    | none => simp [haction, hnew] at h
    | some new =>
      cases hcents : ar.times new 100 with
      | none => simp [haction, hnew, hcents] at h
      | some cents =>
        simp only [haction, hnew, hcents, Except.ok.injEq] at h
        subst h
        -- the text of an integer is read back as that integer
        simp [readMetaField, hcents, hplatform]

/-- The adapter raises for a budget that is missing or too large, and for nothing else. -/
theorem field_error {e : PyError} (h : MetaAdapter.field ar req = .error e) :
    req.action = .updateBudget ∧
      (req.newBudget = none ∧ e = .typeError ∨
        ∃ new, req.newBudget = some new ∧ ar.times new 100 = none ∧ e = .overflowError) := by
  unfold MetaAdapter.field at h
  split at h
  · cases h
  · cases h
  · next new haction hnew =>
    split at h
    · cases h
    · next hcents =>
      cases h
      exact ⟨haction, Or.inr ⟨new, hnew, hcents, rfl⟩⟩
  · next haction hnew =>
    cases h
    exact ⟨haction, Or.inl ⟨hnew, rfl⟩⟩

/-- A change is there unless the budget is missing or overflows. -/
theorem sentChange_isSome (hbudget : req.action = .updateBudget → ∃ new, req.newBudget = some new)
    (h : overflows ar req = false) : ∃ change, sentChange ar req = some change := by
  unfold sentChange
  cases haction : req.action with
  | pauseCampaign => exact ⟨_, rfl⟩
  | activateCampaign => exact ⟨_, rfl⟩
  | updateBudget =>
    obtain ⟨new, hnew⟩ := hbudget haction
    cases hplatform : req.platform with
    | tiktok => simp [hnew]
    | «meta» =>
      simp only [overflows, haction, hnew, hplatform, decide_true, Bool.true_and, Option.any_some,
        Option.isNone_eq_false_iff] at h
      obtain ⟨cents, hcents⟩ := Option.isSome_iff_exists.1 h
      simp [hnew, hcents]

/-- Live Meta: one write, put together for the object of the request, with its change. -/
theorem metaExecute_live {change : Change} (respond : HttpPost → Json)
    (hplatform : req.platform = .meta) (hdry : settings.dryRun = false)
    (hconf : MetaAdapter.configured settings = true) (hchange : sentChange ar req = some change) :
    ∃ post, MetaAdapter.execute ar settings respond req = (.ok (respond post), [post]) ∧
      writtenPost settings .meta post = some ⟨.meta, none, req.objectId, change⟩ := by
  cases hfield : MetaAdapter.field ar req with
  | error e =>
    -- whatever makes the adapter raise leaves nothing to send
    obtain ⟨haction, ⟨hnew, -⟩ | ⟨new, hnew, hcents, -⟩⟩ := field_error hfield
    · simp [sentChange, haction, hnew] at hchange
    · simp [sentChange, haction, hnew, hplatform, hcents] at hchange
  | ok field =>
    have hread := readMetaField_field hplatform hfield
    rw [hchange] at hread
    refine ⟨{ url := metaBase settings ++ req.objectId, headers := []
              body := .form [("access_token", settings.metaToken), field] }, ?_, ?_⟩
    · simp [MetaAdapter.execute, hdry, hconf, hfield]
    · simp [writtenPost, writtenMeta, hread]

/-- Live TikTok: one write, for the campaign of the request, with its change. -/
theorem tiktokExecute_live {change : Change} (respond : HttpPost → Json)
    (hplatform : req.platform = .tiktok) (hdry : settings.dryRun = false)
    (hconf : TikTokAdapter.configured settings = true) (hchange : sentChange ar req = some change) :
    ∃ post, TikTokAdapter.execute settings respond req = (.ok (respond post), [post]) ∧
      writtenPost settings .tiktok post =
        some ⟨.tiktok, some settings.tiktokAdvertiserId, req.objectId, change⟩ := by
  refine ⟨TikTokAdapter.post settings req, ?_, ?_⟩
  · simp [TikTokAdapter.execute, hdry, hconf]
  · unfold sentChange at hchange
    unfold TikTokAdapter.post
    cases haction : req.action with
    | pauseCampaign =>
      simp only [haction, Option.some.injEq] at hchange
      simp [writtenPost, readTiktok, readOperationStatus, ← hchange]
    | activateCampaign =>
      simp only [haction, Option.some.injEq] at hchange
      simp [writtenPost, readTiktok, readOperationStatus, ← hchange]
    | updateBudget =>
      cases hnew : req.newBudget with
      | none => simp [haction, hnew] at hchange
      | some new =>
        simp only [haction, hnew, hplatform, reduceCtorEq, if_false, Option.some.injEq] at hchange
        simp [writtenPost, readTiktok, jsonNumber, ← hchange]

/-- Live, with credentials: exactly one write, put together as the request. -/
theorem adapterExecute_live {change : Change} (respond : HttpPost → Json)
    (hdry : settings.dryRun = false) (hconf : configured settings req.platform = true)
    (hchange : sentChange ar req = some change) :
    ∃ post, adapterExecute ar settings respond req = (.ok (respond post), [post]) ∧
      writtenPost settings req.platform post =
        some ⟨req.platform, accountOf settings req.platform, req.objectId, change⟩ := by
  unfold adapterExecute
  cases hplatform : req.platform with
  | «meta» =>
    rw [hplatform] at hconf
    exact metaExecute_live respond hplatform hdry hconf hchange
  | tiktok =>
    rw [hplatform] at hconf
    exact tiktokExecute_live respond hplatform hdry hconf hchange

/-- Live, with a budget whose cents overflow: an exception, and no write. -/
theorem adapterExecute_overflow (respond : HttpPost → Json) (hdry : settings.dryRun = false)
    (hconf : configured settings req.platform = true) (h : overflows ar req = true) :
    adapterExecute ar settings respond req = (.error .overflowError, []) := by
  simp only [overflows, Bool.and_eq_true, decide_eq_true_eq, Option.any_eq_true,
    Option.isNone_iff_eq_none] at h
  obtain ⟨⟨hplatform, haction⟩, new, hnew, hcents⟩ := h
  have hfield : MetaAdapter.field ar req = .error .overflowError := by
    simp [MetaAdapter.field, haction, hnew, hcents]
  rw [hplatform] at hconf
  have hconf' : MetaAdapter.configured settings = true := hconf
  simp [adapterExecute, hplatform, MetaAdapter.execute, hdry, hconf', hfield]

/-- In dry run or without credentials: a simulated answer and no write. -/
theorem adapterExecute_simulated (respond : HttpPost → Json)
    (h : (!settings.dryRun && configured settings req.platform) = false) :
    adapterExecute ar settings respond req = (.ok (simulated req), []) := by
  unfold adapterExecute
  cases hplatform : req.platform with
  | «meta» =>
    rw [hplatform] at h
    cases hdry : settings.dryRun <;> simp_all [MetaAdapter.execute, configured]
  | tiktok =>
    rw [hplatform] at h
    cases hdry : settings.dryRun <;> simp_all [TikTokAdapter.execute, configured]

end AdsHub
