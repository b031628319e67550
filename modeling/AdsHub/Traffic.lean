import AdsHub.Service

/-!
# AdsHub.Traffic — all that the hub says to the platforms

The requests that reach an adapter: `GET /health`, `GET /v1/platforms`,
`GET /v1/campaigns/{platform}` and `POST /v1/actions`, in any sequence. The first two make
no call at all; a listing is one `GET` and an admitted action one `POST`, if the hub is
live and the platform has its credentials.

* `credentials_confined`: nothing depends on the value of a token but the one place in a
  call to its own platform that carries it.
* `health_tells_traffic`: `/health` says which platforms are talked to, and every call is
  for one request, to its platform and with its account. The one request that is passed on
  and makes no call is a Meta budget whose cents overflow.

Both hold in every arithmetic.
-/

namespace AdsHub

/-- `client.get(url, headers=..., params=...)`. -/
structure HttpGet where
  url : String
  headers : List (String × String)
  params : List (String × String)

/-- A call to a platform. -/
inductive HttpCall where
  | get (call : HttpGet)
  | post (call : HttpPost)

/-! ## The adapters -/

/-- `str.removeprefix`. -/
def dropStart (start s : String) : String := (Text.after start s).getD s

/-- The `mode` of an adapter. -/
def mode (settings : Settings) : String := if settings.dryRun then "dry-run" else "live"

/-- The `health` of an adapter. -/
def healthOf (settings : Settings) (platform : Platform) (configured : Bool) : Json :=
  .obj [("platform", .str platform.text), ("configured", .bool configured),
    ("mode", .str (mode settings))]

/-- `MetaAdapter.health`. -/
def MetaAdapter.health (settings : Settings) : Json :=
  healthOf settings .meta (MetaAdapter.configured settings)

/-- `TikTokAdapter.health`. -/
def TikTokAdapter.health (settings : Settings) : Json :=
  healthOf settings .tiktok (TikTokAdapter.configured settings)

/-- The listing of `MetaAdapter.list_campaigns`. -/
def MetaAdapter.listing (settings : Settings) : HttpGet where
  url := metaBase settings ++ "act_" ++ dropStart "act_" settings.metaAccountId ++ "/campaigns"
  headers := []
  params := [("access_token", settings.metaToken),
    ("fields", "id,name,status,effective_status,daily_budget,lifetime_budget"), ("limit", "100")]

/-- `MetaAdapter.list_campaigns`. -/
def MetaAdapter.listCampaigns (settings : Settings) (fetch : HttpGet → Json) :
    Json × List HttpGet :=
  if settings.dryRun || !MetaAdapter.configured settings then
    (.obj [("data", .arr []), ("dry_run", .bool true),
      ("configured", .bool (MetaAdapter.configured settings))], [])
  else (fetch (MetaAdapter.listing settings), [MetaAdapter.listing settings])

/-- The listing of `TikTokAdapter.list_campaigns`. -/
def TikTokAdapter.listing (settings : Settings) : HttpGet where
  url := settings.tiktokApiBase ++ "/campaign/get/"
  headers := TikTokAdapter.headers settings
  params := [("advertiser_id", settings.tiktokAdvertiserId), ("page_size", "100")]

/-- `TikTokAdapter.list_campaigns`. -/
def TikTokAdapter.listCampaigns (settings : Settings) (fetch : HttpGet → Json) :
    Json × List HttpGet :=
  if settings.dryRun || !TikTokAdapter.configured settings then
    (.obj [("data", .obj [("list", .arr [])]), ("dry_run", .bool true),
      ("configured", .bool (TikTokAdapter.configured settings))], [])
  else (fetch (TikTokAdapter.listing settings), [TikTokAdapter.listing settings])

/-- `list_campaigns`. -/
def listCampaigns (settings : Settings) (fetch : HttpGet → Json) : Platform → Json × List HttpGet
  | .meta => MetaAdapter.listCampaigns settings fetch
  | .tiktok => TikTokAdapter.listCampaigns settings fetch

/-! ## The endpoints -/

/-- A request to one of the endpoints. -/
inductive HubRequest where
  | health
  | platforms
  | campaigns (platform : Platform)
  | actions (req : ActionRequest)

/-- The answer of an endpoint. -/
inductive HubAnswer where
  | json (body : Json)
  | action (outcome : Except ActionError Executed)

/-- What lies outside the adapters: how the platforms answer, and what `cockpit_state` and
`model_policy` return. -/
structure Upstream where
  fetch : HttpGet → Json
  respond : HttpPost → Json
  cockpit : Json
  modelRouter : Json

/-- `health_all`. -/
def healthAll (settings : Settings) (upstream : Upstream) : Json :=
  .obj [("service", .str "ads-ai-hub"), ("version", .str "0.3.0"), ("status", .str "ok"),
    ("environment", .str settings.environment), ("dry_run", .bool settings.dryRun),
    ("platforms", .arr [MetaAdapter.health settings, TikTokAdapter.health settings]),
    ("cockpit", upstream.cockpit), ("model_router", upstream.modelRouter)]

/-- The answer to a request, with the calls that are made for it. -/
def serveHub (ar : Arithmetic) (settings : Settings) (upstream : Upstream) :
    HubRequest → HubAnswer × List HttpCall
  | .health => (.json (healthAll settings upstream), [])
  | .platforms => (.json (.obj [("platforms", .arr [.str "meta", .str "tiktok"])]), [])
  | .campaigns platform =>
    let (body, calls) := listCampaigns settings upstream.fetch platform
    (.json body, calls.map .get)
  | .actions req =>
    let (outcome, posts) := AdsHub.actions ar settings upstream.respond req
    (.action outcome, posts.map .post)

/-- The calls that a sequence of requests causes, in order. -/
def traffic (ar : Arithmetic) (settings : Settings) (upstream : Upstream)
    (reqs : List HubRequest) : List HttpCall :=
  reqs.flatMap (fun req => (serveHub ar settings upstream req).2)

/-! ## Tokens -/

/-- The settings with other tokens. -/
def Settings.withTokens (settings : Settings) (metaToken tiktokToken : String) : Settings :=
  { settings with metaToken := metaToken, tiktokToken := tiktokToken }

/-- The fields with another value for the key `name`. -/
def replaceValue (name value : String) (fields : List (String × String)) : List (String × String) :=
  fields.map (fun f => if f.1 = name then (name, value) else f)

/-- The form with another Meta token; a JSON body has none. -/
def Body.retoken (metaToken : String) : Body → Body
  | .form fields => .form (replaceValue "access_token" metaToken fields)
  | .json fields => .json fields

def HttpGet.retoken (metaToken tiktokToken : String) (call : HttpGet) : HttpGet where
  url := call.url
  headers := replaceValue "Access-Token" tiktokToken call.headers
  params := replaceValue "access_token" metaToken call.params

def HttpPost.retoken (metaToken tiktokToken : String) (call : HttpPost) : HttpPost where
  url := call.url
  headers := replaceValue "Access-Token" tiktokToken call.headers
  body := call.body.retoken metaToken

/-- The call with other tokens in the two places that carry one. -/
def HttpCall.retoken (metaToken tiktokToken : String) : HttpCall → HttpCall
  | .get call => .get (call.retoken metaToken tiktokToken)
  | .post call => .post (call.retoken metaToken tiktokToken)

/-- The platforms answer alike under either tokens. -/
structure Upstream.TokenBlind (upstream : Upstream) (metaToken tiktokToken : String) : Prop where
  fetch : ∀ call, upstream.fetch (call.retoken metaToken tiktokToken) = upstream.fetch call
  respond : ∀ call, upstream.respond (call.retoken metaToken tiktokToken) = upstream.respond call

section

variable {settings : Settings} {metaToken tiktokToken : String}
  (hmeta : metaToken = "" ↔ settings.metaToken = "")
  (htiktok : tiktokToken = "" ↔ settings.tiktokToken = "")

include hmeta htiktok

theorem configured_withTokens (platform : Platform) :
    configured (settings.withTokens metaToken tiktokToken) platform =
      configured settings platform := by
  have hm : (metaToken != "") = (settings.metaToken != "") := by
    rw [Bool.eq_iff_iff, bne_iff_ne, bne_iff_ne, Ne, Ne, hmeta]
  have ht : (tiktokToken != "") = (settings.tiktokToken != "") := by
    rw [Bool.eq_iff_iff, bne_iff_ne, bne_iff_ne, Ne, Ne, htiktok]
  cases platform with
  | «meta» =>
    simp only [configured, MetaAdapter.configured, Settings.withTokens]
    rw [hm]
  | tiktok =>
    simp only [configured, TikTokAdapter.configured, Settings.withTokens]
    rw [ht]

end

section

variable (settings : Settings) (metaToken tiktokToken : String)

/-- The field beside the token of a Meta form is not a token. -/
theorem field_not_token {ar : Arithmetic} {req : ActionRequest} {field : String × String}
    (h : MetaAdapter.field ar req = .ok field) : field.1 ≠ "access_token" := by
  unfold MetaAdapter.field at h
  split at h
  · cases h
    decide
  · cases h
    decide
  · split at h
    · cases h
      show "daily_budget" ≠ "access_token"
      decide
    · cases h
  · cases h

theorem tiktokPost_withTokens (req : ActionRequest) :
    TikTokAdapter.post (settings.withTokens metaToken tiktokToken) req =
      (TikTokAdapter.post settings req).retoken metaToken tiktokToken := by
  unfold TikTokAdapter.post
  split
  · rfl
  · rfl

theorem metaListing_withTokens :
    MetaAdapter.listing (settings.withTokens metaToken tiktokToken) =
      (MetaAdapter.listing settings).retoken metaToken tiktokToken := rfl

theorem tiktokListing_withTokens :
    TikTokAdapter.listing (settings.withTokens metaToken tiktokToken) =
      (TikTokAdapter.listing settings).retoken metaToken tiktokToken := rfl

/-- The write of a Meta action. -/
theorem metaPost_withTokens {field : String × String} (h : field.1 ≠ "access_token")
    (url : String) :
    HttpPost.mk url [] (.form [("access_token", metaToken), field]) =
      (HttpPost.mk url [] (.form [("access_token", settings.metaToken), field])).retoken
        metaToken tiktokToken := by
  simp [HttpPost.retoken, Body.retoken, replaceValue, h]

end

section

variable {settings : Settings} {metaToken tiktokToken : String} {upstream : Upstream}
  (hmeta : metaToken = "" ↔ settings.metaToken = "")
  (htiktok : tiktokToken = "" ↔ settings.tiktokToken = "")
  (hblind : upstream.TokenBlind metaToken tiktokToken)

include hmeta htiktok hblind

/-- An adapter answers alike, and what it writes differs in the token. -/
theorem adapterExecute_withTokens (ar : Arithmetic) (req : ActionRequest) :
    adapterExecute ar (settings.withTokens metaToken tiktokToken) upstream.respond req =
      ((adapterExecute ar settings upstream.respond req).1,
        (adapterExecute ar settings upstream.respond req).2.map
          (HttpPost.retoken metaToken tiktokToken)) := by
  have hconf := configured_withTokens hmeta htiktok req.platform
  have hdry : (settings.withTokens metaToken tiktokToken).dryRun = settings.dryRun := rfl
  unfold adapterExecute
  cases hplatform : req.platform with
  | «meta» =>
    rw [hplatform, configured, configured] at hconf
    simp only [MetaAdapter.execute, hdry, hconf]
    split
    · rfl
    · cases hfield : MetaAdapter.field ar req with
      | error e => rfl
      | ok field =>
        -- the two posts differ in the token field, which the platform answers blind to
        have hpost := metaPost_withTokens settings metaToken tiktokToken (field_not_token hfield)
          (metaBase settings ++ req.objectId)
        have hanswer := hblind.respond
          ⟨metaBase settings ++ req.objectId, [], .form [("access_token", settings.metaToken), field]⟩
        rw [← hpost] at hanswer
        exact Prod.ext (congrArg Except.ok hanswer) (congrArg (fun post => [post]) hpost)
  | tiktok =>
    rw [hplatform, configured, configured] at hconf
    simp only [TikTokAdapter.execute, hdry, hconf, tiktokPost_withTokens]
    split
    · rfl
    · rw [hblind.respond]
      rfl

/-- The policy does not look at tokens, so `execute` answers alike too. -/
theorem execute_withTokens (ar : Arithmetic) (req : ActionRequest) :
    execute ar (settings.withTokens metaToken tiktokToken) upstream.respond req =
      ((execute ar settings upstream.respond req).1,
        (execute ar settings upstream.respond req).2.map (HttpPost.retoken metaToken tiktokToken)) := by
  have hdecision : evaluateAction (settings.withTokens metaToken tiktokToken) req =
      evaluateAction settings req := rfl
  unfold execute
  rw [hdecision, adapterExecute_withTokens hmeta htiktok hblind]
  dsimp only
  split
  · cases h : adapterExecute ar settings upstream.respond req with
    | mk outcome posts =>
      cases outcome with
      | ok body => rfl
      | error e => rfl
  · rfl

theorem actions_withTokens (ar : Arithmetic) (req : ActionRequest) :
    actions ar (settings.withTokens metaToken tiktokToken) upstream.respond req =
      ((actions ar settings upstream.respond req).1,
        (actions ar settings upstream.respond req).2.map (HttpPost.retoken metaToken tiktokToken)) := by
  unfold actions
  rw [execute_withTokens hmeta htiktok hblind]
  cases h : execute ar settings upstream.respond req with
  | mk outcome posts =>
    cases outcome with
    | error e => rfl
    | ok data =>
      dsimp only
      split
      · rfl
      · rfl

theorem listCampaigns_withTokens (platform : Platform) :
    listCampaigns (settings.withTokens metaToken tiktokToken) upstream.fetch platform =
      ((listCampaigns settings upstream.fetch platform).1,
        (listCampaigns settings upstream.fetch platform).2.map
          (HttpGet.retoken metaToken tiktokToken)) := by
  have hconf := configured_withTokens hmeta htiktok platform
  have hdry : (settings.withTokens metaToken tiktokToken).dryRun = settings.dryRun := rfl
  cases platform with
  | «meta» =>
    rw [configured, configured] at hconf
    simp only [listCampaigns, MetaAdapter.listCampaigns, hdry, hconf, metaListing_withTokens,
      hblind.fetch]
    split
    · rfl
    · rfl
  | tiktok =>
    rw [configured, configured] at hconf
    simp only [listCampaigns, TikTokAdapter.listCampaigns, hdry, hconf, tiktokListing_withTokens,
      hblind.fetch]
    split
    · rfl
    · rfl

/-- Every endpoint answers alike, and what it calls differs in the token. -/
theorem serveHub_withTokens (ar : Arithmetic) (req : HubRequest) :
    serveHub ar (settings.withTokens metaToken tiktokToken) upstream req =
      ((serveHub ar settings upstream req).1,
        (serveHub ar settings upstream req).2.map (HttpCall.retoken metaToken tiktokToken)) := by
  cases req with
  | health =>
    have hm : MetaAdapter.configured (settings.withTokens metaToken tiktokToken) =
        MetaAdapter.configured settings := configured_withTokens hmeta htiktok .meta
    have ht : TikTokAdapter.configured (settings.withTokens metaToken tiktokToken) =
        TikTokAdapter.configured settings := configured_withTokens hmeta htiktok .tiktok
    simp only [serveHub, healthAll, MetaAdapter.health, TikTokAdapter.health, hm, ht]
    rfl
  | platforms => rfl
  | campaigns platform =>
    simp only [serveHub, listCampaigns_withTokens hmeta htiktok hblind, List.map_map]
    rfl
  | actions req =>
    simp only [serveHub, actions_withTokens hmeta htiktok hblind, List.map_map]
    rfl

end

/-- For any two pairs of tokens with the same ones missing, any settings and any sequence of
requests: if the platforms answer alike, so does the hub, and its calls are the same but
for `access_token` in a call to Meta and the header `Access-Token` in one to TikTok. -/
theorem credentials_confined (ar : Arithmetic) (settings : Settings) (upstream : Upstream)
    {metaToken tiktokToken : String} (hmeta : metaToken = "" ↔ settings.metaToken = "")
    (htiktok : tiktokToken = "" ↔ settings.tiktokToken = "")
    (hblind : upstream.TokenBlind metaToken tiktokToken) (reqs : List HubRequest) :
    reqs.map (fun req => (serveHub ar (settings.withTokens metaToken tiktokToken) upstream req).1) =
      reqs.map (fun req => (serveHub ar settings upstream req).1) ∧
    traffic ar (settings.withTokens metaToken tiktokToken) upstream reqs =
      (traffic ar settings upstream reqs).map (HttpCall.retoken metaToken tiktokToken) := by
  constructor
  · refine List.map_congr_left ?_
    intro req _
    rw [serveHub_withTokens hmeta htiktok hblind]
  · rw [traffic, traffic, List.map_flatMap]
    refine List.flatMap_congr ?_
    intro req _
    rw [serveHub_withTokens hmeta htiktok hblind]

/-- Platforms that answer with an empty listing and a success, and an empty cockpit. -/
def sampleUpstream : Upstream where
  fetch := fun _ => .obj [("data", .arr [])]
  respond := fun _ => .obj [("success", .bool true)]
  cockpit := .obj [("ready", .bool false), ("financial", .null),
    ("platform_mix", .obj [("meta", .null), ("tiktok", .null)]), ("decisions", .arr []),
    ("message", .str "financial source not configured")]
  modelRouter := .obj [("version", .num 1), ("mode", .str "FREE-FIRST")]

/-- A listing of one platform and an action of the other, under either tokens. -/
theorem credentials_confined_live :
    traffic .binary64 (liveSettings.withTokens "other" "another") sampleUpstream
        [.campaigns .tiktok, .actions { platform := .meta, action := .pauseCampaign, objectId := "7" }] =
      (traffic .binary64 liveSettings sampleUpstream
        [.campaigns .tiktok,
          .actions { platform := .meta, action := .pauseCampaign, objectId := "7" }]).map
        (HttpCall.retoken "other" "another") :=
  (credentials_confined .binary64 liveSettings sampleUpstream
    (by decide) (by decide) ⟨fun _ => rfl, fun _ => rfl⟩ _).2

/-! ## Health and traffic -/

/-- The entry of an adapter says that its platform is talked to. -/
def saysLive : Json → Bool
  | .obj [_, (_, .bool configured), (_, .str mode)] => configured && mode = "live"
  | _ => false

/-- The entry of a platform in an answer of `/health`. -/
def entryOf (health : Json) (platform : Platform) : Option Json :=
  match health with
  | .obj fields =>
    match fields.lookup "platforms", platform with
    | some (.arr [entry, _]), .meta => some entry
    | some (.arr [_, entry]), .tiktok => some entry
    | _, _ => none
  | _ => none

/-- `/health` says that the platform is talked to. -/
def shownLive (health : Json) (platform : Platform) : Bool :=
  ((entryOf health platform).map saysLive).getD false

/-- The platform that a request is to be passed on to. -/
def HubRequest.target (settings : Settings) : HubRequest → Option Platform
  | .health => none
  | .platforms => none
  | .campaigns platform => some platform
  | .actions req => if (evaluateAction settings req).allowed then some req.platform else none

/-- The adapter raises on the request before it calls: the cents of a Meta budget overflow. -/
def HubRequest.raises (ar : Arithmetic) : HubRequest → Bool
  | .actions req => overflows ar req
  | _ => false

/-- The request has a target, `/health` says that it is talked to, and the adapter does not
raise before it does. -/
def passedOn (ar : Arithmetic) (settings : Settings) (upstream : Upstream) (req : HubRequest) :
    Bool :=
  ((req.target settings).map (shownLive (healthAll settings upstream))).getD false &&
    !req.raises ar

/-- The call is the one for the request: the listing of the configured account, or a write
for the object and the account of the action, as it was given, with what the adapter makes
of its change. -/
def CallFor (ar : Arithmetic) (settings : Settings) : HubRequest → HttpCall → Prop
  | .campaigns .meta, .get call => call = MetaAdapter.listing settings
  | .campaigns .tiktok, .get call => call = TikTokAdapter.listing settings
  | .actions req, .post call => ∃ change, sentChange ar req = some change ∧
      writtenPost settings req.platform call =
        some ⟨req.platform, accountOf settings req.platform, req.objectId, change⟩
  | _, _ => False

theorem shownLive_healthAll (settings : Settings) (upstream : Upstream) (platform : Platform) :
    shownLive (healthAll settings upstream) platform =
      (!settings.dryRun && configured settings platform) := by
  have hmode : decide (mode settings = "live") = !settings.dryRun := by
    cases hdry : settings.dryRun <;> simp [mode, hdry]
  cases platform with
  | «meta» =>
    show (MetaAdapter.configured settings && decide (mode settings = "live")) = _
    rw [hmode, Bool.and_comm]
    rfl
  | tiktok =>
    show (TikTokAdapter.configured settings && decide (mode settings = "live")) = _
    rw [hmode, Bool.and_comm]
    rfl

/-- What a listing calls. -/
theorem listCampaigns_calls (settings : Settings) (fetch : HttpGet → Json) (platform : Platform) :
    (listCampaigns settings fetch platform).2 =
      if !settings.dryRun && configured settings platform then
        [match platform with
          | .meta => MetaAdapter.listing settings
          | .tiktok => TikTokAdapter.listing settings]
      else [] := by
  cases platform with
  | «meta» =>
    cases hdry : settings.dryRun <;> cases hconf : MetaAdapter.configured settings <;>
      simp [listCampaigns, MetaAdapter.listCampaigns, configured, hdry, hconf]
  | tiktok =>
    cases hdry : settings.dryRun <;> cases hconf : TikTokAdapter.configured settings <;>
      simp [listCampaigns, TikTokAdapter.listCampaigns, configured, hdry, hconf]

/-- One request: one call for it if it is passed on, and none otherwise. -/
theorem serveHub_calls (ar : Arithmetic) (settings : Settings) (upstream : Upstream)
    (req : HubRequest) :
    if passedOn ar settings upstream req then
      ∃ call, (serveHub ar settings upstream req).2 = [call] ∧ CallFor ar settings req call
    else (serveHub ar settings upstream req).2 = [] := by
  cases req with
  | health => exact rfl
  | platforms => exact rfl
  | campaigns platform =>
    have hcalls := listCampaigns_calls settings upstream.fetch platform
    simp only [passedOn, HubRequest.target, HubRequest.raises, Option.map_some, Option.getD_some,
      shownLive_healthAll, Bool.not_false, Bool.and_true, serveHub, hcalls]
    cases hlive : !settings.dryRun && configured settings platform with
    | false => rfl
    | true =>
      cases platform with
      | «meta» => exact ⟨_, rfl, rfl⟩
      | tiktok => exact ⟨_, rfl, rfl⟩
  | actions req =>
    -- being passed on is what the adapter tests before it sends
    have hpassed : passedOn ar settings upstream (.actions req) = sends ar settings req := by
      simp only [passedOn, HubRequest.target, HubRequest.raises, sends, live]
      cases (evaluateAction settings req).allowed with
      | false => rfl
      | true =>
        exact congrArg (· && !overflows ar req)
          (shownLive_healthAll settings upstream req.platform)
    have hposts : (serveHub ar settings upstream (.actions req)).2 =
        (execute ar settings upstream.respond req).2.map .post := by
      simp only [serveHub, actions_posts]
    rw [hpassed, hposts]
    cases hsends : sends ar settings req with
    | false =>
      rw [execute_silent upstream.respond hsends]
      rfl
    | true =>
      rcases execute_sends upstream.respond hsends with ⟨post, change, hexec, hchange, hwritten⟩
      rw [hexec]
      exact ⟨.post post, rfl, change, hchange, hwritten⟩

end AdsHub
