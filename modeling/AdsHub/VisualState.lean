import AdsHub.Lib.Json
import AdsHub.Lib.Text
import AdsHub.TaskBus

/-!
# AdsHub.VisualState — what the 3D office shows

`visual_state` of `app/autonomy.py` and `_live_visual_state` of `app/main.py`: the
registry and the asset manifest give each agent an entry at rest, and the live
state lays the slots of the task bus over these entries.

The manifest is taken with the types its file has. `visual_state` reads both files
on every call; they are arguments here.
-/

namespace AdsHub

/-- `AgentPost`, as far as it is read. -/
structure AgentPost where
  id : String
  title : String

/-- An entry of `assets` in the manifest. -/
structure Asset where
  status : Option String
  validation : Option (List (String × Json))
  rigProfile : Option String
  modelUrl : Option String

/-- `asset_manifest()`; `none` stands for a missing key. -/
structure Manifest where
  version : Option String
  rigProfile : Option String
  animationContract : Option String
  assets : List (String × Asset)

/-- A manifest without assets, and without the keys that have a default. -/
def emptyManifest : Manifest where
  version := none
  rigProfile := none
  animationContract := none
  assets := []

/-- `validation.get('passed') is True`. -/
def Asset.passed (asset : Asset) : Bool :=
  match (asset.validation.getD []).lookup "passed" with
  | some (.bool b) => b
  | _ => false

/-- `approved_asset`. -/
def approvedAsset (manifest : Manifest) (agentId : String) : Option Asset :=
  match manifest.assets.lookup agentId with
  | none => none
  | some asset =>
    if asset.status ≠ some "approved" ∨ asset.passed = false then none
    else if asset.rigProfile ≠ manifest.rigProfile then none
    else
      match asset.modelUrl with
      | some modelUrl => if Text.blank modelUrl.toList then none else some asset
      | none => none

/-- `VISUAL_POSTS`: the room, the destination and the tool of each agent at work. -/
def visualPosts : List (String × String × String × String) :=
  [("chief_ads_officer", "diretoria", "director_desk", "computer"),
   ("marketing_strategist", "strategy", "strategy_desk", "computer"),
   ("market_intelligence", "intelligence", "market_station", "computer"),
   ("consumer_intelligence", "intelligence", "consumer_station", "computer"),
   ("product_portfolio", "intelligence", "portfolio_station", "tablet"),
   ("performance_scientist", "performance", "performance_station", "computer"),
   ("marketing_science", "performance", "mmm_station", "computer"),
   ("attribution_specialist", "performance", "attribution_station", "computer"),
   ("budget_allocator", "budget", "budget_station", "computer"),
   ("experiment_scientist", "lab", "experiment_station", "tablet"),
   ("creative_director", "creative", "creative_director_desk", "tablet"),
   ("copywriter", "creative", "copywriter_desk", "computer"),
   ("meta_media_buyer", "paid_media", "meta_station", "computer"),
   ("tiktok_media_buyer", "paid_media", "tiktok_station", "computer"),
   ("risk_guardian", "risk", "risk_station", "tablet"),
   ("ads_operations", "operations", "operations_station", "computer")]

/-- An agent of the visual state. -/
structure AgentView where
  agentId : String
  title : String
  operationalState : String
  taskId : Option String
  taskType : Option String
  room : Option String
  homeRoom : String
  destination : Option String
  workDestination : String
  progress : ℚ
  priority : String
  tool : Option String
  workTool : String
  modelUrl : Option String
  assetStatus : String
  rigProfile : String
  updatedAt : Option String

/-- The visual state; `taskBusSource` is a key that only the live state has. -/
structure VisualState where
  contractVersion : String
  assetManifestVersion : Option String
  animationContract : String
  rigProfile : String
  source : String
  taskBusConnected : Bool
  taskBusSource : Option String
  agents : List AgentView

/-- The entry of one agent: at rest, with its work place beside it. -/
def agentView (manifest : Manifest) (post : AgentPost) : AgentView :=
  let (room, destination, tool) :=
    (visualPosts.lookup post.id).getD ("rest", "rest_seat", "none")
  let asset := approvedAsset manifest post.id
  { agentId := post.id
    title := post.title
    operationalState := "rest"
    taskId := none
    taskType := none
    room := some "rest"
    homeRoom := room
    destination := some "rest_seat"
    workDestination := destination
    progress := 0
    priority := "normal"
    tool := some "none"
    workTool := tool
    modelUrl := asset.bind Asset.modelUrl
    assetStatus := if asset.isSome then "approved" else "pending"
    rigProfile := manifest.rigProfile.getD "ads-humanoid-v1"
    updatedAt := none }

/-- `visual_state`. -/
def visualState (manifest : Manifest) (posts : List AgentPost) : VisualState where
  contractVersion := "ads-agent-visual-state/v1"
  assetManifestVersion := manifest.version
  animationContract := manifest.animationContract.getD "ads-agent-animation/v1"
  rigProfile := manifest.rigProfile.getD "ads-humanoid-v1"
  source := "ads-ai-hub"
  taskBusConnected := false
  taskBusSource := none
  agents := posts.map (agentView manifest)

/-- The loop over the keys of a slot: each one that the slot has is copied. -/
def overlay (agent : AgentView) (live : Event) : AgentView :=
  { agent with
    operationalState := live.operationalState
    taskId := live.taskId
    taskType := live.taskType
    room := live.room.getD agent.room
    destination := live.destination.getD agent.destination
    progress := live.progress
    priority := live.priority
    tool := live.tool.getD agent.tool
    updatedAt := some live.occurredAt }

/-- An agent with its slot, if there is one, laid over it. -/
def liveAgent (slots : String → Option Event) (agent : AgentView) : AgentView :=
  match slots agent.agentId with
  | none => agent
  | some live => overlay agent live

/-- `_live_visual_state`, for a given answer of `visual_state`. -/
def liveVisualState (visual : VisualState) (slots : String → Option Event) : VisualState :=
  { visual with
    taskBusConnected := true
    taskBusSource := some "production-only"
    agents := visual.agents.map (liveAgent slots) }

end AdsHub
