import Mathlib.Algebra.Order.Ring.Rat

/-!
# AdsHub.Core.Models — settings, requests and decisions

The data of `app/core/config.py` and `app/core/models.py`. `Settings` is built
once from the environment and never changes, so every function that reads it
takes it as an argument. Budgets and percentages are exact rationals. The
`metadata` of a request is left out: nothing in the hub reads it.
-/

namespace AdsHub

/-- `Settings`. -/
structure Settings where
  environment : String := "sandbox"
  dryRun : Bool := true
  maxBudgetIncreasePct : ℚ := 20
  metaToken : String := ""
  metaAccountId : String := ""
  metaGraphVersion : String := "v26.0"
  tiktokToken : String := ""
  tiktokAdvertiserId : String := ""
  tiktokApiBase : String := "https://business-api.tiktok.com/open_api/v1.3"

inductive Platform where
  | «meta»
  | tiktok
deriving DecidableEq, Repr

inductive ActionType where
  | pauseCampaign
  | activateCampaign
  | updateBudget
deriving DecidableEq, Repr

/-- The value of a `Platform` in JSON. -/
def Platform.text : Platform → String
  | .meta => "meta"
  | .tiktok => "tiktok"

/-- The value of an `ActionType` in JSON. -/
def ActionType.text : ActionType → String
  | .pauseCampaign => "campaign.pause"
  | .activateCampaign => "campaign.activate"
  | .updateBudget => "budget.update"

/-- `ActionRequest`, the body of `POST /v1/actions`. -/
structure ActionRequest where
  platform : Platform
  action : ActionType
  objectId : String
  currentBudget : Option ℚ := none
  newBudget : Option ℚ := none
  approvalToken : Option String := none
  objectId_length : 1 ≤ objectId.length := by decide
  current_nonneg : ∀ b ∈ currentBudget, 0 ≤ b := by decide
  new_nonneg : ∀ b ∈ newBudget, 0 ≤ b := by decide

/-- The truth value of `req.approval_token`: an empty token is none. -/
def ActionRequest.approved (req : ActionRequest) : Bool :=
  match req.approvalToken with
  | none => false
  | some token => token != ""

/-- `ActionDecision`. -/
structure ActionDecision where
  allowed : Bool
  requiresApproval : Bool := false
  reason : String

end AdsHub
