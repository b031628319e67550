import AdsHub.Lib.Text
import AdsHub.Core.Models

/-!
# AdsHub.Core.Config — the settings from the process environment

`app/core/config.py`. The settings are read once, when the module is imported; a
limit that `float` does not take makes the import raise, and the hub does not
start. What is known of `float` and of `str.lower` is what is used here: the first
reads a number or raises, the second folds ASCII letters.
-/

namespace AdsHub

/-- `os.environ`. -/
abbrev Env : Type := String → Option String

/-- `os.getenv(name, default)`. -/
def getenv (env : Env) (name fallback : String) : String := (env name).getD fallback

/-- `str.lower`, of which only its values on ASCII texts are fixed. -/
structure StrLower where
  toFun : String → String
  ascii : ∀ s, (∀ c ∈ s.toList, c.toNat < 128) →
    toFun s = Text.asciiLower s

/-- `str(default)`. -/
def boolText (b : Bool) : String := if b then "True" else "False"

/-- The texts that `env_bool` takes as true. -/
def trueTexts : List String := ["1", "true", "yes", "on"]

/-- `env_bool`. -/
def envBool (lower : StrLower) (env : Env) (name : String) (fallback : Bool) : Bool :=
  lower.toFun (Text.strip (getenv env name (boolText fallback))) ∈ trueTexts

/-- `Settings()`; none if `float` raises. -/
def Settings.ofEnv (lower : StrLower) (float : String → Option ℚ) (env : Env) : Option Settings :=
  (float (getenv env "ADS_MAX_BUDGET_INCREASE_PCT" "20")).map (fun limit =>
    { environment := getenv env "ADS_ENV" "sandbox"
      dryRun := envBool lower env "ADS_DRY_RUN" true
      maxBudgetIncreasePct := limit
      metaToken := getenv env "META_ACCESS_TOKEN" ""
      metaAccountId := getenv env "META_AD_ACCOUNT_ID" ""
      metaGraphVersion := getenv env "META_GRAPH_VERSION" "v26.0"
      tiktokToken := getenv env "TIKTOK_ACCESS_TOKEN" ""
      tiktokAdvertiserId := getenv env "TIKTOK_ADVERTISER_ID" ""
      tiktokApiBase :=
        getenv env "TIKTOK_API_BASE" "https://business-api.tiktok.com/open_api/v1.3" })

/-- Without the variable the default counts. -/
theorem envBool_unset (lower : StrLower) {env : Env} {name : String} (h : env name = none) :
    envBool lower env name true = true := by
  have hlower : lower.toFun "True" = "true" := lower.ascii "True" (by simp)
  have hstrip : Text.strip "True" = "True" := by decide
  simp [envBool, getenv, h, boolText, hstrip, hlower, trueTexts]

theorem envBool_set (lower : StrLower) {env : Env} {name value : String}
    (h : env name = some value) (fallback : Bool) :
    envBool lower env name fallback = true ↔ lower.toFun (Text.strip value) ∈ trueTexts := by
  simp [envBool, getenv, h]

end AdsHub
