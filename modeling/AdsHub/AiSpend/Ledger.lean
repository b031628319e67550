import Mathlib.Algebra.Order.Ring.Rat
import Mathlib.Algebra.BigOperators.Group.List.Basic
import Mathlib.Algebra.Order.BigOperators.Group.List
import Mathlib.Tactic.Linarith
import AdsHub.Http
import AdsHub.Clock

/-!
# AdsHub.AiSpend.Ledger — the auxiliary AI spend ledger

The model of `app/ai_spend.py`: the table `ai_spend_events`, the monthly sum,
the admission check and the two endpoints that use it.

* The table is the list of its rows in insertion order. The `id` column is left
  out: no statement of the module reads it.
* Every function that reads the clock takes the reading as an argument; a
  `/record` reads it twice, once for the month of the check and once for
  `created_at`.
* `ADS_AUX_AI_MONTHLY_BUDGET_BRL` is an argument too (`none` when it is unset);
  amounts are exact rationals.

The field constraints of the request models are fields of the structures, so a
request that `pydantic` would refuse cannot be built.
-/

namespace AdsHub.AiSpend

/-! ## Requests and rows -/

/-- `SpendCheckIn`, the body of `POST /check`. -/
structure SpendCheckIn where
  agent : String
  provider : String
  model : String
  estimatedCostBrl : ℚ
  auxiliary : Bool := true
  agent_length : 1 ≤ agent.length ∧ agent.length ≤ 120 := by decide
  provider_length : 1 ≤ provider.length ∧ provider.length ≤ 80 := by decide
  model_length : 1 ≤ model.length ∧ model.length ≤ 120 := by decide
  estimated_nonneg : 0 ≤ estimatedCostBrl := by decide

/-- `SpendRecordIn`, the body of `POST /record`. -/
structure SpendRecordIn extends SpendCheckIn where
  actualCostBrl : ℚ
  actual_nonneg : 0 ≤ actualCostBrl := by decide

/-- A row of `ai_spend_events`. -/
structure SpendEvent where
  createdAt : String
  agent : String
  provider : String
  model : String
  estimatedCostBrl : ℚ
  actualCostBrl : Option ℚ
  status : String
  reason : Option String

/-- `mode` of a check's answer. -/
inductive SpendMode where
  | freeFirst
  | budgeted
deriving DecidableEq, Repr

/-- What `check_spend` answers. -/
structure SpendCheck where
  allowed : Bool
  mode : SpendMode
  monthlyBudgetBrl : Option ℚ
  monthSpendBrl : ℚ
  estimatedCostBrl : ℚ
  projectedSpendBrl : ℚ
  reason : Option String
  agent : String
  provider : String
  model : String

/-- What a successful `/record` answers. -/
structure Recorded where
  createdAt : String
  actualCostBrl : ℚ

/-! ## The module's functions -/

/-- `auxiliary_budget_brl`. -/
def auxiliaryBudgetBrl (env : Option ℚ) : ℚ := max 0 (env.getD 0)

/-- The `WHERE` clause of the monthly sum: completed rows of the month of `now`. -/
def countsIn (now : Utc) (row : SpendEvent) : Bool :=
  row.status == "completed" && Text.like (now.strftimeYm ++ ['%']) row.createdAt.toList

/-- `current_month_spend`: `SUM` skips null amounts, and is 0 over no row. -/
def currentMonthSpend (now : Utc) (db : List SpendEvent) : ℚ :=
  ((db.filter (countsIn now)).filterMap (·.actualCostBrl)).sum

/-- `check_spend`. Only an auxiliary request looks at the budget and the sum. -/
def checkSpend (env : Option ℚ) (now : Utc) (db : List SpendEvent) (data : SpendCheckIn) :
    SpendCheck :=
  let budget := auxiliaryBudgetBrl env
  let spent := if data.auxiliary then currentMonthSpend now db else 0
  let projected := spent + data.estimatedCostBrl
  let allowed := if data.auxiliary then decide (projected ≤ budget) else true
  { allowed := allowed
    mode := if data.auxiliary && budget == 0 then .freeFirst else .budgeted
    monthlyBudgetBrl := if data.auxiliary then some budget else none
    monthSpendBrl := spent
    estimatedCostBrl := data.estimatedCostBrl
    projectedSpendBrl := projected
    reason := if allowed then none else some "auxiliary_ai_budget_exceeded"
    agent := data.agent
    provider := data.provider
    model := data.model }

/-- `preflight`, the endpoint `POST /check`. -/
def preflight (env : Option ℚ) (now : Utc) (db : List SpendEvent) (data : SpendCheckIn) :
    Except (HttpException SpendCheck) SpendCheck :=
  let result := checkSpend env now db data
  if result.allowed then .ok result else .error ⟨409, result⟩

/-- The row that `record` inserts. -/
def eventRow (created : Utc) (data : SpendRecordIn) : SpendEvent :=
  { createdAt := created.isoformat
    agent := data.agent
    provider := data.provider
    model := data.model
    estimatedCostBrl := data.estimatedCostBrl
    actualCostBrl := some data.actualCostBrl
    status := "completed"
    reason := none }

/-- `record`, the endpoint `POST /record`: the check reads the clock at `now`,
the insert at `created`. -/
def record (env : Option ℚ) (now created : Utc) (db : List SpendEvent) (data : SpendRecordIn) :
    Except (HttpException SpendCheck) Recorded × List SpendEvent :=
  let pre := checkSpend env now db data.toSpendCheckIn
  if pre.allowed then
    (.ok ⟨created.isoformat, data.actualCostBrl⟩, db ++ [eventRow created data])
  else (.error ⟨409, pre⟩, db)

/-! ## What the functions decide and add -/

theorem auxiliaryBudgetBrl_nonneg (env : Option ℚ) : 0 ≤ auxiliaryBudgetBrl env := le_max_left _ _

/-- Every budget `B ≥ 0` is that of some setting of the variable. -/
theorem auxiliaryBudgetBrl_some {b : ℚ} (hb : 0 ≤ b) : auxiliaryBudgetBrl (some b) = b := by
  simp [auxiliaryBudgetBrl, hb]

@[simp] theorem currentMonthSpend_nil (now : Utc) : currentMonthSpend now [] = 0 := rfl

/-- The month's sum is additive over rows. -/
theorem currentMonthSpend_append (now : Utc) (db db' : List SpendEvent) :
    currentMonthSpend now (db ++ db') =
      currentMonthSpend now db + currentMonthSpend now db' := by
  simp [currentMonthSpend, List.filter_append, List.filterMap_append]

/-- A row counts in the months of its own creation time only. -/
theorem countsIn_eventRow (now created : Utc) (data : SpendRecordIn) :
    countsIn now (eventRow created data) = true ↔ now.SameMonth created := by
  rw [← Utc.like_createdAt]
  simp [countsIn, eventRow]

/-- A recorded row adds its actual cost to the sum of its own month only. -/
theorem currentMonthSpend_eventRow (now created : Utc) (data : SpendRecordIn) :
    currentMonthSpend now [eventRow created data] =
      if now.SameMonth created then data.actualCostBrl else 0 := by
  by_cases h : now.SameMonth created
  · have hin := (countsIn_eventRow now created data).2 h
    have hact : (eventRow created data).actualCostBrl = some data.actualCostBrl := rfl
    simp [currentMonthSpend, hin, h, hact]
  · have hin : ¬ countsIn now (eventRow created data) = true :=
      fun hc => h ((countsIn_eventRow now created data).1 hc)
    simp [currentMonthSpend, hin, h]

/-- The sum depends on the month of the reading only. -/
theorem currentMonthSpend_congr {now now' : Utc} (h : now.SameMonth now')
    (db : List SpendEvent) : currentMonthSpend now db = currentMonthSpend now' db := by
  -- the pattern of the month is all that the query takes from the clock
  have hcounts : countsIn now = countsIn now' := by
    funext row
    rw [countsIn, countsIn, Utc.strftimeYm_inj.2 h]
  rw [currentMonthSpend, currentMonthSpend, hcounts]

/-- An auxiliary request is allowed when the month and its estimate fit the budget. -/
theorem checkSpend_auxiliary (env : Option ℚ) (now : Utc) (db : List SpendEvent)
    {data : SpendCheckIn} (haux : data.auxiliary = true) :
    (checkSpend env now db data).allowed = true ↔
      currentMonthSpend now db + data.estimatedCostBrl ≤ auxiliaryBudgetBrl env := by
  simp [checkSpend, haux]

/-- A primary request is always allowed. -/
theorem checkSpend_primary (env : Option ℚ) (now : Utc) (db : List SpendEvent)
    {data : SpendCheckIn} (haux : data.auxiliary = false) :
    (checkSpend env now db data).allowed = true := by
  simp [checkSpend, haux]

/-- The answer shows the month's sum it was decided on. -/
theorem checkSpend_monthSpendBrl (env : Option ℚ) (now : Utc) (db : List SpendEvent)
    {data : SpendCheckIn} (haux : data.auxiliary = true) :
    (checkSpend env now db data).monthSpendBrl = currentMonthSpend now db := by
  simp [checkSpend, haux]

/-- The table after a `/record`: a refused one leaves it as it was. -/
theorem record_db (env : Option ℚ) (now created : Utc) (db : List SpendEvent)
    (data : SpendRecordIn) :
    (record env now created db data).2 =
      if (checkSpend env now db data.toSpendCheckIn).allowed then db ++ [eventRow created data]
      else db := by
  unfold record
  split <;> simp_all

/-- A `/record` succeeds exactly when the check admits it. -/
theorem record_isOk (env : Option ℚ) (now created : Utc) (db : List SpendEvent)
    (data : SpendRecordIn) :
    (record env now created db data).1.isOk =
      (checkSpend env now db data.toSpendCheckIn).allowed := by
  unfold record
  cases h : (checkSpend env now db data.toSpendCheckIn).allowed <;> simp [h, Except.isOk, Except.toBool]

/-- The preflight endpoint refuses exactly what `check_spend` does. -/
theorem preflight_isOk (env : Option ℚ) (now : Utc) (db : List SpendEvent)
    (data : SpendCheckIn) :
    (preflight env now db data).isOk = (checkSpend env now db data).allowed := by
  unfold preflight
  cases h : (checkSpend env now db data).allowed <;> simp [h, Except.isOk, Except.toBool]

/-! ## Sample readings and requests -/

/-- The last second of January. -/
def lateJanuary : Utc :=
  { morning with
    month := 1, day := 31, hour := 23, minute := 59, second := 59
    month_range := by decide, day_range := by decide, time_range := by decide }

/-- The first second of February. -/
def earlyFebruary : Utc :=
  { morning with month := 2, hour := 0, month_range := by decide, time_range := by decide }

/-- A `/record` of `agent` with the given costs. -/
def sampleRecord (estimated actual : ℚ) (auxiliary : Bool) (he : 0 ≤ estimated)
    (ha : 0 ≤ actual) : SpendRecordIn :=
  { agent := "market_intelligence", provider := "qwen", model := "free-route"
    estimatedCostBrl := estimated, auxiliary := auxiliary, actualCostBrl := actual
    estimated_nonneg := he, actual_nonneg := ha }

/-- The same with costs in whole reais. -/
def wholeRecord (estimated actual : ℕ) (auxiliary : Bool) : SpendRecordIn :=
  sampleRecord estimated actual auxiliary (Nat.cast_nonneg _) (Nat.cast_nonneg _)

/-- A free auxiliary request. -/
def freeCheck : SpendCheckIn :=
  { agent := "market_intelligence", provider := "qwen", model := "free-route"
    estimatedCostBrl := 0 }

end AdsHub.AiSpend
