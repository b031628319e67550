import Mathlib.Tactic.Linarith
import Mathlib.Tactic.FieldSimp
import Mathlib.Algebra.Order.Field.Basic
import Mathlib.Algebra.Order.Field.Rat
import AdsHub.Core.Models

/-!
# AdsHub.Core.Policy — the hub's own gate

`evaluate_action` decides on the request alone: the current budget it compares
the new one with is the one the client wrote into the request.
-/

namespace AdsHub

/-- `evaluate_action`. -/
def evaluateAction (settings : Settings) (req : ActionRequest) : ActionDecision :=
  if req.action ≠ .updateBudget then
    { allowed := true, reason := "policy_allowed" }
  else
    match req.currentBudget, req.newBudget with
    | some current, some new =>
      if current = 0 ∧ new > 0 ∧ ¬ req.approved then
        { allowed := false, requiresApproval := true
          reason := "budget_from_zero_requires_approval" }
      else if current > 0 ∧ ((new - current) / current) * 100 > settings.maxBudgetIncreasePct
          ∧ ¬ req.approved then
        { allowed := false, requiresApproval := true
          reason := "budget_increase_above_autonomous_limit" }
      else
        { allowed := true, reason := "policy_allowed" }
    | _, _ => { allowed := false, reason := "budget_current_and_new_required" }

/-- The new budget is one that needs no approval: nothing on top of a budget of
zero, at most `pct` percent on top of a positive one. -/
def WithinLimit (pct current new : ℚ) : Prop :=
  (current = 0 → new ≤ 0) ∧ (0 < current → (new - current) / current * 100 ≤ pct)

instance (pct current new : ℚ) : Decidable (WithinLimit pct current new) :=
  inferInstanceAs (Decidable (_ ∧ _))

theorem evaluateAction_other (settings : Settings) {req : ActionRequest}
    (h : req.action ≠ .updateBudget) : (evaluateAction settings req).allowed = true := by
  simp [evaluateAction, h]

/-- A budget update with both budgets is allowed when it is approved or within
the autonomous limit. -/
theorem evaluateAction_update (settings : Settings) {req : ActionRequest} {current new : ℚ}
    (h : req.action = .updateBudget) (hcur : req.currentBudget = some current)
    (hnew : req.newBudget = some new) :
    (evaluateAction settings req).allowed = true ↔
      req.approved = true ∨ WithinLimit settings.maxBudgetIncreasePct current new := by
  simp only [evaluateAction, h, hcur, hnew, ne_eq, not_true, if_false, WithinLimit]
  cases req.approved with
  | true => simp
  | false =>
    by_cases hzero : current = 0
    · by_cases hpos : 0 < new
      · simp [hzero, hpos]
      · simp [hzero, hpos, not_lt.1 hpos]
    · by_cases hcurrent : 0 < current
      · by_cases hinc : settings.maxBudgetIncreasePct < (new - current) / current * 100
        · simp [hzero, hcurrent, hinc]
        · simp [hzero, hcurrent, hinc, not_lt.1 hinc]
      · simp [hzero, hcurrent]

/-- A budget update without one of the two budgets is never allowed. -/
theorem evaluateAction_missing (settings : Settings) {req : ActionRequest}
    (h : req.action = .updateBudget) (hmissing : req.currentBudget = none ∨ req.newBudget = none) :
    (evaluateAction settings req).allowed = false := by
  rcases hmissing with hcur | hnew
  · simp [evaluateAction, h, hcur]
  · cases hcur : req.currentBudget <;> simp [evaluateAction, h, hcur, hnew]

/-- An allowed budget update carries a new budget. -/
theorem newBudget_of_allowed {settings : Settings} {req : ActionRequest}
    (h : req.action = .updateBudget) (hallowed : (evaluateAction settings req).allowed = true) :
    ∃ new, req.newBudget = some new := by
  cases hnew : req.newBudget with
  | some new => exact ⟨new, rfl⟩
  | none =>
    rw [evaluateAction_missing settings h (Or.inr hnew)] at hallowed
    cases hallowed

/-- The percentage limit as a bound on the new budget. -/
theorem WithinLimit.new_le {pct current new : ℚ} (h : WithinLimit pct current new)
    (hcurrent : 0 ≤ current) : new ≤ current * (1 + pct / 100) := by
  rcases hcurrent.eq_or_lt with hzero | hpos
  · rw [← hzero, zero_mul]
    exact h.1 hzero.symm
  · have hlim := h.2 hpos
    have hstep : (new - current) / current ≤ pct / 100 := by linarith
    rw [div_le_iff₀ hpos] at hstep
    linarith

end AdsHub
