import Mathlib.Tactic.Linarith
import AdsHub.Lib.Rego
import AdsHub.Core.Policy

/-!
# AdsHub.Authz — the hub's policy and `ads.rego`

`policy/ads.rego` is a second gate for the same requests. `adsAllow` is its rule
`ads.authz.allow`, body by body; `dump` is the JSON dump of a request, in which
an absent optional field is null.

The two gates differ (`opa_allows_unapproved_increase`): the third body,
`input.approval_token != ""`, holds of a null token, so the OPA policy lets every
request without a token through. `gates_agree_iff` says on which requests the
two decide alike.
-/

namespace AdsHub

open Rego

/-! ## The OPA policy -/

/-- A nullable number of the dump. -/
def dumpNumber : Option ℚ → Value
  | none => .null
  | some b => .num b

/-- A nullable text of the dump. -/
def dumpText : Option String → Value
  | none => .null
  | some s => .str s

/-- `req.model_dump(mode="json")`. -/
def ActionRequest.dump (req : ActionRequest) : Input
  | "platform" => some (.str req.platform.text)
  | "action" => some (.str req.action.text)
  | "object_id" => some (.str req.objectId)
  | "current_budget" => some (dumpNumber req.currentBudget)
  | "new_budget" => some (dumpNumber req.newBudget)
  | "approval_token" => some (dumpText req.approvalToken)
  | _ => none

/-- `((input.new_budget-input.current_budget)/input.current_budget)*100`. -/
def increaseTerm : Term :=
  .arith .mul
    (.arith .div (.arith .sub (.input "new_budget") (.input "current_budget"))
      (.input "current_budget"))
    (.lit (.num 100))

/-- The bodies of `allow` in `ads.rego`, in order. -/
def allowBodies : List (List Expr) :=
  [[⟨.input "action", .ne, .lit (.str "budget.update")⟩],
   [⟨.input "action", .eq, .lit (.str "budget.update")⟩,
    ⟨.input "current_budget", .gt, .lit (.num 0)⟩,
    ⟨increaseTerm, .le, .lit (.num 20)⟩],
   [⟨.input "approval_token", .ne, .lit (.str "")⟩]]

/-- `ads.authz.allow` on the dump of a request. -/
def adsAllow (req : ActionRequest) : Bool := Rego.holds allowBodies req.dump

/-! ## Body by body -/

theorem dump_action (req : ActionRequest) : req.dump "action" = some (.str req.action.text) := rfl

theorem dump_current (req : ActionRequest) :
    req.dump "current_budget" = some (dumpNumber req.currentBudget) := rfl

theorem dump_new (req : ActionRequest) :
    req.dump "new_budget" = some (dumpNumber req.newBudget) := rfl

theorem dump_token (req : ActionRequest) :
    req.dump "approval_token" = some (dumpText req.approvalToken) := rfl

theorem action_text_eq_iff (a : ActionType) : a.text = "budget.update" ↔ a = .updateBudget := by
  cases a <;> simp [ActionType.text]

/-- First body: any action other than a budget update. -/
theorem action_body (req : ActionRequest) :
    Expr.holds req.dump ⟨.input "action", .ne, .lit (.str "budget.update")⟩ = true ↔
      req.action ≠ .updateBudget := by
  simp [Expr.holds, dump_action, Cmp.apply, action_text_eq_iff]

/-- The percentage of the second body is defined when both budgets are there and
the current one is not zero. -/
theorem increaseTerm_eval (req : ActionRequest) :
    increaseTerm.eval req.dump =
      match req.currentBudget, req.newBudget with
      | some current, some new =>
        if current = 0 then none else some (.num ((new - current) / current * 100))
      | _, _ => none := by
  simp only [increaseTerm, eval_arith, eval_input, eval_lit, dump_current, dump_new,
    Option.bind_some]
  cases req.currentBudget with
  | none => cases req.newBudget <;> rfl
  | some current =>
    cases req.newBudget with
    | none => rfl
    | some new =>
      simp only [dumpNumber, Op.apply, Option.bind_some]
      split <;> rfl

/-- Second body: both budgets there, the current one positive, the increase at
most 20 percent. -/
theorem update_body (req : ActionRequest) :
    ([⟨.input "action", .eq, .lit (.str "budget.update")⟩,
      ⟨.input "current_budget", .gt, .lit (.num 0)⟩,
      ⟨increaseTerm, .le, .lit (.num 20)⟩] : List Expr).all (·.holds req.dump) = true ↔
      req.action = .updateBudget ∧ ∃ current new, req.currentBudget = some current ∧
        req.newBudget = some new ∧ 0 < current ∧ (new - current) / current * 100 ≤ 20 := by
  simp only [List.all_cons, List.all_nil, Bool.and_true, Bool.and_eq_true, Expr.holds, eval_input,
    eval_lit, dump_action, dump_current, increaseTerm_eval]
  have haction : Cmp.eq.apply (.str req.action.text) (.str "budget.update") = true ↔
      req.action = .updateBudget := by
    simp [Cmp.apply, action_text_eq_iff]
  rw [haction]
  apply and_congr_right
  intro _
  cases req.currentBudget with
  | none =>
    -- null comes before every number, so `null > 0` does not hold
    simp [dumpNumber, Cmp.apply, Value.lt, Value.rank]
  | some current =>
    cases req.newBudget with
    | none => simp
    | some new =>
      by_cases hzero : current = 0
      · -- the percentage is undefined, but the expression before it fails already
        simp [hzero, dumpNumber, Cmp.apply]
      · simp [hzero, dumpNumber, Cmp.apply]

/-- Third body: the token is anything but the empty text; a null one passes. -/
theorem token_body (req : ActionRequest) :
    Expr.holds req.dump ⟨.input "approval_token", .ne, .lit (.str "")⟩ = true ↔
      req.approvalToken ≠ some "" := by
  cases h : req.approvalToken <;> simp [Expr.holds, dump_token, h, dumpText, Cmp.apply]

theorem adsAllow_iff (req : ActionRequest) :
    adsAllow req = true ↔ req.action ≠ .updateBudget ∨
      (req.action = .updateBudget ∧ ∃ current new, req.currentBudget = some current ∧
        req.newBudget = some new ∧ 0 < current ∧ (new - current) / current * 100 ≤ 20) ∨
      req.approvalToken ≠ some "" := by
  rw [adsAllow, allowBodies, holds_cons, holds_cons, holds_cons, holds_nil, Bool.or_false,
    Bool.or_eq_true, Bool.or_eq_true, update_body]
  simp only [List.all_cons, List.all_nil, Bool.and_true, action_body, token_body]

/-! ## Where the two gates agree -/

/-- The requests that both gates decide alike: any action but a budget update; a
budget update with both budgets and no token at all that is within the
autonomous limit; one with both budgets and a token, unless the token is empty
and both budgets are zero; one without both budgets whose token is empty. -/
def GatesAgree (req : ActionRequest) : Prop :=
  req.action = .updateBudget →
    match req.currentBudget, req.newBudget, req.approvalToken with
    | some current, some new, none =>
      (current = 0 ∧ new = 0) ∨ (0 < current ∧ (new - current) / current * 100 ≤ 20)
    | some current, some new, some token => token = "" → ¬ (current = 0 ∧ new = 0)
    | _, _, token => token = some ""

/-- The autonomous limit, with both budgets nonnegative. -/
theorem withinLimit_iff {pct current new : ℚ} (hcur : 0 ≤ current) (hnew : 0 ≤ new) :
    WithinLimit pct current new ↔
      (current = 0 ∧ new = 0) ∨ (0 < current ∧ (new - current) / current * 100 ≤ pct) := by
  unfold WithinLimit
  rcases hcur.eq_or_lt with hzero | hpos
  · subst hzero
    simp [hnew.ge_iff_eq']
  · simp [hpos, hpos.ne']

/-- `evaluate_action` with the default limit and `ads.authz.allow` decide alike
exactly on the requests of `GatesAgree`. -/
theorem gates_agree_iff (settings : Settings) (req : ActionRequest) :
    ((evaluateAction { settings with maxBudgetIncreasePct := 20 } req).allowed = true ↔
      adsAllow req = true) ↔ GatesAgree req := by
  rw [adsAllow_iff, GatesAgree]
  by_cases hact : req.action = .updateBudget
  swap
  · simp [hact, evaluateAction_other _ hact]
  cases hcur : req.currentBudget with
  | none =>
    -- the hub refuses, so the OPA policy has to refuse: only an empty token does that
    have hno := evaluateAction_missing { settings with maxBudgetIncreasePct := 20 } hact
      (Or.inl hcur)
    simp [hact, hno]
  | some current =>
    cases hnew : req.newBudget with
    | none =>
      have hno := evaluateAction_missing { settings with maxBudgetIncreasePct := 20 } hact
        (Or.inr hnew)
      simp [hact, hno]
    | some new =>
      have hlimit : WithinLimit 20 current new ↔ _ :=
        withinLimit_iff (req.current_nonneg current hcur) (req.new_nonneg new hnew)
      rw [evaluateAction_update _ hact hcur hnew, hlimit]
      cases htok : req.approvalToken with
      | none => simp [hact, ActionRequest.approved, htok]
      | some token =>
        by_cases hempty : token = ""
        · -- an empty token approves nothing on either side
          simp only [ActionRequest.approved, htok, hempty, hact]
          by_cases hzero : current = 0 ∧ new = 0
          · simp [hzero]
          · simp [hzero]
        · simp [hact, ActionRequest.approved, htok, hempty]

/-- A budget update from 100 to 150 without an approval token. -/
def unapprovedIncrease : ActionRequest :=
  { platform := .tiktok, action := .updateBudget, objectId := "abc"
    currentBudget := some 100, newBudget := some 150 }

/-- The hub asks for approval; the OPA policy allows it. -/
theorem opa_allows_unapproved_increase :
    (evaluateAction {} unapprovedIncrease).allowed = false ∧
      (evaluateAction {} unapprovedIncrease).requiresApproval = true ∧
      adsAllow unapprovedIncrease = true := by
  decide +kernel

end AdsHub
