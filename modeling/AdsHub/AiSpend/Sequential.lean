import AdsHub.Lib.Runs
import AdsHub.Lib.Admission
import AdsHub.AiSpend.Ledger

/-!
# AdsHub.AiSpend.Sequential — the ledger served one request at a time

`/check` and `/record` requests, auxiliary and primary in any mix, are served
one after another. Three things are settled about such runs:

* `monthly_ceiling` — whatever the clock does between a check and its insert,
  the auxiliary rows of a calendar month never pass the budget, as long as no
  accepted call costs more than its estimate;
* `free_first_iff` — without that proviso they do: the month's total stays
  within every budget exactly when no call costs more than its estimate;
* `primary_spend_iff` — the sum does not tell primary rows from auxiliary ones,
  so two runs that differ in their primary calls only are answered alike under
  every budget exactly when the primary costs before each auxiliary request
  agree.

Within one month the ledger refines the admission gate of `Lib.Admission`
(`serve_refines`): the running total is the month's sum and the limit is the
budget.
-/

namespace AdsHub.AiSpend

/-! ## Runs of requests -/

/-- A request to one of the two endpoints. -/
inductive Request where
  | check (data : SpendCheckIn)
  | record (data : SpendRecordIn)

/-- The fields that the admission check reads. -/
def Request.data : Request → SpendCheckIn
  | .check data => data
  | .record data => data.toSpendCheckIn

/-- What the request adds to the table when it is let through. -/
def Request.cost : Request → ℚ
  | .check _ => 0
  | .record data => data.actualCostBrl

theorem Request.cost_nonneg (r : Request) : 0 ≤ r.cost := by
  cases r with
  | check data => exact le_refl _
  | record data => exact data.actual_nonneg

/-- A request with the readings of the clock made while it is served: `now` by
the check, `created` by the insert. -/
structure Call where
  request : Request
  now : Utc
  created : Utc

/-- The table after one request. -/
def serve (env : Option ℚ) (db : List SpendEvent) (c : Call) : List SpendEvent :=
  match c.request with
  | .check _ => db
  | .record data => (record env c.now c.created db data).2

/-- Whether the request is answered with success. -/
def answer (env : Option ℚ) (db : List SpendEvent) (c : Call) : Bool :=
  match c.request with
  | .check data => (preflight env c.now db data).isOk
  | .record data => (record env c.now c.created db data).1.isOk

/-- The row that the request inserts, if any. -/
def insertedRows (env : Option ℚ) (db : List SpendEvent) (c : Call) : List SpendEvent :=
  match c.request with
  | .check _ => []
  | .record data => if answer env db c then [eventRow c.created data] else []

/-- Both endpoints answer with the decision of `check_spend`. -/
theorem answer_eq (env : Option ℚ) (db : List SpendEvent) (c : Call) :
    answer env db c = (checkSpend env c.now db c.request.data).allowed := by
  unfold answer Request.data
  cases c.request with
  | check data => exact preflight_isOk env c.now db data
  | record data => exact record_isOk env c.now c.created db data

/-- A call appends the rows it is admitted with. -/
theorem serve_eq (env : Option ℚ) (db : List SpendEvent) (c : Call) :
    serve env db c = db ++ insertedRows env db c := by
  unfold serve insertedRows
  rw [answer_eq]
  unfold Request.data
  cases c.request with
  | check data => simp
  | record data =>
    simp only [record_db]
    split <;> simp

/-- What one request adds to a month's sum. -/
theorem currentMonthSpend_insertedRows (env : Option ℚ) (db : List SpendEvent) (c : Call)
    (t : Utc) :
    currentMonthSpend t (insertedRows env db c) =
      if answer env db c ∧ t.SameMonth c.created then c.request.cost else 0 := by
  unfold insertedRows Request.cost
  cases c.request with
  | check data => simp
  | record data =>
    by_cases h : answer env db c = true
    · simp only [h, if_true, true_and, currentMonthSpend_eventRow]
    · simp [h]

/-! ## The ceiling of a month, with the clock running

A check may be made in one month and its row be written in the next. The
invariant relates the three things that decide this: no row is later than the
clock, the auxiliary rows of a month are among its rows, and they are within
the budget. -/

/-- Every reading of the run is at or after the one before it, from `last` on. -/
def Clocked : Utc → List Call → Prop
  | _, [] => True
  | last, c :: cs => last ≤ c.now ∧ c.now ≤ c.created ∧ Clocked c.created cs

/-- The rows that the auxiliary requests of a run insert, from table `db` on. -/
def auxiliaryRows (env : Option ℚ) : List SpendEvent → List Call → List SpendEvent
  | _, [] => []
  | db, c :: cs =>
    (if c.request.data.auxiliary then insertedRows env db c else [])
      ++ auxiliaryRows env (serve env db c) cs

/-- The call, if it is auxiliary and let through, costs no more than estimated. -/
def CostsAtMostEstimate (env : Option ℚ) (db : List SpendEvent) (c : Call) : Prop :=
  c.request.data.auxiliary = true → answer env db c = true →
    c.request.cost ≤ c.request.data.estimatedCostBrl

/-- The invariant of a sequential run: `db` is the table, `aux` those of its rows
that came from auxiliary requests and `last` the clock. -/
structure CeilingInv (env : Option ℚ) (last : Utc) (db aux : List SpendEvent) : Prop where
  /-- No row lies in a month that the clock has not reached. -/
  future : ∀ m : Utc, last.monthIndex < m.monthIndex → currentMonthSpend m db = 0
  /-- The auxiliary rows are part of the table, and no amount is negative. -/
  part : ∀ m : Utc, 0 ≤ currentMonthSpend m aux ∧
    currentMonthSpend m aux ≤ currentMonthSpend m db
  /-- No month's auxiliary rows pass the budget. -/
  ceiling : ∀ m : Utc, currentMonthSpend m aux ≤ auxiliaryBudgetBrl env

theorem ceilingInv_init (env : Option ℚ) (last : Utc) : CeilingInv env last [] [] where
  future := fun _ _ => rfl
  part := fun _ => ⟨le_refl _, le_refl _⟩
  ceiling := fun _ => auxiliaryBudgetBrl_nonneg env

/-- What a request inserts adds a nonnegative amount to every month. -/
theorem insertedRows_nonneg (env : Option ℚ) (db : List SpendEvent) (c : Call) (m : Utc) :
    0 ≤ currentMonthSpend m (insertedRows env db c) := by
  rw [currentMonthSpend_insertedRows]
  split
  · exact c.request.cost_nonneg
  · exact le_refl _

/-- An auxiliary request that is let through leaves the month it is written in
within the budget: if that is the month of the check, the check has seen all
its rows; if it is a later one, that month has no row yet. -/
theorem CeilingInv.auxiliary_le {env : Option ℚ} {last : Utc} {db aux : List SpendEvent}
    (h : CeilingInv env last db aux) {c : Call} (haux : c.request.data.auxiliary = true)
    (hlast : last ≤ c.now) (hclock : c.now ≤ c.created) (hcost : CostsAtMostEstimate env db c)
    (hok : answer env db c = true) {m : Utc} (hm : m.SameMonth c.created) :
    currentMonthSpend m aux + c.request.cost ≤ auxiliaryBudgetBrl env := by
  have hle := hcost haux hok
  have hroom : currentMonthSpend c.now db + c.request.data.estimatedCostBrl
      ≤ auxiliaryBudgetBrl env := by
    rw [← checkSpend_auxiliary env c.now db haux, ← answer_eq]
    exact hok
  have hpart := h.part m
  by_cases hsame : c.now.SameMonth c.created
  · -- written in the month of its check, which has seen every row of it
    have hsum : currentMonthSpend m db = currentMonthSpend c.now db :=
      currentMonthSpend_congr (hm.trans hsame.symm) db
    linarith [hpart.2]
  · -- the month has turned in between: the new one has no row yet, and the estimate
    -- alone is within the budget
    have hmono := Utc.monthIndex_mono hclock
    have hlast' := Utc.monthIndex_mono hlast
    have hlater : last.monthIndex < m.monthIndex := by
      unfold Utc.SameMonth at hm hsame
      omega
    have hempty := h.future m hlater
    have hnow := h.part c.now
    linarith [hpart.2]

/-- One call keeps the invariant; the months before its clock are closed. -/
theorem CeilingInv.step {env : Option ℚ} {last : Utc} {db aux : List SpendEvent}
    (h : CeilingInv env last db aux) {c : Call} (hlast : last ≤ c.now) (hclock : c.now ≤ c.created)
    (hcost : CostsAtMostEstimate env db c) :
    CeilingInv env c.created (serve env db c)
      (aux ++ if c.request.data.auxiliary then insertedRows env db c else []) := by
  have hgrow := insertedRows_nonneg env db c
  refine ⟨?_, ?_, ?_⟩
  · -- the row lies in the month of `created`, which the clock has now reached
    intro m hm
    have hmono := Utc.monthIndex_mono (Utc.le_trans hlast hclock)
    have hother : ¬ m.SameMonth c.created := by
      unfold Utc.SameMonth
      omega
    rw [serve_eq, currentMonthSpend_append, h.future m (by omega), currentMonthSpend_insertedRows,
      if_neg (fun hc => hother hc.2), add_zero]
  · -- the table gets every row, the auxiliary part some of them
    intro m
    have hpart := h.part m
    have hm := hgrow m
    rw [serve_eq, currentMonthSpend_append, currentMonthSpend_append]
    split
    · constructor <;> linarith
    · rw [currentMonthSpend_nil]
      constructor <;> linarith
  · intro m
    rw [currentMonthSpend_append]
    split
    · next haux =>
      rw [currentMonthSpend_insertedRows]
      split
      · next hin => exact h.auxiliary_le haux hlast hclock hcost hin.1 hin.2
      · rw [add_zero]
        exact h.ceiling m
    · rw [currentMonthSpend_nil, add_zero]
      exact h.ceiling m

/-- The invariant along a whole run. -/
theorem CeilingInv.run {env : Option ℚ} {cs : List Call} {last : Utc} {db aux : List SpendEvent}
    (h : CeilingInv env last db aux) (hclock : Clocked last cs)
    (hcost : Runs.Along (serve env) (CostsAtMostEstimate env) db cs) (m : Utc) :
    currentMonthSpend m (aux ++ auxiliaryRows env db cs) ≤ auxiliaryBudgetBrl env := by
  induction cs generalizing last db aux with
  | nil => simpa [auxiliaryRows] using h.ceiling m
  | cons c cs ih =>
    rcases hclock with ⟨hlast, hnow, hrest⟩
    have hnext := ih (h.step hlast hnow hcost.1) hrest hcost.2
    rw [auxiliaryRows, ← List.append_assoc]
    exact hnext

/-- The ceiling holds for every calendar month `m`, at the end of every run of
requests from the empty table under a clock that never goes back. -/
theorem monthly_ceiling (env : Option ℚ) (start : Utc) (cs : List Call)
    (hclock : Clocked start cs)
    (hcost : Runs.Along (serve env) (CostsAtMostEstimate env) [] cs) (m : Utc) :
    currentMonthSpend m (auxiliaryRows env [] cs) ≤ auxiliaryBudgetBrl env := by
  have h := (ceilingInv_init env start).run hclock hcost m
  simpa using h

/-! ### A run across the end of a month -/

/-- An auxiliary call of 8 checked in January and written in February, then a
primary call of 100 and an auxiliary call of 3 in February. -/
def rolloverRun : List Call :=
  [⟨.record (wholeRecord 8 8 true), lateJanuary, earlyFebruary⟩,
   ⟨.record (wholeRecord 100 100 false), earlyFebruary, earlyFebruary⟩,
   ⟨.record (wholeRecord 3 3 true), earlyFebruary, earlyFebruary⟩]

/-- A run over a change of month: both months have the whole budget. -/
theorem monthly_ceiling_rollover :
    Clocked lateJanuary rolloverRun ∧
      currentMonthSpend earlyFebruary (auxiliaryRows (some 10) [] rolloverRun)
        ≤ auxiliaryBudgetBrl (some 10) := by
  have hclock : Clocked lateJanuary rolloverRun := by
    refine ⟨?_, ?_, ?_, ?_, ?_, ?_, trivial⟩ <;> decide
  refine ⟨hclock, monthly_ceiling (some 10) lateJanuary rolloverRun hclock ?_ earlyFebruary⟩
  refine ⟨?_, ?_, ?_, trivial⟩ <;> intro _ _ <;> exact le_refl _

/-! ## Within one month: the admission gate

With every reading in one month the table matters only through the month's sum,
which moves as the running total of an admission gate whose limit is the
budget. -/

/-- Both readings of the call lie in the month of `t`. -/
def Call.InMonth (t : Utc) (c : Call) : Prop := t.SameMonth c.now ∧ t.SameMonth c.created

/-- The request as a demand on the gate: an auxiliary one asks for its estimate,
a primary one is not gated. -/
def Request.demand (r : Request) : Admission.Demand ℚ where
  ask := if r.data.auxiliary then some r.data.estimatedCostBrl else none
  cost := r.cost

/-- Within a month the endpoint's answer is the abstract admission of its demand. -/
theorem answer_refines (env : Option ℚ) (db : List SpendEvent) {t : Utc} {c : Call}
    (hc : c.InMonth t) :
    answer env db c =
      Admission.admits (auxiliaryBudgetBrl env) (currentMonthSpend t db) c.request.demand := by
  rw [answer_eq, Bool.eq_iff_iff]
  cases haux : c.request.data.auxiliary with
  | true =>
    have hask : c.request.demand.ask = some c.request.data.estimatedCostBrl := by
      simp [Request.demand, haux]
    rw [checkSpend_auxiliary env c.now db haux, Admission.admits_some hask,
      currentMonthSpend_congr hc.1]
  | false =>
    have hask : c.request.demand.ask = none := by simp [Request.demand, haux]
    simp [checkSpend_primary env c.now db haux, Admission.admits_none hask]

/-- Within a month the sum grows as the abstract admission says. -/
theorem serve_refines (env : Option ℚ) (db : List SpendEvent) {t : Utc} {c : Call}
    (hc : c.InMonth t) :
    currentMonthSpend t (serve env db c) =
      Admission.add (auxiliaryBudgetBrl env) (currentMonthSpend t db) c.request.demand := by
  rw [serve_eq, currentMonthSpend_append, currentMonthSpend_insertedRows, answer_refines env db hc,
    Admission.add]
  simp only [hc.2, and_true]
  split
  · rfl
  · rw [add_zero]

/-- The demands of a run. -/
def demands (cs : List Call) : List (Admission.Demand ℚ) := cs.map (·.request.demand)

/-- The month's sum after a run is the gate's running total. -/
theorem run_refines (env : Option ℚ) {t : Utc} {cs : List Call} (hcs : ∀ c ∈ cs, c.InMonth t)
    (db : List SpendEvent) :
    currentMonthSpend t (Runs.run (serve env) db cs) =
      Admission.total (auxiliaryBudgetBrl env) (currentMonthSpend t db) (demands cs) := by
  induction cs generalizing db with
  | nil => rfl
  | cons c cs ih =>
    rw [List.forall_mem_cons] at hcs
    rw [Runs.run_cons, ih hcs.2, serve_refines env db hcs.1]
    rfl

theorem demands_cost_nonneg {cs : List Call} : ∀ d ∈ demands cs, 0 ≤ d.cost := by
  intro d hd
  rcases List.mem_map.1 hd with ⟨c, _, rfl⟩
  exact c.request.cost_nonneg

theorem demands_ask_nonneg {cs : List Call} : ∀ d ∈ demands cs, ∀ e, d.ask = some e → 0 ≤ e := by
  intro d hd e he
  rcases List.mem_map.1 hd with ⟨c, _, rfl⟩
  simp only [Request.demand] at he
  split at he
  · cases he
    exact c.request.data.estimated_nonneg
  · cases he

/-! ## Free calls stay available

The check is made on the estimate, the ledger adds the actual cost. The month's
total stays within the budget, and a free call stays admissible, under every
budget exactly when no `/record` of the run costs more than its estimate. -/

/-- The call is a `/record` of an auxiliary request. -/
def Call.AuxiliaryRecord (c : Call) : Prop :=
  ∃ data : SpendRecordIn, c.request = .record data ∧ data.auxiliary = true

/-- After the run so far the month of `t` is within the budget, and a free
auxiliary request is let through. -/
def FreeFirst (env : Option ℚ) (t : Utc) (db : List SpendEvent) : Prop :=
  currentMonthSpend t db ≤ auxiliaryBudgetBrl env ∧
    ∀ (now : Utc) (data : SpendCheckIn), t.SameMonth now → data.auxiliary = true →
      data.estimatedCostBrl = 0 → (checkSpend env now db data).allowed = true

/-- A free request is let through as soon as the month is within the budget. -/
theorem freeFirst_iff_within (env : Option ℚ) (t : Utc) (db : List SpendEvent) :
    FreeFirst env t db ↔ currentMonthSpend t db ≤ auxiliaryBudgetBrl env := by
  constructor
  · exact fun h => h.1
  · intro h
    refine ⟨h, fun now data hnow haux hfree => ?_⟩
    rw [checkSpend_auxiliary env now db haux, hfree, add_zero, ← currentMonthSpend_congr hnow]
    exact h

/-- The month stays within every budget, and a free request is let through after every
prefix of the run, exactly when no `/record` of it costs more than its estimate. -/
theorem free_first_iff (t : Utc) (cs : List Call)
    (hcs : ∀ c ∈ cs, c.InMonth t ∧ c.AuxiliaryRecord) :
    (∀ env pre, pre <+: cs → FreeFirst env t (Runs.run (serve env) [] pre)) ↔
      ∀ data : SpendRecordIn, .record data ∈ cs.map (·.request) →
        data.actualCostBrl ≤ data.estimatedCostBrl := by
  have hgated : ∀ d ∈ demands cs, ∃ e, d.ask = some e ∧ 0 ≤ e := by
    intro d hd
    rcases List.mem_map.1 hd with ⟨c, hc, rfl⟩
    rcases (hcs c hc).2 with ⟨data, hreq, haux⟩
    exact ⟨data.estimatedCostBrl, by simp [Request.demand, hreq, Request.data, haux],
      data.estimated_nonneg⟩
  have hbound := Admission.total_le_limit_iff hgated demands_cost_nonneg 0
  have hpres : ∀ env pre, pre <+: cs →
      (FreeFirst env t (Runs.run (serve env) [] pre) ↔
        Admission.total (auxiliaryBudgetBrl env) 0 (demands pre) ≤ auxiliaryBudgetBrl env) := by
    intro env pre hpre
    rw [freeFirst_iff_within, run_refines env (fun c hc => (hcs c (hpre.subset hc)).1) [],
      currentMonthSpend_nil]
  constructor
  · intro h data hdata
    -- every limit is the budget of some setting of the variable
    have htotal : ∀ limit, 0 ≤ limit → ∀ pre, pre <+: demands cs →
        Admission.total limit 0 pre ≤ limit := by
      intro limit hlimit pre hpre
      rcases List.prefix_map_iff.1 hpre with ⟨pre', hpre', rfl⟩
      have hfree := h (some limit) pre' hpre'
      rw [hpres _ _ hpre', auxiliaryBudgetBrl_some hlimit] at hfree
      exact hfree
    rcases List.mem_map.1 hdata with ⟨c, hc, hreq⟩
    rcases hbound.1 htotal c.request.demand (List.mem_map_of_mem hc) with ⟨e, hask, hle⟩
    rcases (hcs c hc).2 with ⟨data', hreq', haux⟩
    -- the demand of this very record: it asks for the estimate and costs the actual
    rw [hreq] at hreq'
    cases hreq'
    simp only [Request.demand, hreq, Request.data, haux, if_true, Option.some.injEq,
      Request.cost] at hask hle
    rw [hask]
    exact hle
  · intro h env pre hpre
    rw [hpres env pre hpre]
    refine hbound.2 ?_ _ (auxiliaryBudgetBrl_nonneg env) _ (hpre.map _)
    intro d hd
    rcases List.mem_map.1 hd with ⟨c, hc, rfl⟩
    rcases (hcs c hc).2 with ⟨data, hreq, haux⟩
    refine ⟨data.estimatedCostBrl, by simp [Request.demand, hreq, Request.data, haux], ?_⟩
    have hle := h data (List.mem_map.2 ⟨c, hc, hreq⟩)
    simpa [Request.demand, hreq, Request.cost] using hle

/-- An auxiliary `/record` estimated at nothing that costs 10. -/
def understatedRun : List Call :=
  [⟨.record (wholeRecord 0 10 true), earlyFebruary, earlyFebruary⟩]

/-- With budget 0 the understated call is accepted, the month stands at 10, and
from then on a free call is refused. -/
theorem understated_locks_out :
    understatedRun.map (answer (some 0) []) = [true] ∧
      auxiliaryBudgetBrl (some 0) = 0 ∧
      currentMonthSpend earlyFebruary (Runs.run (serve (some 0)) [] understatedRun) = 10 ∧
      (checkSpend (some 0) earlyFebruary (Runs.run (serve (some 0)) [] understatedRun)
        freeCheck).allowed = false := by
  decide +kernel

theorem free_first_iff_understated :
    ¬ ∀ env pre, pre <+: understatedRun →
      FreeFirst env earlyFebruary (Runs.run (serve env) [] pre) := by
  have hcs : ∀ c ∈ understatedRun, c.InMonth earlyFebruary ∧ c.AuxiliaryRecord := by
    intro c hc
    rw [understatedRun, List.mem_singleton] at hc
    subst hc
    exact ⟨⟨by decide, by decide⟩, _, rfl, rfl⟩
  rw [free_first_iff earlyFebruary understatedRun hcs]
  intro h
  have hle := h (wholeRecord 0 10 true) List.mem_cons_self
  exact absurd hle (by decide)

/-! ## Primary spend and the auxiliary allowance

`ai_spend_events` has no column for the kind of call, so primary rows count
against the auxiliary budget. -/

/-- The auxiliary requests of a run, in order. -/
def auxiliaryRequests (cs : List Call) : List Request :=
  (cs.map (·.request)).filter (·.data.auxiliary)

/-- The answers that the auxiliary requests of a run get, in order. -/
def auxiliaryAnswers (env : Option ℚ) : List SpendEvent → List Call → List Bool
  | _, [] => []
  | db, c :: cs =>
    (if c.request.data.auxiliary then [answer env db c] else [])
      ++ auxiliaryAnswers env (serve env db c) cs

/-- For each auxiliary request, the costs of the primary records before it. -/
def primaryCostBefore : ℚ → List Call → List ℚ
  | _, [] => []
  | cost, c :: cs =>
    if c.request.data.auxiliary then cost :: primaryCostBefore cost cs
    else primaryCostBefore (cost + c.request.cost) cs

theorem demand_ask_isSome (r : Request) : r.demand.ask.isSome = r.data.auxiliary := by
  cases h : r.data.auxiliary <;> simp [Request.demand, h]

/-- The gated demands are those of the auxiliary requests. -/
theorem gated_demands (cs : List Call) :
    Admission.gated (demands cs) = (auxiliaryRequests cs).map Request.demand := by
  simp only [Admission.gated, demands, auxiliaryRequests, List.filter_map, List.map_map]
  congr 1
  apply List.filter_congr
  intro c _
  exact demand_ask_isSome c.request

/-- The primary cost ahead of a request is the ungated cost ahead of its demand. -/
theorem primaryCostBefore_eq (u : ℚ) (cs : List Call) :
    primaryCostBefore u cs = Admission.ungatedBefore u (demands cs) := by
  induction cs generalizing u with
  | nil => rfl
  | cons c cs ih =>
    rw [primaryCostBefore, demands, List.map_cons, Admission.ungatedBefore, demand_ask_isSome]
    split
    · rw [ih]; rfl
    · rw [ih]; rfl

/-- The auxiliary answers of a run are the decisions of the abstract one. -/
theorem auxiliaryAnswers_eq (env : Option ℚ) {t : Utc} {cs : List Call}
    (hcs : ∀ c ∈ cs, c.InMonth t) (db : List SpendEvent) :
    auxiliaryAnswers env db cs =
      Admission.decisions (auxiliaryBudgetBrl env) (currentMonthSpend t db) (demands cs) := by
  induction cs generalizing db with
  | nil => rfl
  | cons c cs ih =>
    rw [List.forall_mem_cons] at hcs
    rw [auxiliaryAnswers, demands, List.map_cons, Admission.decisions, demand_ask_isSome,
      ih hcs.2, serve_refines env db hcs.1, answer_refines env db hcs.1]
    split <;> rfl

/-- After primary requests alone the month's sum is what they cost. -/
theorem run_primary (env : Option ℚ) {t : Utc} {cs : List Call} (hcs : ∀ c ∈ cs, c.InMonth t)
    (hprimary : ∀ c ∈ cs, c.request.data.auxiliary = false) :
    currentMonthSpend t (Runs.run (serve env) [] cs) = (cs.map (·.request.cost)).sum := by
  have hnone : ∀ d ∈ demands cs, d.ask = none := by
    intro d hd
    rcases List.mem_map.1 hd with ⟨c, hc, rfl⟩
    simp [Request.demand, hprimary c hc]
  rw [run_refines env hcs, currentMonthSpend_nil, Admission.total_ungated hnone, zero_add, demands,
    List.map_map]
  rfl

/-- Two runs in one month with the same auxiliary requests answer them alike
under every budget iff the primary costs before each of them agree; and after
primary requests alone a free auxiliary request passes at budget 0 iff all of
them were free. -/
theorem primary_spend_iff (t : Utc) (cs cs' : List Call) (hcs : ∀ c ∈ cs, c.InMonth t)
    (hcs' : ∀ c ∈ cs', c.InMonth t) (haux : auxiliaryRequests cs = auxiliaryRequests cs') :
    ((∀ env, auxiliaryAnswers env [] cs = auxiliaryAnswers env [] cs') ↔
      primaryCostBefore 0 cs = primaryCostBefore 0 cs') ∧
    ((∀ c ∈ cs, c.request.data.auxiliary = false) →
      ∀ (now : Utc) (data : SpendCheckIn), t.SameMonth now → data.auxiliary = true →
        data.estimatedCostBrl = 0 →
        ((checkSpend (some 0) now (Runs.run (serve (some 0)) [] cs) data).allowed = true ↔
          ∀ c ∈ cs, c.request.cost = 0)) := by
  constructor
  · have hg : Admission.gated (demands cs) = Admission.gated (demands cs') := by
      rw [gated_demands, gated_demands, haux]
    rw [primaryCostBefore_eq, primaryCostBefore_eq,
      ← Admission.decisions_eq_iff hg demands_cost_nonneg demands_cost_nonneg demands_ask_nonneg 0]
    constructor
    · intro h limit hlimit
      have hanswers := h (some limit)
      rw [auxiliaryAnswers_eq _ hcs, auxiliaryAnswers_eq _ hcs', currentMonthSpend_nil,
        auxiliaryBudgetBrl_some hlimit] at hanswers
      exact hanswers
    · intro h env
      rw [auxiliaryAnswers_eq env hcs, auxiliaryAnswers_eq env hcs', currentMonthSpend_nil]
      exact h _ (auxiliaryBudgetBrl_nonneg env)
  · intro hprimary now data hnow hdata hfree
    have hnonneg : ∀ x ∈ cs.map (·.request.cost), (0 : ℚ) ≤ x := by
      intro x hx
      rcases List.mem_map.1 hx with ⟨c, _, rfl⟩
      exact c.request.cost_nonneg
    rw [checkSpend_auxiliary _ now _ hdata, hfree, add_zero, ← currentMonthSpend_congr hnow,
      run_primary _ hcs hprimary, auxiliaryBudgetBrl_some (le_refl 0)]
    constructor
    · -- a sum of nonnegative costs that is at most 0 has only zeros
      intro hle c hc
      exact List.all_zero_of_le_zero_le_of_sum_eq_zero hnonneg
        (le_antisymm hle (List.sum_nonneg hnonneg)) (List.mem_map_of_mem hc)
    · intro hzero
      rw [List.map_congr_left hzero]
      simp

/-- A primary `/record` of 5. -/
def primaryRun : List Call :=
  [⟨.record (wholeRecord 5 5 false), earlyFebruary, earlyFebruary⟩]

/-- The same free auxiliary check with and without the primary call before it. -/
def freeCheckCall : Call := ⟨.check freeCheck, earlyFebruary, earlyFebruary⟩

/-- At budget 0 the free auxiliary check is allowed, and is refused once a
primary call has been recorded. -/
theorem primary_call_refuses_free_check :
    auxiliaryRequests (primaryRun ++ [freeCheckCall]) = auxiliaryRequests [freeCheckCall] ∧
      auxiliaryAnswers (some 0) [] [freeCheckCall] = [true] ∧
      auxiliaryAnswers (some 0) [] (primaryRun ++ [freeCheckCall]) = [false] :=
  ⟨rfl, by decide +kernel, by decide +kernel⟩

theorem primary_spend_iff_free_check :
    ¬ ∀ env, auxiliaryAnswers env [] (primaryRun ++ [freeCheckCall]) =
      auxiliaryAnswers env [] [freeCheckCall] := by
  have hcs : ∀ c ∈ primaryRun ++ [freeCheckCall], c.InMonth earlyFebruary := by
    intro c hc
    simp only [primaryRun, List.cons_append, List.nil_append, List.mem_cons,
      List.not_mem_nil, or_false] at hc
    rcases hc with rfl | rfl <;> exact ⟨by decide, by decide⟩
  rw [(primary_spend_iff earlyFebruary (primaryRun ++ [freeCheckCall]) [freeCheckCall] hcs
    (fun c hc => hcs c (by simp_all)) rfl).1]
  decide +kernel

end AdsHub.AiSpend
