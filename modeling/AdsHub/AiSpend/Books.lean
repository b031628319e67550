import AdsHub.AiSpend.Concurrent

/-!
# AdsHub.AiSpend.Books — the endpoints of the ledger side by side

`GET /v1/autonomy/ai-spend`, `POST /check` and the two steps of `POST /record`, each on its
own thread, in any order and with any readings of the clock. A client has three ways to
learn of the month's spend: the state, the answer of a check, and the receipts of
`/record`. `books_balance` says that they agree:

* the rows of the table are the receipts, one for one and in the same order;
* every sum that is shown is that of the receipts issued so far whose `created_at` lies
  in the month of the question, on top of what the table had at the beginning;
* an auxiliary check decides by the sum it shows. So a refusal is final for its month: no
  later check of the month admits an estimate as high, whatever is recorded in between.

The threads of `/record` that have passed their check are not in the books until they
insert. That is what lets a month pass its ceiling (`AdsHub.AiSpend.Overshoot`), but it
does not touch what is shown.
-/

namespace AdsHub.AiSpend

/-! ## The endpoints as steps -/

/-- What `state` answers. -/
structure SpendState where
  auxiliaryMonthlyBudgetBrl : ℚ
  monthSpendBrl : ℚ
  freeFirstEnforced : Bool

/-- `state`, the endpoint `GET /v1/autonomy/ai-spend`. -/
def state (env : Option ℚ) (now : Utc) (db : List SpendEvent) : SpendState :=
  { auxiliaryMonthlyBudgetBrl := auxiliaryBudgetBrl env
    monthSpendBrl := currentMonthSpend now db
    freeFirstEnforced := auxiliaryBudgetBrl env == 0 }

/-- What the threads have learnt: the answer of a `state`, the result of a `check_spend`
(of `/check` or of `/record`), the answer of a `/record` that has inserted its row. -/
inductive Entry where
  | shown (now : Utc) (answer : SpendState)
  | checked (now : Utc) (data : SpendCheckIn) (result : SpendCheck)
  | recorded (receipt : Recorded)

/-- The threads of `/record`, and what all threads have learnt so far. -/
structure Books where
  pool : Pool
  log : List Entry := []

/-- A step of one of the requests being served. -/
inductive BookStep where
  | state (now : Utc)
  | preflight (data : SpendCheckIn) (now : Utc)
  | record (step : PoolStep)

/-- What a step of `/record` adds to the log. -/
def recordEntries (env : Option ℚ) (s : Pool) : PoolStep → List Entry
  | .check data now =>
    [.checked now data.toSpendCheckIn (checkSpend env now s.db data.toSpendCheckIn)]
  | .insert k created =>
    match s.inFlight[k]? with
    | none => []
    | some data => [.recorded ⟨created.isoformat, data.actualCostBrl⟩]

def bookStep (env : Option ℚ) (s : Books) : BookStep → Books
  | .state now => { s with log := s.log ++ [.shown now (state env now s.pool.db)] }
  | .preflight data now =>
    { s with log := s.log ++ [.checked now data (checkSpend env now s.pool.db data)] }
  | .record step =>
    { pool := poolStep env s.pool step, log := s.log ++ recordEntries env s.pool step }

/-- A check followed at once by its own insert is `record`, and its receipt is the answer. -/
theorem bookStep_record (env : Option ℚ) (s : Books) (data : SpendRecordIn) (now created : Utc) :
    Runs.run (bookStep env) s
        [.record (.check data now), .record (.insert s.pool.inFlight.length created)] =
      { pool := { s.pool with db := (record env now created s.pool.db data).2 }
        log := s.log ++ [.checked now data.toSpendCheckIn
          (checkSpend env now s.pool.db data.toSpendCheckIn)] ++
          (record env now created s.pool.db data).1.toOption.toList.map Entry.recorded } := by
  have hpool := poolStep_record env s.pool data now created
  simp only [Runs.run_cons, Runs.run_nil] at hpool ⊢
  simp only [bookStep, hpool]
  by_cases h : (checkSpend env now s.pool.db data.toSpendCheckIn).allowed = true
  · simp [recordEntries, poolStep, record, h, Except.toOption]
  · simp [recordEntries, poolStep, record, h, Except.toOption]

/-! ## Receipts -/

/-- The receipt of an entry, if it is one. -/
def Entry.receipt? : Entry → Option Recorded
  | .recorded receipt => some receipt
  | _ => none

def receipts (log : List Entry) : List Recorded := log.filterMap Entry.receipt?

/-- The sum of the receipts whose `created_at` is of the month of `now`. -/
def receiptsIn (now : Utc) (log : List Entry) : ℚ :=
  (((receipts log).filter (fun receipt =>
    Text.like (now.strftimeYm ++ ['%']) receipt.createdAt.toList)).map Recorded.actualCostBrl).sum

theorem receipts_append (log later : List Entry) :
    receipts (log ++ later) = receipts log ++ receipts later := List.filterMap_append

/-- Receipts add up over a longer log. -/
theorem receiptsIn_append (now : Utc) (log later : List Entry) :
    receiptsIn now (log ++ later) = receiptsIn now log + receiptsIn now later := by
  simp [receiptsIn, receipts_append, List.filter_append]

/-- A receipt tells what its row adds to a month. -/
theorem receiptsIn_recorded (now created : Utc) (data : SpendRecordIn) :
    receiptsIn now [.recorded ⟨created.isoformat, data.actualCostBrl⟩] =
      currentMonthSpend now [eventRow created data] := by
  by_cases h : Text.like (now.strftimeYm ++ ['%']) created.isoformat.toList = true
  · simp [receiptsIn, receipts, Entry.receipt?, currentMonthSpend, countsIn, eventRow, h]
  · simp [receiptsIn, receipts, Entry.receipt?, currentMonthSpend, countsIn, eventRow, h]

/-- The receipts of a month are the same for every clock in it. -/
theorem receiptsIn_congr {now now' : Utc} (h : now.SameMonth now') (log : List Entry) :
    receiptsIn now log = receiptsIn now' log := by
  rw [receiptsIn, receiptsIn, Utc.strftimeYm_inj.2 h]

/-! ## The invariant -/

/-- What an entry says is true of the receipts before it; `db` is the table of the
beginning. -/
def Entry.Holds (env : Option ℚ) (db : List SpendEvent) (earlier : List Entry) : Entry → Prop
  | .shown now answer =>
    answer = ⟨auxiliaryBudgetBrl env, currentMonthSpend now db + receiptsIn now earlier,
      auxiliaryBudgetBrl env == 0⟩
  | .checked now data result =>
    if data.auxiliary then
      result.monthSpendBrl = currentMonthSpend now db + receiptsIn now earlier ∧
        (result.allowed = true ↔
          result.monthSpendBrl + data.estimatedCostBrl ≤ auxiliaryBudgetBrl env)
    else result.allowed = true
  | .recorded receipt => 0 ≤ receipt.actualCostBrl

/-- What a logged auxiliary answer has to satisfy: the month's sum it shows and the decision
it carries. -/
theorem holds_auxiliary {env : Option ℚ} {db : List SpendEvent} {earlier : List Entry} {now : Utc}
    {data : SpendCheckIn} {result : SpendCheck} (haux : data.auxiliary = true) :
    (Entry.checked now data result).Holds env db earlier ↔
      result.monthSpendBrl = currentMonthSpend now db + receiptsIn now earlier ∧
        (result.allowed = true ↔
          result.monthSpendBrl + data.estimatedCostBrl ≤ auxiliaryBudgetBrl env) := by
  simp only [Entry.Holds, haux, if_true]

/-- A logged primary answer is always a yes. -/
theorem holds_primary {env : Option ℚ} {db : List SpendEvent} {earlier : List Entry} {now : Utc}
    {data : SpendCheckIn} {result : SpendCheck} (haux : data.auxiliary = false) :
    (Entry.checked now data result).Holds env db earlier ↔ result.allowed = true := by
  simp [Entry.Holds, haux]

/-- The amounts of the table and when they were created. -/
def amounts (db : List SpendEvent) : List (String × Option ℚ) :=
  db.map (fun row => (row.createdAt, row.actualCostBrl))

structure Balanced (env : Option ℚ) (db : List SpendEvent) (s : Books) : Prop where
  rows : amounts s.pool.db =
    amounts db ++ (receipts s.log).map (fun receipt => (receipt.createdAt, some receipt.actualCostBrl))
  sums : ∀ now, currentMonthSpend now s.pool.db = currentMonthSpend now db + receiptsIn now s.log
  holds : ∀ (i : ℕ) (e : Entry), s.log[i]? = some e → e.Holds env db (s.log.take i)

namespace Balanced

variable {env : Option ℚ} {db : List SpendEvent} {s : Books}

theorem init (env : Option ℚ) (db : List SpendEvent) : Balanced env db ⟨⟨db, []⟩, []⟩ := by
  refine ⟨(List.append_nil _).symm, fun now => (add_zero _).symm, ?_⟩
  intro i e hi
  cases hi

/-- One more entry that holds. -/
theorem holds_concat (h : Balanced env db s) {e : Entry} (he : e.Holds env db s.log) :
    ∀ (i : ℕ) (e' : Entry), (s.log ++ [e])[i]? = some e' → e'.Holds env db ((s.log ++ [e]).take i) := by
  intro i e' hi
  have hlt := (List.getElem?_eq_some_iff.1 hi).1
  rw [List.length_append, List.length_singleton] at hlt
  rcases Nat.lt_or_eq_of_le (Nat.le_of_lt_succ hlt) with hold | rfl
  · rw [List.getElem?_append_left hold] at hi
    rw [List.take_append_of_le_length hold.le]
    exact h.holds i e' hi
  · rw [List.getElem?_concat_length] at hi
    rw [List.take_left, ← Option.some.inj hi]
    exact he

/-- A reading leaves the receipts as they are. -/
theorem read (h : Balanced env db s) {e : Entry} (hnone : e.receipt? = none)
    (he : e.Holds env db s.log) (inFlight : List SpendRecordIn) :
    Balanced env db ⟨⟨s.pool.db, inFlight⟩, s.log ++ [e]⟩ := by
  have hreceipts : receipts (s.log ++ [e]) = receipts s.log := by
    rw [receipts_append]
    simp [receipts, hnone]
  refine ⟨?_, ?_, h.holds_concat he⟩
  · show amounts s.pool.db = _
    rw [hreceipts]
    exact h.rows
  · intro now
    show currentMonthSpend now s.pool.db = _
    rw [receiptsIn, hreceipts]
    exact h.sums now

/-- An answer given now agrees with the books as they stand. -/
theorem checked (h : Balanced env db s) (data : SpendCheckIn) (now : Utc) :
    (Entry.checked now data (checkSpend env now s.pool.db data)).Holds env db s.log := by
  cases haux : data.auxiliary with
  | true =>
    rw [holds_auxiliary haux, checkSpend_auxiliary env now _ haux,
      checkSpend_monthSpendBrl env now _ haux]
    exact ⟨h.sums now, Iff.rfl⟩
  | false => exact (holds_primary haux).2 (checkSpend_primary env now _ haux)

/-- One step of any client keeps the books balanced. -/
theorem step (h : Balanced env db s) (st : BookStep) : Balanced env db (bookStep env s st) := by
  cases st with
  | state now =>
    refine h.read rfl ?_ _
    show state env now s.pool.db = _
    rw [state, h.sums]
  | preflight data now => exact h.read rfl (h.checked data now) _
  | record st =>
    cases st with
    | check data now =>
      -- whether it is admitted or refused, only the answer is written down
      have hread := h.read rfl (h.checked data.toSpendCheckIn now)
      simp only [bookStep, poolStep, recordEntries]
      split
      · exact hread _
      · exact hread _
    | insert k created =>
      simp only [bookStep, poolStep, recordEntries]
      cases hk : s.pool.inFlight[k]? with
      | none =>
        rw [List.append_nil]
        exact h
      | some data =>
        -- the receipt and the row are the same amount in the same month
        refine ⟨?_, ?_, h.holds_concat data.actual_nonneg⟩
        · have hrows := h.rows
          simp only [amounts, receipts_append, List.map_append] at hrows ⊢
          rw [hrows, List.append_assoc]
          rfl
        · intro now
          show currentMonthSpend now (s.pool.db ++ [eventRow created data]) = _
          rw [currentMonthSpend_append, h.sums, receiptsIn_append, receiptsIn_recorded, add_assoc]

end Balanced

/-! ## All requests -/

/-- Receipts never lower the month. -/
theorem receiptsIn_nonneg {log : List Entry} (h : ∀ receipt ∈ receipts log, 0 ≤ receipt.actualCostBrl)
    (now : Utc) : 0 ≤ receiptsIn now log := by
  refine List.sum_nonneg ?_
  intro x hx
  obtain ⟨receipt, hmem, rfl⟩ := List.mem_map.1 hx
  exact h receipt (List.mem_filter.1 hmem).1

/-- What is shown of a month does not fall. -/
theorem Balanced.receiptsIn_take_mono {env : Option ℚ} {db : List SpendEvent} {s : Books}
    (h : Balanced env db s) (now : Utc) {i j : ℕ} (hij : i ≤ j) :
    receiptsIn now (s.log.take i) ≤ receiptsIn now (s.log.take j) := by
  obtain ⟨rest, hrest⟩ := List.take_prefix_take_left hij (l := s.log)
  have hnonneg : 0 ≤ receiptsIn now rest := by
    refine receiptsIn_nonneg ?_ now
    intro receipt hreceipt
    obtain ⟨e, he, hsome⟩ := List.mem_filterMap.1 hreceipt
    have hlog : e ∈ s.log := by
      refine List.mem_of_mem_take (i := j) ?_
      rw [← hrest]
      exact List.mem_append_right _ he
    obtain ⟨k, hk⟩ := List.mem_iff_getElem?.1 hlog
    have hholds := h.holds k e hk
    cases e with
    | shown now answer => cases hsome
    | checked now data result => cases hsome
    | recorded receipt' =>
      cases hsome
      exact hholds
  rw [← hrest, receiptsIn_append]
  linarith

/-- A refusal is final for its month. -/
theorem Balanced.refusal_stays {env : Option ℚ} {db : List SpendEvent} {s : Books}
    (h : Balanced env db s) {i j : ℕ} {now now' : Utc} {data data' : SpendCheckIn}
    {result result' : SpendCheck} (hij : i ≤ j)
    (hi : s.log[i]? = some (.checked now data result)) (hrefused : result.allowed = false)
    (hj : s.log[j]? = some (.checked now' data' result')) (haux' : data'.auxiliary = true)
    (hmonth : now.SameMonth now') (hmore : data.estimatedCostBrl ≤ data'.estimatedCostBrl) :
    result'.allowed = false := by
  have hfirst := h.holds i _ hi
  have hlater := (holds_auxiliary haux').1 (h.holds j _ hj)
  cases haux : data.auxiliary with
  | false =>
    -- a primary request is not refused
    rw [holds_primary haux, hrefused] at hfirst
    cases hfirst
  | true =>
    rw [holds_auxiliary haux] at hfirst
    have hover := Bool.eq_false_iff.1 hrefused
    have hmono := h.receiptsIn_take_mono now' hij
    rw [Bool.eq_false_iff]
    intro hallowed
    have hroom := hlater.2.1 hallowed
    rw [ne_eq, hfirst.2, hfirst.1, currentMonthSpend_congr hmonth, receiptsIn_congr hmonth] at hover
    rw [hlater.1] at hroom
    exact hover (by linarith)

/-- For every budget, every table and every interleaving of the requests, whatever the
clock shows at each step: the rows are the receipts, every sum that is shown is that of the
receipts of its month, and a refusal is final for its month. A `/record` that is not
interrupted between its check and its insert does what `record` does. -/
theorem books_balance (env : Option ℚ) (db : List SpendEvent) (steps : List BookStep) :
    Balanced env db (Runs.run (bookStep env) ⟨⟨db, []⟩, []⟩ steps) ∧
    (∀ (i j : ℕ) (now now' : Utc) (data data' : SpendCheckIn) (result result' : SpendCheck),
      i ≤ j →
      (Runs.run (bookStep env) ⟨⟨db, []⟩, []⟩ steps).log[i]? = some (.checked now data result) →
      result.allowed = false →
      (Runs.run (bookStep env) ⟨⟨db, []⟩, []⟩ steps).log[j]? = some (.checked now' data' result') →
      data'.auxiliary = true → now.SameMonth now' →
      data.estimatedCostBrl ≤ data'.estimatedCostBrl → result'.allowed = false) ∧
    ∀ (data : SpendRecordIn) (now created : Utc) (s : Books),
      s = Runs.run (bookStep env) ⟨⟨db, []⟩, []⟩ steps →
      Runs.run (bookStep env) s
          [.record (.check data now), .record (.insert s.pool.inFlight.length created)] =
        { pool := { s.pool with db := (record env now created s.pool.db data).2 }
          log := s.log ++ [.checked now data.toSpendCheckIn
            (checkSpend env now s.pool.db data.toSpendCheckIn)] ++
            (record env now created s.pool.db data).1.toOption.toList.map Entry.recorded } := by
  have h : Balanced env db (Runs.run (bookStep env) ⟨⟨db, []⟩, []⟩ steps) :=
    Runs.run_invariant (P := fun _ => True) (fun _ st hs _ => hs.step st) (Balanced.init env db)
      (fun _ _ => trivial) (List.prefix_refl steps)
  refine ⟨h, ?_, ?_⟩
  · intro i j now now' data data' result result' hij hi hrefused hj haux hmonth hmore
    exact h.refusal_stays hij hi hrefused hj haux hmonth hmore
  · rintro data now created s -
    exact bookStep_record env s data now created

end AdsHub.AiSpend
