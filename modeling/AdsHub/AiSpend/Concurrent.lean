import AdsHub.Lib.Runs
import AdsHub.AiSpend.Ledger

/-!
# AdsHub.AiSpend.Concurrent — the ledger under concurrent requests

Two interleavings of the endpoints, both within one month:

1. **Inside `/record`.** The endpoints are synchronous, so the server runs them
   in a thread pool: `record` is the two steps "read the month's sum and decide"
   and "insert the row", each on its own connection, and the steps of different
   requests interleave freely (`Pool`, `poolStep`). The check does not see the
   requests that are admitted and have not inserted their row yet, and two of
   them can pass the ceiling together (`two_checks_before_insert`). What holds
   is `concurrent_ceiling`.
2. **Between `/check` and `/record`.** A client asks first, makes the call, and
   records it afterwards, each request being atomic (`Clients`, `clientStep`).
   `record` decides anew, so an incurred cost can be refused
   (`recorded_in_between`); `record_refused_iff` says exactly when.
-/

namespace AdsHub.AiSpend

/-! ## Check and insert as two steps -/

/-- The table, and the `/record` requests that have passed their check and have
not inserted their row. -/
structure Pool where
  db : List SpendEvent
  inFlight : List SpendRecordIn

/-- A step of one of the requests being served: its check, or the insert of the
`k`-th request in flight. -/
inductive PoolStep where
  | check (data : SpendRecordIn) (now : Utc)
  | insert (k : ℕ) (created : Utc)

def poolStep (env : Option ℚ) (s : Pool) : PoolStep → Pool
  | .check data now =>
    if (checkSpend env now s.db data.toSpendCheckIn).allowed then
      { s with inFlight := s.inFlight ++ [data] }
    else s
  | .insert k created =>
    match s.inFlight[k]? with
    | none => s
    | some data => { db := s.db ++ [eventRow created data], inFlight := s.inFlight.eraseIdx k }

/-- A check followed at once by its own insert is `record`. -/
theorem poolStep_record (env : Option ℚ) (s : Pool) (data : SpendRecordIn) (now created : Utc) :
    Runs.run (poolStep env) s [.check data now, .insert s.inFlight.length created] =
      { s with db := (record env now created s.db data).2 } := by
  rw [record_db]
  by_cases h : (checkSpend env now s.db data.toSpendCheckIn).allowed = true
  · simp [poolStep, h, List.eraseIdx_append_of_length_le]
  · simp [poolStep, h]

/-- What the requests in flight are going to add to the month. -/
def Pool.pending (s : Pool) : ℚ := (s.inFlight.map (·.actualCostBrl)).sum

/-- The table as it will be once the requests in flight have inserted their
rows. -/
def Pool.settled (s : Pool) (now : Utc) : List SpendEvent :=
  s.db ++ s.inFlight.map (eventRow now)

theorem Pool.pending_nonneg (s : Pool) : 0 ≤ s.pending := by
  apply List.sum_nonneg
  intro x hx
  rcases List.mem_map.1 hx with ⟨data, _, rfl⟩
  exact data.actual_nonneg

/-- Rows written in the month count with their actual cost. -/
theorem currentMonthSpend_rows {t now : Utc} (h : t.SameMonth now) (ds : List SpendRecordIn) :
    currentMonthSpend t (ds.map (eventRow now)) = (ds.map (·.actualCostBrl)).sum := by
  induction ds with
  | nil => rfl
  | cons d ds ih =>
    rw [List.map_cons, ← List.singleton_append, currentMonthSpend_append,
      currentMonthSpend_eventRow, if_pos h, ih, List.map_cons, List.sum_cons]

/-- Were every admitted request inserted now, the month would stand at what is stored and
what is pending. -/
theorem Pool.currentMonthSpend_settled (s : Pool) {t now : Utc} (h : t.SameMonth now) :
    currentMonthSpend t (s.settled now) = currentMonthSpend t s.db + s.pending := by
  rw [Pool.settled, currentMonthSpend_append, currentMonthSpend_rows h, Pool.pending]

/-- A step of an auxiliary request that costs no more than its estimate, read and
written in the month of `t`. -/
def PoolStep.Auxiliary (t : Utc) : PoolStep → Prop
  | .check data now =>
    t.SameMonth now ∧ data.auxiliary = true ∧ data.actualCostBrl ≤ data.estimatedCostBrl
  | .insert _ created => t.SameMonth created

/-- The check is not misled by rows that are still to come: what it admits it
would admit as well with the rows of the requests in flight in the table. -/
def NotMisled (env : Option ℚ) (s : Pool) : PoolStep → Prop
  | .check data now =>
    (checkSpend env now s.db data.toSpendCheckIn).allowed = true →
      (checkSpend env now (s.settled now) data.toSpendCheckIn).allowed = true
  | .insert _ _ => True

/-- With no request in flight no check is misled. -/
theorem notMisled_of_idle (env : Option ℚ) {s : Pool} (h : s.inFlight = []) (st : PoolStep) :
    NotMisled env s st := by
  cases st with
  | check data now => simp [NotMisled, Pool.settled, h]
  | insert k created => trivial

/-- The invariant: the month is within the budget even with everything in flight
written down. -/
def PoolInv (env : Option ℚ) (t : Utc) (s : Pool) : Prop :=
  currentMonthSpend t s.db + s.pending ≤ auxiliaryBudgetBrl env

/-- An insert moves one actual cost from the pending sum to the ledger. -/
theorem pending_eraseIdx {ds : List SpendRecordIn} {k : ℕ} {data : SpendRecordIn}
    (h : ds[k]? = some data) :
    data.actualCostBrl + ((ds.eraseIdx k).map (·.actualCostBrl)).sum =
      (ds.map (·.actualCostBrl)).sum := by
  induction ds generalizing k with
  | nil => simp at h
  | cons d ds ih =>
    cases k with
    | zero =>
      simp only [List.getElem?_cons_zero, Option.some.injEq] at h
      simp [h]
    | succ k =>
      have hk : ds[k]? = some data := by simpa using h
      have hsum := ih hk
      simp only [List.eraseIdx_cons_succ, List.map_cons, List.sum_cons]
      linarith

/-- An insert moves a cost from the requests in flight into the table. -/
theorem poolInv_insert {env : Option ℚ} {t : Utc} {s : Pool} {k : ℕ} {created : Utc}
    (hmonth : t.SameMonth created) (h : PoolInv env t s) :
    PoolInv env t (poolStep env s (.insert k created)) := by
  simp only [poolStep]
  cases hk : s.inFlight[k]? with
  | none => exact h
  | some data =>
    have hsum := pending_eraseIdx hk
    have h' : currentMonthSpend t s.db + (s.inFlight.map (·.actualCostBrl)).sum
        ≤ auxiliaryBudgetBrl env := h
    show currentMonthSpend t (s.db ++ [eventRow created data])
      + ((s.inFlight.eraseIdx k).map (·.actualCostBrl)).sum ≤ auxiliaryBudgetBrl env
    rw [currentMonthSpend_append, currentMonthSpend_eventRow, if_pos hmonth]
    linarith

/-- A check that is not misled leaves room for everything in flight. -/
theorem poolInv_check {env : Option ℚ} {t now : Utc} {s : Pool} {data : SpendRecordIn}
    (hst : (PoolStep.check data now).Auxiliary t) (hmis : NotMisled env s (.check data now))
    (h : PoolInv env t s) : PoolInv env t (poolStep env s (.check data now)) := by
  rcases hst with ⟨hmonth, haux, hcost⟩
  simp only [poolStep]
  split
  · next hok =>
    have hroom := hmis hok
    rw [checkSpend_auxiliary env now _ haux, ← currentMonthSpend_congr hmonth,
      s.currentMonthSpend_settled hmonth] at hroom
    have hpend : Pool.pending { s with inFlight := s.inFlight ++ [data] } =
        s.pending + data.actualCostBrl := by
      simp [Pool.pending]
    show currentMonthSpend t s.db + Pool.pending { s with inFlight := s.inFlight ++ [data] }
      ≤ auxiliaryBudgetBrl env
    rw [hpend]
    have hcost' : data.actualCostBrl ≤ data.estimatedCostBrl := hcost
    linarith
  · exact h

/-- Letting every request in flight insert its row settles the table. -/
theorem run_drain (env : Option ℚ) (created : Utc) (s : Pool) :
    Runs.run (poolStep env) s (List.replicate s.inFlight.length (.insert 0 created)) =
      { db := s.settled created, inFlight := [] } := by
  rcases s with ⟨db, ds⟩
  induction ds generalizing db with
  | nil => simp [Pool.settled]
  | cons d ds ih =>
    have hstep : poolStep env ⟨db, d :: ds⟩ (.insert 0 created) =
        ⟨db ++ [eventRow created d], ds⟩ := by
      simp [poolStep]
    rw [List.length_cons, List.replicate_succ, Runs.run_cons, hstep, ih]
    simp [Pool.settled]

/-- In every run whose checks are not misled by requests in flight, the month's
sum never passes the budget. Conversely, a misled check of a call that costs what it
was estimated at leads past the budget as soon as the requests in flight insert their
rows. -/
theorem concurrent_ceiling (env : Option ℚ) (t : Utc) (db : List SpendEvent)
    (hdb : currentMonthSpend t db ≤ auxiliaryBudgetBrl env) (steps : List PoolStep)
    (hsteps : ∀ st ∈ steps, st.Auxiliary t) :
    (Runs.Along (poolStep env) (NotMisled env) ⟨db, []⟩ steps →
      ∀ pre, pre <+: steps →
        currentMonthSpend t (Runs.run (poolStep env) ⟨db, []⟩ pre).db
          ≤ auxiliaryBudgetBrl env) ∧
    (∀ pre data now, pre ++ [.check data now] <+: steps →
      ¬ NotMisled env (Runs.run (poolStep env) ⟨db, []⟩ pre) (.check data now) →
      data.actualCostBrl = data.estimatedCostBrl →
      ∃ n, auxiliaryBudgetBrl env <
        currentMonthSpend t (Runs.run (poolStep env) ⟨db, []⟩
          (pre ++ [.check data now] ++ List.replicate n (.insert 0 t))).db) := by
  constructor
  · intro halong pre hpre
    have hboth : Runs.Along (poolStep env) (fun s st => NotMisled env s st ∧ st.Auxiliary t)
        ⟨db, []⟩ steps := Runs.along_and halong hsteps
    have hinit : PoolInv env t ⟨db, []⟩ := by simpa [PoolInv, Pool.pending] using hdb
    have hinv : PoolInv env t (Runs.run (poolStep env) ⟨db, []⟩ pre) := by
      refine Runs.along_invariant ?_ hinit hboth hpre
      intro s st hs hst
      cases st with
      | check data now => exact poolInv_check hst.2 hst.1 hs
      | insert k created => exact poolInv_insert hst.2 hs
    -- the table alone is below the table with everything in flight
    have hpend := (Runs.run (poolStep env) ⟨db, []⟩ pre).pending_nonneg
    unfold PoolInv at hinv
    linarith
  · intro pre data now hpre hmis hexact
    rcases hsteps (.check data now) (hpre.subset (by simp)) with ⟨hmonth, haux, _⟩
    set s := Runs.run (poolStep env) ⟨db, []⟩ pre with hs
    simp only [NotMisled, Classical.not_imp] at hmis
    rcases hmis with ⟨hok, hno⟩
    rw [checkSpend_auxiliary env now _ haux, ← currentMonthSpend_congr hmonth,
      s.currentMonthSpend_settled hmonth, not_le] at hno
    have hnext : poolStep env s (.check data now) = { s with inFlight := s.inFlight ++ [data] } := by
      simp [poolStep, hok]
    -- from here on let every request in flight insert its row
    refine ⟨(s.inFlight ++ [data]).length, ?_⟩
    have hdrain := run_drain env t { s with inFlight := s.inFlight ++ [data] }
    rw [Runs.run_append, Runs.run_concat, ← hs, hnext, hdrain,
      Pool.currentMonthSpend_settled _ rfl]
    simp only [Pool.pending, List.map_append, List.sum_append, List.map_cons, List.map_nil,
      List.sum_cons, List.sum_nil] at hno ⊢
    linarith

/-- An auxiliary call estimated at 10 that costs 10. -/
def tenCall : SpendRecordIn := wholeRecord 10 10 true

/-- Two requests check before either inserts its row. -/
def twoChecks : List PoolStep :=
  [.check tenCall earlyFebruary, .check tenCall earlyFebruary,
   .insert 0 earlyFebruary, .insert 0 earlyFebruary]

/-- With budget 10 both checks pass on the empty table, and the month ends at 20. -/
theorem two_checks_before_insert :
    auxiliaryBudgetBrl (some 10) = 10 ∧
      (∀ st ∈ twoChecks, st.Auxiliary earlyFebruary) ∧
      currentMonthSpend earlyFebruary
        (Runs.run (poolStep (some 10)) ⟨[], []⟩ twoChecks).db = 20 := by
  refine ⟨by decide +kernel, ?_, by decide +kernel⟩
  intro st hst
  simp only [twoChecks, List.mem_cons, List.not_mem_nil, or_false] at hst
  rcases hst with rfl | rfl | rfl | rfl
  · exact ⟨rfl, rfl, le_refl _⟩
  · exact ⟨rfl, rfl, le_refl _⟩
  · exact rfl
  · exact rfl

/-- The same two requests, each inserting before the next one checks. -/
def oneAfterAnother : List PoolStep :=
  [.check tenCall earlyFebruary, .insert 0 earlyFebruary,
   .check tenCall earlyFebruary, .insert 0 earlyFebruary]

theorem concurrent_ceiling_one_after_another :
    currentMonthSpend earlyFebruary
      (Runs.run (poolStep (some 10)) ⟨[], []⟩ oneAfterAnother).db ≤ auxiliaryBudgetBrl (some 10) := by
  have hsteps : ∀ st ∈ oneAfterAnother, st.Auxiliary earlyFebruary := by
    intro st hst
    simp only [oneAfterAnother, List.mem_cons, List.not_mem_nil, or_false] at hst
    rcases hst with rfl | rfl | rfl | rfl
    · exact ⟨rfl, rfl, le_refl _⟩
    · exact rfl
    · exact ⟨rfl, rfl, le_refl _⟩
    · exact rfl
  refine (concurrent_ceiling (some 10) earlyFebruary [] (by decide +kernel) oneAfterAnother
    hsteps).1 ?_ oneAfterAnother (List.prefix_refl _)
  refine ⟨?_, trivial, ?_, trivial, trivial⟩
  · exact notMisled_of_idle _ rfl _
  · exact notMisled_of_idle _ (by decide +kernel) _

/-! ## Asking first, recording later

Every request is atomic here; what interleaves are the requests of different
clients. `record` runs the admission check again, so it may refuse a call whose
preflight was allowed. -/

/-- A model call between its allowed `/check` and its `/record`. `since` adds up
what has been recorded for the month after the check. -/
structure OpenCall where
  data : SpendRecordIn
  seen : ℚ
  since : ℚ

/-- What the check left for the calls of others: the budget less the month's sum
that it saw and the call's own estimate. -/
def OpenCall.room (env : Option ℚ) (o : OpenCall) : ℚ :=
  auxiliaryBudgetBrl env - (o.seen + o.data.estimatedCostBrl)

/-- The table, the calls that are under way, and two totals of the calls whose
record was sent: the cost of all of them, and of those that were refused. -/
structure Clients where
  db : List SpendEvent
  calls : List OpenCall
  sent : ℚ
  refused : ℚ

/-- A request of some client: a preflight, after which the call is made if it was
allowed, or the record of the `k`-th call under way. -/
inductive ClientStep where
  | check (data : SpendRecordIn) (now : Utc)
  | record (k : ℕ) (now created : Utc)

def clientStep (env : Option ℚ) (s : Clients) : ClientStep → Clients
  | .check data now =>
    match preflight env now s.db data.toSpendCheckIn with
    | .ok result => { s with calls := s.calls ++ [⟨data, result.monthSpendBrl, 0⟩] }
    | .error _ => s
  | .record k now created =>
    match s.calls[k]? with
    | none => s
    | some o =>
      let cost := o.data.actualCostBrl
      match record env now created s.db o.data with
      | (.ok _, db) =>
        { db := db
          calls := (s.calls.eraseIdx k).map (fun p => { p with since := p.since + cost })
          sent := s.sent + cost
          refused := s.refused }
      | (.error _, db) =>
        { db := db
          calls := s.calls.eraseIdx k
          sent := s.sent + cost
          refused := s.refused + cost }

/-- A request on auxiliary data with its readings in the month of `t`. -/
def ClientStep.Auxiliary (t : Utc) : ClientStep → Prop
  | .check data now => t.SameMonth now ∧ data.auxiliary = true
  | .record _ now created => t.SameMonth now ∧ t.SameMonth created

/-- The record of a call comes before more than its room has been recorded. -/
def WithinRoom (env : Option ℚ) (s : Clients) : ClientStep → Prop
  | .check _ _ => True
  | .record k _ _ => ∀ o, s.calls[k]? = some o → o.since ≤ o.room env

/-- The invariant of the clients' runs from a table whose month of `t` stands at
`start`. -/
structure ClientsInv (env : Option ℚ) (t : Utc) (start : ℚ) (s : Clients) : Prop where
  /-- Each call under way knows the month's sum, as what it saw plus what came since. -/
  seen : ∀ o ∈ s.calls, o.data.auxiliary = true ∧
    currentMonthSpend t s.db = o.seen + o.since ∧ 0 ≤ o.room env
  /-- The table holds what was sent and not refused. -/
  total : currentMonthSpend t s.db + s.refused = start + s.sent

/-- A record is accepted exactly when no more than the call's room has been
recorded since its check. -/
theorem ClientsInv.record_isOk_iff {env : Option ℚ} {t : Utc} {start : ℚ} {s : Clients}
    (h : ClientsInv env t start s) {o : OpenCall} (ho : o ∈ s.calls) {now : Utc}
    (hnow : t.SameMonth now) (created : Utc) :
    (record env now created s.db o.data).1.isOk = true ↔ o.since ≤ o.room env := by
  rcases h.seen o ho with ⟨haux, hsum, _⟩
  rw [record_isOk, checkSpend_auxiliary env now s.db haux, ← currentMonthSpend_congr hnow, hsum,
    OpenCall.room]
  constructor <;> intro hle <;> linarith

/-- What a record step does: nothing without a call, else the row is written and
every other call under way sees its cost, or the cost is refused. -/
theorem clientStep_record_cases (env : Option ℚ) (s : Clients) (k : ℕ) (now created : Utc) :
    (s.calls[k]? = none ∧ clientStep env s (.record k now created) = s) ∨
    (∃ o, s.calls[k]? = some o ∧ (record env now created s.db o.data).1.isOk = true ∧
      clientStep env s (.record k now created) =
        { db := s.db ++ [eventRow created o.data]
          calls := (s.calls.eraseIdx k).map
            (fun p => { p with since := p.since + o.data.actualCostBrl })
          sent := s.sent + o.data.actualCostBrl
          refused := s.refused }) ∨
    (∃ o, s.calls[k]? = some o ∧ (record env now created s.db o.data).1.isOk = false ∧
      clientStep env s (.record k now created) =
        { db := s.db
          calls := s.calls.eraseIdx k
          sent := s.sent + o.data.actualCostBrl
          refused := s.refused + o.data.actualCostBrl }) := by
  cases hk : s.calls[k]? with
  | none => exact Or.inl ⟨rfl, by simp [clientStep, hk]⟩
  | some o =>
    right
    by_cases hok : (checkSpend env now s.db o.data.toSpendCheckIn).allowed = true
    · left
      refine ⟨o, rfl, by rw [record_isOk]; exact hok, ?_⟩
      simp [clientStep, hk, record, hok]
    · right
      refine ⟨o, rfl, by rw [record_isOk]; simpa using hok, ?_⟩
      simp [clientStep, hk, record, hok]

/-- One step of any client keeps the bookkeeping identity. -/
theorem clientsInv_step {env : Option ℚ} {t : Utc} {start : ℚ} {s : Clients} {st : ClientStep}
    (h : ClientsInv env t start s) (hst : st.Auxiliary t) :
    ClientsInv env t start (clientStep env s st) := by
  cases st with
  | check data now =>
    rcases hst with ⟨hmonth, haux⟩
    by_cases hok : (checkSpend env now s.db data.toSpendCheckIn).allowed = true
    · have hstep : clientStep env s (.check data now) =
          { s with calls := s.calls ++ [⟨data, currentMonthSpend now s.db, 0⟩] } := by
        simp [clientStep, preflight, hok, checkSpend_monthSpendBrl env now s.db haux]
      rw [hstep]
      refine ⟨fun o ho => ?_, h.total⟩
      rcases List.mem_append.1 ho with ho | ho
      · exact h.seen o ho
      · -- the new call has seen the sum as it is, and nothing came since
        rw [List.mem_singleton] at ho
        subst ho
        rw [checkSpend_auxiliary env now s.db haux] at hok
        refine ⟨haux, by rw [add_zero, currentMonthSpend_congr hmonth], ?_⟩
        show 0 ≤ auxiliaryBudgetBrl env - (currentMonthSpend now s.db + data.estimatedCostBrl)
        linarith
    · have hstep : clientStep env s (.check data now) = s := by
        simp [clientStep, preflight, hok]
      rw [hstep]
      exact h
  | record k now created =>
    rcases clientStep_record_cases env s k now created with ⟨_, hs⟩ | ⟨o, _, _, hs⟩ | ⟨o, _, _, hs⟩
    · rw [hs]
      exact h
    · -- accepted: the month grows by the cost, and so does `since` of the others
      have hgrow : currentMonthSpend t (s.db ++ [eventRow created o.data]) =
          currentMonthSpend t s.db + o.data.actualCostBrl := by
        rw [currentMonthSpend_append, currentMonthSpend_eventRow, if_pos hst.2]
      rw [hs]
      refine ⟨fun p hp => ?_, ?_⟩
      · rcases List.mem_map.1 hp with ⟨q, hq, rfl⟩
        rcases h.seen q (List.mem_of_mem_eraseIdx hq) with ⟨haux, hsum, hroom⟩
        refine ⟨haux, ?_, hroom⟩
        show currentMonthSpend t (s.db ++ [eventRow created o.data]) =
          q.seen + (q.since + o.data.actualCostBrl)
        rw [hgrow, hsum, add_assoc]
      · show currentMonthSpend t (s.db ++ [eventRow created o.data]) + s.refused =
          start + (s.sent + o.data.actualCostBrl)
        rw [hgrow]
        linarith [h.total]
    · -- refused: the table is as before, the cost is lost
      rw [hs]
      refine ⟨fun p hp => h.seen p (List.mem_of_mem_eraseIdx hp), ?_⟩
      show currentMonthSpend t s.db + (s.refused + o.data.actualCostBrl) =
        start + (s.sent + o.data.actualCostBrl)
      linarith [h.total]

/-- A record step that comes within the call's room refuses nothing. -/
theorem refused_step {env : Option ℚ} {t : Utc} {start : ℚ} {s : Clients} {st : ClientStep}
    (h : ClientsInv env t start s) (hst : st.Auxiliary t) (hroom : WithinRoom env s st) :
    (clientStep env s st).refused = s.refused := by
  cases st with
  | check data now =>
    simp only [clientStep]
    split <;> rfl
  | record k now created =>
    rcases clientStep_record_cases env s k now created with
      ⟨_, hs⟩ | ⟨o, _, _, hs⟩ | ⟨o, hk, hno, hs⟩
    · rw [hs]
    · rw [hs]
    · have hok := (h.record_isOk_iff (List.mem_of_getElem? hk) hst.1 created).2 (hroom o hk)
      rw [hno] at hok
      cases hok

/-- The clients before their first request. -/
def Clients.start (db : List SpendEvent) : Clients := ⟨db, [], 0, 0⟩

theorem clientsInv_start (env : Option ℚ) (t : Utc) (db : List SpendEvent) :
    ClientsInv env t (currentMonthSpend t db) (.start db) :=
  ⟨fun o ho => by simp [Clients.start] at ho, rfl⟩

/-- So does every prefix of every run. -/
theorem clientsInv_run {env : Option ℚ} {t : Utc} (db : List SpendEvent) {steps : List ClientStep}
    (hsteps : ∀ st ∈ steps, st.Auxiliary t) {pre : List ClientStep} (hpre : pre <+: steps) :
    ClientsInv env t (currentMonthSpend t db) (Runs.run (clientStep env) (.start db) pre) := by
  have hstep : ∀ s st, ClientsInv env t (currentMonthSpend t db) s → st.Auxiliary t →
      ClientsInv env t (currentMonthSpend t db) (clientStep env s st) :=
    fun s st hs hst => clientsInv_step hs hst
  exact Runs.run_invariant hstep (clientsInv_start env t db) hsteps hpre

/-- Nothing is refused along a run whose records come within their room. -/
theorem refused_run {env : Option ℚ} {t : Utc} (db : List SpendEvent) {steps : List ClientStep}
    (hsteps : ∀ st ∈ steps, st.Auxiliary t)
    (hroom : Runs.Along (clientStep env) (WithinRoom env) (.start db) steps)
    {pre : List ClientStep} (hpre : pre <+: steps) :
    (Runs.run (clientStep env) (.start db) pre).refused = 0 := by
  have hboth := Runs.along_and hroom hsteps
  have hinit : ClientsInv env t (currentMonthSpend t db) (.start db) ∧
      (Clients.start db).refused = 0 :=
    ⟨clientsInv_start env t db, rfl⟩
  have hstep : ∀ s st, ClientsInv env t (currentMonthSpend t db) s ∧ s.refused = 0 →
      WithinRoom env s st ∧ st.Auxiliary t →
      ClientsInv env t (currentMonthSpend t db) (clientStep env s st) ∧
        (clientStep env s st).refused = 0 := by
    intro s st hs hst
    refine ⟨clientsInv_step hs.1 hst.2, ?_⟩
    rw [refused_step hs.1 hst.2 hst.1]
    exact hs.2
  exact (Runs.along_invariant hstep hinit hboth hpre).2

/-- After every part of every run of the clients: the record of a call under way
is refused exactly when more has been recorded since its check than the check
left room for; the month stands at what was sent and not refused; and in a run
whose records all come within their room, at all that was sent. -/
theorem record_refused_iff (env : Option ℚ) (t : Utc) (db : List SpendEvent)
    (steps : List ClientStep) (hsteps : ∀ st ∈ steps, st.Auxiliary t)
    (pre : List ClientStep) (hpre : pre <+: steps) :
    (∀ (k : ℕ) (o : OpenCall) (now created : Utc),
      (Runs.run (clientStep env) (.start db) pre).calls[k]? = some o →
      t.SameMonth now →
      ((record env now created (Runs.run (clientStep env) (.start db) pre).db o.data).1.isOk = false
        ↔ o.room env < o.since)) ∧
    currentMonthSpend t (Runs.run (clientStep env) (.start db) pre).db
        + (Runs.run (clientStep env) (.start db) pre).refused
      = currentMonthSpend t db + (Runs.run (clientStep env) (.start db) pre).sent ∧
    (Runs.Along (clientStep env) (WithinRoom env) (.start db) steps →
      currentMonthSpend t (Runs.run (clientStep env) (.start db) pre).db
        = currentMonthSpend t db + (Runs.run (clientStep env) (.start db) pre).sent) := by
  -- the bookkeeping of `ClientsInv` holds after every prefix
  have hinv : ClientsInv env t (currentMonthSpend t db)
      (Runs.run (clientStep env) (.start db) pre) := clientsInv_run db hsteps hpre
  refine ⟨?_, hinv.total, ?_⟩
  · intro k o now created hk hnow
    rw [← not_le, ← hinv.record_isOk_iff (List.mem_of_getElem? hk) hnow created]
    simp
  · intro hroom
    -- within its room no record is refused
    have hzero := refused_run db hsteps hroom hpre
    have htotal := hinv.total
    rw [hzero, add_zero] at htotal
    exact htotal

/-- Two clients ask, and both are allowed; then both record. -/
def askAskRecordRecord : List ClientStep :=
  [.check tenCall earlyFebruary, .check tenCall earlyFebruary,
   .record 0 earlyFebruary earlyFebruary, .record 0 earlyFebruary earlyFebruary]

theorem askAskRecordRecord_auxiliary :
    ∀ st ∈ askAskRecordRecord, st.Auxiliary earlyFebruary := by
  intro st hst
  simp only [askAskRecordRecord, List.mem_cons, List.not_mem_nil, or_false] at hst
  rcases hst with rfl | rfl | rfl | rfl <;> exact ⟨rfl, rfl⟩

/-- With budget 10 the second record, of a call whose preflight was allowed, is
refused: the calls cost 20 and the ledger holds 10. -/
theorem recorded_in_between :
    (Runs.run (clientStep (some 10)) (.start []) (askAskRecordRecord.take 2)).calls.length = 2 ∧
      (Runs.run (clientStep (some 10)) (.start []) askAskRecordRecord).sent = 20 ∧
      (Runs.run (clientStep (some 10)) (.start []) askAskRecordRecord).refused = 10 ∧
      currentMonthSpend earlyFebruary
        (Runs.run (clientStep (some 10)) (.start []) askAskRecordRecord).db = 10 := by
  decide +kernel

theorem record_refused_iff_ask_ask :
    currentMonthSpend earlyFebruary
        (Runs.run (clientStep (some 10)) (.start []) askAskRecordRecord).db
        + (Runs.run (clientStep (some 10)) (.start []) askAskRecordRecord).refused
      = (Runs.run (clientStep (some 10)) (.start []) askAskRecordRecord).sent := by
  have h := (record_refused_iff (some 10) earlyFebruary [] askAskRecordRecord
    askAskRecordRecord_auxiliary askAskRecordRecord (List.prefix_refl _)).2.1
  rwa [currentMonthSpend_nil, zero_add] at h

end AdsHub.AiSpend
