import Mathlib.Order.Bounds.Basic
import Mathlib.Data.Rat.Floor
import Mathlib.Tactic.FieldSimp
import AdsHub.AiSpend.Concurrent

/-!
# AdsHub.AiSpend.Overshoot — how far concurrent requests pass the ceiling

A check does not see the requests that are admitted and have not inserted their row
(`AdsHub.AiSpend.Concurrent`), so a month's auxiliary rows can pass the budget. This
module says by how much. The requests are auxiliary and primary in any mix, their steps
interleave freely, and the clock may pass from one month to the next between any two of
them.

1. **Upper bound** (`OvershootInv`): the rows of a month together with what the auxiliary
   requests in flight have been promised stay within the budget and one estimate for each
   further thread. A month that turns starts with no row, and with promises that were all
   made within the budget.
2. **It is reached** (`burstRun`): the month is filled up to the last estimate, and then
   all threads check before any of them inserts.
-/

namespace AdsHub.AiSpend

/-! ## Runs of the pool -/

/-- The reading of the clock. -/
def PoolStep.clock : PoolStep → Utc
  | .check _ now => now
  | .insert _ created => created

/-- Every reading of the run is at or after the one before it, from `last` on. -/
def ClockedSteps : Utc → List PoolStep → Prop
  | _, [] => True
  | last, st :: steps => last ≤ st.clock ∧ ClockedSteps st.clock steps

/-- An auxiliary request finds at most `n` others in flight, costs no more than its
estimate, and is estimated at `cap` or less. -/
def Threads (n : ℕ) (cap : ℚ) (s : Pool) : PoolStep → Prop
  | .check data _ => data.auxiliary = true →
    s.inFlight.countP (·.auxiliary) ≤ n ∧ data.actualCostBrl ≤ data.estimatedCostBrl ∧
      data.estimatedCostBrl ≤ cap
  | .insert _ _ => True

/-- The row that an auxiliary request inserts. -/
def auxiliaryInsert (s : Pool) : PoolStep → List SpendEvent
  | .check _ _ => []
  | .insert k created =>
    match s.inFlight[k]? with
    | none => []
    | some data => if data.auxiliary then [eventRow created data] else []

/-- The rows that the auxiliary requests of a run insert, from pool `s` on. -/
def auxiliaryInserts (env : Option ℚ) : Pool → List PoolStep → List SpendEvent
  | _, [] => []
  | s, st :: steps => auxiliaryInsert s st ++ auxiliaryInserts env (poolStep env s st) steps

/-! ## The bound -/

/-- What an admitted request was promised by its check. -/
def promise (data : SpendRecordIn) : ℚ := if data.auxiliary then data.estimatedCostBrl else 0

theorem promise_nonneg (data : SpendRecordIn) : 0 ≤ promise data := by
  unfold promise
  split
  · exact data.estimated_nonneg
  · exact le_refl _

def Pool.promised (s : Pool) : ℚ := (s.inFlight.map promise).sum

/-- The promises of the auxiliary requests in flight are bounded by their number times the
cap. -/
theorem promised_le {cap : ℚ} {ds : List SpendRecordIn}
    (h : ∀ d ∈ ds, d.auxiliary = true → d.estimatedCostBrl ≤ cap) :
    (ds.map promise).sum ≤ ds.countP (·.auxiliary) * cap := by
  induction ds with
  | nil => simp
  | cons d ds ih =>
    rw [List.forall_mem_cons] at h
    have hrest := ih h.2
    rw [List.map_cons, List.sum_cons, List.countP_cons]
    by_cases haux : d.auxiliary = true
    · have hd := h.1 haux
      rw [promise, if_pos haux, if_pos haux]
      push_cast
      linarith
    · rw [promise, if_neg haux, if_neg haux]
      simpa using hrest

/-- An insert takes its promise out of the requests in flight. -/
theorem promised_eraseIdx {ds : List SpendRecordIn} {k : ℕ} {data : SpendRecordIn}
    (h : ds[k]? = some data) :
    promise data + ((ds.eraseIdx k).map promise).sum = (ds.map promise).sum := by
  obtain ⟨hlt, rfl⟩ := List.getElem?_eq_some_iff.1 h
  have hlt' : k < (ds.map promise).length := by rwa [List.length_map]
  have hsum := List.CommMonoid.add_sum_eraseIdx hlt'
  rw [List.getElem_map, List.eraseIdx_map] at hsum
  exact hsum

theorem Pool.promised_nonneg (s : Pool) : 0 ≤ s.promised := by
  refine List.sum_nonneg ?_
  intro x hx
  obtain ⟨d, -, rfl⟩ := List.mem_map.1 hx
  exact promise_nonneg d

/-- What an insert adds to the auxiliary rows of a month: part of its row, and no more than
was promised. -/
theorem auxiliaryRow_spend {data : SpendRecordIn}
    (hcost : data.auxiliary = true → data.actualCostBrl ≤ data.estimatedCostBrl) (m created : Utc) :
    0 ≤ currentMonthSpend m (if data.auxiliary then [eventRow created data] else []) ∧
    currentMonthSpend m (if data.auxiliary then [eventRow created data] else []) ≤
      currentMonthSpend m [eventRow created data] ∧
    currentMonthSpend m (if data.auxiliary then [eventRow created data] else []) ≤
      promise data := by
  have hactual := data.actual_nonneg
  have hpromise := promise_nonneg data
  have hrow := currentMonthSpend_eventRow m created data
  have hnonneg : 0 ≤ currentMonthSpend m [eventRow created data] := by
    rw [hrow]
    split
    · exact hactual
    · exact le_refl _
  by_cases haux : data.auxiliary = true
  · -- the whole row, or nothing in another month
    rw [if_pos haux]
    refine ⟨hnonneg, le_refl _, ?_⟩
    rw [hrow, promise, if_pos haux]
    split
    · exact hcost haux
    · exact data.estimated_nonneg
  · rw [if_neg haux]
    exact ⟨le_refl _, hnonneg, hpromise⟩

/-- The invariant: `aux` are the rows of the auxiliary requests and `last` is the clock. -/
structure OvershootInv (env : Option ℚ) (n : ℕ) (cap : ℚ) (last : Utc) (s : Pool)
    (aux : List SpendEvent) : Prop where
  /-- No row lies in a month that the clock has not reached. -/
  future : ∀ m : Utc, last.monthIndex < m.monthIndex → currentMonthSpend m s.db = 0
  /-- The auxiliary rows are part of the table, and no amount is negative. -/
  part : ∀ m : Utc, 0 ≤ currentMonthSpend m aux ∧ currentMonthSpend m aux ≤ currentMonthSpend m s.db
  flight : ∀ d ∈ s.inFlight, d.auxiliary = true →
    d.actualCostBrl ≤ d.estimatedCostBrl ∧ d.estimatedCostBrl ≤ cap
  /-- A month that can still get rows keeps what is promised. -/
  ahead : ∀ m : Utc, last.monthIndex ≤ m.monthIndex →
    currentMonthSpend m aux + s.promised ≤ auxiliaryBudgetBrl env + n * cap
  bound : ∀ m : Utc, currentMonthSpend m aux ≤ auxiliaryBudgetBrl env + n * cap

namespace OvershootInv

variable {env : Option ℚ} {n : ℕ} {cap : ℚ} {last : Utc} {s : Pool} {aux : List SpendEvent}

theorem init (last : Utc) (hcap : 0 ≤ cap) : OvershootInv env n cap last ⟨[], []⟩ [] := by
  have hbudget := auxiliaryBudgetBrl_nonneg env
  have hn : 0 ≤ n * cap := mul_nonneg (Nat.cast_nonneg n) hcap
  refine ⟨fun _ _ => rfl, fun _ => ⟨le_refl _, le_refl _⟩, fun d hd => absurd hd List.not_mem_nil,
    ?_, ?_⟩
  · intro m _
    show (0 : ℚ) + 0 ≤ _
    linarith
  · intro m
    show (0 : ℚ) ≤ _
    linarith

/-- The clock goes on. -/
theorem mono (h : OvershootInv env n cap last s aux) {now : Utc} (hnow : last ≤ now) :
    OvershootInv env n cap now s aux := by
  have hmono := Utc.monthIndex_mono hnow
  refine ⟨?_, h.part, h.flight, ?_, h.bound⟩
  · intro m hm
    exact h.future m (by omega)
  · intro m hm
    exact h.ahead m (by omega)

/-- An admitted check: the month of the check has room for its estimate, and a later
month has no row. -/
theorem check (h : OvershootInv env n cap last s aux) {data : SpendRecordIn}
    (hst : Threads n cap s (.check data last)) :
    OvershootInv env n cap last (poolStep env s (.check data last)) aux := by
  simp only [poolStep]
  split
  · next hok =>
    have hpromised : Pool.promised { s with inFlight := s.inFlight ++ [data] } =
        s.promised + promise data := by
      simp [Pool.promised]
    by_cases haux : data.auxiliary = true
    · obtain ⟨hfew, hcost, hest⟩ := hst haux
      have hroom := (checkSpend_auxiliary env last s.db haux).1 hok
      have hothers : s.promised ≤ n * cap := by
        have hcap : 0 ≤ cap := data.estimated_nonneg.trans hest
        have hcount : (s.inFlight.countP (·.auxiliary) : ℚ) ≤ n := Nat.cast_le.2 hfew
        refine (promised_le fun d hd haux => (h.flight d hd haux).2).trans ?_
        exact mul_le_mul_of_nonneg_right hcount hcap
      refine ⟨h.future, h.part, ?_, ?_, h.bound⟩
      · rw [List.forall_mem_append, List.forall_mem_singleton]
        exact ⟨h.flight, fun _ => ⟨hcost, hest⟩⟩
      · intro m hm
        have hpart := h.part m
        have hseen : currentMonthSpend m s.db ≤ currentMonthSpend last s.db := by
          rcases Nat.lt_or_eq_of_le hm with hlater | hsame
          · -- a later month is still empty
            rw [h.future m hlater]
            have hlast := h.part last
            linarith
          · have hmonth : m.SameMonth last := hsame.symm
            exact le_of_eq (currentMonthSpend_congr hmonth s.db)
        rw [hpromised, promise, if_pos haux]
        linarith
    · refine ⟨h.future, h.part, ?_, ?_, h.bound⟩
      · rw [List.forall_mem_append, List.forall_mem_singleton]
        exact ⟨h.flight, fun haux' => absurd haux' haux⟩
      · intro m hm
        rw [hpromised, promise, if_neg haux, add_zero]
        exact h.ahead m hm
  · exact h

/-- An insert takes from the promise what it adds to the rows, or more. -/
theorem insert (h : OvershootInv env n cap last s aux) (k : ℕ) :
    OvershootInv env n cap last (poolStep env s (.insert k last))
      (aux ++ auxiliaryInsert s (.insert k last)) := by
  simp only [poolStep, auxiliaryInsert]
  cases hk : s.inFlight[k]? with
  | none =>
    rw [List.append_nil]
    exact h
  | some data =>
    dsimp only
    have hcost := fun haux => (h.flight data (List.mem_of_getElem? hk) haux).1
    have hrow := fun m => auxiliaryRow_spend hcost m last
    -- whichever kind of row it is, all that counts is what `hrow` says of it
    generalize (if data.auxiliary then [eventRow last data] else []) = row at hrow ⊢
    have hsum : promise data + Pool.promised ⟨s.db ++ [eventRow last data], s.inFlight.eraseIdx k⟩ =
        s.promised := promised_eraseIdx hk
    -- the months still open: the promise falls by at least what the rows gain
    have hahead : ∀ m : Utc, last.monthIndex ≤ m.monthIndex →
        currentMonthSpend m (aux ++ row) +
            Pool.promised ⟨s.db ++ [eventRow last data], s.inFlight.eraseIdx k⟩ ≤
          auxiliaryBudgetBrl env + n * cap := by
      intro m hm
      rw [currentMonthSpend_append]
      linarith [h.ahead m hm, hrow m]
    -- the months that are over get nothing
    have hother : ∀ m : Utc, ¬ m.SameMonth last →
        currentMonthSpend m [eventRow last data] = 0 := by
      intro m hm
      rw [currentMonthSpend_eventRow, if_neg hm]
    refine ⟨?_, ?_, fun d hd => h.flight d (List.mem_of_mem_eraseIdx hd), hahead, ?_⟩
    · intro m hm
      have hlater : ¬ m.SameMonth last := by
        unfold Utc.SameMonth
        omega
      rw [currentMonthSpend_append, h.future m hm, hother m hlater, add_zero]
    · intro m
      rw [currentMonthSpend_append, currentMonthSpend_append]
      have hpart := h.part m
      have hm := hrow m
      constructor <;> linarith
    · intro m
      by_cases hsame : m.SameMonth last
      · have hm := hahead m (le_of_eq hsame.symm)
        have hrest := Pool.promised_nonneg ⟨s.db ++ [eventRow last data], s.inFlight.eraseIdx k⟩
        linarith
      · rw [currentMonthSpend_append]
        have hm := hrow m
        rw [hother m hsame] at hm
        linarith [h.bound m]

/-- The invariant along a whole run. -/
theorem run {steps : List PoolStep} (h : OvershootInv env n cap last s aux)
    (hclock : ClockedSteps last steps) (hthreads : Runs.Along (poolStep env) (Threads n cap) s steps)
    (m : Utc) :
    currentMonthSpend m (aux ++ auxiliaryInserts env s steps) ≤ auxiliaryBudgetBrl env + n * cap := by
  induction steps generalizing last s aux with
  | nil =>
    rw [auxiliaryInserts, List.append_nil]
    exact h.bound m
  | cons st steps ih =>
    rw [auxiliaryInserts, ← List.append_assoc]
    refine ih ?_ hclock.2 hthreads.2
    cases st with
    | check data now =>
      rw [auxiliaryInsert, List.append_nil]
      exact (h.mono hclock.1).check hthreads.1
    | insert k created => exact (h.mono hclock.1).insert k

end OvershootInv

/-! ## The bound is reached -/

/-- An auxiliary call that costs what it is estimated at. -/
def exactCall (c : ℚ) (hc : 0 ≤ c) : SpendRecordIn := sampleRecord c c true hc hc

section

variable (env : Option ℚ) (t : Utc) {c : ℚ} (hc : 0 ≤ c)

/-- Where every request is auxiliary, the rows of the auxiliary requests are all rows. -/
theorem run_db {steps : List PoolStep} {s : Pool} (hflight : ∀ d ∈ s.inFlight, d.auxiliary = true)
    (hsteps : ∀ data now, .check data now ∈ steps → data.auxiliary = true) :
    (Runs.run (poolStep env) s steps).db = s.db ++ auxiliaryInserts env s steps := by
  -- on the steps, with the requests in flight all auxiliary
  induction steps generalizing s with
  | nil =>
    rw [auxiliaryInserts, List.append_nil]
    rfl
  | cons st steps ih =>
    have hrest : ∀ data now, .check data now ∈ steps → data.auxiliary = true :=
      fun data now hmem => hsteps data now (List.mem_cons_of_mem st hmem)
    rw [Runs.run_cons, auxiliaryInserts, ← List.append_assoc]
    cases st with
    | check data now =>
      have hflight' : ∀ d ∈ (poolStep env s (.check data now)).inFlight, d.auxiliary = true := by
        simp only [poolStep]
        split
        · rw [List.forall_mem_append, List.forall_mem_singleton]
          exact ⟨hflight, hsteps data now List.mem_cons_self⟩
        · exact hflight
      have hdb : (poolStep env s (.check data now)).db = s.db := by
        simp only [poolStep]
        split <;> rfl
      rw [ih hflight' hrest, hdb, auxiliaryInsert, List.append_nil]
    | insert k created =>
      cases hk : s.inFlight[k]? with
      | none =>
        have hsame : poolStep env s (.insert k created) = s := by
          simp only [poolStep, hk]
        rw [hsame, ih hflight hrest, auxiliaryInsert, hk, List.append_nil]
      | some data =>
        have hstep : poolStep env s (.insert k created) =
            ⟨s.db ++ [eventRow created data], s.inFlight.eraseIdx k⟩ := by
          simp only [poolStep, hk]
        have hflight' : ∀ d ∈ s.inFlight.eraseIdx k, d.auxiliary = true :=
          fun d hd => hflight d (List.mem_of_mem_eraseIdx hd)
        have haux := hflight data (List.mem_of_getElem? hk)
        rw [hstep, ih hflight' hrest, auxiliaryInsert, hk]
        simp only [haux, if_true]

/-- `k` calls one after another. -/
def fillRun (k : ℕ) : List PoolStep :=
  (List.replicate k [.check (exactCall c hc) t, .insert 0 t]).flatten

/-- A call that costs what it estimates is allowed while it fits. -/
theorem allowed_iff (db : List SpendEvent) :
    (checkSpend env t db (exactCall c hc).toSpendCheckIn).allowed = true ↔
      currentMonthSpend t db + c ≤ auxiliaryBudgetBrl env :=
  checkSpend_auxiliary env t db rfl

theorem threads_exact {n : ℕ} {cap : ℚ} (hcap : c ≤ cap) {s : Pool}
    (hfew : s.inFlight.countP (·.auxiliary) ≤ n) : Threads n cap s (.check (exactCall c hc) t) :=
  fun _ => ⟨hfew, le_refl _, hcap⟩

/-- The calls one after another are all recorded, as long as the budget has room. -/
theorem fillRun_spec {n : ℕ} {cap : ℚ} (hcap : c ≤ cap) (k : ℕ) (db : List SpendEvent)
    (hroom : currentMonthSpend t db + k * c ≤ auxiliaryBudgetBrl env) :
    Runs.Along (poolStep env) (Threads n cap) ⟨db, []⟩ (fillRun t hc k) ∧
      ∃ db', Runs.run (poolStep env) ⟨db, []⟩ (fillRun t hc k) = ⟨db', []⟩ ∧
        currentMonthSpend t db' = currentMonthSpend t db + k * c := by
  induction k generalizing db with
  | zero =>
    refine ⟨trivial, db, rfl, ?_⟩
    rw [Nat.cast_zero, zero_mul, add_zero]
  | succ k ih =>
    have hkc : 0 ≤ k * c := mul_nonneg (Nat.cast_nonneg k) hc
    rw [Nat.cast_succ] at hroom ⊢
    -- one more call fits, so its check passes and its insert leaves nothing in flight
    have hok := (allowed_iff env t hc db).2 (by linarith)
    have hcheck : poolStep env ⟨db, []⟩ (.check (exactCall c hc) t) = ⟨db, [exactCall c hc]⟩ := by
      simp only [poolStep, hok, if_true, List.nil_append]
    have hinsert : poolStep env ⟨db, [exactCall c hc]⟩ (.insert 0 t) =
        ⟨db ++ [eventRow t (exactCall c hc)], []⟩ := rfl
    have hgrown : currentMonthSpend t (db ++ [eventRow t (exactCall c hc)]) =
        currentMonthSpend t db + c := by
      have hsame : t.SameMonth t := rfl
      rw [currentMonthSpend_append, currentMonthSpend_eventRow, if_pos hsame]
      rfl
    obtain ⟨halong, db', hrun, hspend⟩ :=
      ih (db ++ [eventRow t (exactCall c hc)]) (by rw [hgrown]; linarith)
    have hcons : fillRun t hc (k + 1) =
        .check (exactCall c hc) t :: .insert 0 t :: fillRun t hc k := rfl
    rw [hcons, Runs.run_cons, Runs.run_cons, hcheck, hinsert]
    refine ⟨?_, db', hrun, ?_⟩
    · refine ⟨threads_exact t hc hcap (Nat.zero_le n), ?_⟩
      rw [hcheck]
      exact ⟨trivial, halong⟩
    · rw [hspend, hgrown]
      linarith

/-- While one call fits the stored sum, `k` checks in a row are all admitted and nothing is
stored. -/
theorem checks_spec {n : ℕ} {cap : ℚ} (hcap : c ≤ cap) {db : List SpendEvent}
    (hroom : currentMonthSpend t db + c ≤ auxiliaryBudgetBrl env) (k : ℕ) (ds : List SpendRecordIn)
    (hfew : ds.length + k ≤ n + 1) :
    Runs.Along (poolStep env) (Threads n cap) ⟨db, ds⟩
        (List.replicate k (.check (exactCall c hc) t)) ∧
      Runs.run (poolStep env) ⟨db, ds⟩ (List.replicate k (.check (exactCall c hc) t)) =
        ⟨db, ds ++ List.replicate k (exactCall c hc)⟩ := by
  induction k generalizing ds with
  | zero =>
    refine ⟨trivial, ?_⟩
    rw [List.replicate_zero, List.replicate_zero, List.append_nil]
    rfl
  | succ k ih =>
    -- a check stores nothing, so the next one is decided on the same sum; this is
    -- why they can all pass
    have hok := (allowed_iff env t hc db).2 hroom
    have hcheck : poolStep env ⟨db, ds⟩ (.check (exactCall c hc) t) =
        ⟨db, ds ++ [exactCall c hc]⟩ := by
      simp only [poolStep, hok, if_true]
    obtain ⟨halong, hrun⟩ := ih (ds ++ [exactCall c hc])
      (by rw [List.length_append, List.length_singleton]; omega)
    have hcount : ds.countP (·.auxiliary) ≤ n := by
      have hle := List.countP_le_length (p := fun d : SpendRecordIn => d.auxiliary) (l := ds)
      omega
    rw [List.replicate_succ, Runs.run_cons, hcheck]
    refine ⟨⟨threads_exact t hc hcap hcount, ?_⟩, ?_⟩
    · rw [hcheck]
      exact halong
    · rw [hrun, List.append_assoc]
      rfl

end

/-- The month is filled by `k` calls of cost `x`; then `n + 1` threads check a call of cost
`c`, and insert. -/
def burstRun (t : Utc) {x c : ℚ} (hx : 0 ≤ x) (hc : 0 ≤ c) (k n : ℕ) : List PoolStep :=
  fillRun t hx k ++ (List.replicate (n + 1) (.check (exactCall c hc) t) ++
    List.replicate (n + 1) (.insert 0 t))

section

variable {t : Utc} {x c : ℚ} {hx : 0 ≤ x} {hc : 0 ≤ c} {k n : ℕ} {st : PoolStep}

/-- The steps of the burst: checks of the two calls and inserts of the oldest. -/
theorem mem_burstRun (h : st ∈ burstRun t hx hc k n) :
    st = .check (exactCall x hx) t ∨ st = .check (exactCall c hc) t ∨ st = .insert 0 t := by
  rw [burstRun, List.mem_append, List.mem_append, fillRun, List.mem_flatten] at h
  rcases h with ⟨steps, hsteps, hst⟩ | h | h
  · rw [List.eq_of_mem_replicate hsteps] at hst
    rcases List.mem_cons.1 hst with rfl | hst
    · exact Or.inl rfl
    · exact Or.inr (Or.inr (List.mem_singleton.1 hst))
  · exact Or.inr (Or.inl (List.eq_of_mem_replicate h))
  · exact Or.inr (Or.inr (List.eq_of_mem_replicate h))

/-- A run in one instant respects the clock. -/
theorem clockedSteps_of_forall {steps : List PoolStep} (h : ∀ st ∈ steps, st.clock = t) :
    ClockedSteps t steps := by
  induction steps with
  | nil => trivial
  | cons st steps ih =>
    rw [List.forall_mem_cons] at h
    have hrest := ih h.2
    rw [ClockedSteps, h.1]
    exact ⟨Nat.le_refl _, hrest⟩

/-- No step of an insert is bound by the threads. -/
theorem along_inserts (env : Option ℚ) (cap : ℚ) (s : Pool) (j : ℕ) :
    Runs.Along (poolStep env) (Threads n cap) s (List.replicate j (.insert 0 t)) := by
  induction j generalizing s with
  | zero => trivial
  | succ j ih => exact ⟨trivial, ih _⟩

/-- The run is one of at most `n + 1` threads, and its rows are the fill and the burst. -/
theorem burstRun_spec (env : Option ℚ) (t : Utc) (hx : 0 ≤ x) (hc : 0 ≤ c) (n : ℕ) (hle : x ≤ c)
    (hroom : k * x + c ≤ auxiliaryBudgetBrl env) :
    Runs.Along (poolStep env) (Threads n c) ⟨[], []⟩ (burstRun t hx hc k n) ∧
      currentMonthSpend t (auxiliaryInserts env ⟨[], []⟩ (burstRun t hx hc k n)) =
        k * x + (n + 1) * c := by
  obtain ⟨hfill, db, hfilled, hspend⟩ :=
    fillRun_spec env t hx (n := n) hle k [] (by rw [currentMonthSpend_nil]; linarith)
  rw [currentMonthSpend_nil, zero_add] at hspend
  have hlast : currentMonthSpend t db + c ≤ auxiliaryBudgetBrl env := by
    rw [hspend]
    exact hroom
  obtain ⟨hchecks, hchecked⟩ :=
    checks_spec env t hc (n := n) (le_refl c) hlast (n + 1) [] (by simp)
  constructor
  · rw [burstRun, Runs.along_append, hfilled, Runs.along_append]
    exact ⟨hfill, hchecks, along_inserts env c _ (n + 1)⟩
  · -- the rows are what the table ends with
    have hdb : (Runs.run (poolStep env) ⟨[], []⟩ (burstRun t hx hc k n)).db =
        auxiliaryInserts env ⟨[], []⟩ (burstRun t hx hc k n) := by
      refine run_db env (fun d hd => absurd hd List.not_mem_nil) ?_
      intro data now hmem
      rcases mem_burstRun hmem with heq | heq | heq
      · cases heq
        rfl
      · cases heq
        rfl
      · cases heq
    have hdrain := run_drain env t ⟨db, List.replicate (n + 1) (exactCall c hc)⟩
    rw [List.length_replicate] at hdrain
    rw [← hdb, burstRun, Runs.run_append, hfilled, Runs.run_append, hchecked, List.nil_append,
      hdrain, Pool.currentMonthSpend_settled _ rfl, Pool.pending, hspend, List.map_replicate,
      List.sum_replicate, nsmul_eq_mul]
    push_cast
    rfl

end

/-- The most that the auxiliary rows of a month can come to, over all interleavings of at
most `n + 1` auxiliary requests at a time, with any primary ones, under a clock that never
goes back and calls that are estimated at `cap` or less and cost no more than that: the
budget, and `cap` for each further thread. -/
theorem overshoot_exact (env : Option ℚ) (n : ℕ) {cap : ℚ} (hcap : 0 < cap)
    (hle : cap ≤ auxiliaryBudgetBrl env) (m : Utc) :
    IsGreatest {total | ∃ start steps, ClockedSteps start steps ∧
        Runs.Along (poolStep env) (Threads n cap) ⟨[], []⟩ steps ∧
        total = currentMonthSpend m (auxiliaryInserts env ⟨[], []⟩ steps)}
      (auxiliaryBudgetBrl env + n * cap) := by
  constructor
  · -- fill the month up to the last estimate with calls of at most `cap`
    set room := auxiliaryBudgetBrl env - cap with hroom
    set k := ⌈room / cap⌉₊ + 1 with hk
    have hroom0 : 0 ≤ room := by linarith
    have hkpos : (0 : ℚ) < k := by
      rw [hk]
      positivity
    have hx : 0 ≤ room / k := div_nonneg hroom0 hkpos.le
    have hfit : k * (room / k) = room := mul_div_cancel₀ room hkpos.ne'
    have hsmall : room / k ≤ cap := by
      rw [div_le_iff₀ hkpos]
      have hceil : room / cap ≤ k := by
        rw [hk]
        push_cast
        linarith [Nat.le_ceil (room / cap)]
      rw [div_le_iff₀ hcap] at hceil
      linarith
    have hbudget : k * (room / k) + cap ≤ auxiliaryBudgetBrl env := by
      rw [hfit, hroom]
      linarith
    obtain ⟨halong, hspend⟩ :=
      burstRun_spec env m hx hcap.le n hsmall hbudget
    refine ⟨m, burstRun m hx hcap.le k n, ?_, halong, ?_⟩
    · refine clockedSteps_of_forall ?_
      intro st hst
      rcases mem_burstRun hst with rfl | rfl | rfl <;> rfl
    · rw [hspend, hfit, hroom]
      ring
  · rintro total ⟨start, steps, hclock, halong, rfl⟩
    have hrun := (OvershootInv.init start hcap.le).run hclock halong m
    rw [List.nil_append] at hrun
    exact hrun

/-- Forty threads and a budget of 10: the month can come to 400. -/
theorem overshoot_exact_forty :
    IsGreatest {total | ∃ start steps, ClockedSteps start steps ∧
        Runs.Along (poolStep (some 10)) (Threads 39 10) ⟨[], []⟩ steps ∧
        total = currentMonthSpend earlyFebruary (auxiliaryInserts (some 10) ⟨[], []⟩ steps)}
      400 := by
  have hbudget : auxiliaryBudgetBrl (some 10) = 10 := auxiliaryBudgetBrl_some (by decide)
  have hall := @overshoot_exact (some 10) 39 10 (by decide) (by rw [hbudget]) earlyFebruary
  have htotal : (10 : ℚ) + (39 : ℕ) * 10 = 400 := by norm_num
  rw [hbudget, htotal] at hall
  exact hall

end AdsHub.AiSpend
