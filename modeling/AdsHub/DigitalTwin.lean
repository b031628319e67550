import AdsHub.Lib.Holdings
import AdsHub.Lib.Json
import AdsHub.Lib.Rounding

/-!
# AdsHub.DigitalTwin — the digital twin and its spend guard

`agentic/digital_twin/engine.py` and `agentic/runtime/spend_guard.py`. A cycle pauses the
campaigns that lose money, and moves some spend from the active campaign with the least
return to the one with the greatest. The donor is debited before the guard is asked, and
gets the amount back if the guard refuses.

Amounts are exact, and the campaigns are distinct objects, so that a campaign is a place
in the list. Two results: every cycle keeps the total (`cycle_conserves`), and from the
campaigns of the constructor no number of cycles runs out of active ones
(`twin_never_runs_out`).
-/

namespace AdsHub

/-! ## The spend guard -/

/-- `SpendDecision`. -/
structure SpendDecision where
  allowed : Bool
  reason : String
  projectedMonthlySpend : ℚ
  ceiling : ℚ

/-- `check_spend`. -/
def checkSpend (spent proposedIncrement ceiling : ℚ) : SpendDecision :=
  if min spent (min proposedIncrement ceiling) < 0 then
    ⟨false, "negative_value", spent + proposedIncrement, ceiling⟩
  else if spent + proposedIncrement > ceiling + 1 / 10 ^ 9 then
    ⟨false, "owner_ceiling_exceeded", spent + proposedIncrement, ceiling⟩
  else
    ⟨true, "within_owner_ceiling", spent + proposedIncrement, ceiling⟩

/-- The governor's four tests in one condition. -/
theorem checkSpend_allowed (spent increment ceiling : ℚ) :
    (checkSpend spent increment ceiling).allowed = true ↔
      0 ≤ spent ∧ 0 ≤ increment ∧ 0 ≤ ceiling ∧ spent + increment ≤ ceiling + 1 / 10 ^ 9 := by
  have hmin : ¬ min spent (min increment ceiling) < 0 ↔ 0 ≤ spent ∧ 0 ≤ increment ∧ 0 ≤ ceiling := by
    rw [not_lt, le_min_iff, le_min_iff]
  unfold checkSpend
  by_cases hneg : min spent (min increment ceiling) < 0
  · rw [if_pos hneg]
    have hnot := mt hmin.2 (not_not.2 hneg)
    constructor
    · intro h
      cases h
    · rintro ⟨hspent, hincrement, hceiling, -⟩
      exact absurd ⟨hspent, hincrement, hceiling⟩ hnot
  · rw [if_neg hneg]
    rcases hmin.1 hneg with ⟨hspent, hincrement, hceiling⟩
    by_cases hover : spent + increment > ceiling + 1 / 10 ^ 9
    · rw [if_pos hover]
      constructor
      · intro h
        cases h
      · rintro ⟨-, -, -, hle⟩
        exact absurd hle (not_le.2 hover)
    · rw [if_neg hover]
      exact ⟨fun _ => ⟨hspent, hincrement, hceiling, not_lt.1 hover⟩, fun _ => rfl⟩

/-! ## The twin -/

/-- `Campaign`. -/
structure Campaign where
  id : String
  platform : String
  spend : ℚ
  revenue : ℚ
  cpa : ℚ
  ctr : ℚ
  frequency : ℚ
  status : String := "active"
deriving DecidableEq

/-- `roas`. -/
def Campaign.roas (c : Campaign) : ℚ := if c.spend = 0 then 0 else c.revenue / c.spend

def Campaign.isActive (c : Campaign) : Bool := c.status = "active"

/-- An entry of `actions`. -/
inductive TwinAction where
  | pause (campaign : String)
  | refreshCreative (campaign : String)
  | transfer (source target : String) (amount : ℚ)
  | veto (reason : String)
deriving DecidableEq

/-- The entry as the dictionary that is returned. -/
def TwinAction.items : TwinAction → List (String × Json)
  | .pause campaign =>
    [("agent", .str "performance_scientist"), ("action", .str "pause"),
     ("campaign", .str campaign), ("reason", .str "loss")]
  | .refreshCreative campaign =>
    [("agent", .str "creative_director"), ("action", .str "refresh_creative"),
     ("campaign", .str campaign), ("reason", .str "fatigue")]
  | .transfer source target amount =>
    [("agent", .str "budget_allocator"), ("action", .str "transfer"),
     ("from", .str source), ("to", .str target), ("amount", .num amount)]
  | .veto reason =>
    [("agent", .str "risk_guardian"), ("action", .str "veto"), ("reason", .str reason)]

/-- `DigitalTwin`. -/
structure DigitalTwin where
  ceiling : ℚ
  campaigns : List Campaign
  audit : List TwinAction := []

/-- The campaigns of the constructor. -/
def startCampaigns : List Campaign :=
  [⟨"meta-winner", "meta", 2400, 14400, 28, 28 / 10, 21 / 10, "active"⟩,
   ⟨"meta-fatigue", "meta", 1300, 2600, 72, 7 / 10, 59 / 10, "active"⟩,
   ⟨"tiktok-growth", "tiktok", 900, 5400, 31, 24 / 10, 18 / 10, "active"⟩,
   ⟨"tiktok-loss", "tiktok", 700, 350, 115, 5 / 10, 37 / 10, "active"⟩]

/-- The spend of a campaign as an amount that can be moved. -/
def spending : Holding Campaign ℚ where
  amount := Campaign.spend
  add := fun c x => { c with spend := c.spend + x }
  amount_add := fun _ _ => rfl
  add_add := fun c x y => by rw [add_assoc]
  add_zero := fun c => by rw [add_zero]

/-- `round(q, 3)`. -/
def round3 (q : ℚ) : ℚ := Rounding.roundHalfEven (q * 1000) / 1000

namespace DigitalTwin

/-- `DigitalTwin(ceiling)`. -/
def init (ceiling : ℚ) : DigitalTwin := { ceiling := ceiling, campaigns := startCampaigns }

/-- `total_spend`. -/
def totalSpend (campaigns : List Campaign) : ℚ := spending.total campaigns

/-- A campaign is paused if it loses money; its creative is refreshed if it is worn out. -/
def diagnose (c : Campaign) : Campaign × List TwinAction :=
  if c.roas < 1 ∨ c.cpa > 100 then ({ c with status := "paused" }, [.pause c.id])
  else if c.frequency > 5 ∧ c.ctr < 1 then (c, [.refreshCreative c.id])
  else (c, [])

/-- The campaigns after the diagnosis. -/
def diagnosed (campaigns : List Campaign) : List Campaign :=
  campaigns.map (fun c => (diagnose c).1)

/-- The actions of the diagnosis. -/
def diagnosis (campaigns : List Campaign) : List TwinAction :=
  campaigns.flatMap (fun c => (diagnose c).2)

/-- What a cycle returns. -/
structure Report where
  ceiling : ℚ
  spend : ℚ
  campaigns : List (Campaign × ℚ)
  actions : List TwinAction

/-- The end of a cycle: the actions are logged and reported. -/
def conclude (twin : DigitalTwin) (campaigns : List Campaign) (actions : List TwinAction) :
    DigitalTwin × Report :=
  ({ twin with campaigns := campaigns, audit := twin.audit ++ actions },
   { ceiling := twin.ceiling
     spend := totalSpend campaigns
     campaigns := campaigns.map (fun c => (c, round3 c.roas))
     actions := actions })

/-- `min(300.0, donor.spend*0.15)`. -/
def transferOf (donor : Campaign) : ℚ := min 300 (donor.spend * (15 / 100))

/-- `cycle`; none if `max` and `min` are applied to no campaign. -/
def cycle (twin : DigitalTwin) : Option (DigitalTwin × Report) :=
  let campaigns := diagnosed twin.campaigns
  let active := Holding.eligibles Campaign.isActive campaigns
  match active.argmax (fun p => p.1.roas), active.argmin (fun p => p.1.roas) with
  | some best, some donor =>
    let transfer := transferOf donor.1
    let debited := spending.post campaigns donor.2 (-transfer)
    let guard := checkSpend (totalSpend debited) transfer twin.ceiling
    if guard.allowed then
      some (conclude twin (spending.post debited best.2 transfer)
        (diagnosis twin.campaigns ++ [.transfer donor.1.id best.1.id transfer]))
    else
      some (conclude twin (spending.post debited donor.2 transfer)
        (diagnosis twin.campaigns ++ [.veto guard.reason]))
  | _, _ => none

/-- `n` cycles, one after another. -/
def cycles : ℕ → DigitalTwin → Option DigitalTwin
  | 0, twin => some twin
  | n + 1, twin => (cycles n twin).bind (fun twin => twin.cycle.map Prod.fst)

/-! ## One cycle -/

/-- A campaign is still active after the diagnosis. -/
def HasActive (campaigns : List Campaign) : Prop :=
  ∃ c ∈ diagnosed campaigns, c.isActive = true

instance (campaigns : List Campaign) : Decidable (HasActive campaigns) :=
  inferInstanceAs (Decidable (∃ c ∈ diagnosed campaigns, _))

/-- The diagnosis moves no money. -/
theorem diagnose_spend (c : Campaign) : (diagnose c).1.spend = c.spend := by
  unfold diagnose
  split
  · rfl
  · split <;> rfl

/-- A diagnosis leaves the status or pauses. -/
theorem diagnose_status (c : Campaign) :
    (diagnose c).1.status = c.status ∨ (diagnose c).1.status = "paused" := by
  unfold diagnose
  split
  · exact Or.inr rfl
  · split <;> exact Or.inl rfl

theorem getElem?_diagnosed (campaigns : List Campaign) (k : ℕ) :
    (diagnosed campaigns)[k]? = campaigns[k]?.map (fun c => (diagnose c).1) :=
  List.getElem?_map

theorem spends_diagnosed (campaigns : List Campaign) :
    (diagnosed campaigns).map Campaign.spend = campaigns.map Campaign.spend := by
  rw [diagnosed, List.map_map]
  exact List.map_congr_left (fun c _ => diagnose_spend c)

theorem totalSpend_diagnosed (campaigns : List Campaign) :
    totalSpend (diagnosed campaigns) = totalSpend campaigns :=
  congrArg List.sum (spends_diagnosed campaigns)

/-- The transfer has candidates exactly when a campaign is active after the diagnosis. -/
theorem eligibles_ne_nil {campaigns : List Campaign} :
    Holding.eligibles Campaign.isActive (diagnosed campaigns) ≠ [] ↔ HasActive campaigns := by
  constructor
  · intro h
    obtain ⟨p, hp⟩ := List.exists_mem_of_ne_nil _ h
    obtain ⟨hplace, hactive⟩ := Holding.mem_eligibles.1 hp
    exact ⟨p.1, List.mem_of_getElem? hplace, hactive⟩
  · rintro ⟨c, hc, hactive⟩
    obtain ⟨k, hk⟩ := List.mem_iff_getElem?.1 hc
    have hmem : (c, k) ∈ Holding.eligibles Campaign.isActive (diagnosed campaigns) :=
      Holding.mem_eligibles.2 ⟨hk, hactive⟩
    exact List.ne_nil_of_mem hmem

/-- What the guard is asked, in terms of the total before the donor is debited. -/
def Guarded (twin : DigitalTwin) (amount : ℚ) : Prop :=
  0 ≤ totalSpend twin.campaigns - amount ∧ 0 ≤ amount ∧ 0 ≤ twin.ceiling ∧
    totalSpend twin.campaigns ≤ twin.ceiling + 1 / 10 ^ 9

/-- Everything a cycle can do: with an active campaign, there is a donor and a best one,
and the amount goes from the first to the second if the guard allows it. -/
theorem cycle_cases (twin : DigitalTwin) (h : HasActive twin.campaigns) :
    ∃ i donor j best,
      Holding.FirstMin Campaign.roas Campaign.isActive (diagnosed twin.campaigns) i donor ∧
      Holding.FirstMax Campaign.roas Campaign.isActive (diagnosed twin.campaigns) j best ∧
      (Guarded twin (transferOf donor) ∧
          twin.cycle = some (conclude twin
            (spending.transfer (diagnosed twin.campaigns) i j (transferOf donor))
            (diagnosis twin.campaigns ++ [.transfer donor.id best.id (transferOf donor)])) ∨
        ¬ Guarded twin (transferOf donor) ∧ ∃ reason,
          twin.cycle = some (conclude twin (diagnosed twin.campaigns)
            (diagnosis twin.campaigns ++ [.veto reason]))) := by
  have hne := eligibles_ne_nil.2 h
  cases hbest : (Holding.eligibles Campaign.isActive (diagnosed twin.campaigns)).argmax
      (fun p => p.1.roas) with
  | none => exact absurd (List.argmax_eq_none.1 hbest) hne
  | some best =>
    cases hdonor : (Holding.eligibles Campaign.isActive (diagnosed twin.campaigns)).argmin
        (fun p => p.1.roas) with
    | none => exact absurd (List.argmin_eq_none.1 hdonor) hne
    | some donor =>
      have hfirst := Holding.argmin_firstMin hdonor
      refine ⟨donor.2, donor.1, best.2, best.1, hfirst, Holding.argmax_firstMax hbest, ?_⟩
      -- the guard sees the total with the donor debited, and the amount on top
      have hplace : donor.2 < (diagnosed twin.campaigns).length :=
        (List.getElem?_eq_some_iff.1 hfirst.1).1
      have hdebited : totalSpend (spending.post (diagnosed twin.campaigns) donor.2
          (-transferOf donor.1)) = totalSpend twin.campaigns - transferOf donor.1 := by
        rw [totalSpend, spending.total_post hplace, sub_eq_add_neg]
        congr 1
        exact totalSpend_diagnosed twin.campaigns
      have hguard := checkSpend_allowed (totalSpend twin.campaigns - transferOf donor.1)
        (transferOf donor.1) twin.ceiling
      rw [sub_add_cancel] at hguard
      unfold cycle
      simp only [hbest, hdonor, hdebited]
      by_cases hallowed : Guarded twin (transferOf donor.1)
      · rw [if_pos (hguard.2 hallowed)]
        exact Or.inl ⟨hallowed, rfl⟩
      · rw [if_neg (mt hguard.1 hallowed)]
        -- what was taken is given back
        have hrestored := spending.transfer_self (diagnosed twin.campaigns) donor.2
          (transferOf donor.1)
        unfold Holding.transfer at hrestored
        rw [hrestored]
        exact Or.inr ⟨hallowed, _, rfl⟩

/-- Without an active campaign `max` raises. -/
theorem hasActive_of_cycle {twin : DigitalTwin} {result : DigitalTwin × Report}
    (h : twin.cycle = some result) : HasActive twin.campaigns := by
  rw [← eligibles_ne_nil]
  intro hnone
  simp [cycle, hnone] at h

/-- What a cycle does to the spends and the statuses. -/
structure CycleEffect (twin after : DigitalTwin) (actions : List TwinAction) : Prop where
  ceiling : after.ceiling = twin.ceiling
  length : after.campaigns.length = twin.campaigns.length
  total : totalSpend after.campaigns = totalSpend twin.campaigns
  active_only : ∀ (k : ℕ) (c : Campaign), (diagnosed twin.campaigns)[k]? = some c → c.isActive = false →
    after.campaigns[k]?.map Campaign.spend = some c.spend
  transfer_or_veto :
    (∃ i donor j best,
      Holding.FirstMin Campaign.roas Campaign.isActive (diagnosed twin.campaigns) i donor ∧
      Holding.FirstMax Campaign.roas Campaign.isActive (diagnosed twin.campaigns) j best ∧
      0 ≤ transferOf donor ∧ 0 ≤ twin.ceiling ∧
      totalSpend twin.campaigns ≤ twin.ceiling + 1 / 10 ^ 9 ∧
      actions = diagnosis twin.campaigns ++ [.transfer donor.id best.id (transferOf donor)] ∧
      ∀ (k : ℕ) (c : Campaign), twin.campaigns[k]? = some c → after.campaigns[k]?.map Campaign.spend =
        some (c.spend - (if k = i then transferOf donor else 0) +
          if k = j then transferOf donor else 0)) ∨
    ∃ reason, actions = diagnosis twin.campaigns ++ [.veto reason] ∧
      after.campaigns.map Campaign.spend = twin.campaigns.map Campaign.spend
  paused : ∀ (k : ℕ) (c : Campaign), twin.campaigns[k]? = some c → c.status = "paused" →
    after.campaigns[k]?.map Campaign.status = some "paused"

/-- What a transfer does to each position, the donor being its own recipient included. -/
theorem getElem?_transfer (campaigns : List Campaign) (i j k : ℕ) (amount : ℚ) :
    (spending.transfer campaigns i j amount)[k]? = campaigns[k]?.map (fun c =>
      { c with spend := c.spend - (if k = i then amount else 0) + if k = j then amount else 0 }) := by
  unfold Holding.transfer
  rw [Holding.getElem?_post, Holding.getElem?_post, Option.map_map]
  congr 1
  funext c
  by_cases hi : k = i
  · subst hi
    by_cases hj : k = j
    · subst hj
      simp [spending]
    · simp [spending, hj, Ne.symm hj, sub_eq_add_neg]
  · by_cases hj : k = j
    · subst hj
      simp [spending, hi, Ne.symm hi]
    · simp [hi, hj, Ne.symm hi, Ne.symm hj]

/-- A paused campaign stays paused through the diagnosis. -/
theorem status_diagnosed {campaigns : List Campaign} {k : ℕ} {c : Campaign}
    (h : campaigns[k]? = some c) (hpaused : c.status = "paused") :
    (diagnosed campaigns)[k]?.map Campaign.status = some "paused" := by
  rw [getElem?_diagnosed, h]
  rcases diagnose_status c with hsame | hstatus
  · exact congrArg some (hsame.trans hpaused)
  · exact congrArg some hstatus

/-- An inactive campaign is not the one at an active position. -/
theorem isActive_ne {campaigns : List Campaign} {k i : ℕ} {c d : Campaign}
    (hc : campaigns[k]? = some c) (hinactive : c.isActive = false) (hd : campaigns[i]? = some d)
    (hactive : d.isActive = true) : k ≠ i := by
  rintro rfl
  rw [Option.some.inj (hc.symm.trans hd), hactive] at hinactive
  cases hinactive

/-- With an active campaign left the cycle is defined, and it does what `CycleEffect` says.
-/
theorem cycle_effect (twin : DigitalTwin) (h : HasActive twin.campaigns) :
    ∃ after report, twin.cycle = some (after, report) ∧
      CycleEffect twin after report.actions := by
  rcases cycle_cases twin h with
    ⟨i, donor, j, best, hdonor, hbest, ⟨hguard, hcycle⟩ | ⟨-, reason, hcycle⟩⟩
  · refine ⟨_, _, hcycle, rfl, ?_, ?_, ?_, Or.inl ?_, ?_⟩
    · simp [Holding.transfer, diagnosed]
    · have hi := (List.getElem?_eq_some_iff.1 hdonor.1).1
      have hj := (List.getElem?_eq_some_iff.1 hbest.1).1
      exact (spending.total_transfer hi hj _).trans (totalSpend_diagnosed twin.campaigns)
    · intro k c hc hinactive
      have hki := isActive_ne hc hinactive hdonor.1 hdonor.2.1
      have hkj := isActive_ne hc hinactive hbest.1 hbest.2.1
      simp [getElem?_transfer, hc, hki, hkj]
    · refine ⟨i, donor, j, best, hdonor, hbest, hguard.2.1, hguard.2.2.1, hguard.2.2.2, rfl, ?_⟩
      intro k c hc
      simp [getElem?_transfer, getElem?_diagnosed, hc, diagnose_spend]
    · intro k c hc hpaused
      have hstatus := status_diagnosed hc hpaused
      rw [getElem?_transfer, Option.map_map]
      exact hstatus
  · refine ⟨_, _, hcycle, rfl, ?_, totalSpend_diagnosed twin.campaigns, ?_, Or.inr ?_, ?_⟩
    · simp [diagnosed]
    · intro k c hc _
      simp [hc]
    · exact ⟨reason, rfl, spends_diagnosed twin.campaigns⟩
    · intro k c hc hpaused
      exact status_diagnosed hc hpaused

/-! ## Any number of cycles -/

/-- The last of several cycles. -/
theorem cycles_last {n : ℕ} {twin after : DigitalTwin} (h : cycles (n + 1) twin = some after) :
    ∃ before report, cycles n twin = some before ∧ before.cycle = some (after, report) := by
  obtain ⟨before, hbefore, hlast⟩ := Option.bind_eq_some_iff.1 h
  obtain ⟨⟨after', report⟩, hcycle, rfl⟩ := Option.map_eq_some_iff.1 hlast
  exact ⟨before, report, hbefore, hcycle⟩

/-- What any number of cycles keeps. -/
structure Kept (twin after : DigitalTwin) : Prop where
  ceiling : after.ceiling = twin.ceiling
  total : totalSpend after.campaigns = totalSpend twin.campaigns
  within : totalSpend twin.campaigns ≤ twin.ceiling → totalSpend after.campaigns ≤ after.ceiling
  paused : ∀ (k : ℕ) (c : Campaign), twin.campaigns[k]? = some c → c.status = "paused" →
    after.campaigns[k]?.map Campaign.status = some "paused"

/-- By induction on the cycles: what one keeps, any number keeps. -/
theorem cycles_kept (twin : DigitalTwin) {n : ℕ} {after : DigitalTwin}
    (h : cycles n twin = some after) : Kept twin after := by
  induction n generalizing after with
  | zero =>
    cases h
    refine ⟨rfl, rfl, id, ?_⟩
    intro k c hc hpaused
    rw [hc]
    exact congrArg some hpaused
  | succ n ih =>
    obtain ⟨before, report, hbefore, hcycle⟩ := cycles_last h
    have hkept := ih hbefore
    rcases cycle_effect before (hasActive_of_cycle hcycle) with ⟨last, report', hcycle', heffect⟩
    cases hcycle.symm.trans hcycle'
    refine ⟨heffect.ceiling.trans hkept.ceiling, heffect.total.trans hkept.total, ?_, ?_⟩
    · intro hle
      rw [heffect.total, heffect.ceiling]
      exact hkept.within hle
    · intro k c hc hpaused
      obtain ⟨c', hc', hpaused'⟩ := Option.map_eq_some_iff.1 (hkept.paused k c hc hpaused)
      exact heffect.paused k c' hc' hpaused'

/-- For every list of campaigns with one that is active after the diagnosis and every
ceiling: the cycle is completed and keeps the total, changes the spend of active
campaigns only, and either transfers from the first of least return to the first of
greatest, which needs a total within the ceiling, or vetoes and leaves every spend. No
paused campaign becomes active; and no number of cycles changes the total. -/
theorem cycle_conserves (twin : DigitalTwin) (h : HasActive twin.campaigns) :
    (∃ after report, twin.cycle = some (after, report) ∧
      CycleEffect twin after report.actions) ∧
    ∀ n after, cycles n twin = some after → Kept twin after :=
  ⟨cycle_effect twin h, fun _ _ hafter => cycles_kept twin hafter⟩

/-- A cycle of the twin as it is constructed, with a ceiling of 10000. -/
theorem cycle_conserves_start :
    HasActive (init 10000).campaigns ∧ ∃ after report,
      (init 10000).cycle = some (after, report) ∧
      CycleEffect (init 10000) after report.actions := by
  have hactive : HasActive (init 10000).campaigns := by decide +kernel
  exact ⟨hactive, (cycle_conserves (init 10000) hactive).1⟩

/-! ## From the constructor -/

def metaWinner (spend : ℚ) : Campaign :=
  ⟨"meta-winner", "meta", spend, 14400, 28, 28 / 10, 21 / 10, "active"⟩

def metaFatigue (spend : ℚ) : Campaign :=
  ⟨"meta-fatigue", "meta", spend, 2600, 72, 7 / 10, 59 / 10, "active"⟩

def tiktokGrowth (spend : ℚ) : Campaign :=
  ⟨"tiktok-growth", "tiktok", spend, 5400, 31, 24 / 10, 18 / 10, "active"⟩

def tiktokLoss (status : String) : Campaign :=
  ⟨"tiktok-loss", "tiktok", 700, 350, 115, 5 / 10, 37 / 10, status⟩

/-- The campaigns of the constructor with other spends for the first three, and with a
status for the last. -/
def fixture (winner fatigue growth : ℚ) (status : String) : List Campaign :=
  [metaWinner winner, metaFatigue fatigue, tiktokGrowth growth, tiktokLoss status]

/-- The spends that can be reached: all positive, with the sum that they had, and that of
`meta-fatigue` so small that it still earns more than it costs. -/
structure Reachable (winner fatigue growth : ℚ) : Prop where
  winner_pos : 0 < winner
  fatigue_pos : 0 < fatigue
  growth_pos : 0 < growth
  sum : winner + fatigue + growth = 4600
  fatigue_le : fatigue ≤ 1300

variable {winner fatigue growth : ℚ}

/-- A campaign that spends no more than it earns, at a small cost, is not paused. -/
theorem diagnose_earning {c : Campaign} (hpos : 0 < c.spend) (hle : c.spend ≤ c.revenue)
    (hcpa : c.cpa ≤ 100) : (diagnose c).1 = c ∧ ∀ id, TwinAction.pause id ∉ (diagnose c).2 := by
  have hroas : ¬ c.roas < 1 := by
    rw [Campaign.roas, if_neg hpos.ne', not_lt, le_div_iff₀ hpos, one_mul]
    exact hle
  unfold diagnose
  rw [if_neg (not_or.2 ⟨hroas, not_lt.2 hcpa⟩)]
  split
  · exact ⟨rfl, by simp⟩
  · exact ⟨rfl, by simp⟩

theorem diagnose_loss (status : String) :
    diagnose (tiktokLoss status) = (tiktokLoss "paused", [.pause "tiktok-loss"]) := by
  have hcpa : (tiktokLoss status).cpa > 100 := by norm_num [tiktokLoss]
  rw [diagnose, if_pos (Or.inr hcpa)]
  rfl

/-- The diagnosis pauses `tiktok-loss`, and nothing else. -/
theorem diagnosed_fixture (h : Reachable winner fatigue growth) (status : String) :
    diagnosed (fixture winner fatigue growth status) = fixture winner fatigue growth "paused" ∧
      ∀ id, TwinAction.pause id ∈ diagnosis (fixture winner fatigue growth status) →
        id = "tiktok-loss" := by
  obtain ⟨hw, hf, hg, hsum, hle⟩ := h
  -- the spends are positive, so none of the three exceeds the sum
  have hwinner := diagnose_earning (c := metaWinner winner) hw
    (show winner ≤ 14400 by linarith) (by norm_num [metaWinner])
  have hfatigue := diagnose_earning (c := metaFatigue fatigue) hf
    (show fatigue ≤ 2600 by linarith) (by norm_num [metaFatigue])
  have hgrowth := diagnose_earning (c := tiktokGrowth growth) hg
    (show growth ≤ 5400 by linarith) (by norm_num [tiktokGrowth])
  constructor
  · simp only [diagnosed, fixture, List.map_cons, List.map_nil, hwinner.1, hfatigue.1, hgrowth.1,
      diagnose_loss]
  · intro id hid
    simpa [diagnosis, fixture, hwinner.2, hfatigue.2, hgrowth.2, diagnose_loss] using hid

/-- The active campaigns are the first three. -/
theorem active_fixture {k : ℕ} {c : Campaign}
    (h : (fixture winner fatigue growth "paused")[k]? = some c) (hactive : c.isActive = true) :
    k = 0 ∧ c = metaWinner winner ∨ k = 1 ∧ c = metaFatigue fatigue ∨
      k = 2 ∧ c = tiktokGrowth growth := by
  match k with
  | 0 => exact Or.inl ⟨rfl, (Option.some.inj h).symm⟩
  | 1 => exact Or.inr (Or.inl ⟨rfl, (Option.some.inj h).symm⟩)
  | 2 => exact Or.inr (Or.inr ⟨rfl, (Option.some.inj h).symm⟩)
  | 3 =>
    rw [← Option.some.inj h] at hactive
    exact absurd hactive (by decide)
  | k + 4 => cases h

/-- If `meta-fatigue` has the greatest return, it is at least the average, and so its
spend is small. -/
theorem fatigue_small (h : Reachable winner fatigue growth)
    (hwinner : (metaWinner winner).roas ≤ (metaFatigue fatigue).roas)
    (hgrowth : (tiktokGrowth growth).roas ≤ (metaFatigue fatigue).roas) : fatigue ≤ 600 := by
  obtain ⟨hw, hf, hg, hsum, hle⟩ := h
  simp only [Campaign.roas, metaWinner, metaFatigue, tiktokGrowth, hw.ne', hf.ne', hg.ne',
    if_false] at hwinner hgrowth
  rw [div_le_div_iff₀ hw hf] at hwinner
  rw [div_le_div_iff₀ hg hf] at hgrowth
  linarith

/-- A transfer is positive, at most R$300, and less than what the donor has. -/
theorem transferOf_bounds {c : Campaign} (h : 0 < c.spend) :
    0 < transferOf c ∧ transferOf c ≤ 300 ∧ transferOf c < c.spend := by
  unfold transferOf
  refine ⟨lt_min (by norm_num) (by linarith), min_le_left _ _, ?_⟩
  exact lt_of_le_of_lt (min_le_right _ _) (by linarith)

/-- A transfer between two of the first three campaigns. -/
theorem transfer_fixture {i j : ℕ} (hi : i ≠ 3) (hj : j ≠ 3) (amount : ℚ) :
    spending.transfer (fixture winner fatigue growth "paused") i j amount =
      fixture (winner - (if i = 0 then amount else 0) + if j = 0 then amount else 0)
        (fatigue - (if i = 1 then amount else 0) + if j = 1 then amount else 0)
        (growth - (if i = 2 then amount else 0) + if j = 2 then amount else 0) "paused" := by
  refine List.ext_getElem? ?_
  intro k
  rw [getElem?_transfer]
  match k with
  | 0 => simp [fixture, metaWinner, eq_comm]
  | 1 => simp [fixture, metaFatigue, eq_comm]
  | 2 => simp [fixture, tiktokGrowth, eq_comm]
  | 3 => simp [fixture, tiktokLoss, hi.symm, hj.symm]
  | k + 4 => rfl

/-- A transfer between the active campaigns leads to spends that can be reached. -/
theorem reachable_transfer (h : Reachable winner fatigue growth) {i j : ℕ} {donor best : Campaign}
    (hdonor : Holding.FirstMin Campaign.roas Campaign.isActive
      (fixture winner fatigue growth "paused") i donor)
    (hbest : Holding.FirstMax Campaign.roas Campaign.isActive
      (fixture winner fatigue growth "paused") j best) :
    ∃ winner' fatigue' growth', Reachable winner' fatigue' growth' ∧
      spending.transfer (fixture winner fatigue growth "paused") i j (transferOf donor) =
        fixture winner' fatigue' growth' "paused" := by
  have hi := active_fixture hdonor.1 hdonor.2.1
  have hj := active_fixture hbest.1 hbest.2.1
  -- the amount is positive, at most 300, and less than what the donor spends
  have hspend : 0 < donor.spend := by
    rcases hi with ⟨-, rfl⟩ | ⟨-, rfl⟩ | ⟨-, rfl⟩
    · exact h.winner_pos
    · exact h.fatigue_pos
    · exact h.growth_pos
  rcases transferOf_bounds hspend with ⟨hpos, hcap, hless⟩
  -- only if `meta-fatigue` is the best one does it gain
  have hsmall : j = 1 → fatigue ≤ 600 := by
    rintro rfl
    have hfatigue : best = metaFatigue fatigue := (Option.some.inj hbest.1).symm
    have hwinner := (hbest.2.2 0 (metaWinner winner) rfl (by rfl)).1
    have hgrowth := (hbest.2.2 2 (tiktokGrowth growth) rfl (by rfl)).1
    rw [hfatigue] at hwinner hgrowth
    exact fatigue_small h hwinner hgrowth
  -- what a donor gives is less than what it spends, and nobody else gives
  have hstays : ∀ {k : ℕ} {spend : ℚ}, 0 < spend → (i = k → transferOf donor < spend) →
      0 < spend - (if i = k then transferOf donor else 0) +
        if j = k then transferOf donor else 0 := by
    intro k spend hspend hgives
    have hgain : 0 ≤ if j = k then transferOf donor else 0 := by
      split_ifs <;> linarith
    by_cases hk : i = k
    · have hgiven := hgives hk
      rw [if_pos hk]
      linarith
    · rw [if_neg hk]
      linarith
  refine ⟨_, _, _, ⟨hstays h.winner_pos ?_, hstays h.fatigue_pos ?_, hstays h.growth_pos ?_, ?_, ?_⟩,
    transfer_fixture (by omega) (by omega) _⟩
  · rintro rfl
    rwa [← Option.some.inj hdonor.1] at hless ⊢
  · rintro rfl
    rwa [← Option.some.inj hdonor.1] at hless ⊢
  · rintro rfl
    rwa [← Option.some.inj hdonor.1] at hless ⊢
  · have hsum := h.sum
    rcases hi with ⟨rfl, -⟩ | ⟨rfl, -⟩ | ⟨rfl, -⟩ <;>
      rcases hj with ⟨rfl, -⟩ | ⟨rfl, -⟩ | ⟨rfl, -⟩ <;> norm_num <;> linarith
  · have hgiven : 0 ≤ if i = 1 then transferOf donor else 0 := by
      split_ifs <;> linarith
    by_cases hk : j = 1
    · have hfatigue := hsmall hk
      rw [if_pos hk]
      linarith
    · have hfatigue := h.fatigue_le
      rw [if_neg hk]
      linarith

/-- One cycle from spends that can be reached. -/
theorem cycle_fixture {twin : DigitalTwin} {status : String}
    (hcampaigns : twin.campaigns = fixture winner fatigue growth status)
    (h : Reachable winner fatigue growth) :
    ∃ after report winner' fatigue' growth', twin.cycle = some (after, report) ∧
      after.campaigns = fixture winner' fatigue' growth' "paused" ∧
      Reachable winner' fatigue' growth' ∧ after.audit = twin.audit ++ report.actions ∧
      ∀ id, TwinAction.pause id ∈ report.actions → id = "tiktok-loss" := by
  rcases diagnosed_fixture h status with ⟨hdiagnosed, hpauses⟩
  rw [← hcampaigns] at hdiagnosed hpauses
  have hactive : HasActive twin.campaigns :=
    ⟨metaWinner winner, by rw [hdiagnosed]; exact List.mem_cons_self, rfl⟩
  rcases cycle_cases twin hactive with
    ⟨i, donor, j, best, hdonor, hbest, ⟨-, hcycle⟩ | ⟨-, reason, hcycle⟩⟩
  · rw [hdiagnosed] at hdonor hbest hcycle
    rcases reachable_transfer h hdonor hbest with ⟨winner', fatigue', growth', hreach, htransfer⟩
    refine ⟨_, _, winner', fatigue', growth', hcycle, htransfer, hreach, rfl, ?_⟩
    intro id hid
    exact hpauses id (by simpa [conclude] using hid)
  · rw [hdiagnosed] at hcycle
    refine ⟨_, _, winner, fatigue, growth, hcycle, rfl, h, rfl, ?_⟩
    intro id hid
    exact hpauses id (by simpa [conclude] using hid)

/-- What every state of the twin has, from the constructor on. -/
structure Sustained (n : ℕ) (twin : DigitalTwin) : Prop where
  campaigns : ∃ winner fatigue growth,
    twin.campaigns = fixture winner fatigue growth (if n = 0 then "active" else "paused") ∧
      Reachable winner fatigue growth
  audit : ∀ id, TwinAction.pause id ∈ twin.audit → id = "tiktok-loss"

/-- By induction: from the constructor's campaigns the invariant holds after any number of
cycles. -/
theorem cycles_sustained (ceiling : ℚ) (n : ℕ) :
    ∃ after, cycles n (init ceiling) = some after ∧ Sustained n after := by
  induction n with
  | zero =>
    refine ⟨init ceiling, rfl, ⟨2400, 1300, 900, rfl, ?_⟩, ?_⟩
    · constructor <;> norm_num
    · intro id hid
      cases hid
  | succ n ih =>
    rcases ih with ⟨before, hbefore, ⟨winner, fatigue, growth, hcampaigns, hreach⟩, haudit⟩
    rcases cycle_fixture hcampaigns hreach with
      ⟨after, report, winner', fatigue', growth', hcycle, hafter, hreach', hlog, hpauses⟩
    refine ⟨after, ?_, ⟨winner', fatigue', growth', hafter, hreach'⟩, ?_⟩
    · simp [cycles, hbefore, hcycle]
    · intro id hid
      rw [hlog, List.mem_append] at hid
      rcases hid with hid | hid
      · exact haudit id hid
      · exact hpauses id hid

/-- From the campaigns of the constructor, whatever the ceiling, any number of cycles is
completed; every spend stays positive and the total stays 5300; `tiktok-loss` is paused
from the first cycle on, every other campaign is active, and no other one is ever paused. -/
theorem twin_never_runs_out (ceiling : ℚ) (n : ℕ) :
    ∃ after, cycles n (init ceiling) = some after ∧
      (∀ c ∈ after.campaigns, 0 < c.spend) ∧ totalSpend after.campaigns = 5300 ∧
      (∀ c ∈ after.campaigns,
        c.status = if 0 < n ∧ c.id = "tiktok-loss" then "paused" else "active") ∧
      ∀ id, TwinAction.pause id ∈ after.audit → id = "tiktok-loss" := by
  rcases cycles_sustained ceiling n with
    ⟨after, hafter, ⟨winner, fatigue, growth, hcampaigns, hreach⟩, haudit⟩
  obtain ⟨hw, hf, hg, hsum, -⟩ := hreach
  refine ⟨after, hafter, ?_, ?_, ?_, haudit⟩
  · rw [hcampaigns]
    simp [fixture, metaWinner, metaFatigue, tiktokGrowth, tiktokLoss, hw, hf, hg]
  · rw [hcampaigns]
    simp only [totalSpend, Holding.total, spending, fixture, metaWinner, metaFatigue, tiktokGrowth,
      tiktokLoss, List.map_cons, List.map_nil, List.sum_cons, List.sum_nil]
    linarith
  · rw [hcampaigns]
    cases n with
    | zero => simp [fixture, metaWinner, metaFatigue, tiktokGrowth, tiktokLoss]
    | succ n => simp [fixture, metaWinner, metaFatigue, tiktokGrowth, tiktokLoss]

end DigitalTwin

end AdsHub
