import Mathlib.Algebra.Order.BigOperators.Group.List
import AdsHub.TwinAudit

/-!
# AdsHub.TwinReplay — what the audit of the digital twin says of its campaigns

A cycle changes the campaigns in place and logs what it has done; the campaigns before it
are gone. Two results on a twin after any number of cycles:

* `audit_replays`: if the campaigns can be told apart by their ids, the audit is the whole
  history. Applied in order to the campaigns the twin was given, its entries give the
  campaigns as they are, with every field;
* `verdict_settled`: with no negative spend at the beginning, the guard decides all cycles
  alike, and what it decides can be read off the ceiling and the first total. Either
  every cycle moves an amount, none of which is negative or exceeds 300, or every cycle
  vetoes for the same reason and no spend ever changes.

The second is not a matter of the total alone. The guard also compares the amount and
what remains without the donor with zero, so that the spends must be shown to stay
non-negative along the run.
-/

namespace AdsHub

/-- What an entry of the audit tells of a campaign. -/
def TwinAction.applyTo (action : TwinAction) (c : Campaign) : Campaign :=
  match action with
  | .pause campaign => if c.id = campaign then { c with status := "paused" } else c
  | .refreshCreative _ => c
  | .transfer source target amount =>
    { c with spend := c.spend - (if c.id = source then amount else 0) +
        if c.id = target then amount else 0 }
  | .veto _ => c

namespace DigitalTwin

/-- The entries applied to a campaign, one after another. -/
def history (audit : List TwinAction) (c : Campaign) : Campaign :=
  audit.foldl (fun c action => action.applyTo c) c

/-- The entries applied to all campaigns. -/
def replay (audit : List TwinAction) (campaigns : List Campaign) : List Campaign :=
  campaigns.map (history audit)

/-! ## The audit of one cycle -/

theorem history_append (audit later : List TwinAction) (c : Campaign) :
    history (audit ++ later) c = history later (history audit c) := List.foldl_append

/-- Replaying a longer log replays its parts in order. -/
theorem replay_append (audit later : List TwinAction) (campaigns : List Campaign) :
    replay (audit ++ later) campaigns = replay later (replay audit campaigns) := by
  unfold replay
  rw [List.map_map]
  exact List.map_congr_left (fun c _ => history_append audit later c)

/-- The entries of a diagnosis say of its campaign what it has become. -/
theorem history_diagnose (c : Campaign) : history (diagnose c).2 c = (diagnose c).1 := by
  unfold diagnose
  split
  · exact if_pos rfl
  · split <;> rfl

/-- The diagnosis of one campaign leaves the others' history alone. -/
theorem history_diagnose_ne {c d : Campaign} (h : c.id ≠ d.id) : history (diagnose d).2 c = c := by
  unfold diagnose
  split
  · exact if_neg h
  · split <;> rfl

theorem history_diagnosis_ne {campaigns : List Campaign} {c : Campaign}
    (h : c.id ∉ campaigns.map Campaign.id) : history (diagnosis campaigns) c = c := by
  induction campaigns with
  | nil => rfl
  | cons d campaigns ih =>
    rw [List.map_cons, List.mem_cons, not_or] at h
    have hcons : diagnosis (d :: campaigns) = (diagnose d).2 ++ diagnosis campaigns := rfl
    rw [hcons, history_append, history_diagnose_ne h.1]
    exact ih h.2

/-- Replaying the diagnosis redoes it, when the ids are distinct. -/
theorem replay_diagnosis {campaigns : List Campaign} (h : (campaigns.map Campaign.id).Nodup) :
    replay (diagnosis campaigns) campaigns = diagnosed campaigns := by
  refine List.map_congr_left ?_
  intro c hc
  -- the entries before those of the campaign and after them are about others
  obtain ⟨before, later, rfl⟩ := List.append_of_mem hc
  rw [List.map_append, List.map_cons] at h
  have hbefore : c.id ∉ before.map Campaign.id := by
    intro hmem
    exact (List.nodup_append.1 h).2.2 _ hmem _ (List.mem_cons_self) rfl
  have hlater : c.id ∉ later.map Campaign.id := (List.nodup_cons.1 (List.nodup_append.1 h).2.1).1
  have hsplit : diagnosis (before ++ c :: later) =
      diagnosis before ++ ((diagnose c).2 ++ diagnosis later) := List.flatMap_append
  rw [hsplit, history_append, history_append, history_diagnosis_ne hbefore, history_diagnose]
  refine history_diagnosis_ne ?_
  rwa [diagnose_id]

/-- Places and ids tell campaigns apart alike. -/
theorem place_eq_iff {campaigns : List Campaign} (h : (campaigns.map Campaign.id).Nodup) {i k : ℕ}
    {c d : Campaign} (hc : campaigns[k]? = some c) (hd : campaigns[i]? = some d) :
    k = i ↔ c.id = d.id := by
  constructor
  · rintro rfl
    rw [Option.some.inj (hc.symm.trans hd)]
  · intro hid
    have hk : (campaigns.map Campaign.id)[k]? = some c.id := by rw [List.getElem?_map, hc]; rfl
    have hi : (campaigns.map Campaign.id)[i]? = some c.id := by
      rw [List.getElem?_map, hd, hid]
      rfl
    have hlt := (List.getElem?_eq_some_iff.1 hk).1
    exact (List.getElem?_inj hlt h).1 (hk.trans hi.symm)

/-- Replaying a transfer finds both campaigns by their ids. -/
theorem replay_transfer {campaigns : List Campaign} (h : (campaigns.map Campaign.id).Nodup)
    {i j : ℕ} {donor best : Campaign} (hdonor : campaigns[i]? = some donor)
    (hbest : campaigns[j]? = some best) (amount : ℚ) :
    replay [.transfer donor.id best.id amount] campaigns = spending.transfer campaigns i j amount := by
  refine List.ext_getElem? ?_
  intro k
  rw [getElem?_transfer, replay, List.getElem?_map]
  cases hk : campaigns[k]? with
  | none => rfl
  | some c =>
    simp only [Option.map_some, place_eq_iff h hk hdonor, place_eq_iff h hk hbest]
    rfl

/-- One cycle: it appends its actions to the log, and replaying them gives its campaigns. -/
theorem cycle_replays {twin after : DigitalTwin} {report : Report}
    (hids : (twin.campaigns.map Campaign.id).Nodup) (h : twin.cycle = some (after, report)) :
    after.audit = twin.audit ++ report.actions ∧
      after.campaigns = replay report.actions twin.campaigns := by
  have hdiagnosed : ((diagnosed twin.campaigns).map Campaign.id).Nodup := by
    rwa [ids_diagnosed]
  rcases cycle_cases twin (hasActive_of_cycle h) with
    ⟨i, donor, j, best, hdonor, hbest, ⟨-, hcycle⟩ | ⟨-, reason, hcycle⟩⟩
  · cases h.symm.trans hcycle
    refine ⟨rfl, ?_⟩
    have htransfer := replay_transfer hdiagnosed hdonor.1 hbest.1 (transferOf donor)
    show spending.transfer (diagnosed twin.campaigns) i j (transferOf donor) = _
    rw [← htransfer, ← replay_diagnosis hids]
    exact (replay_append _ _ _).symm
  · cases h.symm.trans hcycle
    refine ⟨rfl, ?_⟩
    show diagnosed twin.campaigns = _
    -- a veto changes no campaign
    have hveto : replay [TwinAction.veto reason] (diagnosed twin.campaigns) =
        diagnosed twin.campaigns := List.map_id _
    rw [replay_append, replay_diagnosis hids]
    exact hveto.symm

/-! ## The audit of a run -/

variable {ceiling : ℚ} {campaigns : List Campaign}

/-- For every ceiling, all campaigns with distinct ids and any number of cycles that
complete: the campaigns are those that the audit makes of the ones the twin began with. -/
theorem audit_replays {n : ℕ} {after : DigitalTwin} (hids : (campaigns.map Campaign.id).Nodup)
    (h : cycles n (fresh ceiling campaigns) = some after) :
    after.campaigns = replay after.audit campaigns := by
  induction n generalizing after with
  | zero =>
    cases h
    exact (List.map_id campaigns).symm
  | succ n ih =>
    obtain ⟨before, report, hbefore, hcycle⟩ := cycles_last h
    have hids' : (before.campaigns.map Campaign.id).Nodup := by rwa [cycles_ids hbefore]
    obtain ⟨haudit, hcampaigns⟩ := cycle_replays hids' hcycle
    calc after.campaigns = replay report.actions before.campaigns := hcampaigns
      _ = replay report.actions (replay before.audit campaigns) := by rw [ih hbefore]
      _ = replay after.audit campaigns := by rw [haudit, replay_append]

/-- Three cycles of the twin as it is constructed. -/
theorem audit_replays_start :
    ∃ after, cycles 3 (fresh 9000 startCampaigns) = some after ∧
      after.campaigns = replay after.audit startCampaigns := by
  have hdone : (cycles 3 (fresh 9000 startCampaigns)).isSome = true := by decide +kernel
  obtain ⟨after, hafter⟩ := Option.isSome_iff_exists.1 hdone
  exact ⟨after, hafter, audit_replays (by decide) hafter⟩

/-! ## The verdicts of a run -/

/-- The total is within the ceiling, and the ceiling is not negative. -/
def Affordable (ceiling total : ℚ) : Prop := 0 ≤ ceiling ∧ total ≤ ceiling + 1 / 10 ^ 9

instance (ceiling total : ℚ) : Decidable (Affordable ceiling total) :=
  inferInstanceAs (Decidable (_ ∧ _))

/-- Why the guard refuses an amount if nothing but the ceiling may be negative. -/
def refusal (ceiling : ℚ) : String :=
  if ceiling < 0 then "negative_value" else "owner_ceiling_exceeded"

/-- No campaign has a negative spend. -/
def NonNegative (campaigns : List Campaign) : Prop := ∀ c ∈ campaigns, 0 ≤ c.spend

theorem nonNegative_diagnosed (h : NonNegative campaigns) : NonNegative (diagnosed campaigns) := by
  intro d hd
  obtain ⟨c, hc, rfl⟩ := List.mem_map.1 hd
  rw [diagnose_spend]
  exact h c hc

/-- No campaign spends more than all together. -/
theorem spend_le_total (h : NonNegative campaigns) {c : Campaign} (hc : c ∈ diagnosed campaigns) :
    c.spend ≤ totalSpend campaigns := by
  rw [← totalSpend_diagnosed]
  refine List.single_le_sum ?_ _ (List.mem_map_of_mem hc)
  intro spend hspend
  obtain ⟨d, hd, rfl⟩ := List.mem_map.1 hspend
  exact nonNegative_diagnosed h d hd

/-- A transfer is never more than the donor has. -/
theorem transferOf_le {c : Campaign} (h : 0 ≤ c.spend) :
    0 ≤ transferOf c ∧ transferOf c ≤ 300 ∧ transferOf c ≤ c.spend := by
  refine ⟨le_min (by norm_num) (mul_nonneg h (by norm_num)), min_le_left _ _, ?_⟩
  calc transferOf c ≤ c.spend * (15 / 100) := min_le_right _ _
    _ ≤ c.spend * 1 := mul_le_mul_of_nonneg_left (by norm_num) h
    _ = c.spend := mul_one _

/-- The guard is asked about the ceiling only. -/
theorem guarded_iff {twin : DigitalTwin} (h : NonNegative twin.campaigns) {donor : Campaign}
    (hdonor : donor ∈ diagnosed twin.campaigns) :
    Guarded twin (transferOf donor) ↔ Affordable twin.ceiling (totalSpend twin.campaigns) := by
  obtain ⟨hamount, -, hle⟩ := transferOf_le (nonNegative_diagnosed h donor hdonor)
  have hremains := sub_nonneg.2 (hle.trans (spend_le_total h hdonor))
  constructor
  · intro hguard
    exact hguard.2.2
  · intro haffordable
    exact ⟨hremains, hamount, haffordable⟩

/-- The reason of a veto is that of the guard. -/
theorem veto_reason {twin after : DigitalTwin} {report : Report} {reason : String}
    (h : twin.cycle = some (after, report))
    (hveto : report.actions = diagnosis twin.campaigns ++ [.veto reason]) :
    ∃ donor ∈ diagnosed twin.campaigns, reason = (checkSpend
      (totalSpend twin.campaigns - transferOf donor) (transferOf donor) twin.ceiling).reason := by
  unfold cycle at h
  dsimp only at h
  split at h
  case h_2 => cases h
  case h_1 best donor hbest hdonor =>
    have hplace := (Holding.argmin_firstMin hdonor).1
    have hdebited : totalSpend (spending.post (diagnosed twin.campaigns) donor.2
        (-transferOf donor.1)) = totalSpend twin.campaigns - transferOf donor.1 := by
      rw [totalSpend, spending.total_post (List.getElem?_eq_some_iff.1 hplace).1, sub_eq_add_neg]
      congr 1
      exact totalSpend_diagnosed twin.campaigns
    rw [hdebited] at h
    refine ⟨donor.1, List.mem_of_getElem? hplace, ?_⟩
    split at h
    · cases h
      cases List.append_cancel_left hveto
    · cases h
      cases List.append_cancel_left hveto
      rfl

/-- With non-negative amounts the governor refuses for the ceiling only. -/
theorem checkSpend_reason {spent increment ceiling : ℚ} (hspent : 0 ≤ spent)
    (hincrement : 0 ≤ increment) (h : ¬ (checkSpend spent increment ceiling).allowed = true) :
    (checkSpend spent increment ceiling).reason = refusal ceiling := by
  have hmin : min spent (min increment ceiling) < 0 ↔ ceiling < 0 := by
    rw [min_lt_iff, min_lt_iff]
    constructor
    · rintro (hneg | hneg | hneg)
      · exact absurd hspent (not_le.2 hneg)
      · exact absurd hincrement (not_le.2 hneg)
      · exact hneg
    · intro hneg
      exact Or.inr (Or.inr hneg)
  unfold checkSpend at h ⊢
  unfold refusal
  by_cases hneg : ceiling < 0
  · rw [if_pos (hmin.2 hneg), if_pos hneg]
  · rw [if_neg (mt hmin.1 hneg)] at h ⊢
    rw [if_neg hneg]
    split
    · rfl
    · rename_i hwithin
      rw [if_neg hwithin] at h
      exact absurd rfl h

/-- What a cycle logs about an amount. -/
inductive Decided (affordable : Prop) (ceiling : ℚ) : TwinAction → Prop
  | moved (source target : String) (amount : ℚ) (haffordable : affordable) (hamount : 0 ≤ amount)
      (hbounded : amount ≤ 300) : Decided affordable ceiling (.transfer source target amount)
  | refused (hnot : ¬ affordable) : Decided affordable ceiling (.veto (refusal ceiling))

/-- A cycle that begins with no negative spend ends with none, and decides as the ceiling
and the total demand. -/
theorem cycle_decides {twin after : DigitalTwin} {report : Report}
    (hspends : NonNegative twin.campaigns) (h : twin.cycle = some (after, report)) :
    NonNegative after.campaigns ∧
      (¬ Affordable twin.ceiling (totalSpend twin.campaigns) →
        after.campaigns.map Campaign.spend = twin.campaigns.map Campaign.spend) ∧
      ∃ last, after.audit = twin.audit ++ diagnosis twin.campaigns ++ [last] ∧
        Decided (Affordable twin.ceiling (totalSpend twin.campaigns)) twin.ceiling last := by
  have hdiagnosed := nonNegative_diagnosed hspends
  rcases cycle_cases twin (hasActive_of_cycle h) with
    ⟨i, donor, j, best, hdonor, hbest, ⟨hguard, hcycle⟩ | ⟨hguard, reason, hcycle⟩⟩
  · cases h.symm.trans hcycle
    have hmem := List.mem_of_getElem? hdonor.1
    obtain ⟨hamount, hbounded, hle⟩ := transferOf_le (hdiagnosed donor hmem)
    have haffordable := (guarded_iff hspends hmem).1 hguard
    refine ⟨?_, ?_, _, (List.append_assoc _ _ _).symm, .moved _ _ _ haffordable hamount hbounded⟩
    · intro c hc
      obtain ⟨k, hk⟩ := List.mem_iff_getElem?.1 hc
      change (spending.transfer (diagnosed twin.campaigns) i j (transferOf donor))[k]? = some c at hk
      rw [getElem?_transfer] at hk
      obtain ⟨d, hd, rfl⟩ := Option.map_eq_some_iff.1 hk
      have hspend := hdiagnosed d (List.mem_of_getElem? hd)
      -- only the donor gives, and it gives no more than it has
      have hgiven : (if k = i then transferOf donor else 0) ≤ d.spend := by
        by_cases hki : k = i
        · subst hki
          rw [if_pos rfl, Option.some.inj (hd.symm.trans hdonor.1)]
          exact hle
        · rwa [if_neg hki]
      have hgot : 0 ≤ if k = j then transferOf donor else 0 := by
        split
        · exact hamount
        · exact le_rfl
      exact add_nonneg (sub_nonneg.2 hgiven) hgot
    · intro hnot
      exact absurd haffordable hnot
  · have hmem := List.mem_of_getElem? hdonor.1
    have hnot := mt (guarded_iff hspends hmem).2 hguard
    cases h.symm.trans hcycle
    refine ⟨hdiagnosed, fun _ => spends_diagnosed twin.campaigns, .veto reason,
      (List.append_assoc _ _ _).symm, ?_⟩
    obtain ⟨giver, hgiver, rfl⟩ := veto_reason h rfl
    obtain ⟨hamount, -, hle⟩ := transferOf_le (hdiagnosed giver hgiver)
    have hremains := sub_nonneg.2 (hle.trans (spend_le_total hspends hgiver))
    rw [checkSpend_reason hremains hamount]
    · exact .refused hnot
    · rw [checkSpend_allowed, sub_add_cancel]
      exact mt (fun hallowed => hallowed.2.2) hnot

/-- The verdict of the guard, in an entry that is about an amount. -/
def verdict : TwinAction → Option Bool
  | .transfer _ _ _ => some true
  | .veto _ => some false
  | _ => none

/-- The diagnosis says nothing about amounts. -/
theorem verdict_diagnosis {action : TwinAction} (h : action ∈ diagnosis campaigns) :
    verdict action = none := by
  obtain ⟨c, -, hc⟩ := List.mem_flatMap.1 h
  unfold diagnose at hc
  split at hc
  · cases List.mem_singleton.1 hc
    rfl
  · split at hc
    · cases List.mem_singleton.1 hc
      rfl
    · cases hc

/-- What `n` cycles have decided. -/
structure Settled (ceiling : ℚ) (campaigns : List Campaign) (n : ℕ) (after : DigitalTwin) :
    Prop where
  verdicts : after.audit.filterMap verdict =
    List.replicate n (decide (Affordable ceiling (totalSpend campaigns)))
  decided : ∀ action ∈ after.audit, verdict action ≠ none →
    Decided (Affordable ceiling (totalSpend campaigns)) ceiling action
  spends : NonNegative after.campaigns
  unchanged : ¬ Affordable ceiling (totalSpend campaigns) →
    after.campaigns.map Campaign.spend = campaigns.map Campaign.spend

theorem Decided.verdict {affordable : Prop} [Decidable affordable] {action : TwinAction}
    (h : Decided affordable ceiling action) :
    DigitalTwin.verdict action = some (decide affordable) := by
  cases h with
  | moved source target amount haffordable =>
    rw [decide_eq_true haffordable]
    rfl
  | refused hnot =>
    rw [decide_eq_false hnot]
    rfl

/-- For every ceiling, all campaigns without a negative spend and any number of cycles
that complete: each of them has decided as the ceiling and the first total demand. -/
theorem verdict_settled {n : ℕ} {after : DigitalTwin} (hspends : NonNegative campaigns)
    (h : cycles n (fresh ceiling campaigns) = some after) :
    Settled ceiling campaigns n after := by
  induction n generalizing after with
  | zero =>
    cases h
    refine ⟨rfl, ?_, hspends, fun _ => rfl⟩
    intro action haction
    cases haction
  | succ n ih =>
    obtain ⟨before, report, hbefore, hcycle⟩ := cycles_last h
    have hsettled := ih hbefore
    -- the guard of this cycle sees the first total and the first ceiling
    obtain ⟨hceiling, htotal, -, -⟩ := cycles_kept _ hbefore
    change before.ceiling = ceiling at hceiling
    change totalSpend before.campaigns = totalSpend campaigns at htotal
    obtain ⟨hspends', hunchanged, last, haudit, hlast⟩ := cycle_decides hsettled.spends hcycle
    rw [hceiling, htotal] at hunchanged hlast
    refine ⟨?_, ?_, hspends', ?_⟩
    · have hnone : (diagnosis before.campaigns).filterMap verdict = [] :=
        List.filterMap_eq_nil_iff.2 (fun _ haction => verdict_diagnosis haction)
      rw [haudit, List.filterMap_append, List.filterMap_append, hnone, List.append_nil,
        hsettled.verdicts, List.replicate_succ']
      simp only [List.filterMap_cons, hlast.verdict, List.filterMap_nil]
    · intro action haction hverdict
      rw [haudit, List.mem_append, List.mem_append, List.mem_singleton] at haction
      rcases haction with (hearlier | hdiagnosis) | rfl
      · exact hsettled.decided action hearlier hverdict
      · exact absurd (verdict_diagnosis hdiagnosis) hverdict
      · exact hlast
    · intro hnot
      exact (hunchanged hnot).trans (hsettled.unchanged hnot)

/-- With a ceiling of 5000 the twin as it is constructed vetoes in every cycle. -/
theorem verdict_settled_start :
    NonNegative startCampaigns ∧
      ∃ after, cycles 3 (fresh 5000 startCampaigns) = some after ∧
        Settled 5000 startCampaigns 3 after := by
  have hspends : NonNegative startCampaigns := by
    unfold NonNegative
    decide +kernel
  have hdone : (cycles 3 (fresh 5000 startCampaigns)).isSome = true := by decide +kernel
  obtain ⟨after, hafter⟩ := Option.isSome_iff_exists.1 hdone
  exact ⟨hspends, after, hafter, verdict_settled hspends hafter⟩

end DigitalTwin

end AdsHub
