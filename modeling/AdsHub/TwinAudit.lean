import Mathlib.Data.List.Perm.Subperm
import AdsHub.DigitalTwin

/-!
# AdsHub.TwinAudit — the pauses in the audit of the digital twin

The diagnosis of a cycle goes over all campaigns, whatever their status, and logs a
pause for each one that loses money. A campaign that is not active keeps its spend, so
once it is paused for a loss it goes on losing, and every later cycle logs its pause
again (`paused_stays`). `paused_once_iff` says when that does not happen: no cycle may
begin with a campaign that loses money and is not active.

The audit names campaigns by their ids, which may be shared; a pause is counted against
the campaigns that have its id.
-/

namespace AdsHub

/-- The test of the diagnosis: `c.roas < 1.0 or c.cpa > 100`. -/
def Campaign.Losing (c : Campaign) : Prop := c.roas < 1 ∨ c.cpa > 100

instance (c : Campaign) : Decidable c.Losing := inferInstanceAs (Decidable (_ ∨ _))

/-- The campaign that an action pauses. -/
def TwinAction.paused : TwinAction → Option String
  | .pause campaign => some campaign
  | _ => none

namespace DigitalTwin

/-- The pauses among the actions. -/
def pauses (actions : List TwinAction) : List String := actions.filterMap TwinAction.paused

/-- A twin with any campaigns, that has not made a cycle. -/
def fresh (ceiling : ℚ) (campaigns : List Campaign) : DigitalTwin :=
  { ceiling := ceiling, campaigns := campaigns }

/-- The pauses that `n` cycles have logged: at most one for each campaign, and each for a
campaign that was active when its cycle began. -/
structure PausedOnce (ceiling : ℚ) (campaigns : List Campaign) (n : ℕ) (after : DigitalTwin) :
    Prop where
  once : (pauses after.audit).Subperm (campaigns.map Campaign.id)
  active : ∀ i < n, ∀ before, cycles i (fresh ceiling campaigns) = some before →
    ∀ c ∈ before.campaigns, TwinAction.pause c.id ∈ (diagnose c).2 → c.isActive = true

/-! ## One cycle -/

/-- A losing campaign is paused and the pause is logged, whatever its status. -/
theorem diagnose_losing {c : Campaign} (h : c.Losing) :
    diagnose c = ({ c with status := "paused" }, [.pause c.id]) := if_pos h

/-- One diagnosis logs one pause or none. -/
theorem pauses_diagnose (c : Campaign) :
    pauses (diagnose c).2 = if c.Losing then [c.id] else [] := by
  by_cases h : c.Losing
  · rw [diagnose_losing h, if_pos h]
    rfl
  · rw [if_neg h]
    unfold Campaign.Losing at h
    rw [diagnose, if_neg h]
    split <;> rfl

/-- The pause of a campaign is logged exactly when it loses. -/
theorem pause_mem_diagnose {c : Campaign} :
    TwinAction.pause c.id ∈ (diagnose c).2 ↔ c.Losing := by
  constructor
  · intro hmem
    have hpaused : c.id ∈ pauses (diagnose c).2 := List.mem_filterMap.2 ⟨_, hmem, rfl⟩
    rw [pauses_diagnose] at hpaused
    by_contra h
    rw [if_neg h] at hpaused
    cases hpaused
  · intro h
    rw [diagnose_losing h]
    exact List.mem_singleton.2 rfl

/-- The pauses of a diagnosis are those of the campaigns that lose money. -/
theorem pauses_diagnosis (campaigns : List Campaign) :
    pauses (diagnosis campaigns) =
      (campaigns.filter (fun c => decide c.Losing)).map Campaign.id := by
  induction campaigns with
  | nil => rfl
  | cons c campaigns ih =>
    have hcons : pauses (diagnosis (c :: campaigns)) =
        pauses (diagnose c).2 ++ pauses (diagnosis campaigns) := List.filterMap_append
    rw [hcons, ih, pauses_diagnose]
    by_cases h : c.Losing
    · simp [h]
    · simp [h]

/-- A campaign is still losing after its pause. -/
theorem losing_paused {c : Campaign} (h : c.Losing) : (diagnose c).1.Losing := by
  rw [diagnose_losing h]
  exact h

/-- After the diagnosis a losing campaign takes no part in the transfer. -/
theorem isActive_paused {c : Campaign} (h : c.Losing) : (diagnose c).1.isActive = false := by
  rw [diagnose_losing h]
  rfl

/-- What a completed cycle does to a campaign that is not active after the diagnosis, to
the ids, and to the pauses in the audit. -/
structure CyclePauses (twin after : DigitalTwin) : Prop where
  inactive : ∀ (k : ℕ) (c : Campaign), (diagnosed twin.campaigns)[k]? = some c →
    c.isActive = false → after.campaigns[k]? = some c
  ids : after.campaigns.map Campaign.id = twin.campaigns.map Campaign.id
  audit : pauses after.audit = pauses twin.audit ++ pauses (diagnosis twin.campaigns)

/-- A diagnosis leaves the id of its campaign. -/
theorem diagnose_id (c : Campaign) : (diagnose c).1.id = c.id := by
  unfold diagnose
  split
  · rfl
  · split <;> rfl

theorem ids_diagnosed (campaigns : List Campaign) :
    (diagnosed campaigns).map Campaign.id = campaigns.map Campaign.id := by
  rw [diagnosed, List.map_map]
  exact List.map_congr_left (fun c _ => diagnose_id c)

theorem ids_transfer (campaigns : List Campaign) (i j : ℕ) (amount : ℚ) :
    (spending.transfer campaigns i j amount).map Campaign.id = campaigns.map Campaign.id := by
  refine List.ext_getElem? ?_
  intro k
  rw [List.getElem?_map, List.getElem?_map, getElem?_transfer, Option.map_map]
  rfl

/-- The closing action of a cycle adds no pause. -/
theorem pauses_conclude (twin : DigitalTwin) (campaigns : List Campaign) {last : TwinAction}
    (h : last.paused = none) :
    pauses (conclude twin campaigns (diagnosis twin.campaigns ++ [last])).1.audit =
      pauses twin.audit ++ pauses (diagnosis twin.campaigns) := by
  simp [conclude, pauses, h]

/-- The pauses a cycle adds are those of its losing campaigns, in order. -/
theorem cycle_pauses {twin after : DigitalTwin} {report : Report}
    (h : twin.cycle = some (after, report)) : CyclePauses twin after := by
  rcases cycle_cases twin (hasActive_of_cycle h) with
    ⟨i, donor, j, best, hdonor, hbest, ⟨-, hcycle⟩ | ⟨-, reason, hcycle⟩⟩
  · cases h.symm.trans hcycle
    refine ⟨?_, ?_, pauses_conclude twin _ rfl⟩
    · -- neither the donor nor the best is this one
      intro k c hc hinactive
      have hki := isActive_ne hc hinactive hdonor.1 hdonor.2.1
      have hkj := isActive_ne hc hinactive hbest.1 hbest.2.1
      simp [getElem?_transfer, hc, hki, hkj]
    · exact (ids_transfer _ i j _).trans (ids_diagnosed twin.campaigns)
  · cases h.symm.trans hcycle
    exact ⟨fun _ _ hc _ => hc, ids_diagnosed twin.campaigns, pauses_conclude twin _ rfl⟩

/-- A campaign that loses money when a cycle begins is not active when it ends, and still
loses money. -/
theorem losing_after_cycle {twin after : DigitalTwin} (h : CyclePauses twin after) {c : Campaign}
    (hc : c ∈ twin.campaigns) (hlosing : c.Losing) :
    ∃ d ∈ after.campaigns, d.id = c.id ∧ d.Losing ∧ d.isActive = false := by
  obtain ⟨k, hk⟩ := List.mem_iff_getElem?.1 hc
  have hdiagnosed : (diagnosed twin.campaigns)[k]? = some (diagnose c).1 := by
    rw [getElem?_diagnosed, hk]
    rfl
  have hafter := h.inactive k _ hdiagnosed (isActive_paused hlosing)
  refine ⟨_, List.mem_of_getElem? hafter, ?_, losing_paused hlosing, isActive_paused hlosing⟩
  rw [diagnose_losing hlosing]

/-! ## Any number of cycles -/

variable {ceiling : ℚ} {campaigns : List Campaign}

theorem cycles_ids {n : ℕ} {after : DigitalTwin}
    (h : cycles n (fresh ceiling campaigns) = some after) :
    after.campaigns.map Campaign.id = campaigns.map Campaign.id := by
  induction n generalizing after with
  | zero =>
    cases h
    rfl
  | succ n ih =>
    obtain ⟨before, report, hbefore, hcycle⟩ := cycles_last h
    exact (cycle_pauses hcycle).ids.trans (ih hbefore)

/-- A campaign with a pause in the audit is not active and loses money ever after. -/
theorem paused_stays {n : ℕ} {after : DigitalTwin}
    (h : cycles n (fresh ceiling campaigns) = some after) :
    ∀ id ∈ pauses after.audit, ∃ c ∈ after.campaigns,
      c.id = id ∧ c.Losing ∧ c.isActive = false := by
  induction n generalizing after with
  | zero =>
    cases h
    intro id hid
    cases hid
  | succ n ih =>
    obtain ⟨before, report, hbefore, hlast⟩ := cycles_last h
    have hcycle := cycle_pauses hlast
    intro id hid
    rw [hcycle.audit, List.mem_append] at hid
    -- paused in an earlier cycle or in this one, it lost money when this one began
    have hlosing : ∃ c ∈ before.campaigns, c.id = id ∧ c.Losing := by
      rcases hid with hearlier | hnow
      · obtain ⟨c, hc, hcid, hlosing, -⟩ := ih hbefore id hearlier
        exact ⟨c, hc, hcid, hlosing⟩
      · rw [pauses_diagnosis] at hnow
        obtain ⟨c, hc, rfl⟩ := List.mem_map.1 hnow
        rw [List.mem_filter, decide_eq_true_eq] at hc
        exact ⟨c, hc.1, rfl, hc.2⟩
    obtain ⟨c, hc, rfl, hlosing⟩ := hlosing
    exact losing_after_cycle hcycle hc hlosing

/-- No campaign loses money without being active. -/
def LosersActive (twin : DigitalTwin) : Prop := ∀ c ∈ twin.campaigns, c.Losing → c.isActive = true

instance (twin : DigitalTwin) : Decidable (LosersActive twin) :=
  inferInstanceAs (Decidable (∀ c ∈ twin.campaigns, _))

/-- For every list of campaigns, every ceiling and any number of cycles that complete: no
campaign is paused twice, and none that is not active, exactly if at the beginning of
each of these cycles every campaign that loses money is active. -/
theorem paused_once_iff {n : ℕ} {after : DigitalTwin}
    (h : cycles n (fresh ceiling campaigns) = some after) :
    PausedOnce ceiling campaigns n after ↔
      ∀ i < n, ∀ before, cycles i (fresh ceiling campaigns) = some before →
        LosersActive before := by
  constructor
  · intro hpaused i hi before hbefore c hc hlosing
    exact hpaused.active i hi before hbefore c hc (pause_mem_diagnose.2 hlosing)
  · intro hactive
    refine ⟨?_, ?_⟩
    · cases n with
      | zero =>
        cases h
        exact List.nil_subperm
      | succ n =>
        obtain ⟨before, report, hbefore, hlast⟩ := cycles_last h
        have hcycle := cycle_pauses hlast
        -- a pause before the last cycle would leave a loser that is not active
        have hnone : pauses before.audit = [] := by
          rw [List.eq_nil_iff_forall_not_mem]
          intro id hid
          obtain ⟨c, hc, -, hlosing, hinactive⟩ := paused_stays hbefore id hid
          have hc' := hactive n (Nat.lt_succ_self n) before hbefore c hc hlosing
          rw [hinactive] at hc'
          cases hc'
        rw [hcycle.audit, hnone, List.nil_append, pauses_diagnosis, ← cycles_ids hbefore]
        exact (List.filter_sublist.map Campaign.id).subperm
    · intro i hi before hbefore c hc hpause
      exact hactive i hi before hbefore c hc (pause_mem_diagnose.1 hpause)

/-- The campaigns of the constructor that earn more than they cost. -/
def earningCampaigns : List Campaign := startCampaigns.take 3

/-- Three cycles over them, none of which pauses a campaign. -/
theorem paused_once_three_cycles :
    ∃ after, cycles 3 (fresh 10000 earningCampaigns) = some after ∧
      PausedOnce 10000 earningCampaigns 3 after := by
  have hdone : (cycles 3 (fresh 10000 earningCampaigns)).isSome = true := by decide +kernel
  obtain ⟨after, hafter⟩ := Option.isSome_iff_exists.1 hdone
  refine ⟨after, hafter, (paused_once_iff hafter).2 ?_⟩
  have hactive : ∀ i < 3, ∀ before ∈ cycles i (fresh 10000 earningCampaigns),
      LosersActive before := by decide +kernel
  exact hactive

/-- The second cycle pauses `tiktok-loss` again. -/
theorem paused_again :
    ∃ after, cycles 2 (fresh 10000 startCampaigns) = some after ∧
      ¬ PausedOnce 10000 startCampaigns 2 after := by
  have hdone : (cycles 2 (fresh 10000 startCampaigns)).map (fun twin => pauses twin.audit) =
      some ["tiktok-loss", "tiktok-loss"] := by decide +kernel
  obtain ⟨after, hafter, haudit⟩ := Option.map_eq_some_iff.1 hdone
  refine ⟨after, hafter, ?_⟩
  intro h
  have hcount := h.once.count_le "tiktok-loss"
  rw [haudit] at hcount
  exact absurd hcount (by decide)

end DigitalTwin

end AdsHub
