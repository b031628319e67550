import AdsHub.Lib.Runs
import AdsHub.Service

/-!
# AdsHub.BudgetRace — clients that read a budget and later raise it

The platforms hold a budget per campaign. Clients read it (`list_campaigns`) and
later send a `budget.update` without approval whose `current_budget` is what they
read; in between, other clients do the same. A run is any interleaving of these
two steps, and a write that `execute` sends is stored by its platform as sent.

The gate compares the new budget with the number in the request, so what it
guarantees is about that number (`passed_update_bound`): the new budget is within the
autonomous limit of what the client had read for that campaign. TikTok stores it as it
is, so it is within the limit of the budget that it replaces as long as that one has not
gone below the reading; `raise_after_cut` is the race that shows this is needed. Meta
lists cents and is written amounts, so a reading there is no budget to compare with.

Amounts are exact throughout.
-/

namespace AdsHub.BudgetRace

/-- The budget in currency of each campaign. -/
abbrev Budgets := Platform → String → ℚ

/-- What a client has read for a campaign. The URL for a campaign that was listed names it:
Meta's ids are digits, and a version that spoils this URL spoils that of the listing. -/
structure Reading (settings : Settings) where
  platform : Platform
  objectId : String
  value : ℚ
  named : nameable settings platform objectId = true

/-- The platforms' budgets, and what the clients have read so far. -/
structure Market (settings : Settings) where
  budgets : Budgets
  readings : List (Reading settings)

/-- A client reads a campaign, or sends an update based on the `k`-th reading. -/
inductive Step where
  | read (platform : Platform) (objectId : String)
  | update (k : ℕ) (newBudget : ℚ)

/-- The number that `list_campaigns` shows for a budget: TikTok's amount, Meta's
`daily_budget` in cents. -/
def asListed : Platform → ℚ → ℚ
  | .meta, amount => amount * 100
  | .tiktok, amount => amount

/-- The body of the update; what does not validate is no request. -/
def budgetUpdate {settings : Settings} (r : Reading settings) (newBudget : ℚ) :
    Option ActionRequest :=
  if h : 1 ≤ r.objectId.length ∧ 0 ≤ r.value ∧ 0 ≤ newBudget then
    some
      { platform := r.platform
        action := .updateBudget
        objectId := r.objectId
        currentBudget := some r.value
        newBudget := some newBudget
        approvalToken := none
        objectId_length := h.1
        current_nonneg := by simpa using h.2.1
        new_nonneg := by simpa using h.2.2 }
  else none

/-- The write as the platform it is addressed to takes it. -/
def received (settings : Settings) (post : HttpPost) : Option Effect :=
  readMeta settings post <|> readTiktok settings post

/-- The budgets with the one of campaign `id` of `p` set to `amount`. -/
def Budgets.set (budgets : Budgets) (p : Platform) (id : String) (amount : ℚ) : Budgets :=
  fun q i => if q = p ∧ i = id then amount else budgets q i

/-- The budgets after a platform has taken a write. -/
def deliver (settings : Settings) (budgets : Budgets) (post : HttpPost) : Budgets :=
  match received settings post with
  | some ⟨platform, _, objectId, .budget amount⟩ => budgets.set platform objectId amount
  | _ => budgets

section

-- `current` is what a client makes of a campaign's budget when it reads it: the
-- number as listed, or the amount that the number stands for
variable (settings : Settings) (respond : HttpPost → Json) (current : Platform → ℚ → ℚ)

/-- The writes that a step causes. -/
def writes (s : Market settings) : Step → List HttpPost
  | .read _ _ => []
  | .update k newBudget =>
    match s.readings[k]? with
    | none => []
    | some r =>
      match budgetUpdate r newBudget with
      | none => []
      | some req => (execute .exact settings respond req).2

/-- What a client has read after a step; in dry run and without credentials
`list_campaigns` shows no campaign. -/
def noted (s : Market settings) : Step → List (Reading settings)
  | .read platform objectId =>
    if h : (!settings.dryRun && configured settings platform) = true ∧
        nameable settings platform objectId = true then
      s.readings ++ [⟨platform, objectId, current platform (s.budgets platform objectId), h.2⟩]
    else s.readings
  | .update _ _ => s.readings

/-- One step of a client. -/
def step (s : Market settings) (l : Step) : Market settings where
  budgets := (writes settings respond s l).foldl (deliver settings) s.budgets
  readings := noted settings current s l

end

/-! ## One step -/

variable {settings : Settings} {respond : HttpPost → Json} {current : Platform → ℚ → ℚ}

/-- A write that its platform reads as an effect is received as that effect. -/
theorem received_of_readPost {p : Platform} {post : HttpPost} {e : Effect}
    (h : readPost settings p post = some e) : received settings post = some e := by
  cases p with
  | «meta» =>
    have hread : readMeta settings post = some e := h
    simp [received, hread]
  | tiktok =>
    have hread : readTiktok settings post = some e := h
    -- a JSON body is not a Meta form
    have hnone : writtenMeta settings post = none := by
      unfold readTiktok at hread
      unfold writtenMeta
      cases hbody : post.body with
      | form fields => simp [hbody] at hread
      | json fields => simp
    simp [received, readMeta, hnone, hread]

/-- The request of a client that goes by reading `r`. -/
theorem budgetUpdate_eq_some {r : Reading settings} {newBudget : ℚ} {req : ActionRequest}
    (h : budgetUpdate r newBudget = some req) :
    req.platform = r.platform ∧ req.action = .updateBudget ∧ req.objectId = r.objectId ∧
      req.currentBudget = some r.value ∧ req.newBudget = some newBudget ∧
      req.approved = false := by
  unfold budgetUpdate at h
  split at h
  · cases h
    exact ⟨rfl, rfl, rfl, rfl, rfl, rfl⟩
  · cases h

/-- The amount that the platform stores for a requested budget. -/
def storedAmount (p : Platform) (newBudget : ℚ) : ℚ :=
  if p = .meta then wholeCents newBudget else newBudget

theorem storedAmount_le (p : Platform) (newBudget : ℚ) : storedAmount p newBudget ≤ newBudget := by
  unfold storedAmount
  split
  · exact wholeCents_le newBudget
  · exact le_refl newBudget

theorem storedAmount_nonneg (p : Platform) {newBudget : ℚ} (h : 0 ≤ newBudget) :
    0 ≤ storedAmount p newBudget := by
  unfold storedAmount wholeCents
  split
  · have hfloor : 0 ≤ ⌊newBudget * 100⌋ := Int.floor_nonneg.2 (by linarith)
    positivity
  · exact h

/-- In exact arithmetic every live request is sent. -/
theorem sends_exact {req : ActionRequest} : sends .exact settings req = live settings req := by
  rw [sends, overflows_exact, Bool.not_false, Bool.and_true]

/-- What a request based on reading `r` does to the budgets, when it is live. -/
theorem foldl_deliver_live {r : Reading settings} {newBudget : ℚ} {req : ActionRequest}
    (hreq : budgetUpdate r newBudget = some req) (hlive : live settings req = true)
    (budgets : Budgets) :
    (execute .exact settings respond req).2.foldl (deliver settings) budgets =
      budgets.set r.platform r.objectId (storedAmount r.platform newBudget) := by
  rcases budgetUpdate_eq_some hreq with ⟨hplatform, haction, hid, -, hnew, -⟩
  rw [← sends_exact] at hlive
  rcases execute_sends respond hlive with ⟨post, change, hexec, hchange, hwritten⟩
  have hbudget : change = .budget (storedAmount r.platform newBudget) := by
    rw [sentChange_exact haction hnew, Option.some.injEq, hplatform] at hchange
    exact hchange.symm
  -- the campaign was listed, so the write names it
  have hnamed : nameable settings req.platform req.objectId = true := by
    rw [hplatform, hid]
    exact r.named
  have hrec := received_of_readPost ((readPost_eq_written_iff hwritten).2 hnamed)
  rw [hexec]
  simp only [List.foldl_cons, List.foldl_nil, deliver, hrec, hbudget, hplatform, hid]

/-- Inversion of a step that writes: it is an update from a reading, within the
autonomous limit of that reading, and stores its amount. -/
theorem writes_cases {s : Market settings} {l : Step} (h : writes settings respond s l ≠ []) :
    ∃ k newBudget r, l = .update k newBudget ∧ s.readings[k]? = some r ∧
      0 ≤ r.value ∧ 0 ≤ newBudget ∧
      WithinLimit settings.maxBudgetIncreasePct r.value newBudget ∧
      (step settings respond current s l).budgets =
        s.budgets.set r.platform r.objectId (storedAmount r.platform newBudget) := by
  cases l with
  | read p id => exact absurd rfl h
  | update k newBudget =>
    cases hr : s.readings[k]? with
    | none => simp [writes, hr] at h
    | some r =>
      cases hreq : budgetUpdate r newBudget with
      | none => simp [writes, hr, hreq] at h
      | some req =>
        rcases budgetUpdate_eq_some hreq with ⟨-, haction, -, hcur, hnew, happroved⟩
        have hwrites : writes settings respond s (.update k newBudget) =
            (execute .exact settings respond req).2 := by simp [writes, hr, hreq]
        rw [hwrites] at h
        -- only a live request writes, and a live request was admitted
        have hlive : live settings req = true := by
          by_contra hnot
          rw [← sends_exact, Bool.not_eq_true] at hnot
          exact h (execute_silent respond hnot)
        have hallowed : (evaluateAction settings req).allowed = true := (live_iff.1 hlive).1
        have hlimit : WithinLimit settings.maxBudgetIncreasePct r.value newBudget := by
          rcases (evaluateAction_update settings haction hcur hnew).1 hallowed with happ | hlim
          · rw [happroved] at happ
            cases happ
          · exact hlim
        refine ⟨k, newBudget, r, rfl, hr, req.current_nonneg _ (by simp [hcur]),
          req.new_nonneg _ (by simp [hnew]), hlimit, ?_⟩
        simp only [step, hwrites]
        exact foldl_deliver_live hreq hlive s.budgets

/-! ## Runs -/

/-- Every reading was made by a step of the run, and is of the campaign's budget before
that step. -/
theorem reading_of_run {s : Market settings} (hs : s.readings = []) (ls : List Step)
    {r : Reading settings} (hr : r ∈ (Runs.run (step settings respond current) s ls).readings) :
    ∃ pre, pre ++ [.read r.platform r.objectId] <+: ls ∧ r.value = current r.platform
      ((Runs.run (step settings respond current) s pre).budgets r.platform r.objectId) := by
  induction ls using List.reverseRecOn with
  | nil => simp [hs] at hr
  | append_singleton ls l ih =>
    have hold : r ∈ (Runs.run (step settings respond current) s ls).readings →
        ∃ pre, pre ++ [.read r.platform r.objectId] <+: ls ++ [l] ∧ r.value = current r.platform
          ((Runs.run (step settings respond current) s pre).budgets r.platform r.objectId) := by
      intro hmem
      rcases ih hmem with ⟨pre, hpre, hval⟩
      exact ⟨pre, hpre.trans (List.prefix_append ls [l]), hval⟩
    rw [Runs.run_concat] at hr
    cases l with
    | update k newBudget =>
      -- an update adds no reading
      exact hold hr
    | read p id =>
      simp only [step, noted] at hr
      split at hr
      · rw [List.mem_append, List.mem_singleton] at hr
        rcases hr with hr | rfl
        · exact hold hr
        · -- the reading just made is of the state before this step
          exact ⟨ls, List.prefix_rfl, rfl⟩
      · exact hold hr

/-- A budget of `new` in place of `old` needs no approval. -/
def Respects (pct old new : ℚ) : Prop :=
  new ≤ old * (1 + pct / 100) ∧ (old = 0 → new = 0)

/-- What the gate lets through respects the limit against the reading. -/
theorem respects_reading {pct value newBudget : ℚ} (hvalue : 0 ≤ value) (hnew : 0 ≤ newBudget)
    (hlimit : WithinLimit pct value newBudget) : Respects pct value newBudget := by
  constructor
  · exact hlimit.new_le hvalue
  · intro hzero
    exact le_antisymm (hlimit.1 hzero) hnew

/-- The limit against a budget carries over to a higher one. -/
theorem Respects.mono {pct old higher new : ℚ} (h : Respects pct old new) (hold : 0 ≤ old)
    (hle : old ≤ higher) (hpct : -100 ≤ pct) : Respects pct higher new := by
  have hfactor : 0 ≤ 1 + pct / 100 := by linarith
  constructor
  · exact h.1.trans (mul_le_mul_of_nonneg_right hle hfactor)
  · intro hzero
    exact h.2 (by linarith)

/-- In every run and for every update that `execute` passes on: the new budget respects the
limit against what the client had read for that campaign at an earlier moment of the run,
and no other campaign's budget changes. On TikTok it becomes the budget, and so respects the
limit against the one that it replaces whenever that is still the reading, or more. -/
theorem passed_update_bound {s : Market settings} (hs : s.readings = []) (ls : List Step) {l : Step}
    (hpass : writes settings respond (Runs.run (step settings respond current) s ls) l ≠ []) :
    ∃ (k : ℕ) (newBudget : ℚ) (r : Reading settings) (pre : List Step),
      l = .update k newBudget ∧
      (Runs.run (step settings respond current) s ls).readings[k]? = some r ∧
      pre ++ [.read r.platform r.objectId] <+: ls ∧
      r.value = current r.platform
        ((Runs.run (step settings respond current) s pre).budgets r.platform r.objectId) ∧
      Respects settings.maxBudgetIncreasePct r.value newBudget ∧
      (∀ p id, ¬ (p = r.platform ∧ id = r.objectId) →
        (Runs.run (step settings respond current) s (ls ++ [l])).budgets p id =
          (Runs.run (step settings respond current) s ls).budgets p id) ∧
      (r.platform = .tiktok →
        (Runs.run (step settings respond current) s (ls ++ [l])).budgets .tiktok r.objectId =
          newBudget ∧
        ∀ b, b = (Runs.run (step settings respond current) s ls).budgets .tiktok r.objectId →
          b = r.value ∨ r.value ≤ b ∧ -100 ≤ settings.maxBudgetIncreasePct →
          Respects settings.maxBudgetIncreasePct b newBudget) := by
  -- the step is an update from a reading `r`, and `r` was taken earlier in the run
  rcases writes_cases hpass with ⟨k, newBudget, r, rfl, hr, hvalue, hnew, hlimit, hbudgets⟩
  rcases reading_of_run hs ls (List.mem_of_getElem? hr) with ⟨pre, hpre, hread⟩
  have hresp := respects_reading hvalue hnew hlimit
  refine ⟨k, newBudget, r, pre, rfl, hr, hpre, hread, hresp, ?_, ?_⟩
  · intro p id hother
    rw [Runs.run_concat, hbudgets, Budgets.set, if_neg hother]
  · intro htiktok
    constructor
    · rw [Runs.run_concat, hbudgets, Budgets.set, htiktok, if_pos ⟨rfl, rfl⟩]
      rfl
    · rintro b - (rfl | ⟨hle, hpct⟩)
      · exact hresp
      · exact hresp.mono hvalue hle hpct

/-! ## Runs on a live hub -/

/-- A live request based on a reading is passed on and stored. -/
theorem step_update_live {s : Market settings} {k : ℕ} {r : Reading settings} {newBudget : ℚ}
    {req : ActionRequest} (hr : s.readings[k]? = some r) (hreq : budgetUpdate r newBudget = some req)
    (hlive : live settings req = true) :
    writes settings respond s (.update k newBudget) ≠ [] ∧
      step settings respond current s (.update k newBudget) =
        ⟨s.budgets.set r.platform r.objectId (storedAmount r.platform newBudget), s.readings⟩ := by
  have hwrites : writes settings respond s (.update k newBudget) =
      (execute .exact settings respond req).2 := by simp [writes, hr, hreq]
  constructor
  · rcases execute_sends respond (sends_exact.trans hlive) with ⟨post, change, hexec, -⟩
    rw [hwrites, hexec]
    exact List.cons_ne_nil post []
  · simp only [step, hwrites, foldl_deliver_live hreq hlive s.budgets, noted]

/-- Every campaign has a budget of 100, and nobody has read anything. -/
def market : Market liveSettings := ⟨fun _ _ => 100, []⟩

/-- A step on a live hub whose clients send what is listed. -/
def liveStep : Market liveSettings → Step → Market liveSettings :=
  step liveSettings (fun _ => .obj []) asListed

/-- A reading of the TikTok campaign `abc` at its first budget. -/
def hundred : Reading liveSettings := ⟨.tiktok, "abc", 100, rfl⟩

/-- A client that has read 100 can set the budget to anything up to 120. -/
theorem liveStep_hundred {s : Market liveSettings} {k : ℕ} {newBudget : ℚ}
    (hr : s.readings[k]? = some hundred) (hnonneg : 0 ≤ newBudget) (hle : newBudget ≤ 120) :
    writes liveSettings (fun _ => .obj []) s (.update k newBudget) ≠ [] ∧
      liveStep s (.update k newBudget) =
        ⟨s.budgets.set .tiktok "abc" newBudget, s.readings⟩ := by
  have hid : 1 ≤ "abc".length := by decide
  have hvalid : 1 ≤ hundred.objectId.length ∧ 0 ≤ hundred.value ∧ 0 ≤ newBudget :=
    ⟨hid, by norm_num [hundred], hnonneg⟩
  cases hreq : budgetUpdate hundred newBudget with
  | none =>
    rw [budgetUpdate, dif_pos hvalid] at hreq
    cases hreq
  | some req =>
    rcases budgetUpdate_eq_some hreq with ⟨hplatform, haction, -, hcur, hnew, -⟩
    have hallowed : (evaluateAction liveSettings req).allowed = true := by
      refine (evaluateAction_update liveSettings haction hcur hnew).2 (Or.inr ⟨?_, ?_⟩)
      · intro hzero
        norm_num [hundred] at hzero
      · intro _
        simp only [hundred, liveSettings]
        linarith
    have hlive : live liveSettings req = true := by
      simp only [live, hallowed, hplatform, Bool.true_and]
      decide
    exact step_update_live hr hreq hlive

/-- One client reads the campaign and raises its budget by 20 percent. -/
theorem passed_update_bound_one_client :
    (Runs.run liveStep market ([.read .tiktok "abc"] ++ [.update 0 120])).budgets .tiktok "abc" =
      120 ∧ Respects 20 100 120 := by
  have hr : (Runs.run liveStep market [.read .tiktok "abc"]).readings[0]? = some hundred := rfl
  have hpass := (liveStep_hundred hr (by norm_num) (le_refl 120)).1
  rcases passed_update_bound rfl [.read .tiktok "abc"] hpass with
    ⟨k, newBudget, r, pre, hl, hread, -, -, hresp, -, htiktok⟩
  obtain ⟨rfl, rfl⟩ : 0 = k ∧ 120 = newBudget := by simpa using hl
  obtain rfl : hundred = r := Option.some.inj (hr.symm.trans hread)
  exact ⟨(htiktok rfl).1, hresp⟩

/-- Two clients read 100; one lowers the budget to 50, and the update of the other
takes it from there to 120, which is 140 percent more. -/
theorem raise_after_cut :
    ∃ s, s = Runs.run liveStep market [.read .tiktok "abc", .read .tiktok "abc", .update 0 50] ∧
      writes liveSettings (fun _ => .obj []) s (.update 1 120) ≠ [] ∧
      s.budgets .tiktok "abc" = 50 ∧
      (liveStep s (.update 1 120)).budgets .tiktok "abc" = 120 ∧
      ¬ (120 : ℚ) ≤ 50 * (1 + liveSettings.maxBudgetIncreasePct / 100) := by
  refine ⟨_, rfl, ?_⟩
  have hcut : Runs.run liveStep market [.read .tiktok "abc", .read .tiktok "abc", .update 0 50] =
      ⟨market.budgets.set .tiktok "abc" 50, [hundred, hundred]⟩ :=
    (liveStep_hundred rfl (by norm_num) (by norm_num)).2
  rw [hcut]
  rcases liveStep_hundred (s := ⟨market.budgets.set .tiktok "abc" 50, [hundred, hundred]⟩) (k := 1)
    rfl (by norm_num) (le_refl 120) with ⟨hpass, hraise⟩
  refine ⟨hpass, ?_, ?_, ?_⟩
  · simp [Budgets.set]
  · rw [hraise]
    simp [Budgets.set]
  · norm_num [liveSettings]

end AdsHub.BudgetRace
