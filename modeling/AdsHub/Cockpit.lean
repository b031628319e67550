import AdsHub.Finance

/-!
# AdsHub.Cockpit — what the cockpit shows of a history

Two statements about the reports of `cockpit_state`, over every history of requests.
`decision_window`: beside a snapshot, the decisions are the last twenty that were
saved, newest first, each as it was submitted and under the id it was answered with.
`platform_mix_whole`: the shares of the two platforms are rounded each for itself, and
still add up to one, because rounding half to even is symmetric about the middle of
an even whole (`roundHalfEven_sub`).
-/

namespace AdsHub.Finance

open JsonText Rounding

variable {num : NumText}

/-! ## The decision window -/

/-- The decisions that were saved, each with the id that it was answered with. -/
def logged (upper : String → String) (requests : List (Request num)) :
    List (ℕ × Utc × DecisionIn num) :=
  (answers upper initFinanceStore requests).filterMap (fun answer =>
    match answer with
    | (.decision now data, .decisionSaved id) => some (id, now, data)
    | _ => none)

/-- A decision as it was submitted, with its id and its time. -/
def decisionItem (entry : ℕ × Utc × DecisionIn num) : List (String × Json) :=
  [("id", .num entry.1), ("created_at", .str entry.2.1.isoformat),
   ("agent", .str entry.2.2.agent), ("action", .str entry.2.2.action),
   ("reason", entry.2.2.reason.elim .null .str), ("payload", .obj entry.2.2.payload)]

theorem logged_concat (upper : String → String) (requests : List (Request num))
    (request : Request num) :
    logged upper (requests ++ [request]) = logged upper requests ++
      ([(request, (serve upper (store upper requests) request).2)].filterMap (fun answer =>
        match answer with
        | (.decision now data, .decisionSaved id) => some (id, now, data)
        | _ => none)) := by
  rw [logged, answers_concat, List.filterMap_append]
  rfl

/-- The table of decisions has a row for each answer, under its id. -/
theorem rows_eq_logged (upper : String → String) (requests : List (Request num)) :
    (store upper requests).decisions.rows =
      (logged upper requests).map (fun entry => (entry.1, decisionRow entry.2.1 entry.2.2)) := by
  induction requests using List.reverseRecOn with
  | nil => rfl
  | append_singleton requests request ih =>
    rw [store_concat, logged_concat, List.map_append, ← ih]
    cases request with
    | snapshot now data =>
      -- whether it is stored or not, the decisions stay
      rcases saveSnapshot_cases upper (store upper requests) now data with
        ⟨-, hsave⟩ | ⟨-, text, hsave⟩
      · simp [serve, postFinancialSnapshot, hsave]
      · simp [serve, postFinancialSnapshot, hsave]
    | decision now data => simp [serve, postDecision, saveDecision]
    | cockpit => simp [serve, getCockpit]

/-- Every decision is answered with an id. -/
theorem logged_saved (upper : String → String) (requests : List (Request num)) :
    (logged upper requests).map Prod.snd = saved requests := by
  induction requests using List.reverseRecOn with
  | nil => rfl
  | append_singleton requests request ih =>
    rw [logged_concat, List.map_append, saved_concat, ih]
    cases request with
    | snapshot now data => simp [saved]
    | decision now data => simp [saved, serve, postDecision]
    | cockpit => simp [saved]

/-- The ids of the answers grow. -/
theorem logged_increasing (upper : String → String) (requests : List (Request num)) :
    (logged upper requests).Pairwise (fun entry entry' => entry.1 < entry'.1) := by
  have hrows := (store upper requests).decisions.increasing
  rwa [rows_eq_logged, List.pairwise_map] at hrows

/-- The row of a decision is shown as the decision that was submitted. -/
theorem normalized_decisionRow (entry : ℕ × Utc × DecisionIn num) :
    normalized num (entry.1, decisionRow entry.2.1 entry.2.2) = some (decisionItem entry) := by
  have hloads : loads num.read (decisionRow entry.2.1 entry.2.2).payloadJson.toList =
      some (.obj entry.2.2.payload) := by
    rw [decisionRow, String.toList_ofList]
    exact loads_encode unicodeStyle entry.2.2.payload_writable
  rw [normalized, hloads]
  rfl

/-- With an accepted snapshot anywhere in the history, the cockpit shows the last twenty
of the saved decisions, or all of them if there are fewer, the newest first, each as
it was submitted and under its own id. -/
theorem decision_window (upper : String → String) (requests : List (Request num))
    (h : accepted upper requests ≠ []) :
    ∃ c, cockpitState num (store upper requests) = some c ∧
      c.decisions = ((logged upper requests).reverse.take 20).map decisionItem ∧
      (logged upper requests).map Prod.snd = saved requests ∧
      (logged upper requests).Pairwise (fun entry entry' => entry.1 < entry'.1) := by
  obtain ⟨c, hc, hready, -, hitems⟩ := cockpitState_spec (readable_store upper requests)
  refine ⟨c, hc, ?_, logged_saved upper requests, logged_increasing upper requests⟩
  rw [hready, (head_newest_isSome upper requests).2 h] at hitems
  -- the query reads the rows of the latest answers
  have hrows : (store upper requests).decisions.newest.take 20 =
      ((logged upper requests).reverse.take 20).map
        (fun entry => (entry.1, decisionRow entry.2.1 entry.2.2)) := by
    rw [Table.newest_eq_reverse, rows_eq_logged, ← List.map_reverse, List.map_take]
  have hshown : ((store upper requests).decisions.newest.take 20).mapM (shown num true) =
      some (((logged upper requests).reverse.take 20).map decisionItem) := by
    rw [hrows, List.mapM_map]
    simp only [Function.comp_def, shown, if_true, normalized_decisionRow]
    exact List.mapM_pure
  rw [hshown] at hitems
  exact (Option.some.inj hitems).symm

/-- A decision beside a report is shown as it was submitted. -/
theorem decision_window_hold :
    ∃ c, cockpitState integers (store String.toUpper
        [.decision morning hold, .snapshot morning report]) = some c ∧
      c.decisions = [decisionItem (1, morning, hold)] := by
  have haccepted : accepted String.toUpper
      [Request.decision morning hold, .snapshot morning report] ≠ [] := by
    rw [accepted_eq, admissible]
    simp [report_admissible]
  rcases decision_window String.toUpper [Request.decision morning hold, .snapshot morning report]
    haccepted with ⟨c, hc, hdecisions, -⟩
  exact ⟨c, hc, hdecisions⟩

/-! ## The platform mix -/

/-- What is not negative is not rounded below zero. -/
theorem round4_nonneg {q : ℚ} (h : 0 ≤ q) : 0 ≤ round4 q := by
  have hround : 0 ≤ roundHalfEven (q * 10000) := le_roundHalfEven (by push_cast; positivity)
  unfold round4
  positivity

/-- The rounded shares of two amounts. -/
theorem ratio_add {part other : ℚ} (hpart : 0 ≤ part) (hother : 0 ≤ other)
    (hpos : 0 < part + other) :
    ∃ share rest, ratio part (part + other) = some share ∧ ratio other (part + other) = some rest ∧
      0 ≤ share ∧ 0 ≤ rest ∧ share + rest = 1 := by
  have hne : part + other ≠ 0 := hpos.ne'
  refine ⟨round4 (part / (part + other)), round4 (other / (part + other)), if_neg hne, if_neg hne,
    ?_, ?_, ?_⟩
  · exact round4_nonneg (div_nonneg hpart hpos.le)
  · exact round4_nonneg (div_nonneg hother hpos.le)
  · have hrest : other / (part + other) * 10000 =
        ((10000 : ℤ) : ℚ) - part / (part + other) * 10000 := by
      field_simp
      push_cast
      ring
    unfold round4
    rw [hrest, roundHalfEven_sub (by norm_num)]
    push_cast
    ring

/-- The mix that the cockpit reports is that of the newest snapshot. -/
theorem cockpitState_mix {s : Store} {c : Cockpit} (h : cockpitState num s = some c) {id : ℕ}
    {snap : SnapshotRow} (hsnap : s.snapshots.newest.head? = some (id, snap)) :
    c.metaMix = ratio snap.metaSpend (snap.metaSpend + snap.tiktokSpend) ∧
      c.tiktokMix = ratio snap.tiktokSpend (snap.metaSpend + snap.tiktokSpend) := by
  unfold cockpitState at h
  simp only [hsnap, Option.map_eq_some_iff] at h
  rcases h with ⟨decisions, -, rfl⟩
  exact ⟨rfl, rfl⟩

/-- After any history whose last accepted snapshot has some spend on the platforms, the
cockpit reports two shares between 0 and 1 that add up to 1. -/
theorem platform_mix_whole (upper : String → String) (requests : List (Request num)) {now : Utc}
    {data : FinancialSnapshotIn} (hlast : (accepted upper requests).getLast? = some (now, data))
    (hpos : 0 < data.metaSpend + data.tiktokSpend) :
    ∃ c share rest, cockpitState num (store upper requests) = some c ∧
      c.metaMix = some share ∧ c.tiktokMix = some rest ∧
      0 ≤ share ∧ share ≤ 1 ∧ 0 ≤ rest ∧ rest ≤ 1 ∧ share + rest = 1 := by
  have hnewest := newest_snapshot upper requests
  rw [hlast, Option.map_some, Option.map_eq_some_iff] at hnewest
  rcases hnewest with ⟨⟨id, snap⟩, hsnap, rfl⟩
  obtain ⟨c, hc, -⟩ := cockpitState_spec (readable_store upper requests)
  rcases cockpitState_mix hc hsnap with ⟨hmeta, htiktok⟩
  rcases ratio_add data.metaSpend_ge data.tiktokSpend_ge hpos with
    ⟨share, rest, hshare, hrest, hshare_ge, hrest_ge, hsum⟩
  refine ⟨c, share, rest, hc, hmeta.trans hshare, htiktok.trans hrest, hshare_ge, ?_, hrest_ge, ?_,
    hsum⟩
  · linarith
  · linarith

/-- The history of one report. -/
def reportOnly : List (Request integers) := [.snapshot morning report]

/-- Its shares add up to one. -/
theorem platform_mix_report :
    ∃ c share rest, cockpitState integers (store String.toUpper reportOnly) = some c ∧
      c.metaMix = some share ∧ c.tiktokMix = some rest ∧ share + rest = 1 := by
  have hlast : (accepted String.toUpper reportOnly).getLast? = some (morning, report) := by
    rw [accepted_eq]
    simp [reportOnly, admissible, report_admissible]
  rcases platform_mix_whole String.toUpper reportOnly hlast (by norm_num [report]) with
    ⟨c, share, rest, hc, hshare, hrest, -, -, -, -, hsum⟩
  exact ⟨c, share, rest, hc, hshare, hrest, hsum⟩

end AdsHub.Finance
