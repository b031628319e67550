import Mathlib.Tactic.Linarith
import AdsHub.Lib.JsonText
import AdsHub.Lib.Rounding
import AdsHub.Lib.Runs
import AdsHub.Lib.Table
import AdsHub.Clock
import AdsHub.Http

/-!
# AdsHub.Finance — the financial cockpit of `app/finance.py`

Two tables, three endpoints. `save_snapshot` refuses a snapshot whose spend exceeds the
budget or whose platforms exceed the spend; `cockpit_state` reports the newest
snapshot that was stored, with the decisions that were logged.

Amounts are exact. A table is a `Table`: its rows under the keys the database
assigns. An exception that no handler catches is a response of status 500; the
cockpit that raises is `none`.
-/

namespace AdsHub.Finance

open JsonText Rounding

variable {num : NumText}

/-- `round(q, 4)`. -/
def round4 (q : ℚ) : ℚ := roundHalfEven (q * 10000) / 10000

/-! ## Requests and rows -/

/-- `FinancialSnapshotIn`: a body that passed validation. -/
structure FinancialSnapshotIn where
  budgetAuthorized : ℚ
  spend : ℚ
  revenue : ℚ
  metaSpend : ℚ := 0
  tiktokSpend : ℚ := 0
  currency : String := "BRL"
  source : String := "manual_or_connector"
  budgetAuthorized_ge : 0 ≤ budgetAuthorized := by norm_num
  spend_ge : 0 ≤ spend := by norm_num
  revenue_ge : 0 ≤ revenue := by norm_num
  metaSpend_ge : 0 ≤ metaSpend := by norm_num
  tiktokSpend_ge : 0 ≤ tiktokSpend := by norm_num
  currency_length : currency.length = 3 := by decide
  source_length : 1 ≤ source.length ∧ source.length ≤ 80 := by decide

/-- `DecisionIn`; the payload is a dictionary that JSON can hold. -/
structure DecisionIn (num : NumText) where
  agent : String
  action : String
  reason : Option String := none
  payload : List (String × Json) := []
  agent_length : 1 ≤ agent.length ∧ agent.length ≤ 80 := by decide
  action_length : 1 ≤ action.length ∧ action.length ≤ 120 := by decide
  reason_length : ∀ text ∈ reason, text.length ≤ 500 := by decide
  payload_writable : Writable num (.obj payload)

/-- A row of `financial_snapshots`. -/
structure SnapshotRow where
  capturedAt : String
  budgetAuthorized : ℚ
  spend : ℚ
  revenue : ℚ
  metaSpend : ℚ
  tiktokSpend : ℚ
  currency : String
  source : String

/-- The `CHECK` constraints of the table. -/
def SnapshotRow.Check (row : SnapshotRow) : Prop :=
  0 ≤ row.budgetAuthorized ∧ 0 ≤ row.spend ∧ 0 ≤ row.revenue ∧ 0 ≤ row.metaSpend ∧
    0 ≤ row.tiktokSpend

instance (row : SnapshotRow) : Decidable row.Check :=
  inferInstanceAs (Decidable (_ ∧ _ ∧ _ ∧ _ ∧ _))

/-- A row of `cockpit_decisions`. -/
structure DecisionRow where
  createdAt : String
  agent : String
  action : String
  reason : Option String
  payloadJson : String

/-- The two tables. -/
structure Store where
  snapshots : Table SnapshotRow
  decisions : Table DecisionRow

/-- The store that `init_finance_store` creates. -/
def initFinanceStore : Store := ⟨Table.empty, Table.empty⟩

/-- What a save can raise. -/
inductive SaveError where
  | valueError (text : String)
  | integrityError

/-- The row that is written for a snapshot; `upper` is `str.upper`. -/
def snapshotRow (upper : String → String) (now : Utc) (data : FinancialSnapshotIn) :
    SnapshotRow where
  capturedAt := now.isoformat
  budgetAuthorized := data.budgetAuthorized
  spend := data.spend
  revenue := data.revenue
  metaSpend := data.metaSpend
  tiktokSpend := data.tiktokSpend
  currency := upper data.currency
  source := data.source

/-- `save_snapshot`: the store after it and the key of the row. -/
def saveSnapshot (upper : String → String) (s : Store) (now : Utc) (data : FinancialSnapshotIn) :
    Except SaveError (Store × ℕ) :=
  if data.spend > data.budgetAuthorized then
    .error (.valueError "spend cannot exceed authorized budget")
  else if data.metaSpend + data.tiktokSpend > data.spend + 1 / 100 then
    .error (.valueError "platform spend cannot exceed total spend")
  else if (snapshotRow upper now data).Check then
    .ok ({ s with snapshots := s.snapshots.insert (snapshotRow upper now data) },
      s.snapshots.seq + 1)
  else
    .error .integrityError

/-- The row that is written for a decision. -/
def decisionRow (now : Utc) (data : DecisionIn num) : DecisionRow where
  createdAt := now.isoformat
  agent := data.agent
  action := data.action
  reason := data.reason
  payloadJson := String.ofList (encode unicodeStyle num (.obj data.payload))

/-- `save_decision`. -/
def saveDecision (s : Store) (now : Utc) (data : DecisionIn num) : Store × ℕ :=
  ({ s with decisions := s.decisions.insert (decisionRow now data) }, s.decisions.seq + 1)

/-! ## The cockpit -/

/-- The entry `financial`. -/
structure Financial where
  capturedAt : String
  budgetAuthorized : ℚ
  spend : ℚ
  revenue : ℚ
  roas : Option ℚ
  currency : String
  source : String

/-- What `cockpit_state` returns; a decision is the list of its items. -/
structure Cockpit where
  ready : Bool
  financial : Option Financial
  metaMix : Option ℚ
  tiktokMix : Option ℚ
  decisions : List (List (String × Json))
  message : Option String

/-- `dict(d)` of a selected row. -/
def rowDict (row : ℕ × DecisionRow) : List (String × Json) :=
  [("id", .num row.1), ("created_at", .str row.2.createdAt), ("agent", .str row.2.agent),
   ("action", .str row.2.action), ("reason", row.2.reason.elim .null .str),
   ("payload_json", .str row.2.payloadJson)]

/-- A decision while there is no snapshot: `dict(d) | {"payload": ...}`. -/
def unnormalized (num : NumText) (row : ℕ × DecisionRow) : Option (List (String × Json)) :=
  (loads num.read row.2.payloadJson.toList).map
    (fun payload => Dict.update (rowDict row) [("payload", payload)])

/-- A decision beside a snapshot: `payload_json` is popped, and `payload` is set. -/
def normalized (num : NumText) (row : ℕ × DecisionRow) : Option (List (String × Json)) :=
  (loads num.read row.2.payloadJson.toList).map
    (fun payload => Dict.set ((rowDict row).filter (fun p => p.1 ≠ "payload_json")) "payload"
      payload)

/-- `None if total == 0 else round(part / total, 4)`. -/
def ratio (part total : ℚ) : Option ℚ := if total = 0 then none else some (round4 (part / total))

/-- The entry of a stored snapshot. -/
def financialEntry (snap : SnapshotRow) : Financial where
  capturedAt := snap.capturedAt
  budgetAuthorized := snap.budgetAuthorized
  spend := snap.spend
  revenue := snap.revenue
  roas := ratio snap.revenue snap.spend
  currency := snap.currency
  source := snap.source

/-- `cockpit_state`. -/
def cockpitState (num : NumText) (s : Store) : Option Cockpit :=
  match s.snapshots.newest.head? with
  | none =>
    ((s.decisions.newest.take 20).mapM (unnormalized num)).map (fun decisions =>
      { ready := false
        financial := none
        metaMix := none
        tiktokMix := none
        decisions := decisions
        message := some "financial source not configured" })
  | some (_, snap) =>
    ((s.decisions.newest.take 20).mapM (normalized num)).map (fun decisions =>
      { ready := true
        financial := some (financialEntry snap)
        metaMix := ratio snap.metaSpend (snap.metaSpend + snap.tiktokSpend)
        tiktokMix := ratio snap.tiktokSpend (snap.metaSpend + snap.tiktokSpend)
        decisions := decisions
        message := none })

/-! ## The endpoints -/

/-- A request whose body passed validation, with the time at which it is served. -/
inductive Request (num : NumText) where
  | snapshot (now : Utc) (data : FinancialSnapshotIn)
  | decision (now : Utc) (data : DecisionIn num)
  | cockpit

/-- What an endpoint answers. -/
inductive Response where
  | snapshotSaved (id : ℕ) (cockpit : Cockpit)
  | decisionSaved (id : ℕ)
  | cockpit (state : Cockpit)
  | raised (exception : HttpException String)

/-- The status of an answer. -/
def Response.statusCode : Response → ℕ
  | .snapshotSaved _ _ => 201
  | .decisionSaved _ => 201
  | .cockpit _ => 200
  | .raised exception => exception.statusCode

/-- An exception that no handler catches. -/
def serverError : Response := .raised ⟨500, "Internal Server Error"⟩

/-- `post_financial_snapshot`: a `ValueError` of the save becomes 409. -/
def postFinancialSnapshot (num : NumText) (upper : String → String) (s : Store) (now : Utc)
    (data : FinancialSnapshotIn) : Store × Response :=
  match saveSnapshot upper s now data with
  | .error (.valueError text) => (s, .raised ⟨409, text⟩)
  | .error .integrityError => (s, serverError)
  | .ok (saved, id) => (saved, (cockpitState num saved).elim serverError (.snapshotSaved id))

/-- `post_decision`. -/
def postDecision (s : Store) (now : Utc) (data : DecisionIn num) : Store × Response :=
  ((saveDecision s now data).1, .decisionSaved (saveDecision s now data).2)

/-- `get_cockpit`. -/
def getCockpit (num : NumText) (s : Store) : Store × Response :=
  (s, (cockpitState num s).elim serverError .cockpit)

/-- One request. -/
def serve (upper : String → String) (s : Store) : Request num → Store × Response
  | .snapshot now data => postFinancialSnapshot num upper s now data
  | .decision now data => postDecision s now data
  | .cockpit => getCockpit num s

/-- The store after the requests. -/
def store (upper : String → String) (requests : List (Request num)) : Store :=
  Runs.run (fun s request => (serve upper s request).1) initFinanceStore requests

/-- The requests, each with its answer. -/
def answers (upper : String → String) : Store → List (Request num) → List (Request num × Response)
  | _, [] => []
  | s, request :: requests =>
    (request, (serve upper s request).2) :: answers upper (serve upper s request).1 requests

/-- The snapshots that were accepted: answered with 201. -/
def accepted (upper : String → String) (requests : List (Request num)) :
    List (Utc × FinancialSnapshotIn) :=
  (answers upper initFinanceStore requests).filterMap (fun answer =>
    match answer with
    | (.snapshot now data, response) =>
      if response.statusCode = 201 then some (now, data) else none
    | _ => none)

/-- The decisions that were saved. -/
def saved (requests : List (Request num)) : List (Utc × DecisionIn num) :=
  requests.filterMap (fun request =>
    match request with
    | .decision now data => some (now, data)
    | _ => none)

/-! ## What a request does to the store -/

/-- The two spend conditions. -/
def Admissible (data : FinancialSnapshotIn) : Prop :=
  data.spend ≤ data.budgetAuthorized ∧ data.metaSpend + data.tiktokSpend ≤ data.spend + 1 / 100

instance (data : FinancialSnapshotIn) : Decidable (Admissible data) :=
  inferInstanceAs (Decidable (_ ∧ _))

theorem not_admissible {data : FinancialSnapshotIn} : ¬ Admissible data ↔
    data.spend > data.budgetAuthorized ∨
      data.metaSpend + data.tiktokSpend > data.spend + 1 / 100 := by
  unfold Admissible
  rw [not_and_or, not_le, not_le]

/-- The constraints of the table repeat those of the request. -/
theorem snapshotRow_check (upper : String → String) (now : Utc) (data : FinancialSnapshotIn) :
    (snapshotRow upper now data).Check :=
  ⟨data.budgetAuthorized_ge, data.spend_ge, data.revenue_ge, data.metaSpend_ge,
    data.tiktokSpend_ge⟩

/-- A save stores the row or raises a `ValueError`. -/
theorem saveSnapshot_cases (upper : String → String) (s : Store) (now : Utc)
    (data : FinancialSnapshotIn) :
    (Admissible data ∧ saveSnapshot upper s now data =
      .ok ({ s with snapshots := s.snapshots.insert (snapshotRow upper now data) },
        s.snapshots.seq + 1)) ∨
    (¬ Admissible data ∧ ∃ text, saveSnapshot upper s now data = .error (.valueError text)) := by
  unfold saveSnapshot
  by_cases hspend : data.spend > data.budgetAuthorized
  · exact Or.inr ⟨not_admissible.2 (Or.inl hspend), _, if_pos hspend⟩
  · by_cases hplatforms : data.metaSpend + data.tiktokSpend > data.spend + 1 / 100
    · rw [if_neg hspend]
      exact Or.inr ⟨not_admissible.2 (Or.inr hplatforms), _, if_pos hplatforms⟩
    · refine Or.inl ⟨⟨not_lt.1 hspend, not_lt.1 hplatforms⟩, ?_⟩
      rw [if_neg hspend, if_neg hplatforms, if_pos (snapshotRow_check upper now data)]

/-- The snapshots among the requests that meet the spend conditions. -/
def admissible (requests : List (Request num)) : List (Utc × FinancialSnapshotIn) :=
  requests.filterMap (fun request =>
    match request with
    | .snapshot now data => if Admissible data then some (now, data) else none
    | _ => none)

theorem store_concat (upper : String → String) (requests : List (Request num))
    (request : Request num) :
    store upper (requests ++ [request]) = (serve upper (store upper requests) request).1 := by
  rw [store, Runs.run_concat]
  rfl

theorem admissible_concat (requests : List (Request num)) (request : Request num) :
    admissible (requests ++ [request]) = admissible requests ++ admissible [request] :=
  List.filterMap_append

theorem saved_concat (requests : List (Request num)) (request : Request num) :
    saved (requests ++ [request]) = saved requests ++ saved [request] :=
  List.filterMap_append

/-- The tables hold the rows of the admissible snapshots and of the decisions, in the
order of the requests. -/
theorem store_eq (upper : String → String) (requests : List (Request num)) :
    store upper requests =
      { snapshots := Table.insertAll ((admissible requests).map (fun p => snapshotRow upper p.1 p.2))
        decisions := Table.insertAll ((saved requests).map (fun p => decisionRow p.1 p.2)) } := by
  induction requests using List.reverseRecOn with
  | nil => rfl
  | append_singleton requests request ih =>
    -- one more request inserts one row, or none
    rw [store_concat, admissible_concat, saved_concat, List.map_append, List.map_append]
    cases request with
    | snapshot now data =>
      rw [serve, postFinancialSnapshot]
      rcases saveSnapshot_cases upper (store upper requests) now data with
        ⟨hdata, hsave⟩ | ⟨hdata, text, hsave⟩
      · rw [hsave, ih]
        simp [admissible, saved, hdata]
      · rw [hsave, ih]
        simp [admissible, saved, hdata]
    | decision now data =>
      rw [serve, postDecision, saveDecision, ih]
      simp [admissible, saved]
    | cockpit =>
      rw [serve, getCockpit, ih]
      simp [admissible, saved]

/-! ## What the cockpit shows -/

section

variable {α β : Type*} {f : α → Option β}

theorem exists_mapM {l : List α} (h : ∀ a ∈ l, ∃ b, f a = some b) : ∃ bs, l.mapM f = some bs := by
  induction l with
  | nil => exact ⟨[], rfl⟩
  | cons a l ih =>
    rw [List.forall_mem_cons] at h
    rcases h.1 with ⟨b, hb⟩
    obtain ⟨bs, hbs⟩ := ih h.2
    refine ⟨b :: bs, ?_⟩
    rw [List.mapM_cons, hb, hbs]
    rfl

end

/-- Each stored payload is a JSON text. -/
def Readable (num : NumText) (s : Store) : Prop :=
  ∀ row ∈ s.decisions.rows, ∃ payload, loads num.read row.2.payloadJson.toList = some payload

theorem readable_store (upper : String → String) (requests : List (Request num)) :
    Readable num (store upper requests) := by
  intro row hrow
  rw [store_eq] at hrow
  obtain ⟨p, -, hp⟩ := List.mem_map.1 (Table.mem_of_mem_insertAll hrow)
  refine ⟨.obj p.2.payload, ?_⟩
  rw [← hp, decisionRow, String.toList_ofList]
  exact loads_encode unicodeStyle p.2.payload_writable

/-- A decision as it is shown, with a snapshot or without one. -/
def shown (num : NumText) (ready : Bool) : ℕ × DecisionRow → Option (List (String × Json)) :=
  if ready then normalized num else unnormalized num

/-- The cockpit of a store whose payloads can be read. -/
theorem cockpitState_spec {s : Store} (h : Readable num s) :
    ∃ c, cockpitState num s = some c ∧ c.ready = s.snapshots.newest.head?.isSome ∧
      c.financial = s.snapshots.newest.head?.map (fun row => financialEntry row.2) ∧
      (s.decisions.newest.take 20).mapM (shown num c.ready) = some c.decisions := by
  have hrows : ∀ ready, ∀ row ∈ s.decisions.newest.take 20, ∃ item,
      shown num ready row = some item := by
    intro ready row hrow
    -- what is read are rows of the table
    have hmem : row ∈ s.decisions.rows := by
      rw [← List.mem_reverse, ← Table.newest_eq_reverse]
      exact List.mem_of_mem_take hrow
    rcases h row hmem with ⟨payload, hpayload⟩
    cases ready with
    | false => exact ⟨_, by rw [shown, if_neg Bool.false_ne_true, unnormalized, hpayload]; rfl⟩
    | true => exact ⟨_, by rw [shown, if_pos rfl, normalized, hpayload]; rfl⟩
  unfold cockpitState
  cases hsnap : s.snapshots.newest.head? with
  | none =>
    obtain ⟨items, hitems⟩ := exists_mapM (hrows false)
    have hitems' : (s.decisions.newest.take 20).mapM (unnormalized num) = some items := hitems
    simp only [hitems', Option.map_some]
    exact ⟨_, rfl, rfl, rfl, hitems⟩
  | some snap =>
    obtain ⟨items, hitems⟩ := exists_mapM (hrows true)
    have hitems' : (s.decisions.newest.take 20).mapM (normalized num) = some items := hitems
    simp only [hitems', Option.map_some]
    exact ⟨_, rfl, rfl, rfl, hitems⟩

/-- A snapshot is answered with 201 or 409. -/
theorem snapshot_status (upper : String → String) (requests : List (Request num)) (now : Utc)
    (data : FinancialSnapshotIn) :
    (postFinancialSnapshot num upper (store upper requests) now data).2.statusCode =
      if Admissible data then 201 else 409 := by
  rw [postFinancialSnapshot]
  rcases saveSnapshot_cases upper (store upper requests) now data with
    ⟨hdata, hsave⟩ | ⟨hdata, text, hsave⟩
  · have hreadable : Readable num { store upper requests with
        snapshots := (store upper requests).snapshots.insert (snapshotRow upper now data) } :=
      readable_store upper requests
    obtain ⟨c, hc, -⟩ := cockpitState_spec hreadable
    rw [hsave, if_pos hdata]
    simp only [hc]
    rfl
  · rw [hsave, if_neg hdata]
    rfl

theorem answers_concat (upper : String → String) (s : Store) (requests : List (Request num))
    (request : Request num) :
    answers upper s (requests ++ [request]) = answers upper s requests ++
      [(request, (serve upper
        (Runs.run (fun s request => (serve upper s request).1) s requests) request).2)] := by
  induction requests generalizing s with
  | nil => rfl
  | cons first requests ih =>
    rw [List.cons_append, answers, ih, Runs.run_cons]
    rfl

/-- The accepted snapshots are the admissible ones. -/
theorem accepted_eq (upper : String → String) (requests : List (Request num)) :
    accepted upper requests = admissible requests := by
  induction requests using List.reverseRecOn with
  | nil => rfl
  | append_singleton requests request ih =>
    rw [admissible_concat, ← ih, accepted, answers_concat, List.filterMap_append, ← accepted,
      ← store]
    congr 1
    cases request with
    | snapshot now data =>
      simp only [List.filterMap_cons, List.filterMap_nil, admissible, serve, snapshot_status]
      by_cases hdata : Admissible data
      · simp [hdata]
      · simp [hdata]
    | decision now data => rfl
    | cockpit => rfl

/-! ## The store over a run -/

/-- What holds of every stored snapshot. -/
structure Sound (row : SnapshotRow) : Prop where
  spend_ge : 0 ≤ row.spend
  spend_le : row.spend ≤ row.budgetAuthorized
  metaSpend_ge : 0 ≤ row.metaSpend
  tiktokSpend_ge : 0 ≤ row.tiktokSpend
  platforms_le : row.metaSpend + row.tiktokSpend ≤ row.spend + 1 / 100
  revenue_ge : 0 ≤ row.revenue

theorem mem_admissible {requests : List (Request num)} {p : Utc × FinancialSnapshotIn} :
    p ∈ admissible requests ↔ Request.snapshot p.1 p.2 ∈ requests ∧ Admissible p.2 := by
  rw [admissible, List.mem_filterMap]
  constructor
  · rintro ⟨request, hrequest, hp⟩
    cases request with
    | snapshot now data =>
      by_cases hdata : Admissible data
      · simp only [if_pos hdata, Option.some.injEq] at hp
        rw [← hp]
        exact ⟨hrequest, hdata⟩
      · simp only [if_neg hdata, reduceCtorEq] at hp
    | decision now data => simp only [reduceCtorEq] at hp
    | cockpit => simp only [reduceCtorEq] at hp
  · rintro ⟨hrequest, hdata⟩
    exact ⟨_, hrequest, if_pos hdata⟩

theorem sound_store (upper : String → String) (requests : List (Request num)) :
    ∀ row ∈ (store upper requests).snapshots.rows, Sound row.2 := by
  intro row hrow
  rw [store_eq] at hrow
  obtain ⟨p, hp, hrow⟩ := List.mem_map.1 (Table.mem_of_mem_insertAll hrow)
  have hdata : Admissible p.2 := (mem_admissible.1 hp).2
  rw [← hrow]
  exact ⟨p.2.spend_ge, hdata.1, p.2.metaSpend_ge, p.2.tiktokSpend_ge, hdata.2, p.2.revenue_ge⟩

/-- The newest stored snapshot is the one that was accepted last. -/
theorem newest_snapshot (upper : String → String) (requests : List (Request num)) :
    (store upper requests).snapshots.newest.head?.map Prod.snd =
      (accepted upper requests).getLast?.map (fun p => snapshotRow upper p.1 p.2) := by
  rw [accepted_eq, store_eq, Table.head_newest_insertAll, List.getLast?_map]

theorem head_newest_isSome (upper : String → String) (requests : List (Request num)) :
    (store upper requests).snapshots.newest.head?.isSome = true ↔ accepted upper requests ≠ [] := by
  rw [← List.getLast?_isSome, ← Option.isSome_map (f := Prod.snd), newest_snapshot,
    Option.isSome_map]

/-- After any requests: every stored snapshot is sound; a snapshot is answered with 409
exactly if it breaks one of the two spend conditions, and then both tables are as before;
and the cockpit is ready exactly if a snapshot was accepted, and reports the last one. -/
theorem cockpit_run (upper : String → String) (requests : List (Request num)) :
    (∀ row ∈ (store upper requests).snapshots.rows, Sound row.2) ∧
    (∀ now data,
      ((postFinancialSnapshot num upper (store upper requests) now data).2.statusCode = 409 ↔
        data.spend > data.budgetAuthorized ∨
          data.metaSpend + data.tiktokSpend > data.spend + 1 / 100) ∧
      ((postFinancialSnapshot num upper (store upper requests) now data).2.statusCode = 409 →
        (postFinancialSnapshot num upper (store upper requests) now data).1 =
          store upper requests)) ∧
    ∃ c, cockpitState num (store upper requests) = some c ∧
      (c.ready = true ↔ accepted upper requests ≠ []) ∧
      c.financial = (accepted upper requests).getLast?.map (fun p =>
        { capturedAt := p.1.isoformat
          budgetAuthorized := p.2.budgetAuthorized
          spend := p.2.spend
          revenue := p.2.revenue
          roas := if p.2.spend = 0 then none else some (round4 (p.2.revenue / p.2.spend))
          currency := upper p.2.currency
          source := p.2.source }) := by
  refine ⟨sound_store upper requests, ?_, ?_⟩
  · -- a snapshot is refused before anything is written
    intro now data
    rw [snapshot_status, ← not_admissible]
    rcases saveSnapshot_cases upper (store upper requests) now data with
      ⟨hdata, -⟩ | ⟨hdata, text, hsave⟩
    · simp [hdata]
    · simp [hdata, postFinancialSnapshot, hsave]
  · -- the stored rows can all be read back, so the cockpit is there
    obtain ⟨c, hc, hready, hfinancial, -⟩ := cockpitState_spec (readable_store upper requests)
    have hnewest := newest_snapshot upper requests
    refine ⟨c, hc, ?_, ?_⟩
    · rw [hready, head_newest_isSome]
    · have hentry : c.financial =
          ((store upper requests).snapshots.newest.head?.map Prod.snd).map financialEntry := by
        rw [hfinancial, Option.map_map]
        rfl
      rw [hentry, hnewest, Option.map_map]
      rfl

/-! ## The decisions over two runs -/

/-- The same objects in the same order; two dictionaries are the same if they have the
same items. -/
def SameObjects (first second : List (List (String × Json))) : Prop :=
  List.Forall₂ List.Perm first second

theorem SameObjects.refl (objects : List (List (String × Json))) : SameObjects objects objects :=
  List.forall₂_same.2 (fun object _ => List.Perm.refl object)

/-- The text of the payload stays in a decision that is shown without a snapshot, and
only there. -/
theorem mem_shown {ready : Bool} {row : ℕ × DecisionRow} {item : List (String × Json)}
    (h : shown num ready row = some item) : "payload_json" ∈ item.map Prod.fst ↔ ready = false := by
  cases ready with
  | false =>
    rw [shown, if_neg Bool.false_ne_true, unnormalized, Option.map_eq_some_iff] at h
    rcases h with ⟨payload, -, rfl⟩
    simp [Dict.set, rowDict]
  | true =>
    rw [shown, if_pos rfl, normalized, Option.map_eq_some_iff] at h
    rcases h with ⟨payload, -, rfl⟩
    simp [Dict.set, rowDict]

/-- The first decisions of two cockpits tell whether both have a snapshot. -/
theorem ready_eq_of_sameObjects {rows : List (ℕ × DecisionRow)} (hrows : rows ≠ [])
    {ready ready' : Bool} {items items' : List (List (String × Json))}
    (h : rows.mapM (shown num ready) = some items)
    (h' : rows.mapM (shown num ready') = some items') (hsame : SameObjects items items') :
    ready = ready' := by
  cases rows with
  | nil => exact absurd rfl hrows
  | cons row rows =>
    rw [List.mapM_cons, Option.bind_eq_bind, Option.bind_eq_some_iff] at h h'
    rcases h with ⟨item, hitem, hrest⟩
    rcases h' with ⟨item', hitem', hrest'⟩
    rw [Option.bind_eq_bind, Option.bind_eq_some_iff] at hrest hrest'
    rcases hrest with ⟨tail, -, htail⟩
    rcases hrest' with ⟨tail', -, htail'⟩
    rw [Option.pure_def, Option.some.injEq] at htail htail'
    rw [← htail, ← htail', SameObjects, List.forall₂_cons] at hsame
    -- the first two objects have the same keys, and `payload_json` tells the branch
    have hkeys := (hsame.1.map Prod.fst).mem_iff.symm.trans (mem_shown hitem)
    exact Bool.eq_iff_iff.2 (by simpa using (hkeys.symm.trans (mem_shown hitem')).not)

/-- A snapshot that meets the spend conditions is among the requests. -/
def HasSnapshot (requests : List (Request num)) : Prop :=
  ∃ now data, Request.snapshot now data ∈ requests ∧ Admissible data

/-- The cockpit after a run, as far as its decisions go. -/
theorem cockpit_decisions (upper : String → String) (requests : List (Request num)) :
    ∃ c, cockpitState num (store upper requests) = some c ∧
      (c.ready = true ↔ HasSnapshot requests) ∧
      ((store upper requests).decisions.newest.take 20).mapM (shown num c.ready) =
        some c.decisions := by
  obtain ⟨c, hc, hready, -, hitems⟩ := cockpitState_spec (readable_store upper requests)
  refine ⟨c, hc, ?_, hitems⟩
  rw [hready, head_newest_isSome, accepted_eq]
  constructor
  · intro hne
    obtain ⟨p, hp⟩ := List.exists_mem_of_ne_nil _ hne
    exact ⟨p.1, p.2, mem_admissible.1 hp⟩
  · rintro ⟨now, data, hdata⟩
    have hmem : (now, data) ∈ admissible requests := mem_admissible.2 hdata
    exact List.ne_nil_of_mem hmem

/-- The rows that are read after a run are those of its decisions. -/
theorem decisions_rows (upper : String → String) (requests : List (Request num)) :
    (store upper requests).decisions =
      Table.insertAll ((saved requests).map (fun p => decisionRow p.1 p.2)) := by
  rw [store_eq]

theorem take_decisions_eq_nil (upper : String → String) (requests : List (Request num)) :
    (store upper requests).decisions.newest.take 20 = [] ↔ saved requests = [] := by
  rw [decisions_rows, List.take_eq_nil_iff, ← List.length_eq_zero_iff,
    Table.length_newest_insertAll, List.length_map, List.length_eq_zero_iff]
  exact or_iff_right (by decide)

/-- Two runs that save the same decisions show the same ones exactly if there are none,
or both runs have a snapshot, or neither has. -/
theorem decisions_same_iff (upper : String → String) (first second : List (Request num))
    (h : saved first = saved second) :
    ∃ c d, cockpitState num (store upper first) = some c ∧
      cockpitState num (store upper second) = some d ∧
      (SameObjects c.decisions d.decisions ↔
        saved first = [] ∨ (HasSnapshot first ↔ HasSnapshot second)) := by
  obtain ⟨c, hc, hready, hitems⟩ := cockpit_decisions upper first
  obtain ⟨d, hd, hready', hitems'⟩ := cockpit_decisions upper second
  -- the snapshots leave no trace in the table of decisions
  have hrows : (store upper second).decisions = (store upper first).decisions := by
    rw [decisions_rows, decisions_rows, h]
  refine ⟨c, d, hc, hd, ?_⟩
  rw [hrows] at hitems'
  rw [← hready, ← hready', ← Bool.eq_iff_iff]
  constructor
  · intro hsame
    by_cases hnone : saved first = []
    · exact Or.inl hnone
    · have hne := mt (take_decisions_eq_nil upper first).1 hnone
      exact Or.inr (ready_eq_of_sameObjects hne hitems hitems' hsame)
  · rintro (hnone | heq)
    · rw [(take_decisions_eq_nil upper first).2 hnone, List.mapM_nil, Option.pure_def,
        Option.some.injEq] at hitems hitems'
      rw [← hitems, ← hitems']
      exact SameObjects.refl _
    · rw [heq, hitems', Option.some.injEq] at hitems
      rw [hitems]
      exact SameObjects.refl _

/-- A decision of the budget allocator. -/
def hold : DecisionIn integers where
  agent := "budget_allocator"
  action := "hold"
  reason := some "sandbox validation"
  payload := [("amount", .num 0)]
  payload_writable := .obj (List.nodup_singleton _) (by
    intro f hf
    rw [List.mem_singleton] at hf
    rw [hf]
    exact .num rfl)

/-- A financial report. -/
def report : FinancialSnapshotIn where
  budgetAuthorized := 10000
  spend := 4000
  revenue := 24000
  metaSpend := 3000
  tiktokSpend := 1000

theorem report_admissible : Admissible report := by
  refine ⟨?_, ?_⟩ <;> norm_num [report]

/-- With a report in both runs, before or after the decision, the decisions agree. -/
theorem decisions_same_reports :
    ∃ c d, cockpitState integers (store String.toUpper
        [.snapshot morning report, .decision morning hold]) = some c ∧
      cockpitState integers (store String.toUpper
        [.decision morning hold, .snapshot morning report, .snapshot morning report]) = some d ∧
      SameObjects c.decisions d.decisions := by
  rcases decisions_same_iff String.toUpper
    [.snapshot morning report, .decision morning hold]
    [.decision morning hold, .snapshot morning report, .snapshot morning report] rfl with
    ⟨c, d, hc, hd, hsame⟩
  refine ⟨c, d, hc, hd, hsame.2 (Or.inr (iff_of_true ?_ ?_))⟩
  · exact ⟨morning, report, by simp, report_admissible⟩
  · exact ⟨morning, report, by simp, report_admissible⟩

/-- With a report in one of them only, they do not: the decision without a report keeps
`payload_json`. -/
theorem report_changes_decisions :
    saved [Request.decision morning hold] =
        saved [Request.decision morning hold, .snapshot morning report] ∧
      ∃ c d, cockpitState integers (store String.toUpper [.decision morning hold]) = some c ∧
        cockpitState integers (store String.toUpper
          [.decision morning hold, .snapshot morning report]) = some d ∧
        ¬ SameObjects c.decisions d.decisions := by
  obtain ⟨c, hc, hready, hitems⟩ := cockpit_decisions String.toUpper [.decision morning hold]
  rcases cockpit_decisions String.toUpper [.decision morning hold, .snapshot morning report] with
    ⟨d, hd, hready', hitems'⟩
  refine ⟨rfl, c, d, hc, hd, ?_⟩
  -- the first run shows the decision with `payload_json`, the second one without
  have hnot : ¬ HasSnapshot [Request.decision morning hold] := by
    rintro ⟨now, data, hmem, -⟩
    simp at hmem
  have hhas : HasSnapshot [Request.decision morning hold, .snapshot morning report] :=
    ⟨morning, report, by simp, report_admissible⟩
  intro hsame
  rw [decisions_rows] at hitems hitems'
  have heq := ready_eq_of_sameObjects (List.cons_ne_nil _ _) hitems hitems' hsame
  exact hnot (hready.1 (heq.trans (hready'.2 hhas)))

end AdsHub.Finance
