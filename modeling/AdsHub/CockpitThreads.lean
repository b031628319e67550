import AdsHub.Finance

/-!
# AdsHub.CockpitThreads — the cockpit under concurrent requests

The endpoints of `app/finance.py` are synchronous, so the server runs them in a thread
pool, each on its own connections. An insert is one step, and so is each of the two
queries of `cockpit_state`; the steps of different requests interleave freely. (A writer
waits for another one. That the wait is given up after some seconds is left out.)

The requests take effect in the order of their first steps, as if they were served one
after another (`Linearized`). Only what a cockpit shows may be of a later time, the
decisions of a later one than the snapshot: two requests that are served at the same time
can make it show a pair that was never in the store together. What remains is stated by
`cockpit_threads`: ids and decisions to accept are those of the order, a request sees its
own snapshot or a newer one, and who asks later sees no less.
-/

namespace AdsHub.Finance

open JsonText

variable {num : NumText}

/-! ## Requests in steps -/

/-- `cockpit_state` behind its two queries. -/
def cockpitOf (num : NumText) (snap : Option (ℕ × SnapshotRow)) (rows : List (ℕ × DecisionRow)) :
    Option Cockpit :=
  match snap with
  | none =>
    (rows.mapM (unnormalized num)).map (fun decisions =>
      { ready := false
        financial := none
        metaMix := none
        tiktokMix := none
        decisions := decisions
        message := some "financial source not configured" })
  | some (_, snap) =>
    (rows.mapM (normalized num)).map (fun decisions =>
      { ready := true
        financial := some (financialEntry snap)
        metaMix := ratio snap.metaSpend (snap.metaSpend + snap.tiktokSpend)
        tiktokMix := ratio snap.tiktokSpend (snap.metaSpend + snap.tiktokSpend)
        decisions := decisions
        message := none })

theorem cockpitState_eq (num : NumText) (s : Store) :
    cockpitState num s = cockpitOf num s.snapshots.newest.head? (s.decisions.newest.take 20) := by
  unfold cockpitState cockpitOf
  cases s.snapshots.newest.head? with
  | none => rfl
  | some snap => rfl

/-- Where a request is: not begun, before the first query of `cockpit_state` (with the key of
the row that it inserted, if any), before the second one, or answered. -/
inductive Phase where
  | arrived
  | reading (id : Option ℕ)
  | between (id : Option ℕ) (snap : Option (ℕ × SnapshotRow))
  | answered (response : Response)

/-- The store and the requests. Of the last three fields the code knows nothing: the order
of the first steps, and how many there were when a request made its queries. -/
structure Threads (ι : Type) where
  store : Store := initFinanceStore
  phase : ι → Phase := fun _ => .arrived
  order : List ι := []
  seenSnapshots : ι → ℕ := fun _ => 0
  seenDecisions : ι → ℕ := fun _ => 0

/-- The answer with a cockpit. -/
def respond (id : Option ℕ) (cockpit : Option Cockpit) : Response :=
  cockpit.elim serverError (fun c => id.elim (.cockpit c) (fun id => .snapshotSaved id c))

/-- The first step of a request: the store, and how it goes on. -/
def begin (upper : String → String) (s : Store) : Request num → Store × Phase
  | .snapshot now data =>
    match saveSnapshot upper s now data with
    | .error (.valueError text) => (s, .answered (.raised ⟨409, text⟩))
    | .error .integrityError => (s, .answered serverError)
    | .ok (saved, id) => (saved, .reading (some id))
  | .decision now data =>
    ((saveDecision s now data).1, .answered (.decisionSaved (saveDecision s now data).2))
  | .cockpit => (s, .reading none)

section

variable {ι : Type} [DecidableEq ι]

/-- One step of request `i`. -/
def threadStep (upper : String → String) (requests : ι → Request num) (s : Threads ι) (i : ι) :
    Threads ι :=
  match s.phase i with
  | .arrived =>
    { store := (begin upper s.store (requests i)).1
      phase := Function.update s.phase i (begin upper s.store (requests i)).2
      order := s.order ++ [i]
      seenSnapshots := Function.update s.seenSnapshots i (s.order.length + 1)
      seenDecisions := Function.update s.seenDecisions i (s.order.length + 1) }
  | .reading id =>
    { s with
      phase := Function.update s.phase i (.between id s.store.snapshots.newest.head?)
      seenSnapshots := Function.update s.seenSnapshots i s.order.length
      seenDecisions := Function.update s.seenDecisions i s.order.length }
  | .between id snap =>
    { s with
      phase := Function.update s.phase i
        (.answered (respond id (cockpitOf num snap (s.store.decisions.newest.take 20))))
      seenDecisions := Function.update s.seenDecisions i s.order.length }
  | .answered _ => s

/-- The requests after the given steps. -/
def threads (upper : String → String) (requests : ι → Request num) (steps : List ι) : Threads ι :=
  Runs.run (threadStep upper requests) {} steps

end

/-! ## One after another -/

/-- A store whose snapshots are those after `m` requests, and whose decisions are those
after `n`. -/
def mixed (upper : String → String) (log : List (Request num)) (m n : ℕ) : Store where
  snapshots := (store upper (log.take m)).snapshots
  decisions := (store upper (log.take n)).decisions

/-- The answer of a request that is served behind the first `p` ones, with a cockpit of the
mixed store. -/
def responseAt (upper : String → String) (log : List (Request num)) (p m n : ℕ) :
    Request num → Response
  | .snapshot now data =>
    match saveSnapshot upper (store upper (log.take p)) now data with
    | .error (.valueError text) => .raised ⟨409, text⟩
    | .error .integrityError => serverError
    | .ok (_, id) => respond (some id) (cockpitState num (mixed upper log m n))
  | .decision now data => .decisionSaved (saveDecision (store upper (log.take p)) now data).2
  | .cockpit => respond none (cockpitState num (mixed upper log m n))

/-- With nothing in between, it is the answer of the request served alone. -/
theorem responseAt_serve (upper : String → String) (log : List (Request num)) {p : ℕ}
    {request : Request num} (h : log[p]? = some request) :
    responseAt upper log p (p + 1) (p + 1) request =
      (serve upper (store upper (log.take p)) request).2 := by
  have hnext : store upper (log.take (p + 1)) =
      (serve upper (store upper (log.take p)) request).1 := by
    rw [List.take_add_one, h, ← store_concat]
    rfl
  have hmixed : mixed upper log (p + 1) (p + 1) = store upper (log.take (p + 1)) := rfl
  cases request with
  | snapshot now data =>
    rw [responseAt, hmixed, hnext, serve, postFinancialSnapshot]
    rcases saveSnapshot_cases upper (store upper (log.take p)) now data with
      ⟨hdata, hsave⟩ | ⟨hdata, text, hsave⟩
    · simp only [hsave]
      rfl
    · simp only [hsave]
  | decision now data => rfl
  | cockpit =>
    rw [responseAt, hmixed, hnext]
    rfl

/-- The request has begun on the store `s`, and reads a cockpit to be answered with the key
`id`. -/
def Started (upper : String → String) (s : Store) (id : Option ℕ) : Request num → Prop
  | .snapshot now data => ∃ saved k, saveSnapshot upper s now data = .ok (saved, k) ∧ id = some k
  | .decision _ _ => False
  | .cockpit => id = none

theorem Started.responseAt {upper : String → String} {log : List (Request num)} {p : ℕ}
    {id : Option ℕ} {request : Request num}
    (h : Started upper (store upper (log.take p)) id request) (m n : ℕ) :
    responseAt upper log p m n request =
      respond id (cockpitState num (mixed upper log m n)) := by
  cases request with
  | snapshot now data =>
    rcases h with ⟨saved, k, hsave, rfl⟩
    rw [Finance.responseAt, hsave]
  | decision now data => exact False.elim h
  | cockpit =>
    have hid : id = none := h
    rw [Finance.responseAt, hid]

/-- The first step writes what the request served alone would write; it goes on to read a
cockpit, or has its answer. -/
theorem begin_spec (upper : String → String) (s : Store) (request : Request num) :
    (begin upper s request).1 = (serve upper s request).1 ∧
    ((∃ id, (begin upper s request).2 = .reading id ∧ Started upper s id request) ∨
      ∃ r, (begin upper s request).2 = .answered r ∧
        ∀ (log : List (Request num)) (p m n : ℕ), store upper (log.take p) = s →
          r = responseAt upper log p m n request) := by
  cases request with
  | snapshot now data =>
    rw [begin, serve, postFinancialSnapshot]
    rcases saveSnapshot_cases upper s now data with ⟨hdata, hsave⟩ | ⟨hdata, text, hsave⟩
    · rw [hsave]
      exact ⟨rfl, Or.inl ⟨_, rfl, _, _, hsave, rfl⟩⟩
    · rw [hsave]
      refine ⟨rfl, Or.inr ⟨_, rfl, ?_⟩⟩
      intro log p m n hlog
      rw [responseAt, hlog, hsave]
  | decision now data =>
    refine ⟨rfl, Or.inr ⟨_, rfl, ?_⟩⟩
    intro log p m n hlog
    rw [responseAt, hlog]
  | cockpit => exact ⟨rfl, Or.inl ⟨none, rfl, rfl⟩⟩

/-! ## Every interleaving -/

section

variable {ι : Type} {upper : String → String} {requests : ι → Request num}

/-- Where request `i` stands in the order, by its phase: `m` and `n` are the first steps
before its queries. -/
def Placed (upper : String → String) (requests : ι → Request num) (order : List ι) (i : ι)
    (m n : ℕ) : Phase → Prop
  | .arrived => i ∉ order
  | .reading id => ∃ p, order[p]? = some i ∧
      Started upper (store upper ((order.map requests).take p)) id (requests i)
  | .between id snap => ∃ p, order[p]? = some i ∧ p < m ∧ m ≤ order.length ∧
      Started upper (store upper ((order.map requests).take p)) id (requests i) ∧
      snap = (store upper ((order.map requests).take m)).snapshots.newest.head?
  | .answered r => ∃ p, order[p]? = some i ∧ p < m ∧ m ≤ n ∧ n ≤ order.length ∧
      r = responseAt upper (order.map requests) p m n (requests i)

theorem take_map_concat {order : List ι} {n : ℕ} (h : n ≤ order.length) (j : ι) :
    ((order ++ [j]).map requests).take n = (order.map requests).take n := by
  have hle : n ≤ (order.map requests).length := by rwa [List.length_map]
  rw [List.map_append, List.take_append_of_le_length hle]

/-- The first step of another request changes nothing. -/
theorem Placed.concat {order : List ι} {i j : ι} {m n : ℕ} {phase : Phase}
    (h : Placed upper requests order i m n phase) (hj : j ≠ i) :
    Placed upper requests (order ++ [j]) i m n phase := by
  have hlength : (order ++ [j]).length = order.length + 1 := List.length_append
  -- a place and the prefixes up to it are the same in the longer order
  have hplace : ∀ p, order[p]? = some i → p ≤ order.length ∧ (order ++ [j])[p]? = some i := by
    intro p hp
    have hlt := (List.getElem?_eq_some_iff.1 hp).1
    rw [List.getElem?_append_left hlt]
    exact ⟨hlt.le, hp⟩
  cases phase with
  | arrived =>
    intro hmem
    rcases List.mem_append.1 hmem with hmem | hmem
    · exact h hmem
    · exact hj (List.mem_singleton.1 hmem).symm
  | reading id =>
    obtain ⟨p, hp, hstarted⟩ := h
    obtain ⟨hle, hp'⟩ := hplace p hp
    refine ⟨p, hp', ?_⟩
    rw [take_map_concat hle]
    exact hstarted
  | between id snap =>
    obtain ⟨p, hp, hlt, hm, hstarted, hsnap⟩ := h
    obtain ⟨hle, hp'⟩ := hplace p hp
    refine ⟨p, hp', hlt, by omega, ?_, ?_⟩
    · rw [take_map_concat hle]
      exact hstarted
    · rw [take_map_concat hm]
      exact hsnap
  | answered r =>
    -- the answer is a function of three prefixes, none of which the new request reaches
    obtain ⟨p, hp, hlt, hmn, hn, hr⟩ := h
    obtain ⟨hle, hp'⟩ := hplace p hp
    refine ⟨p, hp', hlt, hmn, by omega, ?_⟩
    have hm : m ≤ order.length := hmn.trans hn
    have hsame : responseAt upper ((order ++ [j]).map requests) p m n (requests i) =
        responseAt upper (order.map requests) p m n (requests i) := by
      unfold responseAt mixed
      rw [take_map_concat hle, take_map_concat hm, take_map_concat hn]
    rw [hsame]
    exact hr

variable [DecidableEq ι]

/-- The store is that of the requests served in the order of their first steps, and every
request has its place in it. -/
structure Linearized (upper : String → String) (requests : ι → Request num) (s : Threads ι) :
    Prop where
  nodup : s.order.Nodup
  store : s.store = Finance.store upper (s.order.map requests)
  placed : ∀ i, Placed upper requests s.order i (s.seenSnapshots i) (s.seenDecisions i) (s.phase i)

theorem Linearized.step {s : Threads ι} (h : Linearized upper requests s) (i : ι) :
    Linearized upper requests (threadStep upper requests s i) := by
  have hi := h.placed i
  have hall : (s.order.map requests).take s.order.length = s.order.map requests := by
    rw [List.take_of_length_le]
    rw [List.length_map]
  rw [threadStep]
  cases hphase : s.phase i with
  | arrived =>
    -- the thread takes its place at the end of the order, and its write is the
    -- commit that `store` makes there
    rw [hphase] at hi
    have hnew : i ∉ s.order := hi
    obtain ⟨hbegin, hgoes⟩ := begin_spec upper s.store (requests i)
    have hbefore : Finance.store upper (((s.order ++ [i]).map requests).take s.order.length) =
        s.store := by
      rw [take_map_concat (le_refl _), hall, h.store]
    refine ⟨?_, ?_, ?_⟩
    · rw [List.nodup_append]
      refine ⟨h.nodup, List.nodup_singleton i, ?_⟩
      intro a ha b hb hab
      rw [List.mem_singleton] at hb
      exact hnew (hb ▸ hab ▸ ha)
    · show (begin upper s.store (requests i)).1 = _
      rw [hbegin, List.map_append, List.map_singleton, store_concat, ← h.store]
    · intro j
      dsimp only
      by_cases hj : j = i
      · subst hj
        rw [Function.update_self, Function.update_self, Function.update_self]
        have hplace : (s.order ++ [j])[s.order.length]? = some j := List.getElem?_concat_length
        rcases hgoes with ⟨id, heq, hstarted⟩ | ⟨r, heq, hr⟩
        · -- it goes on to read, or answers here because its request is refused
          rw [heq]
          refine ⟨s.order.length, hplace, ?_⟩
          rw [hbefore]
          exact hstarted
        · rw [heq]
          refine ⟨s.order.length, hplace, Nat.lt_succ_self _, le_refl _, ?_, ?_⟩
          · rw [List.length_append, List.length_singleton]
          · exact hr _ _ _ _ hbefore
      · rw [Function.update_of_ne hj, Function.update_of_ne hj, Function.update_of_ne hj]
        -- the places of the others are before the new one
        exact (h.placed j).concat (fun heq => hj heq.symm)
  | reading id =>
    -- the first query: what it saw is the store as the order stands now
    rw [hphase] at hi
    obtain ⟨p, hp, hstarted⟩ := hi
    have hlt := (List.getElem?_eq_some_iff.1 hp).1
    refine ⟨h.nodup, h.store, ?_⟩
    intro j
    dsimp only
    by_cases hj : j = i
    · subst hj
      rw [Function.update_self, Function.update_self, Function.update_self]
      refine ⟨p, hp, hlt, le_refl _, hstarted, ?_⟩
      rw [hall, h.store]
    · rw [Function.update_of_ne hj, Function.update_of_ne hj, Function.update_of_ne hj]
      exact h.placed j
  | between id snap =>
    -- the second query may see more of the order than the first did, so the answer is
    -- that of the mixed store
    rw [hphase] at hi
    obtain ⟨p, hp, hlt, hm, hstarted, hsnap⟩ := hi
    refine ⟨h.nodup, h.store, ?_⟩
    intro j
    dsimp only
    by_cases hj : j = i
    · subst hj
      rw [Function.update_self, Function.update_self]
      refine ⟨p, hp, hlt, hm, le_refl _, ?_⟩
      rw [hstarted.responseAt, cockpitState_eq, mixed, hall, ← h.store, ← hsnap]
    · rw [Function.update_of_ne hj, Function.update_of_ne hj]
      exact h.placed j
  | answered r => exact h

theorem linearized_threads (upper : String → String) (requests : ι → Request num)
    (steps : List ι) : Linearized upper requests (threads upper requests steps) := by
  have hinit : Linearized upper requests {} :=
    ⟨List.nodup_nil, rfl, fun _ => List.not_mem_nil⟩
  have hstep : ∀ s i, Linearized upper requests s → True →
      Linearized upper requests (threadStep upper requests s i) :=
    fun _ i hs _ => hs.step i
  exact Runs.run_invariant hstep hinit (fun _ _ => trivial) (List.prefix_refl steps)

/-- A request that is answered stays so, and the order goes on. -/
theorem answered_stays {s : Threads ι} {i : ι} {r : Response} (h : s.phase i = .answered r)
    (steps : List ι) :
    (Runs.run (threadStep upper requests) s steps).phase i = .answered r ∧
      (Runs.run (threadStep upper requests) s steps).seenDecisions i = s.seenDecisions i ∧
      s.order <+: (Runs.run (threadStep upper requests) s steps).order := by
  have hstep : ∀ (s' : Threads ι) j, (s'.phase i = .answered r ∧
      s'.seenDecisions i = s.seenDecisions i ∧ s.order <+: s'.order) → True →
      (threadStep upper requests s' j).phase i = .answered r ∧
        (threadStep upper requests s' j).seenDecisions i = s.seenDecisions i ∧
        s.order <+: (threadStep upper requests s' j).order := by
    rintro s' j ⟨hphase, hseen, horder⟩ _
    by_cases hj : j = i
    · -- a thread that has answered takes no more steps
      subst hj
      rw [threadStep, hphase]
      exact ⟨hphase, hseen, horder⟩
    · have hi : i ≠ j := fun heq => hj heq.symm
      rw [threadStep]
      cases s'.phase j with
      | arrived =>
        dsimp only
        rw [Function.update_of_ne hi, Function.update_of_ne hi]
        -- only an arrival lengthens the order
        exact ⟨hphase, hseen, horder.trans (List.prefix_append _ _)⟩
      | reading id =>
        dsimp only
        rw [Function.update_of_ne hi, Function.update_of_ne hi]
        exact ⟨hphase, hseen, horder⟩
      | between id snap =>
        dsimp only
        rw [Function.update_of_ne hi, Function.update_of_ne hi]
        exact ⟨hphase, hseen, horder⟩
      | answered _ => exact ⟨hphase, hseen, horder⟩
  exact Runs.run_invariant hstep ⟨h, rfl, List.prefix_refl _⟩ (fun _ _ => trivial)
    (List.prefix_refl steps)

end

/-! ## What the answers say -/

section

variable {upper : String → String} {log : List (Request num)} {p m n : ℕ}

/-- The status that a request is to get. -/
def expectedStatus : Request num → ℕ
  | .snapshot _ data => if Admissible data then 201 else 409
  | .decision _ _ => 201
  | .cockpit => 200

theorem readable_mixed (upper : String → String) (log : List (Request num)) (m n : ℕ) :
    Readable num (mixed upper log m n) := readable_store upper (log.take n)

theorem responseAt_status (upper : String → String) (log : List (Request num)) (p m n : ℕ)
    (request : Request num) :
    (responseAt upper log p m n request).statusCode = expectedStatus request := by
  obtain ⟨c, hc, -⟩ := cockpitState_spec (readable_mixed upper log m n)
  cases request with
  | snapshot now data =>
    rw [responseAt, expectedStatus]
    rcases saveSnapshot_cases upper (store upper (log.take p)) now data with
      ⟨hdata, hsave⟩ | ⟨hdata, text, hsave⟩
    · rw [hsave, if_pos hdata]
      dsimp only
      rw [hc]
      rfl
    · rw [hsave, if_neg hdata]
      rfl
  | decision now data => rfl
  | cockpit =>
    rw [responseAt, hc]
    rfl

/-- The newest snapshot after `m` requests is a row of the store from then on. -/
theorem newest_mem (upper : String → String) (log : List (Request num)) (m : ℕ)
    {row : ℕ × SnapshotRow}
    (h : (store upper (log.take m)).snapshots.newest.head? = some row) :
    row ∈ (store upper log).snapshots.rows ∧ row.1 = (admissible (log.take m)).length := by
  have hsplit : admissible log = admissible (log.take m) ++ admissible (log.drop m) := by
    rw [admissible, admissible, admissible, ← List.filterMap_append, List.take_append_drop]
  rw [store_eq] at h ⊢
  have hmem : row ∈ (Table.insertAll ((admissible (log.take m)).map
      (fun q => snapshotRow upper q.1 q.2))).rows := by
    rw [← List.mem_reverse, ← Table.newest_eq_reverse]
    exact List.mem_of_mem_head? h
  constructor
  · rw [hsplit, List.map_append]
    exact (Table.rows_insertAll_prefix _ _).subset hmem
  · -- the first of the newest rows is the last one of the table
    rcases List.eq_nil_or_concat (admissible (log.take m)) with hnil | ⟨before, last, hlast⟩
    · rw [hnil] at h
      cases h
    · rw [hlast, List.concat_eq_append, List.map_append, List.map_singleton,
        Table.insertAll_concat, Table.newest_insert, List.head?_cons, Option.some.injEq] at h
      rw [hlast, List.concat_eq_append, List.length_append, ← h, Table.seq_insertAll,
        List.length_map]
      rfl

/-- The cockpit of an accepted snapshot shows that snapshot, or a newer one. -/
theorem responseAt_own {now : Utc} {data : FinancialSnapshotIn} {id : ℕ} {c : Cockpit}
    (hp : log[p]? = some (.snapshot now data)) (hpm : p < m)
    (h : responseAt upper log p m n (.snapshot now data) = .snapshotSaved id c) :
    ∃ row ∈ (store upper log).snapshots.rows, id ≤ row.1 ∧
      c.financial = some (financialEntry row.2) := by
  obtain ⟨c', hc, -, hfinancial, -⟩ := cockpitState_spec (readable_mixed upper log m n)
  rw [responseAt] at h
  rcases saveSnapshot_cases upper (store upper (log.take p)) now data with
    ⟨hdata, hsave⟩ | ⟨hdata, text, hsave⟩
  · rw [hsave] at h
    dsimp only at h
    rw [hc] at h
    cases h
    -- the request is one of the first `m`
    have hcount : (admissible (log.take p)).length + 1 ≤ (admissible (log.take m)).length := by
      have hnext : admissible (log.take (p + 1)) = admissible (log.take p) ++ [(now, data)] := by
        rw [List.take_add_one, hp, Option.toList_some, admissible_concat]
        simp [admissible, hdata]
      have hprefix : (admissible (log.take (p + 1))).length ≤ (admissible (log.take m)).length := by
        refine List.Sublist.length_le (List.Sublist.filterMap _ ?_)
        exact (List.take_prefix_take_left hpm).sublist
      rw [hnext, List.length_append, List.length_singleton] at hprefix
      exact hprefix
    cases hnewest : (store upper (log.take m)).snapshots.newest.head? with
    | none =>
      rw [store_eq, Table.newest_eq_reverse, List.head?_reverse, List.getLast?_eq_none_iff] at hnewest
      have hseq := Table.length_newest_insertAll
        ((admissible (log.take m)).map (fun q => snapshotRow upper q.1 q.2))
      rw [Table.newest_eq_reverse, hnewest, List.length_map] at hseq
      simp only [List.reverse_nil, List.length_nil] at hseq
      omega
    | some row =>
      obtain ⟨hmem, hkey⟩ := newest_mem upper log m hnewest
      refine ⟨row, hmem, ?_, ?_⟩
      · rw [hkey, store_eq, Table.seq_insertAll, List.length_map]
        exact hcount
      · rw [hfinancial]
        show (store upper (log.take m)).snapshots.newest.head?.map _ = _
        rw [hnewest]
        rfl
  · rw [hsave] at h
    cases h

end

section

variable {ι : Type}

theorem Linearized.answered {upper : String → String} {requests : ι → Request num} {s : Threads ι}
    (h : Linearized upper requests s) {i : ι} {r : Response} (hphase : s.phase i = .answered r) :
    ∃ p, s.order[p]? = some i ∧ p < s.seenSnapshots i ∧
      s.seenSnapshots i ≤ s.seenDecisions i ∧ s.seenDecisions i ≤ s.order.length ∧
      r = responseAt upper (s.order.map requests) p (s.seenSnapshots i) (s.seenDecisions i)
        (requests i) := by
  have hplaced := h.placed i
  rw [hphase] at hplaced
  exact hplaced

theorem getElem?_requests {requests : ι → Request num} {order : List ι} {p : ℕ} {i : ι}
    (h : order[p]? = some i) : (order.map requests)[p]? = some (requests i) := by
  rw [List.getElem?_map, h]
  rfl

/-- An answered snapshot is shown, or a newer one is. -/
theorem Linearized.own_snapshot {upper : String → String} {requests : ι → Request num}
    {s : Threads ι} (h : Linearized upper requests s) {i : ι} {id : ℕ} {c : Cockpit}
    (hphase : s.phase i = .answered (.snapshotSaved id c)) :
    ∃ row ∈ s.store.snapshots.rows, id ≤ row.1 ∧ c.financial = some (financialEntry row.2) := by
  obtain ⟨p, hp, hlt, -, -, hr⟩ := h.answered hphase
  have hlog : (s.order.map requests)[p]? = some (requests i) := getElem?_requests hp
  cases hrequest : requests i with
  | snapshot now data =>
    rw [hrequest] at hr hlog
    rw [h.store]
    exact responseAt_own hlog hlt hr.symm
  | decision now data =>
    rw [hrequest] at hr
    cases hr
  | cockpit =>
    rw [hrequest, responseAt] at hr
    obtain ⟨c', hc, -⟩ := cockpitState_spec
      (readable_mixed upper (s.order.map requests) (s.seenSnapshots i) (s.seenDecisions i))
    rw [hc] at hr
    cases hr

variable [DecidableEq ι]

/-- A request that has not begun gets its place behind all that an answered one has seen. -/
theorem begins_later (upper : String → String) (requests : ι → Request num) (earlier later : List ι)
    {i j : ι} {r : Response} (hi : (threads upper requests earlier).phase i = .answered r)
    (hj : (threads upper requests earlier).phase j = .arrived) :
    (threads upper requests (earlier ++ later)).phase i = .answered r ∧
      ∀ p, (threads upper requests (earlier ++ later)).order[p]? = some j →
        (threads upper requests (earlier ++ later)).seenDecisions i ≤ p := by
  have hearlier := linearized_threads upper requests earlier
  have hsplit : threads upper requests (earlier ++ later) =
      Runs.run (threadStep upper requests) (threads upper requests earlier) later :=
    Runs.run_append _ _ _ _
  obtain ⟨hphase, hseen, horder⟩ := answered_stays hi later
  rw [← hsplit] at hphase hseen horder
  refine ⟨hphase, ?_⟩
  intro p hp
  obtain ⟨_, -, -, -, hle, -⟩ := hearlier.answered hi
  have hnew : j ∉ (threads upper requests earlier).order := by
    have hplaced := hearlier.placed j
    rw [hj] at hplaced
    exact hplaced
  -- the place of `j` is none of the earlier ones
  by_contra hlt
  rw [hseen] at hlt
  obtain ⟨rest, hrest⟩ := horder
  rw [← hrest, List.getElem?_append_left (by omega)] at hp
  exact hnew (List.mem_of_getElem? hp)

end

end AdsHub.Finance
