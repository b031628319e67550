import Mathlib.Algebra.Order.Group.Defs
import Mathlib.Algebra.BigOperators.Group.List.Basic
import Mathlib.Data.List.Induction
import Mathlib.Tactic.Abel
import AdsHub.Lib.Runs

/-!
# AdsHub.Lib.Admission — an admission gate in front of a running total

Demands arrive one after another at a running total with a limit. A *gated*
demand asks for an amount and is let through when the total plus what it asks
stays within the limit; an *ungated* one is always let through. What is let
through adds its cost, which need not be what was asked.

The general facts, over any linearly ordered abelian group:

* `add_le_limit` — a demand that costs no more than it asks keeps the total
  within the limit;
* `exists_limit` — whatever the history, some limit leaves exactly a given
  room after it. This is what makes the two characterisations below exact;
* `total_le_limit_iff` — the total stays within *every* limit iff every demand
  costs at most what it asks;
* `decisions_eq_iff` — two histories with the same gated demands are answered
  alike under every limit iff the ungated costs before each gated demand agree.
-/

namespace Admission

variable {α : Type*}

/-- One demand: what it asks the gate for (`none` when it is not gated) and
what it adds to the total once it is let through. -/
structure Demand (α : Type*) where
  ask : Option α
  cost : α

/-- The gated demands of a history, in order. -/
def gated (ds : List (Demand α)) : List (Demand α) := ds.filter (·.ask.isSome)

theorem gated_concat (ds : List (Demand α)) (d : Demand α) :
    gated (ds ++ [d]) = gated ds ++ (if d.ask.isSome then [d] else []) := by
  cases hd : d.ask <;> simp [gated, hd]

/-! ## Ungated costs -/

section Ungated

variable [AddCommGroup α]

/-- The ungated cost of a whole history. -/
def ungatedCost (ds : List (Demand α)) : α :=
  ((ds.filter (·.ask.isNone)).map (·.cost)).sum

/-- For each gated demand, the ungated costs before it (from `u` on). -/
def ungatedBefore : α → List (Demand α) → List α
  | _, [] => []
  | u, d :: ds =>
    if d.ask.isSome then u :: ungatedBefore u ds else ungatedBefore (u + d.cost) ds

theorem ungatedBefore_concat (u : α) (ds : List (Demand α)) (d : Demand α) :
    ungatedBefore u (ds ++ [d]) =
      ungatedBefore u ds ++ (if d.ask.isSome then [u + ungatedCost ds] else []) := by
  induction ds generalizing u with
  | nil => simp [ungatedBefore, ungatedCost]
  | cons x ds ih =>
    cases hx : x.ask <;> simp [ungatedBefore, ungatedCost, hx, ih, add_assoc]

theorem ungatedBefore_length (u : α) (ds : List (Demand α)) :
    (ungatedBefore u ds).length = (gated ds).length := by
  induction ds generalizing u with
  | nil => rfl
  | cons d ds ih =>
    have ih' : ∀ v, (ungatedBefore v ds).length = (ds.filter (·.ask.isSome)).length := ih
    cases hd : d.ask <;> simp [ungatedBefore, gated, hd, ih']

end Ungated

/-! ## The gate -/

section Gate

variable [AddCommGroup α] [LinearOrder α]

/-- The gate's answer at running total `t`. -/
def admits (limit t : α) (d : Demand α) : Bool :=
  match d.ask with
  | none => true
  | some e => decide (t + e ≤ limit)

/-- The running total after one demand. -/
def add (limit t : α) (d : Demand α) : α :=
  if admits limit t d then t + d.cost else t

/-- The running total after the demands `ds`. -/
def total (limit t : α) (ds : List (Demand α)) : α := Runs.run (add limit) t ds

/-- The answers to the gated demands, in order. -/
def decisions (limit : α) : α → List (Demand α) → List Bool
  | _, [] => []
  | t, d :: ds =>
    if d.ask.isSome then admits limit t d :: decisions limit (add limit t d) ds
    else decisions limit (add limit t d) ds

@[simp] theorem total_nil (limit t : α) : total limit t [] = t := rfl

@[simp] theorem total_cons (limit t : α) (d : Demand α) (ds : List (Demand α)) :
    total limit t (d :: ds) = total limit (add limit t d) ds := rfl

theorem total_concat (limit t : α) (ds : List (Demand α)) (d : Demand α) :
    total limit t (ds ++ [d]) = add limit (total limit t ds) d :=
  Runs.run_concat _ _ _ _

theorem admits_some {limit t e : α} {d : Demand α} (h : d.ask = some e) :
    admits limit t d = true ↔ t + e ≤ limit := by
  simp [admits, h]

theorem admits_none {limit t : α} {d : Demand α} (h : d.ask = none) :
    admits limit t d = true := by
  simp [admits, h]

theorem decisions_concat (limit t : α) (ds : List (Demand α)) (d : Demand α) :
    decisions limit t (ds ++ [d]) =
      decisions limit t ds ++
        (if d.ask.isSome then [admits limit (total limit t ds) d] else []) := by
  induction ds generalizing t with
  | nil => simp [decisions]
  | cons x ds ih =>
    simp only [List.cons_append, decisions, total_cons, ih]
    split <;> rfl

/-- What the gated demands make of the total when each meets the given ungated
cost: the answers, and the gated part of the total. -/
def replay (limit : α) : α → List (Demand α × α) → List Bool × α
  | g, [] => ([], g)
  | g, (d, u) :: rest =>
    let adm := admits limit (g + u) d
    let next := replay limit (if adm then g + d.cost else g) rest
    (adm :: next.1, next.2)

/-- A history is answered as its gated demands with the ungated costs before
each, and its total is their total plus all the ungated costs. -/
theorem decisions_eq_replay (limit g u : α) (ds : List (Demand α)) :
    decisions limit (g + u) ds = (replay limit g ((gated ds).zip (ungatedBefore u ds))).1 ∧
    total limit (g + u) ds =
      (replay limit g ((gated ds).zip (ungatedBefore u ds))).2 + (u + ungatedCost ds) := by
  -- on the demands, with the running total split into gated and ungated costs
  induction ds generalizing g u with
  | nil => simp [decisions, gated, replay, ungatedCost]
  | cons d ds ih =>
    cases hask : d.ask with
    | none =>
      -- an ungated demand only adds to what the next gated one finds
      have hadd : add limit (g + u) d = g + (u + d.cost) := by
        rw [add, if_pos (admits_none hask), add_assoc]
      have h := ih g (u + d.cost)
      simp only [decisions, hask, Option.isSome_none, Bool.false_eq_true, if_false, gated,
        List.filter_cons, ungatedBefore, total_cons, hadd]
      refine ⟨h.1, ?_⟩
      rw [h.2]
      simp [ungatedCost, gated, hask, add_assoc]
    | some e =>
      have hadd : add limit (g + u) d =
          (if admits limit (g + u) d then g + d.cost else g) + u := by
        unfold add
        split
        · abel
        · rfl
      have h := ih (if admits limit (g + u) d then g + d.cost else g) u
      simp only [decisions, hask, Option.isSome_some, if_true, gated, List.filter_cons,
        ungatedBefore, total_cons, hadd, List.zip_cons_cons, replay]
      refine ⟨by rw [h.1]; rfl, ?_⟩
      rw [h.2]
      simp [ungatedCost, gated, hask]

/-- Without gated demands the total grows by all the costs. -/
theorem total_ungated {limit t : α} {ds : List (Demand α)} (h : ∀ d ∈ ds, d.ask = none) :
    total limit t ds = t + (ds.map (·.cost)).sum := by
  induction ds generalizing t with
  | nil => simp
  | cons d ds ih =>
    rw [List.forall_mem_cons] at h
    rw [total_cons, ih h.2, add, if_pos (admits_none h.1), List.map_cons, List.sum_cons, add_assoc]

/-- Two histories that agree in the gated demands and in the ungated costs before
them differ in total by exactly their ungated costs. -/
theorem total_add_ungatedCost {ds es : List (Demand α)} (hg : gated ds = gated es)
    (hu : ungatedBefore 0 ds = ungatedBefore 0 es) (limit t : α) :
    total limit t ds + ungatedCost es = total limit t es + ungatedCost ds := by
  have hd := (decisions_eq_replay limit t 0 ds).2
  have he := (decisions_eq_replay limit t 0 es).2
  rw [add_zero] at hd he
  rw [hd, he, hg, hu]
  abel

end Gate

/-! ## The limit -/

section Limit

variable [AddCommGroup α] [LinearOrder α] [IsOrderedAddMonoid α]

/-- `d` is gated and costs no more than it asks for. -/
def Honest (d : Demand α) : Prop := ∃ e, d.ask = some e ∧ d.cost ≤ e

theorem add_le_limit {limit t : α} {d : Demand α} (hd : Honest d) (ht : t ≤ limit) :
    add limit t d ≤ limit := by
  rcases hd with ⟨e, hask, hcost⟩
  unfold add
  split
  · next h => exact le_trans (add_le_add_right hcost t) ((admits_some hask).1 h)
  · exact ht

/-- One demand, read backwards: for every room `r ≥ 0` wanted after it there
is a room before it that leaves exactly `r`. -/
theorem exists_room_before {d : Demand α} (hcost : 0 ≤ d.cost) {r : α} (hr : 0 ≤ r) :
    ∃ r', 0 ≤ r' ∧ ∀ limit t : α, t + r' = limit → add limit t d + r = limit := by
  have hlet : ∀ limit t : α, t + (r + d.cost) = limit → admits limit t d = true →
      add limit t d + r = limit := by
    intro limit t h hadm
    rw [add, if_pos hadm, ← h]
    abel
  cases hask : d.ask with
  | none => exact ⟨r + d.cost, add_nonneg hr hcost, fun limit t h =>
      hlet limit t h (admits_none hask)⟩
  | some e =>
    by_cases he : e ≤ r + d.cost
    · -- let through: the room before has to cover the cost as well
      refine ⟨r + d.cost, add_nonneg hr hcost, fun limit t h => hlet limit t h ?_⟩
      rw [admits_some hask, ← h]
      exact add_le_add_right he t
    · -- turned away: the room is the same before and after
      refine ⟨r, hr, fun limit t h => ?_⟩
      have hno : ¬ admits limit t d = true := by
        rw [admits_some hask, ← h, not_le]
        have hlt : r < e := lt_of_le_of_lt (le_add_of_nonneg_right hcost) (not_le.1 he)
        exact add_lt_add_right hlt t
      rw [add, if_neg hno, h]

/-- For every history of nonnegative costs and every `r ≥ 0` some limit leaves
exactly the room `r` after it. -/
theorem exists_limit {ds : List (Demand α)} (hcost : ∀ d ∈ ds, 0 ≤ d.cost) (t : α)
    {r : α} (hr : 0 ≤ r) : ∃ limit, t ≤ limit ∧ total limit t ds + r = limit := by
  -- backwards over the history: `exists_room_before` moves the room to be left
  -- after the last demand in front of it
  induction ds using List.reverseRecOn generalizing r with
  | nil => exact ⟨t + r, le_add_of_nonneg_right hr, rfl⟩
  | append_singleton ds d ih =>
    rcases exists_room_before (hcost d (by simp)) hr with ⟨r', hr', hback⟩
    rcases ih (fun x hx => hcost x (by simp [hx])) hr' with ⟨limit, hle, htot⟩
    refine ⟨limit, hle, ?_⟩
    rw [total_concat]
    exact hback limit _ htot

/-- The total stays within every limit, at every point of the history, iff
every (gated) demand costs at most what it asks for. -/
theorem total_le_limit_iff {ds : List (Demand α)}
    (hgated : ∀ d ∈ ds, ∃ e, d.ask = some e ∧ 0 ≤ e) (hcost : ∀ d ∈ ds, 0 ≤ d.cost) (t : α) :
    (∀ limit, t ≤ limit → ∀ pre, pre <+: ds → total limit t pre ≤ limit) ↔
      ∀ d ∈ ds, Honest d := by
  constructor
  · intro h d hd
    rcases hgated d hd with ⟨e, hask, he⟩
    refine ⟨e, hask, ?_⟩
    -- a limit that leaves exactly `e` in front of `d` admits `d`
    rcases List.append_of_mem hd with ⟨pre, post, rfl⟩
    have hcost' : ∀ x ∈ pre, 0 ≤ x.cost := fun x hx => hcost x (by simp [hx])
    rcases exists_limit hcost' t he with ⟨limit, hle, htot⟩
    have hadm : admits limit (total limit t pre) d = true := (admits_some hask).2 htot.le
    have hpre : pre ++ [d] <+: pre ++ d :: post := ⟨post, by simp⟩
    have hfin := h limit hle _ hpre
    rw [total_concat, add, if_pos hadm] at hfin
    nth_rewrite 2 [← htot] at hfin
    exact le_of_add_le_add_left hfin
  · intro h limit ht pre hpre
    have hstep : ∀ s d, s ≤ limit → Honest d → add limit s d ≤ limit :=
      fun s d hs hd => add_le_limit hd hs
    exact Runs.run_invariant hstep ht h hpre

/-! ## Two histories with the same gated demands -/

/-- If the same gated demand is answered alike after two histories whose gated
parts are worth the same under every limit, the ungated costs compare. -/
theorem ungatedCost_le {ds es : List (Demand α)} {d : Demand α} {e t : α}
    (hask : d.ask = some e) (he : 0 ≤ e) (hds : ∀ x ∈ ds, 0 ≤ x.cost)
    (htot : ∀ limit, total limit t ds + ungatedCost es = total limit t es + ungatedCost ds)
    (hdec : ∀ limit, t ≤ limit →
      admits limit (total limit t ds) d = admits limit (total limit t es) d) :
    ungatedCost es ≤ ungatedCost ds := by
  -- the limit that leaves exactly `e` after `ds` admits `d` there, so also after `es`
  rcases exists_limit hds t he with ⟨limit, hle, hroom⟩
  have hadm : admits limit (total limit t ds) d = true := (admits_some hask).2 hroom.le
  rw [hdec limit hle, admits_some hask] at hadm
  nth_rewrite 2 [← hroom] at hadm
  have hcmp : total limit t es ≤ total limit t ds := le_of_add_le_add_right hadm
  by_contra hlt
  have hsum : total limit t es + ungatedCost ds < total limit t ds + ungatedCost es :=
    add_lt_add_of_le_of_lt hcmp (not_le.1 hlt)
  exact absurd (htot limit) hsum.ne'

/-- Two histories with the same gated demands get the same answers under every
limit iff the ungated costs before each gated demand are the same. -/
theorem decisions_eq_iff {ds es : List (Demand α)} (hg : gated ds = gated es)
    (hds : ∀ d ∈ ds, 0 ≤ d.cost) (hes : ∀ d ∈ es, 0 ≤ d.cost)
    (hask : ∀ d ∈ ds, ∀ e, d.ask = some e → 0 ≤ e) (t : α) :
    (∀ limit, t ≤ limit → decisions limit t ds = decisions limit t es) ↔
      ungatedBefore 0 ds = ungatedBefore 0 es := by
  constructor
  · intro h
    -- backwards over both histories; an ungated demand at the end of either
    -- changes nothing, a gated one is the last of both
    induction ds using List.reverseRecOn generalizing es with
    | nil =>
      have hlen := ungatedBefore_length 0 es
      rw [← hg] at hlen
      exact (List.length_eq_zero_iff.1 hlen).symm
    | append_singleton ds d ihd =>
      have hds' : ∀ x ∈ ds, 0 ≤ x.cost := fun x hx => hds x (by simp [hx])
      have hask' : ∀ x ∈ ds, ∀ e, x.ask = some e → 0 ≤ e :=
        fun x hx => hask x (by simp [hx])
      cases hd : d.ask with
      | none =>
        simp only [gated_concat, decisions_concat, ungatedBefore_concat, hd, Option.isSome_none,
          Bool.false_eq_true, if_false, List.append_nil] at hg h ⊢
        exact ihd hg hds' hes hask' h
      | some a =>
        induction es using List.reverseRecOn with
        | nil => simp [gated, hd] at hg
        | append_singleton es e ihe =>
          have hes' : ∀ x ∈ es, 0 ≤ x.cost := fun x hx => hes x (by simp [hx])
          cases he : e.ask with
          | none =>
            rw [gated_concat es] at hg
            simp only [decisions_concat _ _ es] at h
            rw [ungatedBefore_concat _ es]
            simp only [he, Option.isSome_none, Bool.false_eq_true, if_false,
              List.append_nil] at hg h ⊢
            exact ihe hg hes' h
          | some b =>
            simp only [gated_concat, decisions_concat, ungatedBefore_concat, hd, he,
              Option.isSome_some, if_true] at hg h ⊢
            rcases List.append_inj' hg rfl with ⟨hg', hde⟩
            have hde' : d = e := (List.cons.inj hde).1
            subst hde'
            have hdec : ∀ limit, t ≤ limit → decisions limit t ds = decisions limit t es :=
              fun limit hl => (List.append_inj' (h limit hl) rfl).1
            have hlast : ∀ limit, t ≤ limit →
                admits limit (total limit t ds) d = admits limit (total limit t es) d :=
              fun limit hl => (List.cons.inj (List.append_inj' (h limit hl) rfl).2).1
            have hu := ihd hg' hds' hes' hask' hdec
            have ha : 0 ≤ a := hask d (by simp) a hd
            have hsum := fun limit => total_add_ungatedCost hg' hu limit t
            have hle := ungatedCost_le hd ha hds' hsum hlast
            have hge := ungatedCost_le hd ha hes' (fun limit => (hsum limit).symm)
              (fun limit hl => (hlast limit hl).symm)
            rw [hu, le_antisymm hle hge]
  · intro hu limit _
    have hd := (decisions_eq_replay limit t 0 ds).1
    have he := (decisions_eq_replay limit t 0 es).1
    rw [add_zero] at hd he
    rw [hd, he, hg, hu]

end Limit

end Admission
