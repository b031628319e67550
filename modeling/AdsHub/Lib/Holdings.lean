import Mathlib.Algebra.BigOperators.Group.List.Basic
import Mathlib.Algebra.Group.Basic
import Mathlib.Data.List.MinMax
import Mathlib.Data.List.Nodup

/-!
# AdsHub.Lib.Holdings — accounts that hold an amount

A list of accounts, each with an amount in a commutative group, and two things that are
done with it:

* `post` adds an amount at one place of the list, and `transfer` takes it from another
  place first. `total_post` says what that does to the sum, `total_transfer` that a
  transfer keeps it, also from a place to itself;
* the place with the greatest or the least value of some key among the accounts that
  are eligible, the first one of several (`argmax_firstMax`, `argmin_firstMin`).
-/

/-- Accounts that hold an amount, to which an amount can be added. -/
structure Holding (α M : Type*) [AddCommGroup M] where
  amount : α → M
  add : α → M → α
  amount_add : ∀ a x, amount (add a x) = amount a + x
  add_add : ∀ a x y, add (add a x) y = add a (x + y)
  add_zero : ∀ a, add a 0 = a

namespace Holding

/-! ## Posting and transferring -/

section

variable {α M : Type*} [AddCommGroup M] (h : Holding α M)

/-- The sum of the amounts. -/
def total (l : List α) : M := (l.map h.amount).sum

/-- The amount `x` is added at place `i`. -/
def post (l : List α) (i : ℕ) (x : M) : List α := l.modify i (fun a => h.add a x)

/-- The amount `x` goes from place `i` to place `j`. -/
def transfer (l : List α) (i j : ℕ) (x : M) : List α := h.post (h.post l i (-x)) j x

@[simp] theorem length_post (l : List α) (i : ℕ) (x : M) : (h.post l i x).length = l.length :=
  List.length_modify _ _ _

theorem getElem?_post (l : List α) (i : ℕ) (x : M) (j : ℕ) :
    (h.post l i x)[j]? = l[j]?.map (fun a => if i = j then h.add a x else a) :=
  List.getElem?_modify _ _ _ _

theorem total_post {l : List α} {i : ℕ} (hi : i < l.length) (x : M) :
    h.total (h.post l i x) = h.total l + x := by
  unfold total post
  induction l generalizing i with
  | nil => exact absurd hi (Nat.not_lt_zero i)
  | cons a l ih =>
    cases i with
    | zero =>
      rw [List.modify_zero_cons, List.map_cons, List.map_cons, List.sum_cons, List.sum_cons,
        h.amount_add, add_right_comm]
    | succ i =>
      rw [List.modify_succ_cons, List.map_cons, List.map_cons, List.sum_cons, List.sum_cons,
        ih (Nat.lt_of_succ_lt_succ hi), add_assoc]

/-- A transfer keeps the sum. -/
theorem total_transfer {l : List α} {i j : ℕ} (hi : i < l.length) (hj : j < l.length) (x : M) :
    h.total (h.transfer l i j x) = h.total l := by
  unfold transfer
  rw [h.total_post (by rwa [length_post]), h.total_post hi, neg_add_cancel_right]

/-- What was taken and is given back at the same place leaves no trace. -/
theorem transfer_self (l : List α) (i : ℕ) (x : M) : h.transfer l i i x = l := by
  refine List.ext_getElem? ?_
  intro j
  unfold transfer
  rw [getElem?_post, getElem?_post, Option.map_map]
  by_cases hj : i = j
  · simp [hj, Function.comp_def, h.add_add, h.add_zero]
  · simp [hj, Function.comp_def]

end

/-! ## The first of the best -/

section

variable {α β : Type*} [LinearOrder β]

/-- `a` stands at place `i`, is eligible, and has the greatest key of those that are; no
eligible one before it has the same key. -/
def FirstMax (key : α → β) (eligible : α → Bool) (l : List α) (i : ℕ) (a : α) : Prop :=
  l[i]? = some a ∧ eligible a = true ∧ ∀ j b, l[j]? = some b → eligible b = true →
    key b ≤ key a ∧ (j < i → key b < key a)

/-- The same for the least key. -/
def FirstMin (key : α → β) (eligible : α → Bool) (l : List α) (i : ℕ) (a : α) : Prop :=
  l[i]? = some a ∧ eligible a = true ∧ ∀ j b, l[j]? = some b → eligible b = true →
    key a ≤ key b ∧ (j < i → key a < key b)

/-- The eligible elements, each with its place. -/
def eligibles (eligible : α → Bool) (l : List α) : List (α × ℕ) :=
  l.zipIdx.filter (fun p => eligible p.1)

theorem mem_eligibles {eligible : α → Bool} {l : List α} {p : α × ℕ} :
    p ∈ eligibles eligible l ↔ l[p.2]? = some p.1 ∧ eligible p.1 = true := by
  rw [eligibles, List.mem_filter, List.mem_zipIdx_iff_getElem?]

theorem eligibles_increasing (eligible : α → Bool) (l : List α) :
    (eligibles eligible l).Pairwise (fun p q => p.2 < q.2) := by
  refine List.Pairwise.filter _ ?_
  have hplaces : (l.zipIdx.map Prod.snd).Pairwise (· < ·) := by
    rw [List.zipIdx_map_snd]
    exact List.pairwise_lt_range'
  exact List.pairwise_map.1 hplaces

/-- In a list in which the places grow, an earlier element has the smaller place. -/
theorem place_le_of_idxOf_le {γ : Type*} [DecidableEq γ] {place : γ → ℕ} {l : List γ}
    (h : l.Pairwise (fun p q => place p < place q)) {p q : γ} (hp : p ∈ l) (hq : q ∈ l)
    (hle : l.idxOf p ≤ l.idxOf q) : place p ≤ place q := by
  rcases Nat.lt_or_eq_of_le hle with hlt | heq
  · have hplaces := List.pairwise_iff_getElem.1 h (l.idxOf p) (l.idxOf q)
      (List.idxOf_lt_length_iff.2 hp) (List.idxOf_lt_length_iff.2 hq) hlt
    rw [List.getElem_idxOf, List.getElem_idxOf] at hplaces
    exact hplaces.le
  · rw [(List.idxOf_inj hp).1 heq]

theorem argmax_firstMax [DecidableEq α] {key : α → β} {eligible : α → Bool} {l : List α}
    {p : α × ℕ} (h : (eligibles eligible l).argmax (fun p => key p.1) = some p) :
    FirstMax key eligible l p.2 p.1 := by
  have hmem := List.argmax_mem h
  obtain ⟨hplace, helig⟩ := mem_eligibles.1 hmem
  refine ⟨hplace, helig, ?_⟩
  intro j b hb hbelig
  have hb' : (b, j) ∈ eligibles eligible l := mem_eligibles.2 ⟨hb, hbelig⟩
  have hle := List.le_of_mem_argmax hb' h
  refine ⟨hle, ?_⟩
  -- an earlier one with the same key would have been taken
  intro hj
  by_contra hnot
  have hidx := List.index_of_argmax h hb' (not_lt.1 hnot)
  exact absurd (place_le_of_idxOf_le (eligibles_increasing eligible l) hmem hb' hidx) (not_le.2 hj)

theorem argmin_firstMin [DecidableEq α] {key : α → β} {eligible : α → Bool} {l : List α}
    {p : α × ℕ} (h : (eligibles eligible l).argmin (fun p => key p.1) = some p) :
    FirstMin key eligible l p.2 p.1 := by
  -- the least key is the greatest one of the reversed order
  have hdual : (eligibles eligible l).argmax (fun p => OrderDual.toDual (key p.1)) = some p := h
  exact argmax_firstMax hdual

end

end Holding
