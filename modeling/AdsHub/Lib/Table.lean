import Mathlib.Data.List.Induction
import Mathlib.Data.List.Sort

/-!
# AdsHub.Lib.Table — a table whose key counts its rows

A table with a key that the database assigns (`INTEGER PRIMARY KEY AUTOINCREMENT`):
`seq` is the largest key ever given, an insert takes the next one, and the rows stand in
the order of their keys. The table carries both facts, so that a query in the order
of the key needs no hypothesis: `newest_insert` says that the row inserted last is the
first of `ORDER BY id DESC`.
-/

/-- Rows under keys that grow. -/
structure Table (α : Type*) where
  seq : ℕ
  rows : List (ℕ × α)
  increasing : rows.Pairwise (fun r s => r.1 < s.1)
  assigned : ∀ r ∈ rows, r.1 ≤ seq

namespace Table

variable {α : Type*}

/-- The table as it is created. -/
def empty : Table α where
  seq := 0
  rows := []
  increasing := List.Pairwise.nil
  assigned := fun _ h => absurd h List.not_mem_nil

/-- `INSERT`; the row's key is `(t.insert a).seq`. -/
def insert (t : Table α) (a : α) : Table α where
  seq := t.seq + 1
  rows := t.rows ++ [(t.seq + 1, a)]
  increasing := by
    rw [List.pairwise_append]
    refine ⟨t.increasing, List.pairwise_singleton _ _, ?_⟩
    intro r hr s hs
    rw [List.mem_singleton] at hs
    rw [hs]
    exact Nat.lt_succ_of_le (t.assigned r hr)
  assigned := by
    intro r hr
    rcases List.mem_append.1 hr with hr | hr
    · exact Nat.le_succ_of_le (t.assigned r hr)
    · rw [List.mem_singleton] at hr
      rw [hr]

/-- `SELECT ... ORDER BY id DESC`. -/
def newest (t : Table α) : List (ℕ × α) := t.rows.insertionSort (fun r s => s.1 ≤ r.1)

/-- The table after the inserts. -/
def insertAll (as : List α) : Table α := as.foldl insert empty

@[simp] theorem rows_empty : (empty : Table α).rows = [] := rfl

@[simp] theorem rows_insert (t : Table α) (a : α) :
    (t.insert a).rows = t.rows ++ [(t.seq + 1, a)] := rfl

@[simp] theorem insertAll_nil : insertAll ([] : List α) = empty := rfl

@[simp] theorem insertAll_concat (as : List α) (a : α) :
    insertAll (as ++ [a]) = (insertAll as).insert a := by
  rw [insertAll, List.foldl_append]
  rfl

/-- A key belongs to one row. -/
theorem eq_of_key (t : Table α) {r s : ℕ × α} (hr : r ∈ t.rows) (hs : s ∈ t.rows)
    (h : r.1 = s.1) : r = s := by
  have hkeys : (t.rows.map Prod.fst).Nodup := by
    rw [List.Nodup, List.pairwise_map]
    exact t.increasing.imp Nat.ne_of_lt
  exact List.inj_on_of_nodup_map hkeys hr hs h

/-- The rows are in order already; the query turns them round. -/
theorem newest_eq_reverse (t : Table α) : t.newest = t.rows.reverse := by
  have htotal : Std.Total (fun r s : ℕ × α => s.1 ≤ r.1) := ⟨fun r s => Nat.le_total s.1 r.1⟩
  have htrans : IsTrans (ℕ × α) (fun r s => s.1 ≤ r.1) := ⟨fun _ _ _ h h' => Nat.le_trans h' h⟩
  have hperm := List.perm_insertionSort (fun r s : ℕ × α => s.1 ≤ r.1) t.rows
  -- both lists have the same rows in descending order, and keys are distinct
  have hreverse : t.rows.reverse.Pairwise (fun r s => s.1 ≤ r.1) := by
    rw [List.pairwise_reverse]
    exact t.increasing.imp Nat.le_of_lt
  refine List.Perm.eq_of_pairwise ?_ (List.pairwise_insertionSort _ t.rows) hreverse
    (hperm.trans (List.reverse_perm _).symm)
  intro r s hr hs hrs hsr
  exact t.eq_of_key (hperm.mem_iff.1 hr) (List.mem_reverse.1 hs) (Nat.le_antisymm hsr hrs)

@[simp] theorem newest_empty : (empty : Table α).newest = [] := rfl

@[simp] theorem newest_insert (t : Table α) (a : α) :
    (t.insert a).newest = (t.seq + 1, a) :: t.newest := by
  rw [newest_eq_reverse, newest_eq_reverse, rows_insert, List.reverse_concat]

theorem length_newest_insertAll (as : List α) : (insertAll as).newest.length = as.length := by
  induction as using List.reverseRecOn with
  | nil => rfl
  | append_singleton as a ih => simp [ih]

/-- The newest row holds what was inserted last. -/
theorem head_newest_insertAll (as : List α) :
    (insertAll as).newest.head?.map Prod.snd = as.getLast? := by
  induction as using List.reverseRecOn with
  | nil => rfl
  | append_singleton as a _ => simp

/-- The keys count the inserts. -/
theorem seq_insertAll (as : List α) : (insertAll as).seq = as.length := by
  induction as using List.reverseRecOn with
  | nil => rfl
  | append_singleton as a ih =>
    rw [insertAll_concat, List.length_append, List.length_singleton, ← ih]
    rfl

/-- Rows stay where they are. -/
theorem rows_insertAll_prefix (as bs : List α) :
    (insertAll as).rows <+: (insertAll (as ++ bs)).rows := by
  induction bs using List.reverseRecOn with
  | nil => exact (List.append_nil as).symm ▸ List.prefix_refl _
  | append_singleton bs b ih =>
    rw [← List.append_assoc, insertAll_concat, rows_insert]
    exact ih.trans (List.prefix_append _ _)

/-- Every row holds a value that was inserted. -/
theorem mem_of_mem_insertAll {as : List α} {r : ℕ × α} (h : r ∈ (insertAll as).rows) :
    r.2 ∈ as := by
  induction as using List.reverseRecOn with
  | nil => exact absurd h List.not_mem_nil
  | append_singleton as a ih =>
    rw [insertAll_concat, rows_insert] at h
    rw [List.mem_append]
    rcases List.mem_append.1 h with h | h
    · exact Or.inl (ih h)
    · rw [List.mem_singleton] at h
      rw [h]
      exact Or.inr List.mem_cons_self

end Table
