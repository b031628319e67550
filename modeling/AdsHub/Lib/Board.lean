import Mathlib.Data.List.Basic
import Mathlib.Data.List.Infix
import Mathlib.Logic.Function.Basic
import AdsHub.Lib.Runs

/-!
# AdsHub.Lib.Board — processes that share a board of slots

A board keeps one slot per key, and a message overwrites the slot of its key.
Any number of processes put their messages on it, each the ones of its own script
in order, in any interleaving. A process does not read the board, so its script
is fixed beforehand.

Two facts describe every reachable state: what a process has posted is an initial
part of its script (`posted_prefix`), and a slot holds what it held at the start,
if nobody has posted for it, or else the latest message of one of the processes
for that key (`slot_run`).
-/

namespace Board

variable {κ α : Type*} [DecidableEq κ]

/-! ## The latest message for a key -/

/-- The latest message for the key `k`. -/
def lastFor (key : α → κ) (k : κ) (xs : List α) : Option α :=
  xs.reverse.find? (fun x => key x = k)

theorem lastFor_concat (key : α → κ) (k : κ) (xs : List α) (x : α) :
    lastFor key k (xs ++ [x]) = if key x = k then some x else lastFor key k xs := by
  unfold lastFor
  rw [List.reverse_append, List.reverse_singleton, List.singleton_append, List.find?_cons]
  by_cases h : key x = k <;> simp [h]

theorem lastFor_append (key : α → κ) (k : κ) (xs ys : List α) :
    lastFor key k (xs ++ ys) = (lastFor key k ys).or (lastFor key k xs) := by
  unfold lastFor
  rw [List.reverse_append, List.find?_append]

theorem mem_of_lastFor {key : α → κ} {k : κ} {xs : List α} {x : α}
    (h : lastFor key k xs = some x) : x ∈ xs ∧ key x = k := by
  refine ⟨List.mem_reverse.1 (List.mem_of_find?_eq_some h), ?_⟩
  simpa using List.find?_some h

theorem lastFor_ne_none {key : α → κ} {xs : List α} {x : α} (h : x ∈ xs) :
    lastFor key (key x) xs ≠ none := by
  intro hnone
  unfold lastFor at hnone
  rw [List.find?_eq_none] at hnone
  exact absurd (decide_eq_true rfl) (hnone x (List.mem_reverse.2 h))

end Board

/-- A store with one slot per key. `write` takes a stamp beside the message; the
slot then holds an entry whose content is the message, and no other slot changes. -/
structure Board (σ τ κ α β : Type*) where
  key : α → κ
  write : σ → τ → α → σ
  slot : σ → κ → Option β
  content : β → α
  slot_write_same : ∀ s t x, ∃ e, slot (write s t x) (key x) = some e ∧ content e = x
  slot_write_other : ∀ s t x k, k ≠ key x → slot (write s t x) k = slot s k

namespace Board

variable {σ τ κ α β ι : Type*} [DecidableEq ι]

/-- The store, and what each process has posted so far. -/
structure State (ι σ α : Type*) where
  store : σ
  posted : ι → List α

/-- Nothing is posted yet. -/
def start (s : σ) : State ι σ α := ⟨s, fun _ => []⟩

/-- Process `i` posts `x` at stamp `t`. -/
def post (b : Board σ τ κ α β) (s : State ι σ α) (i : ι) (t : τ) (x : α) : State ι σ α where
  store := b.write s.store t x
  posted := Function.update s.posted i (s.posted i ++ [x])

/-- A process posts the next message of its script; one whose script is over does
nothing. -/
def step (b : Board σ τ κ α β) (script : ι → List α) (s : State ι σ α) (l : ι × τ) : State ι σ α :=
  match (script l.1)[(s.posted l.1).length]? with
  | none => s
  | some x => post b s l.1 l.2 x

/-- A slot holds the latest message of a process for its key, or what it held in
`s₀` if nobody has posted for it. -/
def Holds [DecidableEq κ] (b : Board σ τ κ α β) (s₀ : σ) (s : State ι σ α) (k : κ) : Prop :=
  (b.slot s.store k = b.slot s₀ k ∧ ∀ i, lastFor b.key k (s.posted i) = none) ∨
  ∃ i e, b.slot s.store k = some e ∧ lastFor b.key k (s.posted i) = some (b.content e)

/-! ## One step -/

section

variable {b : Board σ τ κ α β} {script : ι → List α} {s : State ι σ α}

@[simp] theorem post_posted_self (i : ι) (t : τ) (x : α) :
    (post b s i t x).posted i = s.posted i ++ [x] := by
  simp [post]

theorem post_posted_other {i j : ι} (h : j ≠ i) (t : τ) (x : α) :
    (post b s i t x).posted j = s.posted j := by
  simp [post, h]

/-- The message posted is the next one of the script. -/
theorem post_prefix {i : ι} {x : α} (h : ∀ j, s.posted j <+: script j)
    (hx : (script i)[(s.posted i).length]? = some x) (t : τ) (j : ι) :
    (post b s i t x).posted j <+: script j := by
  by_cases hj : j = i
  · subst hj
    rw [post_posted_self]
    rcases h j with ⟨rest, hrest⟩
    cases rest with
    | nil =>
      -- nothing was left of the script
      rw [← hrest, List.append_nil, List.getElem?_eq_none (le_refl _)] at hx
      cases hx
    | cons y rest =>
      -- `x` is the first of what was left
      rw [← hrest, List.getElem?_append_right (le_refl _), Nat.sub_self] at hx
      cases hx
      exact ⟨rest, by rw [List.append_assoc]; exact hrest⟩
  · rw [post_posted_other hj]
    exact h j

/-- A post for another key leaves everyone's latest message for `k` as it was. -/
theorem lastFor_post_other [DecidableEq κ] {k : κ} {x : α} (hk : k ≠ b.key x) (i : ι) (t : τ)
    (j : ι) : lastFor b.key k ((post b s i t x).posted j) = lastFor b.key k (s.posted j) := by
  by_cases hj : j = i
  · rw [hj, post_posted_self, lastFor_concat, if_neg (Ne.symm hk)]
  · rw [post_posted_other hj]

theorem post_holds [DecidableEq κ] {s₀ : σ} {k : κ} (h : Holds b s₀ s k) (i : ι) (t : τ) (x : α) :
    Holds b s₀ (post b s i t x) k := by
  by_cases hk : k = b.key x
  · -- the slot that is written holds the new message of process `i`
    subst hk
    rcases b.slot_write_same s.store t x with ⟨e, he, hcontent⟩
    refine Or.inr ⟨i, e, he, ?_⟩
    rw [post_posted_self, lastFor_concat, if_pos rfl, hcontent]
  · -- any other slot is kept, and so is everyone's latest message for it
    have hslot : b.slot (post b s i t x).store k = b.slot s.store k :=
      b.slot_write_other s.store t x k hk
    rcases h with ⟨hsame, hnone⟩ | ⟨j, e, he, hj⟩
    · refine Or.inl ⟨hslot.trans hsame, ?_⟩
      intro j
      rw [lastFor_post_other hk]
      exact hnone j
    · refine Or.inr ⟨j, e, hslot.trans he, ?_⟩
      rw [lastFor_post_other hk]
      exact hj

end

/-! ## Every run -/

variable (b : Board σ τ κ α β) (script : ι → List α) (s₀ : σ) (ls : List (ι × τ))

/-- What a process has posted is an initial part of its script. -/
theorem posted_prefix (i : ι) : (Runs.run (step b script) (start s₀) ls).posted i <+: script i := by
  have hstep : ∀ (s : State ι σ α) l, (∀ j, s.posted j <+: script j) → True →
      ∀ j, (step b script s l).posted j <+: script j := by
    intro s l h _
    unfold step
    cases hx : (script l.1)[(s.posted l.1).length]? with
    | none => exact h
    | some x => exact post_prefix h hx l.2
  exact Runs.run_invariant hstep (fun j => List.nil_prefix) (fun l _ => trivial)
    (List.prefix_refl ls) i

/-- What a slot holds. -/
theorem slot_run [DecidableEq κ] (k : κ) :
    Holds b s₀ (Runs.run (step b script) (start s₀) ls) k := by
  have hstep : ∀ (s : State ι σ α) l, Holds b s₀ s k → True → Holds b s₀ (step b script s l) k := by
    intro s l h _
    unfold step
    cases (script l.1)[(s.posted l.1).length]? with
    | none => exact h
    | some x => exact post_holds h l.1 l.2 x
  exact Runs.run_invariant hstep (Or.inl ⟨rfl, fun i => rfl⟩) (fun l _ => trivial)
    (List.prefix_refl ls)

end Board
