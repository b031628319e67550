import Mathlib.Data.List.Basic
import AdsHub.Lib.Board

/-!
# AdsHub.Lib.Mailbox — a bounded queue that drops what does not fit

A mailbox is filled by `offer` and emptied by `take`. An offer to a full mailbox
is lost, and nobody is told. Beside the queue it keeps its history: what has been
taken, and every offer together with the number of messages that were waiting at
that moment.

`Sound` is the one invariant: what was taken and what is waiting are together the
offers that found room, in order. What a reader has missed, and when its latest
message for a key is out of date, follows from it.
-/

/-- A queue with its history. -/
structure Mailbox (α : Type*) where
  queue : List α := []
  delivered : List α := []
  offered : List (α × ℕ) := []

namespace Mailbox

variable {α κ : Type*} {cap : ℕ} {m : Mailbox α}

/-- The message is appended if there is room for it. -/
def offer (cap : ℕ) (x : α) (m : Mailbox α) : Mailbox α where
  queue := if m.queue.length < cap then m.queue ++ [x] else m.queue
  delivered := m.delivered
  offered := m.offered ++ [(x, m.queue.length)]

/-- The first waiting message, if there is one, is taken out. -/
def take (m : Mailbox α) : Mailbox α where
  queue := m.queue.tail
  delivered := m.delivered ++ m.queue.head?.toList
  offered := m.offered

/-- The offers that found room. -/
def kept (cap : ℕ) (offered : List (α × ℕ)) : List α :=
  (offered.filter (fun p => p.2 < cap)).map Prod.fst

theorem kept_concat (cap : ℕ) (offered : List (α × ℕ)) (x : α) (n : ℕ) :
    kept cap (offered ++ [(x, n)]) = kept cap offered ++ if n < cap then [x] else [] := by
  unfold kept
  rw [List.filter_append, List.map_append]
  by_cases h : n < cap <;> simp [h]

theorem mem_kept {offered : List (α × ℕ)} {x : α} {n : ℕ} (h : (x, n) ∈ offered) (hn : n < cap) :
    x ∈ kept cap offered := by
  refine List.mem_map.2 ⟨(x, n), ?_, rfl⟩
  simpa [hn] using h

theorem kept_sublist (cap : ℕ) (offered : List (α × ℕ)) :
    (kept cap offered).Sublist (offered.map Prod.fst) :=
  List.filter_sublist.map Prod.fst

/-- What holds of a mailbox that has been used by `offer` and `take` only. -/
structure Sound (cap : ℕ) (m : Mailbox α) : Prop where
  split : m.delivered ++ m.queue = kept cap m.offered
  bounded : m.queue.length ≤ cap
  waiting : ∀ p ∈ m.offered, p.2 ≤ cap

theorem sound_empty (cap : ℕ) : Sound cap ({} : Mailbox α) where
  split := rfl
  bounded := Nat.zero_le cap
  waiting := fun _ hp => absurd hp List.not_mem_nil

theorem Sound.offer (h : Sound cap m) (x : α) : Sound cap (m.offer cap x) where
  split := by
    show m.delivered ++ (if m.queue.length < cap then m.queue ++ [x] else m.queue) =
      kept cap (m.offered ++ [(x, m.queue.length)])
    rw [kept_concat, ← h.split]
    by_cases hroom : m.queue.length < cap
    · rw [if_pos hroom, if_pos hroom, List.append_assoc]
    · rw [if_neg hroom, if_neg hroom, List.append_nil]
  bounded := by
    show (if m.queue.length < cap then m.queue ++ [x] else m.queue).length ≤ cap
    split
    · rw [List.length_append, List.length_singleton]
      omega
    · exact h.bounded
  waiting := by
    intro p hp
    rcases List.mem_append.1 hp with hp | hp
    · exact h.waiting p hp
    · rw [List.mem_singleton] at hp
      subst hp
      exact h.bounded

theorem Sound.take (h : Sound cap m) : Sound cap m.take where
  split := by
    show m.delivered ++ m.queue.head?.toList ++ m.queue.tail = kept cap m.offered
    rw [← h.split]
    cases m.queue with
    | nil => simp
    | cons x q => simp
  bounded := by
    show m.queue.tail.length ≤ cap
    have hb := h.bounded
    rw [List.length_tail]
    omega
  waiting := h.waiting

/-- Taken and waiting messages are among the offers, in order. -/
theorem Sound.sublist (h : Sound cap m) :
    (m.delivered ++ m.queue).Sublist (m.offered.map Prod.fst) := by
  rw [h.split]
  exact kept_sublist cap m.offered

/-- An offer is missing only if the mailbox was full when it was made. -/
theorem Sound.full_of_missing (h : Sound cap m) {x : α} {n : ℕ} (hx : (x, n) ∈ m.offered)
    (hmissing : x ∉ m.delivered ++ m.queue) : n = cap := by
  have hle : n ≤ cap := h.waiting (x, n) hx
  rw [h.split] at hmissing
  by_contra hne
  exact hmissing (mem_kept hx (by omega))

/-! ## The latest message for a key -/

section

variable [DecidableEq κ] {key : α → κ} {k : κ}

/-- Among offers without repetition, the latest one that found room is the latest of
all for a key exactly when the latest of all has found room. -/
theorem lastFor_kept_iff {offered : List (α × ℕ)} (hnodup : (offered.map Prod.fst).Nodup) :
    Board.lastFor key k (kept cap offered) = Board.lastFor key k (offered.map Prod.fst) ↔
      ∀ x n, Board.lastFor (fun p => key p.1) k offered = some (x, n) → n < cap := by
  induction offered using List.reverseRecOn with
  | nil =>
    constructor
    · intro _ x n h
      cases h
    · intro _
      rfl
  | append_singleton offered p ih =>
    rcases p with ⟨x, n⟩
    rw [List.map_append, List.nodup_append] at hnodup
    rcases hnodup with ⟨hnodup, -, hdisjoint⟩
    -- the latest offer was not made before
    have hfresh : x ∉ offered.map Prod.fst := by
      intro hx
      exact hdisjoint x hx x (by simp) rfl
    rw [kept_concat, List.map_append, List.map_singleton, Board.lastFor_concat,
      Board.lastFor_concat]
    by_cases hk : key x = k
    · rw [if_pos hk, if_pos hk]
      by_cases hn : n < cap
      · rw [if_pos hn, Board.lastFor_concat, if_pos hk]
        simp only [Option.some.injEq, Prod.mk.injEq, true_iff]
        rintro y i ⟨-, rfl⟩
        exact hn
      · -- the offer was lost, so it is not among the kept ones, where it would be last
        rw [if_neg hn, List.append_nil]
        constructor
        · intro h
          rcases Board.mem_of_lastFor h with ⟨hmem, -⟩
          exact absurd ((kept_sublist cap offered).subset hmem) hfresh
        · intro h
          exact absurd (h x n rfl) hn
    · rw [if_neg hk, if_neg hk]
      by_cases hn : n < cap
      · rw [if_pos hn, Board.lastFor_concat, if_neg hk]
        exact ih hnodup
      · rw [if_neg hn, List.append_nil]
        exact ih hnodup

end

end Mailbox
