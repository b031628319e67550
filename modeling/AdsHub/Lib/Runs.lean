import Mathlib.Data.List.Basic
import Mathlib.Data.List.Infix

/-!
# AdsHub.Lib.Runs — runs of a deterministic labelled machine

A machine is a total step function `step : σ → ℓ → σ`; a run is the list of
labels it takes. A label that is not enabled is a stutter, so every list of
labels is a run and "for every run" needs no side condition.

Two rules carry all the invariants of this development:

* `run_invariant` — the invariant is kept by every step of the run, so it
  holds after every initial part of it;
* `along_invariant` — the same when a step keeps the invariant only under a
  condition on the state it is taken in (`Along`).
-/

namespace Runs

variable {σ : Type*} {ℓ : Type*}

/-- The state after the labels `ls`, taken one after another. -/
def run (step : σ → ℓ → σ) (s : σ) (ls : List ℓ) : σ := ls.foldl step s

@[simp] theorem run_nil (step : σ → ℓ → σ) (s : σ) : run step s [] = s := rfl

@[simp] theorem run_cons (step : σ → ℓ → σ) (s : σ) (l : ℓ) (ls : List ℓ) :
    run step s (l :: ls) = run step (step s l) ls := rfl

theorem run_append (step : σ → ℓ → σ) (s : σ) (ls ms : List ℓ) :
    run step s (ls ++ ms) = run step (run step s ls) ms := by
  simp [run, List.foldl_append]

@[simp] theorem run_concat (step : σ → ℓ → σ) (s : σ) (ls : List ℓ) (l : ℓ) :
    run step s (ls ++ [l]) = step (run step s ls) l := by
  rw [run_append]
  rfl

/-- `Along step C s ls`: every label of the run from `s` is taken in a state
that meets `C`. -/
def Along (step : σ → ℓ → σ) (C : σ → ℓ → Prop) : σ → List ℓ → Prop
  | _, [] => True
  | s, l :: ls => C s l ∧ Along step C (step s l) ls

theorem along_append (step : σ → ℓ → σ) (C : σ → ℓ → Prop) (s : σ) (ls ms : List ℓ) :
    Along step C s (ls ++ ms) ↔
      Along step C s ls ∧ Along step C (run step s ls) ms := by
  induction ls generalizing s with
  | nil => simp [Along]
  | cons l ls ih => simp [Along, ih, and_assoc]

/-- The condition holds along a run if each of its steps meets it. -/
theorem along_iff_prefix (step : σ → ℓ → σ) (C : σ → ℓ → Prop) (s : σ) (ls : List ℓ) :
    Along step C s ls ↔ ∀ pre l, pre ++ [l] <+: ls → C (run step s pre) l := by
  constructor
  · rintro h pre l ⟨rest, rfl⟩
    rw [List.append_assoc, along_append] at h
    exact h.2.1
  · intro h
    induction ls generalizing s with
    | nil => trivial
    | cons l ls ih =>
      refine ⟨h [] l ⟨ls, rfl⟩, ih (step s l) ?_⟩
      rintro pre m ⟨rest, rfl⟩
      exact h (l :: pre) m ⟨rest, rfl⟩

/-- A property of all the labels can be added to the condition. -/
theorem along_and {step : σ → ℓ → σ} {C : σ → ℓ → Prop} {P : ℓ → Prop} {s : σ} {ls : List ℓ}
    (hC : Along step C s ls) (hP : ∀ l ∈ ls, P l) :
    Along step (fun s l => C s l ∧ P l) s ls := by
  induction ls generalizing s with
  | nil => trivial
  | cons l ls ih =>
    rw [List.forall_mem_cons] at hP
    exact ⟨⟨hC.1, hP.1⟩, ih hC.2 hP.2⟩

/-- Inductive invariance under a condition on the states the steps are taken
in: the invariant holds after every initial part of the run. -/
theorem along_invariant {step : σ → ℓ → σ} {C : σ → ℓ → Prop} {Inv : σ → Prop}
    (hstep : ∀ s l, Inv s → C s l → Inv (step s l))
    {s : σ} (hs : Inv s) {ls : List ℓ} (hC : Along step C s ls)
    {pre : List ℓ} (hpre : pre <+: ls) : Inv (run step s pre) := by
  rcases hpre with ⟨rest, rfl⟩
  have hC' : Along step C s pre := ((along_append step C s pre rest).1 hC).1
  clear hC
  induction pre generalizing s with
  | nil => exact hs
  | cons l pre ih => exact ih (hstep s l hs hC'.1) hC'.2

/-- Inductive invariance: what every label of the run keeps, holds after every
initial part of it. -/
theorem run_invariant {step : σ → ℓ → σ} {P : ℓ → Prop} {Inv : σ → Prop}
    (hstep : ∀ s l, Inv s → P l → Inv (step s l))
    {s : σ} (hs : Inv s) {ls : List ℓ} (hP : ∀ l ∈ ls, P l)
    {pre : List ℓ} (hpre : pre <+: ls) : Inv (run step s pre) := by
  have hP' : ∀ l ∈ pre, P l := fun l hl => hP l (hpre.subset hl)
  clear hpre hP
  induction pre generalizing s with
  | nil => exact hs
  | cons l pre ih =>
    rw [List.forall_mem_cons] at hP'
    exact ih (hstep s l hs hP'.1) hP'.2

/-- Two machines that take the same labels stay related if each label keeps them so. -/
theorem run_related {σ' : Type*} {step : σ → ℓ → σ} {step' : σ' → ℓ → σ'} {Rel : σ → σ' → Prop}
    (hstep : ∀ s s' l, Rel s s' → Rel (step s l) (step' s' l)) {s : σ} {s' : σ'} (h : Rel s s')
    (ls : List ℓ) : Rel (run step s ls) (run step' s' ls) := by
  induction ls generalizing s s' with
  | nil => exact h
  | cons l ls ih => exact ih (hstep s s' l h)

/-- Two tests select the same labels of a run only if they agree on each. -/
theorem filter_eq_filter_iff {p q : ℓ → Bool} {ls : List ℓ} :
    ls.filter p = ls.filter q ↔ ∀ l ∈ ls, p l = q l := by
  constructor
  · intro h l hl
    have hmem : l ∈ ls.filter p ↔ l ∈ ls.filter q := by rw [h]
    rw [List.mem_filter, List.mem_filter, and_iff_right hl, and_iff_right hl] at hmem
    exact Bool.eq_iff_iff.2 hmem
  · exact List.filter_congr

end Runs
