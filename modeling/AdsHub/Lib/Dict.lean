import Mathlib.Data.List.Basic
import Mathlib.Data.List.Nodup

/-!
# AdsHub.Lib.Dict — dictionaries as lists of items

A dictionary is the list of its items in the order in which their keys were first
set, as Python keeps it. `set` assigns one key, `update` the items of another list;
keys stay distinct, and items under new, distinct keys are simply appended
(`update_eq_append`).
-/

namespace Dict

variable {κ β : Type*} [DecidableEq κ]

/-- `d[k] = v`: the value changes where the key stands, or a new item is appended. -/
def set (d : List (κ × β)) (k : κ) (v : β) : List (κ × β) :=
  if k ∈ d.map Prod.fst then d.map (fun p => if p.1 = k then (k, v) else p) else d ++ [(k, v)]

/-- `{**d, **items}`. -/
def update (d items : List (κ × β)) : List (κ × β) :=
  items.foldl (fun d p => set d p.1 p.2) d

/-- `dict(items)`. -/
def ofItems (items : List (κ × β)) : List (κ × β) := update [] items

@[simp] theorem update_nil (d : List (κ × β)) : update d [] = d := rfl

@[simp] theorem update_cons (d : List (κ × β)) (p : κ × β) (items : List (κ × β)) :
    update d (p :: items) = update (set d p.1 p.2) items := rfl

theorem set_new {d : List (κ × β)} {k : κ} (h : k ∉ d.map Prod.fst) (v : β) :
    set d k v = d ++ [(k, v)] := if_neg h

/-- Assigning to a key that is there leaves the keys as they are. -/
theorem set_keys {d : List (κ × β)} {k : κ} (h : k ∈ d.map Prod.fst) (v : β) :
    (set d k v).map Prod.fst = d.map Prod.fst := by
  rw [set, if_pos h, List.map_map]
  refine List.map_congr_left ?_
  intro p _
  by_cases hp : p.1 = k
  · simp [hp]
  · simp [hp]

theorem nodup_set {d : List (κ × β)} (h : (d.map Prod.fst).Nodup) (k : κ) (v : β) :
    ((set d k v).map Prod.fst).Nodup := by
  by_cases hk : k ∈ d.map Prod.fst
  · rw [set_keys hk]
    exact h
  · rw [set_new hk, List.map_append, List.nodup_append]
    refine ⟨h, by simp, ?_⟩
    intro a ha b hb hab
    rw [List.map_singleton, List.mem_singleton] at hb
    rw [hab, hb] at ha
    exact hk ha

theorem nodup_update {d : List (κ × β)} (h : (d.map Prod.fst).Nodup) (items : List (κ × β)) :
    ((update d items).map Prod.fst).Nodup := by
  induction items generalizing d with
  | nil => exact h
  | cons p items ih => exact ih (nodup_set h p.1 p.2)

/-- Items under distinct keys that are new are appended. -/
theorem update_eq_append {d items : List (κ × β)}
    (h : ((d ++ items).map Prod.fst).Nodup) : update d items = d ++ items := by
  induction items generalizing d with
  | nil => simp
  | cons p items ih =>
    have hnew : p.1 ∉ d.map Prod.fst := by
      rw [List.map_append, List.nodup_append] at h
      intro hp
      exact h.2.2 p.1 hp p.1 (by simp) rfl
    rw [update_cons, set_new hnew, ih (by simpa using h), List.append_assoc]
    rfl

theorem ofItems_eq {items : List (κ × β)} (h : (items.map Prod.fst).Nodup) :
    ofItems items = items := update_eq_append h

theorem mem_set_self (d : List (κ × β)) (k : κ) (v : β) : (k, v) ∈ set d k v := by
  by_cases hk : k ∈ d.map Prod.fst
  · rw [set, if_pos hk]
    rcases List.mem_map.1 hk with ⟨p, hp, hkey⟩
    exact List.mem_map.2 ⟨p, hp, if_pos hkey⟩
  · rw [set_new hk]
    exact List.mem_append_right _ (List.mem_singleton.2 rfl)

/-- An item under another key stays. -/
theorem mem_set_of_ne {d : List (κ × β)} {k : κ} {p : κ × β} (hp : p ∈ d) (hne : p.1 ≠ k) (v : β) :
    p ∈ set d k v := by
  by_cases hk : k ∈ d.map Prod.fst
  · rw [set, if_pos hk]
    exact List.mem_map.2 ⟨p, hp, if_neg hne⟩
  · rw [set_new hk]
    exact List.mem_append_left _ hp

theorem mem_of_mem_set {d : List (κ × β)} {k : κ} {v : β} {p : κ × β} (h : p ∈ set d k v) :
    p ∈ d ∨ p = (k, v) := by
  by_cases hk : k ∈ d.map Prod.fst
  · rw [set, if_pos hk] at h
    rcases List.mem_map.1 h with ⟨q, hq, heq⟩
    by_cases hqk : q.1 = k
    · rw [if_pos hqk] at heq
      exact Or.inr heq.symm
    · rw [if_neg hqk] at heq
      exact Or.inl (heq ▸ hq)
  · rw [set_new hk, List.mem_append, List.mem_singleton] at h
    exact h

theorem mem_of_mem_update {d items : List (κ × β)} {p : κ × β} (h : p ∈ update d items) :
    p ∈ d ∨ p ∈ items := by
  induction items generalizing d with
  | nil => exact Or.inl h
  | cons q items ih =>
    rcases ih h with h | h
    · rcases mem_of_mem_set h with h | h
      · exact Or.inl h
      · exact Or.inr (h ▸ List.mem_cons_self)
    · exact Or.inr (List.mem_cons_of_mem _ h)

/-- An item under a key that is not updated stays. -/
theorem mem_update_of_not_mem {d items : List (κ × β)} {p : κ × β} (hp : p ∈ d)
    (h : p.1 ∉ items.map Prod.fst) : p ∈ update d items := by
  induction items generalizing d with
  | nil => exact hp
  | cons q items ih =>
    rw [List.map_cons, List.mem_cons, not_or] at h
    exact ih (mem_set_of_ne hp h.1 q.2) h.2

/-- Of distinct items, all are in the dictionary that they update. -/
theorem mem_update {d items : List (κ × β)} (hnodup : (items.map Prod.fst).Nodup) {p : κ × β}
    (h : p ∈ items) : p ∈ update d items := by
  induction items generalizing d with
  | nil => exact absurd h List.not_mem_nil
  | cons q items ih =>
    rw [List.map_cons, List.nodup_cons] at hnodup
    rcases List.mem_cons.1 h with rfl | h
    · rw [update_cons]
      exact mem_update_of_not_mem (mem_set_self d p.1 p.2) hnodup.1
    · exact ih hnodup.2 h

/-- Values that change by their keys. -/
theorem lookup_map_value {γ : Type*} (g : κ → β → γ) (d : List (κ × β)) (k : κ) :
    (d.map (fun p => (p.1, g p.1 p.2))).lookup k = (d.lookup k).map (g k) := by
  induction d with
  | nil => rfl
  | cons p d ih =>
    rw [List.map_cons, List.lookup_cons, List.lookup_cons]
    by_cases h : k = p.1
    · rw [beq_iff_eq.2 h, h]
      rfl
    · rw [beq_eq_false_iff_ne.2 h]
      exact ih

/-- A key that is kept has its value. -/
theorem lookup_filter (keep : κ → Bool) {k : κ} (h : keep k = true) (d : List (κ × β)) :
    (d.filter (fun p => keep p.1)).lookup k = d.lookup k := by
  induction d with
  | nil => rfl
  | cons p d ih =>
    rw [List.filter_cons]
    by_cases hkeep : keep p.1 = true
    · rw [if_pos hkeep, List.lookup_cons, List.lookup_cons, ih]
    · have hne : k ≠ p.1 := by
        rintro rfl
        exact hkeep h
      rw [if_neg hkeep, List.lookup_cons, beq_eq_false_iff_ne.2 hne, ih]

/-- An item is found under its key. -/
theorem lookup_of_mem {d : List (κ × β)} (h : (d.map Prod.fst).Nodup) {p : κ × β} (hp : p ∈ d) :
    d.lookup p.1 = some p.2 := by
  obtain ⟨before, after, rfl⟩ := List.append_of_mem hp
  refine List.lookup_eq_some_iff.2 ⟨before, after, rfl, ?_⟩
  intro q hq
  rw [List.map_append, List.map_cons, List.nodup_append] at h
  have hne : q.1 ≠ p.1 := h.2.2 q.1 (List.mem_map_of_mem hq) p.1 List.mem_cons_self
  exact bne_iff_ne.2 hne.symm

theorem mem_of_lookup {d : List (κ × β)} {k : κ} {v : β} (h : d.lookup k = some v) :
    (k, v) ∈ d := by
  obtain ⟨before, after, rfl, -⟩ := List.lookup_eq_some_iff.1 h
  exact List.mem_append_right before List.mem_cons_self

theorem set_eq_map {d : List (κ × β)} {k : κ} (h : k ∈ d.map Prod.fst) (v : β) :
    set d k v = d.map (fun p => (p.1, if p.1 = k then v else p.2)) := by
  rw [set, if_pos h]
  refine List.map_congr_left ?_
  intro p _
  by_cases hp : p.1 = k
  · simp [hp]
  · simp [hp]

theorem lookup_set_self (d : List (κ × β)) (k : κ) (v : β) : (set d k v).lookup k = some v := by
  by_cases hk : k ∈ d.map Prod.fst
  · rw [set_eq_map hk, lookup_map_value (fun j w => if j = k then v else w)]
    obtain ⟨p, hp, hkey⟩ := List.mem_map.1 hk
    cases hlookup : d.lookup k with
    | none => exact absurd hkey.symm (bne_iff_ne.1 (List.lookup_eq_none_iff.1 hlookup p hp))
    | some w => exact congrArg some (if_pos rfl)
  · rw [set_new hk, List.lookup_append, List.lookup_cons_self]
    cases hlookup : d.lookup k with
    | none => rfl
    | some w =>
      obtain ⟨before, after, rfl, -⟩ := List.lookup_eq_some_iff.1 hlookup
      exact absurd (by simp) hk

theorem lookup_set_of_ne (d : List (κ × β)) {k j : κ} (h : j ≠ k) (v : β) :
    (set d k v).lookup j = d.lookup j := by
  by_cases hk : k ∈ d.map Prod.fst
  · rw [set_eq_map hk, lookup_map_value (fun i w => if i = k then v else w)]
    have hid : (fun w : β => if j = k then v else w) = id := funext (fun _ => if_neg h)
    rw [hid, Option.map_id_fun, id]
  · rw [set_new hk, List.lookup_append, List.lookup_cons, beq_eq_false_iff_ne.2 h, List.lookup_nil,
      Option.or_none]

end Dict
