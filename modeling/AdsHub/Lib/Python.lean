import Mathlib.Data.List.Basic
import AdsHub.Lib.JsonDecode

/-!
# AdsHub.Lib.Python — Python's operations on decoded JSON

Code that reads a JSON document without a schema meets values of any type. Each
operation here does what Python does with the value it is given, or raises: only a
dictionary has `get`, a list takes a negative index, `True == 1`, a string iterates over
its characters. `None` is the value `null`.

Numbers are exact, and a whole number is an `int`. Documents write their integers
without a fraction; an index written as `1.0`, where Python raises, is taken as 1 here.

A decoder sets every key once; `Keyed` says so, and `loads_keyed` that all values of
`json.loads` are such.
-/

namespace Python

/-- The exceptions; an assertion carries its message. -/
inductive Error where
  | attributeError
  | typeError
  | indexError
  | keyError
  | valueError
  | assertionError (message : String)
deriving DecidableEq

/-- `bool(x)`. -/
def isTruthy : Json → Bool
  | .null => false
  | .bool b => b
  | .num n => n ≠ 0
  | .str s => s ≠ ""
  | .arr items => !items.isEmpty
  | .obj fields => !fields.isEmpty

/-- `x or y`. -/
def orElse (x y : Json) : Json := if isTruthy x then x else y

/-- `x.get(key, fallback)`. -/
def get (x : Json) (key : String) (fallback : Json) : Except Error Json :=
  match x with
  | .obj fields => .ok ((fields.lookup key).getD fallback)
  | _ => .error .attributeError

/-- `x.items()`. -/
def items : Json → Except Error (List (String × Json))
  | .obj fields => .ok fields
  | _ => .error .attributeError

/-- The number that a number or a truth value is. -/
def number? : Json → Option ℚ
  | .num n => some n
  | .bool b => some (if b then 1 else 0)
  | _ => none

mutual

/-- `x == y`: numbers and truth values are compared as numbers, dictionaries whatever the
order of their items. -/
def equal : Json → Json → Bool
  | .null, .null => true
  | .bool a, y => number? y == some (if a then 1 else 0)
  | .num n, y => number? y == some n
  | .str s, .str t => s == t
  | .arr xs, .arr ys => equalItems xs ys
  | .obj xs, .obj ys => xs.length == ys.length && equalFields xs ys
  | _, _ => false

def equalItems : List Json → List Json → Bool
  | [], [] => true
  | x :: xs, y :: ys => equal x y && equalItems xs ys
  | _, _ => false

def equalFields : List (String × Json) → List (String × Json) → Bool
  | [], _ => true
  | (k, x) :: xs, ys =>
    (match ys.lookup k with
      | some y => equal x y
      | none => false) && equalFields xs ys

end

/-- `list(x)`. -/
def iter : Json → Except Error (List Json)
  | .arr items => .ok items
  | .obj fields => .ok (fields.map (fun f => .str f.1))
  | .str s => .ok (s.toList.map (fun c => .str (String.singleton c)))
  | _ => .error .typeError

/-- `len(x)`. -/
def len (x : Json) : Except Error ℕ := (iter x).map List.length

/-- The integer that a value is as an index. -/
def index? (x : Json) : Option ℤ :=
  match number? x with
  | some n => if n.den = 1 then some n.num else none
  | none => none

/-- An element of a list; a negative index counts from the end. -/
def nth {α : Type*} (l : List α) (i : ℤ) : Option α :=
  if 0 ≤ i then l[i.toNat]? else if -i ≤ l.length then l[(l.length + i).toNat]? else none

/-- The element of a sequence at an index. -/
def sequenceItem (l : List Json) (key : Json) : Except Error Json :=
  match index? key with
  | none => .error .typeError
  | some i =>
    match nth l i with
    | none => .error .indexError
    | some x => .ok x

/-- `x[key]`. -/
def item (x key : Json) : Except Error Json :=
  match x with
  | .arr l => sequenceItem l key
  | .str s => sequenceItem (s.toList.map (fun c => .str (String.singleton c))) key
  | .obj fields =>
    match key with
    | .str k =>
      match fields.lookup k with
      | none => .error .keyError
      | some v => .ok v
    -- lists and dictionaries cannot be looked up; other keys are never there
    | .arr _ => .error .typeError
    | .obj _ => .error .typeError
    | _ => .error .keyError
  | _ => .error .typeError

/-- `float(x)`; what it makes of a text is a parameter. -/
def float (ofText : String → Option ℚ) (x : Json) : Except Error ℚ :=
  match number? x with
  | some n => .ok n
  | none =>
    match x with
    | .str s =>
      match ofText s with
      | some n => .ok n
      | none => .error .valueError
    | _ => .error .typeError

/-- `x >= n` for an integer `n`. -/
def atLeast (x : Json) (n : ℕ) : Except Error Bool :=
  match number? x with
  | some q => .ok (decide ((n : ℚ) ≤ q))
  | none => .error .typeError

/-- `assert condition, message`. -/
def assert (condition : Bool) (message : String) : Except Error Unit :=
  if condition then .ok () else .error (.assertionError message)

@[simp] theorem get_obj (fields : List (String × Json)) (key : String) (fallback : Json) :
    get (.obj fields) key fallback = .ok ((fields.lookup key).getD fallback) := rfl

theorem get_eq_ok {x : Json} {key : String} {fallback v : Json} (h : get x key fallback = .ok v) :
    ∃ fields, x = .obj fields ∧ v = (fields.lookup key).getD fallback := by
  cases x with
  | obj fields => exact ⟨fields, rfl, (Except.ok.inj h).symm⟩
  | _ => cases h

theorem items_eq_ok {x : Json} {fields : List (String × Json)} (h : items x = .ok fields) :
    x = .obj fields := by
  cases x with
  | obj fields' => rw [Except.ok.inj h]
  | _ => cases h

/-- Only a dictionary has `get`. -/
theorem get_eq_error {x : Json} (h : ∀ fields, x ≠ .obj fields) (key : String) (fallback : Json) :
    get x key fallback = .error .attributeError := by
  cases x with
  | obj fields => exact absurd rfl (h fields)
  | _ => rfl

/-- A list with an element is true. -/
theorem isTruthy_arr {x : Json} {items : List Json} (h : x ∈ items) :
    isTruthy (.arr items) = true := by
  cases items with
  | nil => cases h
  | cons y items => rfl

/-- What `x or {}` can be. -/
theorem orElse_cases (x : Json) :
    (∃ fields, x = .obj fields ∧ orElse x (.obj []) = .obj fields) ∨
      (∀ fields, x ≠ .obj fields) ∧ (orElse x (.obj []) = x ∨ orElse x (.obj []) = .obj []) := by
  cases x with
  | obj fields =>
    refine Or.inl ⟨fields, rfl, ?_⟩
    cases fields <;> rfl
  | _ =>
    refine Or.inr ⟨?_, ?_⟩
    · intro fields h
      cases h
    · unfold orElse
      split
      · exact Or.inl rfl
      · exact Or.inr rfl

/-- A step of a computation that succeeds. -/
theorem bind_eq_ok {α β : Type} {x : Except Error α} {f : α → Except Error β} {b : β} :
    (x >>= f) = .ok b ↔ ∃ a, x = .ok a ∧ f a = .ok b := by
  cases x with
  | error e =>
    constructor
    · intro h
      cases h
    · rintro ⟨a, ha, -⟩
      cases ha
  | ok a =>
    constructor
    · intro h
      exact ⟨a, rfl, h⟩
    · rintro ⟨a', ha, h⟩
      cases ha
      exact h

theorem assert_eq_ok {condition : Bool} {message : String} :
    assert condition message = .ok () ↔ condition = true := by
  cases condition with
  | false =>
    constructor
    · intro h
      cases h
    · intro h
      cases h
  | true => exact ⟨fun _ => rfl, fun _ => rfl⟩

/-- An assertion that does not fail. -/
theorem assert_bind_eq_ok {β : Type} {condition : Bool} {message : String}
    {f : Unit → Except Error β} {b : β} :
    (assert condition message >>= f) = .ok b ↔ condition = true ∧ f () = .ok b := by
  cases condition with
  | false =>
    constructor
    · intro h
      cases h
    · rintro ⟨h, -⟩
      cases h
  | true =>
    constructor
    · intro h
      exact ⟨rfl, h⟩
    · rintro ⟨-, h⟩
      exact h

section

variable {α β : Type}

theorem mapM_congr {f g : α → Except Error β} {l : List α} (h : ∀ x ∈ l, f x = g x) :
    l.mapM f = l.mapM g := by
  induction l with
  | nil => rfl
  | cons x l ih =>
    rw [List.forall_mem_cons] at h
    rw [List.mapM_cons, List.mapM_cons, h.1, ih h.2]

theorem mapM_eq_ok {f : α → Except Error β} {g : α → β} {l : List α}
    (h : ∀ x ∈ l, f x = .ok (g x)) : l.mapM f = .ok (l.map g) := by
  induction l with
  | nil => rfl
  | cons x l ih =>
    rw [List.forall_mem_cons] at h
    rw [List.mapM_cons, h.1, ih h.2]
    rfl

/-- A loop that raises nothing has raised nothing at any element. -/
theorem forM_eq_ok {f : α → Except Error Unit} {l : List α} (h : l.forM f = .ok ()) :
    ∀ x ∈ l, f x = .ok () := by
  induction l with
  | nil =>
    intro x hx
    cases hx
  | cons x l ih =>
    obtain ⟨u, hx, hl⟩ := bind_eq_ok.1 h
    exact List.forall_mem_cons.2 ⟨hx, ih hl⟩

theorem mapM_total {f : α → Except Error β} {l : List α} (h : ∀ x ∈ l, ∃ y, f x = .ok y) :
    ∃ ys, l.mapM f = .ok ys := by
  induction l with
  | nil => exact ⟨[], rfl⟩
  | cons x l ih =>
    rw [List.forall_mem_cons] at h
    obtain ⟨y, hy⟩ := h.1
    obtain ⟨ys, hys⟩ := ih h.2
    rw [List.mapM_cons, hy, hys]
    exact ⟨y :: ys, rfl⟩

/-- A comprehension makes its elements one by one. -/
theorem mapM_forall₂ {f : α → Except Error β} {l : List α} {ys : List β}
    (h : l.mapM f = .ok ys) : List.Forall₂ (fun x y => f x = .ok y) l ys := by
  induction l generalizing ys with
  | nil =>
    cases h
    exact List.Forall₂.nil
  | cons x l ih =>
    rw [List.mapM_cons] at h
    obtain ⟨z, hz, h⟩ := bind_eq_ok.1 h
    obtain ⟨zs, hzs, h⟩ := bind_eq_ok.1 h
    cases h
    exact List.Forall₂.cons hz (ih hzs)

theorem exists_of_mapM {f : α → Except Error β} {l : List α} {ys : List β}
    (h : l.mapM f = .ok ys) {x : α} (hx : x ∈ l) : ∃ y ∈ ys, f x = .ok y := by
  obtain ⟨hlength, hget⟩ := List.forall₂_iff_get.1 (mapM_forall₂ h)
  obtain ⟨i, rfl⟩ := List.mem_iff_get.1 hx
  have hi : i.1 < ys.length := by
    rw [← hlength]
    exact i.2
  exact ⟨ys.get ⟨i, hi⟩, List.get_mem ys ⟨i, hi⟩, hget i i.2 hi⟩

/-- What a comprehension has made comes from one of the elements. -/
theorem mem_of_mapM {f : α → Except Error β} {l : List α} {ys : List β}
    (h : l.mapM f = .ok ys) {y : β} (hy : y ∈ ys) : ∃ x ∈ l, f x = .ok y := by
  induction l generalizing ys with
  | nil =>
    cases h
    cases hy
  | cons x l ih =>
    rw [List.mapM_cons] at h
    obtain ⟨z, hz, h⟩ := bind_eq_ok.1 h
    obtain ⟨zs, hzs, h⟩ := bind_eq_ok.1 h
    cases h
    rcases List.mem_cons.1 hy with rfl | hy
    · exact ⟨x, List.mem_cons_self, hz⟩
    · obtain ⟨x', hx', hfx⟩ := ih hzs hy
      exact ⟨x', List.mem_cons_of_mem x hx', hfx⟩

end

/-! ## Decoded values -/

/-- Every dictionary has distinct keys. -/
inductive Keyed : Json → Prop where
  | null : Keyed .null
  | bool (b : Bool) : Keyed (.bool b)
  | num (n : ℚ) : Keyed (.num n)
  | str (s : String) : Keyed (.str s)
  | arr {items : List Json} (h : ∀ x ∈ items, Keyed x) : Keyed (.arr items)
  | obj {fields : List (String × Json)} (hkeys : (fields.map Prod.fst).Nodup)
      (h : ∀ f ∈ fields, Keyed f.2) : Keyed (.obj fields)

open JsonText

section

variable {α : Type*} {P : α → Prop} {element : List Char → Option (α × List Char)} {close : Char}

theorem sequence_forall (helement : ∀ {l x rest}, element l = some (x, rest) → P x) {n : ℕ}
    {l rest : List Char} {xs : List α} (h : JsonText.sequence element close n l = some (xs, rest)) :
    ∀ x ∈ xs, P x := by
  induction n generalizing l xs with
  | zero => cases h
  | succ n ih =>
    unfold JsonText.sequence at h
    split at h
    · cases h
    · next x mid hx =>
      split at h
      · cases h
      · next c mid' _ =>
        split at h
        · cases h
          exact List.forall_mem_singleton.2 (helement hx)
        · split at h
          · obtain ⟨⟨ys, rest'⟩, hys, heq⟩ := Option.map_eq_some_iff.1 h
            cases heq
            exact List.forall_mem_cons.2 ⟨helement hx, ih hys⟩
          · cases h

theorem bracketed_forall (helement : ∀ {l x rest}, element l = some (x, rest) → P x) {n : ℕ}
    {l rest : List Char} {xs : List α} (h : bracketed element close n l = some (xs, rest)) :
    ∀ x ∈ xs, P x := by
  unfold bracketed at h
  split at h
  · cases h
  · split at h
    · cases h
      exact List.forall_mem_nil P
    · exact sequence_forall helement h

end

theorem member_keyed {value : List Char → Option (Json × List Char)}
    (hvalue : ∀ {l j rest}, value l = some (j, rest) → Keyed j) {l rest : List Char}
    {f : String × Json} (h : member value l = some (f, rest)) : Keyed f.2 := by
  unfold member at h
  split at h
  · cases h
  · split at h
    · split at h
      · cases h
      · split at h
        · cases h
        · split at h
          · obtain ⟨⟨j, rest'⟩, hj, heq⟩ := Option.map_eq_some_iff.1 h
            cases heq
            exact hvalue hj
          · cases h
    · cases h

theorem keyword_eq {word l rest : List Char} {j v : Json} (h : keyword word j l = some (v, rest)) :
    v = j := by
  unfold keyword at h
  split at h
  · cases h
    rfl
  · cases h

/-- The items of a literal become a dictionary, so that the last one of a key counts. -/
theorem keyed_ofItems {fields : List (String × Json)} (h : ∀ f ∈ fields, Keyed f.2) :
    Keyed (.obj (Dict.ofItems fields)) := by
  have hnil : (([] : List (String × Json)).map Prod.fst).Nodup := List.nodup_nil
  refine Keyed.obj (Dict.nodup_update hnil fields) ?_
  intro f hf
  rcases Dict.mem_of_mem_update hf with habsurd | hmem
  · cases habsurd
  · exact h f hmem

theorem value_keyed {num : List Char → ℚ} {n : ℕ} {l rest : List Char} {j : Json}
    (h : value num n l = some (j, rest)) : Keyed j := by
  -- on the fuel; an array or an object is keyed because its parts are
  induction n generalizing l rest j with
  | zero => cases h
  | succ n ih =>
    cases l with
    | nil => cases h
    | cons c cs =>
      unfold value at h
      split at h
      · obtain ⟨p, -, heq⟩ := Option.map_eq_some_iff.1 h
        cases heq
        exact Keyed.str _
      · split at h
        · obtain ⟨p, hp, heq⟩ := Option.map_eq_some_iff.1 h
          cases heq
          exact Keyed.arr (bracketed_forall ih hp)
        · split at h
          · obtain ⟨p, hp, heq⟩ := Option.map_eq_some_iff.1 h
            cases heq
            -- a later member with the same key replaces the earlier one
            exact keyed_ofItems (bracketed_forall (member_keyed ih) hp)
          · split at h
            · rw [keyword_eq h]
              exact Keyed.null
            · split at h
              · rw [keyword_eq h]
                exact Keyed.bool true
              · split at h
                · rw [keyword_eq h]
                  exact Keyed.bool false
                · unfold number at h
                  split at h
                  · cases h
                    exact Keyed.num _
                  · cases h

/-- What `json.loads` returns has distinct keys. -/
theorem loads_keyed {num : List Char → ℚ} {text : List Char} {j : Json}
    (h : loads num text = some j) : Keyed j := by
  unfold loads decode at h
  split at h
  · cases h
  · next value rest hvalue =>
    split at h
    · cases h
      exact value_keyed hvalue
    · cases h

theorem Keyed.lookup {fields : List (String × Json)} (h : Keyed (.obj fields)) {key : String}
    {v : Json} (hv : fields.lookup key = some v) : Keyed v := by
  cases h with
  | obj _ hfields =>
    obtain ⟨before, after, rfl, -⟩ := List.lookup_eq_some_iff.1 hv
    exact hfields (key, v) (by simp)

end Python
