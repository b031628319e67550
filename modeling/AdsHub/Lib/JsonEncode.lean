import AdsHub.Lib.JsonDecode

/-!
# AdsHub.Lib.JsonEncode — writing JSON texts

An encoder in the manner of Python's `json.dumps`. Its style says how a character of
a string is written and what follows a comma and a colon; how numbers are written is
a parameter, with the numbers that come back exactly. `value_encode` is the round
trip: a value whose objects have distinct keys and whose numbers are exact is read
back from its text. From it and `value_stable` it follows that the text of an object
cannot be cut short and still be read (`decode_truncated`).
-/

/-- Induction over the items and fields of a value. -/
@[elab_as_elim]
theorem Json.induction {motive : Json → Prop} (null : motive .null)
    (bool : ∀ b, motive (.bool b)) (num : ∀ n, motive (.num n)) (str : ∀ s, motive (.str s))
    (arr : ∀ items, (∀ j ∈ items, motive j) → motive (.arr items))
    (obj : ∀ fields, (∀ f ∈ fields, motive f.2) → motive (.obj fields)) : ∀ j, motive j
  | .null => null
  | .bool b => bool b
  | .num n => num n
  | .str s => str s
  | .arr items => arr items (fun j _ => Json.induction null bool num str arr obj j)
  | .obj fields => obj fields (fun f _ => Json.induction null bool num str arr obj f.2)
termination_by j => sizeOf j
decreasing_by
  · next hj =>
    have hlt := List.sizeOf_lt_of_mem hj
    simp only [Json.arr.sizeOf_spec]
    omega
  · next hf =>
    have hlt := List.sizeOf_lt_of_mem hf
    have hpair : sizeOf f = 1 + sizeOf f.1 + sizeOf f.2 := by
      rcases f with ⟨k, v⟩
      exact Prod.mk.sizeOf_spec k v
    simp only [Json.obj.sizeOf_spec]
    omega

namespace JsonText

/-- How numbers are written and read. `Exact` are those that come back as they were. -/
structure NumText where
  write : ℚ → List Char
  read : List Char → ℚ
  Exact : ℚ → Prop
  isNumber_write : ∀ q, Exact q → isNumber (write q) = true
  read_write : ∀ q, Exact q → read (write q) = q

/-- How strings and separators are written. -/
structure Style where
  escape : Char → List Char
  itemSpace : List Char
  keySpace : List Char
  read_escape : ∀ c rest, readString .plain (escape c ++ rest) =
    (readString .plain rest).map (fun p => (c :: p.1, p.2))
  itemSpace_ws : ∀ c ∈ itemSpace, isWs c = true
  keySpace_ws : ∀ c ∈ keySpace, isWs c = true

/-- The text of a string. -/
def quote (style : Style) (s : String) : List Char :=
  '"' :: (s.toList.flatMap style.escape ++ ['"'])

mutual

/-- `json.dumps`. -/
def encode (style : Style) (num : NumText) : Json → List Char
  | .null => ['n', 'u', 'l', 'l']
  | .bool true => ['t', 'r', 'u', 'e']
  | .bool false => ['f', 'a', 'l', 's', 'e']
  | .num n => num.write n
  | .str s => quote style s
  | .arr items =>
    '[' :: ((',' :: style.itemSpace).intercalate (encodeItems style num items) ++ [']'])
  | .obj fields =>
    '{' :: ((',' :: style.itemSpace).intercalate (encodeFields style num fields) ++ ['}'])

def encodeItems (style : Style) (num : NumText) : List Json → List (List Char)
  | [] => []
  | j :: items => encode style num j :: encodeItems style num items

def encodeFields (style : Style) (num : NumText) : List (String × Json) → List (List Char)
  | [] => []
  | (k, v) :: fields =>
    (quote style k ++ ':' :: (style.keySpace ++ encode style num v)) ::
      encodeFields style num fields

end

/-- The text of an item of an object. -/
def encodeField (style : Style) (num : NumText) (f : String × Json) : List Char :=
  quote style f.1 ++ ':' :: (style.keySpace ++ encode style num f.2)

/-- A value that is written without loss: its keys are distinct and its numbers exact. -/
inductive Writable (num : NumText) : Json → Prop where
  | null : Writable num .null
  | bool (b : Bool) : Writable num (.bool b)
  | num {n : ℚ} (h : num.Exact n) : Writable num (.num n)
  | str (s : String) : Writable num (.str s)
  | arr {items : List Json} (h : ∀ j ∈ items, Writable num j) : Writable num (.arr items)
  | obj {fields : List (String × Json)} (hkeys : (fields.map Prod.fst).Nodup)
      (h : ∀ f ∈ fields, Writable num f.2) : Writable num (.obj fields)

variable {style : Style} {num : NumText}

theorem writable_num {n : ℚ} : Writable num (.num n) ↔ num.Exact n := by
  constructor
  · intro h
    cases h with
    | num h => exact h
  · exact Writable.num

theorem writable_arr {items : List Json} :
    Writable num (.arr items) ↔ ∀ j ∈ items, Writable num j := by
  constructor
  · intro h
    cases h with
    | arr h => exact h
  · exact Writable.arr

theorem writable_obj {fields : List (String × Json)} :
    Writable num (.obj fields) ↔
      (fields.map Prod.fst).Nodup ∧ ∀ f ∈ fields, Writable num f.2 := by
  constructor
  · intro h
    cases h with
    | obj hkeys h => exact ⟨hkeys, h⟩
  · rintro ⟨hkeys, h⟩
    exact Writable.obj hkeys h

/-- The recursion over the items of an array is a map. -/
theorem encodeItems_eq (items : List Json) :
    encodeItems style num items = items.map (encode style num) := by
  induction items with
  | nil => rfl
  | cons j items ih => rw [encodeItems, ih, List.map_cons]

/-- A field is at least as long as its value, so that the fuel for a field is enough for it.
-/
theorem length_encode_le (style : Style) (num : NumText) (f : String × Json) :
    (encode style num f.2).length ≤ (encodeField style num f).length := by
  simp only [encodeField, List.length_append, List.length_cons]
  omega

/-- The recursion over the fields of an object is a map. -/
theorem encodeFields_eq (fields : List (String × Json)) :
    encodeFields style num fields = fields.map (encodeField style num) := by
  induction fields with
  | nil => rfl
  | cons f fields ih =>
    rcases f with ⟨k, v⟩
    rw [encodeFields, ih, List.map_cons]
    rfl

/-! ## Tokens -/

/-- What a style writes for a string is read back up to the closing quote. -/
theorem readString_quote (s : List Char) (rest : List Char) :
    readString .plain (s.flatMap style.escape ++ '"' :: rest) = some (s, rest) := by
  induction s with
  | nil => rfl
  | cons c s ih =>
    rw [List.flatMap_cons, List.append_assoc, style.read_escape, ih]
    rfl

/-- What follows a number: nothing that could be part of it. -/
def Ends (rest : List Char) : Prop := ∀ c ∈ rest.head?, isNumChar c = false

theorem ends_nil : Ends [] := fun _ h => by cases h

theorem ends_cons {c : Char} (h : isNumChar c = false) (rest : List Char) : Ends (c :: rest) := by
  intro d hd
  cases hd
  exact h

/-- A number literal goes on only with characters of numbers. -/
theorem isNumChar_of_numStep {s s' : NumState} {c : Char} (h : numStep s c = some s') :
    isNumChar c = true := by
  -- the automaton leaves a state on characters of literals only
  have hzero : isDigit '0' = true := by decide
  unfold isNumChar
  cases s <;> simp only [numStep] at h <;> grind

theorem numStep_chars {l : List Char} {s s' : NumState} (h : l.foldlM numStep s = some s') :
    ∀ c ∈ l, isNumChar c = true := by
  induction l generalizing s with
  | nil => exact fun _ hc => absurd hc List.not_mem_nil
  | cons d l ih =>
    rw [List.foldlM_cons] at h
    cases hstep : numStep s d with
    | none =>
      rw [hstep] at h
      cases h
    | some s'' =>
      rw [hstep] at h
      rw [List.forall_mem_cons]
      exact ⟨isNumChar_of_numStep hstep, ih h⟩

/-- A number literal has no other characters. -/
theorem isNumber_chars {l : List Char} (h : isNumber l = true) : ∀ c ∈ l, isNumChar c = true := by
  unfold isNumber at h
  split at h
  · next state hstate => exact numStep_chars hstate
  · cases h

theorem isNumber_ne_nil {l : List Char} (h : isNumber l = true) : l ≠ [] := by
  rintro rfl
  cases h

/-- A literal is read whole if what follows cannot be part of it. -/
theorem number_write {l rest : List Char} (h : isNumber l = true) (hrest : Ends rest)
    (read : List Char → ℚ) : number read (l ++ rest) = some (.num (read l), rest) := by
  have hchars := isNumber_chars h
  -- the literal ends where `rest` starts
  have htake : rest.takeWhile isNumChar = [] ∧ rest.dropWhile isNumChar = rest := by
    cases rest with
    | nil => exact ⟨rfl, rfl⟩
    | cons c rest =>
      have hc : isNumChar c = false := hrest c rfl
      simp [hc]
  rw [number, List.takeWhile_append_of_pos hchars, List.dropWhile_append_of_pos hchars, htake.1,
    htake.2, List.append_nil, if_pos h]

/-- White space in front of a token is skipped. -/
theorem skipWs_space {space : List Char} (h : ∀ c ∈ space, isWs c = true) (l : List Char) :
    skipWs (space ++ l) = skipWs l := List.dropWhile_append_of_pos h

theorem skipWs_of_head {c : Char} (h : isWs c = false) (l : List Char) :
    skipWs (c :: l) = c :: l := by
  simp [skipWs, h]

/-- The first character of a text that starts with a token. -/
def Starts (l : List Char) : Prop := ∃ c cs, l = c :: cs ∧ isWs c = false ∧ c ≠ ']' ∧ c ≠ '}'

/-- The text of a value has no white space to skip. -/
theorem Starts.skipWs {l : List Char} (h : Starts l) (rest : List Char) :
    skipWs (l ++ rest) = l ++ rest := by
  rcases h with ⟨c, cs, rfl, hws, -⟩
  rw [List.cons_append]
  exact skipWs_of_head hws _

theorem Starts.ne_nil {l : List Char} (h : Starts l) : l ≠ [] := by
  rcases h with ⟨c, cs, rfl, -⟩
  exact List.cons_ne_nil c cs

theorem starts_quote (s : String) : Starts (quote style s) :=
  ⟨'"', _, rfl, by decide, by decide, by decide⟩

/-- A number starts with neither white space nor a bracket that would end a list. -/
theorem starts_of_numChar {l : List Char} (hne : l ≠ []) (h : ∀ c ∈ l, isNumChar c = true) :
    Starts l := by
  cases l with
  | nil => exact absurd rfl hne
  | cons c cs =>
    have hc := h c List.mem_cons_self
    refine ⟨c, cs, rfl, ?_, ?_, ?_⟩
    · by_contra hws
      rw [Bool.not_eq_false] at hws
      unfold isWs at hws
      simp only [Bool.or_eq_true, beq_iff_eq] at hws
      rcases hws with ((rfl | rfl) | rfl) | rfl <;> revert hc <;> decide
    · rintro rfl
      revert hc
      decide
    · rintro rfl
      revert hc
      decide

/-- No text of a value starts with white space, a closing bracket or a comma. -/
theorem starts_encode (style : Style) {j : Json} (h : Writable num j) : Starts (encode style num j) := by
  cases h with
  | null => exact ⟨'n', _, rfl, by decide, by decide, by decide⟩
  | bool b => cases b <;> exact ⟨_, _, rfl, by decide, by decide, by decide⟩
  | num h =>
    have hnumber := num.isNumber_write _ h
    exact starts_of_numChar (isNumber_ne_nil hnumber) (isNumber_chars hnumber)
  | str s => exact starts_quote s
  | arr h => exact ⟨'[', _, rfl, by decide, by decide, by decide⟩
  | obj hkeys h => exact ⟨'{', _, rfl, by decide, by decide, by decide⟩

/-! ## Sequences -/

/-- A text that a sequence joins is no longer than the sequence, and neither is the
number of texts, if none is empty. -/
theorem length_intercalate (sep : List Char) {texts : List (List Char)}
    (h : ∀ t ∈ texts, t ≠ []) :
    texts.length ≤ (sep.intercalate texts).length ∧
      ∀ t ∈ texts, t.length ≤ (sep.intercalate texts).length := by
  induction texts with
  | nil => exact ⟨Nat.le_refl _, fun _ ht => absurd ht List.not_mem_nil⟩
  | cons t texts ih =>
    rw [List.forall_mem_cons] at h
    have hpos : 1 ≤ t.length := List.length_pos_iff.2 h.1
    cases texts with
    | nil => simpa using hpos
    | cons t' texts =>
      rcases ih h.2 with ⟨hcount, hlength⟩
      rw [List.intercalate_cons_cons, List.forall_mem_cons]
      simp only [List.length_append, List.length_cons] at hcount hlength ⊢
      refine ⟨by omega, by omega, ?_⟩
      intro u hu
      have hle := hlength u hu
      omega

section

variable {α : Type*} {text : α → List Char} {element : List Char → Option (α × List Char)}
  {close : Char}

theorem sequence_space {space : List Char} (h : ∀ c ∈ space, isWs c = true) (n : ℕ)
    (l : List Char) : sequence element close n (space ++ l) = sequence element close n l := by
  cases n with
  | zero => rfl
  | succ n => rw [sequence, sequence, skipWs_space h]

/-- The reader takes the text of each of the elements. -/
def ReadsAll (element : List Char → Option (α × List Char)) (text : α → List Char)
    (xs : List α) : Prop :=
  ∀ x ∈ xs, Starts (text x) ∧ ∀ rest, Ends rest → element (text x ++ rest) = some (x, rest)

/-- Elements that are written with commas between them are read back, up to the closing
bracket. -/
theorem sequence_intercalate {xs : List α} (hxs : xs ≠ []) (h : ReadsAll element text xs)
    (hspace : ∀ c ∈ style.itemSpace, isWs c = true) (hclose : isNumChar close = false)
    (hclose' : isWs close = false) (hcomma : close ≠ ',') {n : ℕ} (hn : xs.length ≤ n)
    (rest : List Char) :
    sequence element close n
      ((',' :: style.itemSpace).intercalate (xs.map text) ++ close :: rest) = some (xs, rest) := by
  induction xs generalizing n with
  | nil => exact absurd rfl hxs
  | cons x xs ih =>
    cases n with
    | zero => exact absurd hn (Nat.not_succ_le_zero _)
    | succ n =>
      unfold ReadsAll at h
      rw [List.forall_mem_cons] at h
      rcases h with ⟨⟨hstart, hread⟩, hrest⟩
      cases xs with
      | nil =>
        rw [List.map_singleton, List.intercalate_singleton, sequence, hstart.skipWs,
          hread _ (ends_cons hclose rest)]
        simp only [skipWs_of_head hclose', if_true]
      | cons y ys =>
        have hne : ¬ (',' = close) := Ne.symm hcomma
        rw [List.map_cons, List.map_cons, List.intercalate_cons_cons, ← List.map_cons,
          List.append_assoc, List.append_assoc, sequence, hstart.skipWs, List.cons_append,
          hread _ (ends_cons (by decide) _)]
        simp only [skipWs_of_head (by decide : isWs ',' = false), if_neg hne, if_true]
        -- behind the comma the others are read in the same way
        rw [sequence_space hspace, ih (List.cons_ne_nil y ys) hrest (Nat.le_of_succ_le_succ hn)]
        rfl

/-- The same for a list that may be empty. -/
theorem bracketed_intercalate {xs : List α} (h : ReadsAll element text xs)
    (hspace : ∀ c ∈ style.itemSpace, isWs c = true) (hclose : close = ']' ∨ close = '}') {n : ℕ}
    (hn : xs.length ≤ n) (rest : List Char) :
    bracketed element close n
      ((',' :: style.itemSpace).intercalate (xs.map text) ++ close :: rest) = some (xs, rest) := by
  have hchar : isNumChar close = false ∧ isWs close = false ∧ close ≠ ',' := by
    rcases hclose with rfl | rfl <;> decide
  cases xs with
  | nil =>
    unfold bracketed
    simp [skipWs_of_head hchar.2.1]
  | cons x xs =>
    -- the first element does not start like the closing bracket
    rcases (h x List.mem_cons_self).1 with ⟨c, cs, hx, hws, harr, hobj⟩
    have hne : c ≠ close := by
      rcases hclose with rfl | rfl
      · exact harr
      · exact hobj
    have hhead : ∃ tail, (',' :: style.itemSpace).intercalate ((x :: xs).map text) = c :: tail := by
      cases xs with
      | nil => exact ⟨cs, by simp [hx]⟩
      | cons y ys => exact ⟨_, by rw [List.map_cons, List.map_cons, List.intercalate_cons_cons, hx,
          List.append_assoc, List.cons_append]⟩
    have hseq := sequence_intercalate (List.cons_ne_nil x xs) h hspace hchar.1 hchar.2.1 hchar.2.2
      hn rest
    rcases hhead with ⟨tail, htail⟩
    rw [htail, List.cons_append] at hseq ⊢
    unfold bracketed
    rw [skipWs_of_head hws]
    simp only [if_neg hne]
    exact hseq

/-- The fuel that the joined text needs is enough for each element. -/
theorem bracketed_texts {xs : List α} {n : ℕ} (hstart : ∀ x ∈ xs, Starts (text x))
    (hread : ∀ x ∈ xs, (text x).length ≤ n → ∀ rest, Ends rest →
      element (text x ++ rest) = some (x, rest))
    (hn : ((',' :: style.itemSpace).intercalate (xs.map text)).length ≤ n)
    (hclose : close = ']' ∨ close = '}') (rest : List Char) :
    bracketed element close n
      ((',' :: style.itemSpace).intercalate (xs.map text) ++ close :: rest) = some (xs, rest) := by
  have hne : ∀ t ∈ xs.map text, t ≠ [] := by
    intro t ht
    rcases List.mem_map.1 ht with ⟨x, hx, rfl⟩
    exact (hstart x hx).ne_nil
  rcases length_intercalate (',' :: style.itemSpace) hne with ⟨hcount, hlength⟩
  rw [List.length_map] at hcount
  have hall : ReadsAll element text xs := by
    intro x hx
    have hle := hlength (text x) (List.mem_map_of_mem hx)
    exact ⟨hstart x hx, hread x hx (hle.trans hn)⟩
  exact bracketed_intercalate hall style.itemSpace_ws hclose (hcount.trans hn) rest

end

/-! ## The round trip -/

/-- A field is read back if its value is. -/
theorem member_encodeField {read : List Char → Option (Json × List Char)} {f : String × Json}
    (hstart : Starts (encode style num f.2))
    (h : ∀ rest, Ends rest → read (encode style num f.2 ++ rest) = some (f.2, rest))
    {rest : List Char} (hrest : Ends rest) :
    member read (encodeField style num f ++ rest) = some (f, rest) := by
  have htext : encodeField style num f ++ rest = '"' :: (f.1.toList.flatMap style.escape ++
      '"' :: (':' :: (style.keySpace ++ (encode style num f.2 ++ rest)))) := by
    simp [encodeField, quote]
  rw [htext, member, if_pos rfl, readString_quote]
  simp only [skipWs_of_head (by decide : isWs ':' = false), if_true]
  rw [skipWs_space style.keySpace_ws, hstart.skipWs, h rest hrest, Option.map_some,
    String.ofList_toList]

/-- A text that starts like a number is read as one. -/
theorem value_of_numChar {c : Char} (h : isNumChar c = true) (read : List Char → ℚ) (n : ℕ)
    (cs : List Char) : value read (n + 1) (c :: cs) = number read (c :: cs) := by
  have hne : c ≠ '"' ∧ c ≠ '[' ∧ c ≠ '{' ∧ c ≠ 'n' ∧ c ≠ 't' ∧ c ≠ 'f' := by
    refine ⟨?_, ?_, ?_, ?_, ?_, ?_⟩ <;> rintro rfl <;> revert h <;> decide
  simp only [value, hne, if_false]

/-- A writable value is read back from its text, whatever follows, if the fuel is not
less than the length of the text. -/
theorem value_encode (style : Style) {j : Json} (h : Writable num j) {n : ℕ}
    (hn : (encode style num j).length ≤ n) {rest : List Char} (hrest : Ends rest) :
    value num.read n (encode style num j ++ rest) = some (j, rest) := by
  induction j using Json.induction generalizing n rest with
  | null =>
    cases n with
    | zero => exact absurd hn (Nat.not_succ_le_zero _)
    | succ n => rfl
  | bool b =>
    cases n with
    | zero => cases b <;> exact absurd hn (Nat.not_succ_le_zero _)
    | succ n => cases b <;> rfl
  | num q =>
    cases h with
    | num hexact =>
      -- the text of a number is a literal, so its first character starts no other value
      have hnumber := num.isNumber_write q hexact
      have hwrite := number_write hnumber hrest num.read
      have hchars := isNumber_chars hnumber
      rw [encode] at hn ⊢
      cases htext : num.write q with
      | nil => exact absurd htext (isNumber_ne_nil hnumber)
      | cons c cs =>
        rw [htext] at hn hwrite hchars
        cases n with
        | zero => exact absurd hn (Nat.not_succ_le_zero _)
        | succ n =>
          rw [List.cons_append] at hwrite ⊢
          rw [value_of_numChar (hchars c List.mem_cons_self), hwrite, ← htext,
            num.read_write q hexact]
  | str s =>
    cases n with
    | zero => exact absurd hn (Nat.not_succ_le_zero _)
    | succ n =>
      rw [encode, quote, List.cons_append, value, if_pos rfl, List.append_assoc,
        List.singleton_append, readString_quote, Option.map_some, String.ofList_toList]
  | arr items ih =>
    cases h with
    | arr hitems =>
      rw [encode, encodeItems_eq] at hn ⊢
      cases n with
      | zero => exact absurd hn (Nat.not_succ_le_zero _)
      | succ n =>
        simp only [List.length_cons, List.length_append] at hn
        have hstart : ∀ j ∈ items, Starts (encode style num j) :=
          fun j hj => starts_encode style (hitems j hj)
        have hread : ∀ j ∈ items, (encode style num j).length ≤ n → ∀ rest, Ends rest →
            value num.read n (encode style num j ++ rest) = some (j, rest) :=
          fun j hj hle rest hrest => ih j hj (hitems j hj) hle hrest
        rw [List.cons_append, List.append_assoc, List.singleton_append, value,
          if_neg (by decide), if_pos rfl,
          bracketed_texts hstart hread (by omega) (Or.inl rfl) rest]
        rfl
  | obj fields ih =>
    cases h with
    | obj hkeys hfields =>
      rw [encode, encodeFields_eq] at hn ⊢
      cases n with
      | zero => exact absurd hn (Nat.not_succ_le_zero _)
      | succ n =>
        simp only [List.length_cons, List.length_append] at hn
        have hstart : ∀ f ∈ fields, Starts (encodeField style num f) :=
          fun f _ => ⟨'"', _, rfl, by decide, by decide, by decide⟩
        have hread : ∀ f ∈ fields, (encodeField style num f).length ≤ n → ∀ rest, Ends rest →
            member (value num.read n) (encodeField style num f ++ rest) = some (f, rest) := by
          intro f hf hle rest hrest
          -- the text of the value is part of the text of the item
          have hfield := length_encode_le style num f
          refine member_encodeField (starts_encode style (hfields f hf)) ?_ hrest
          intro rest hrest
          exact ih f hf (hfields f hf) (by omega) hrest
        rw [List.cons_append, List.append_assoc, List.singleton_append, value,
          if_neg (by decide), if_neg (by decide), if_pos rfl,
          bracketed_texts hstart hread (by omega) (Or.inr rfl) rest]
        simp only [Option.map_some, Dict.ofItems_eq hkeys]

/-- `json.loads(json.dumps(j)) == j`. -/
theorem loads_encode (style : Style) {j : Json} (h : Writable num j) :
    loads num.read (encode style num j) = some j := by
  have hread := value_encode style h (Nat.le_refl _) ends_nil
  rw [List.append_nil] at hread
  have hskip : skipWs (encode style num j) = encode style num j := by
    have hstart := (starts_encode style h).skipWs []
    rwa [List.append_nil] at hstart
  rw [loads, decode, hskip, hread]
  rfl

/-- An initial part of the text of an object is not the text of anything, whatever the
fuel. -/
theorem decode_truncated {fields : List (String × Json)} (h : Writable num (.obj fields))
    {part : List Char} {c : Char} {tail : List Char}
    (htext : encode style num (.obj fields) = part ++ c :: tail) (fuel : ℕ) :
    decode num.read fuel part = none := by
  cases part with
  | nil => cases fuel <;> rfl
  | cons d part =>
    have hopen : d = '{' := by
      rw [encode, List.cons_append] at htext
      exact (List.cons.inj htext).1.symm
    subst hopen
    cases fuel with
    | zero => rfl
    | succ fuel =>
      unfold decode
      rw [skipWs_of_head (by decide : isWs '{' = false)]
      cases hpart : value num.read (fuel + 1) ('{' :: part) with
      | none => rfl
      | some p =>
        rcases p with ⟨j, rest⟩
        -- the result would also be that of the whole text, which is read to its end
        rw [value, if_neg (by decide), if_neg (by decide), if_pos rfl] at hpart
        rcases Option.map_eq_some_iff.1 hpart with ⟨⟨xs, rest'⟩, hxs, heq⟩
        cases heq
        -- fuel for both readings
        have hfuel := Nat.le_max_left fuel (encode style num (.obj fields)).length
        have hmore := bracketed_append (member_stable (value_stable num.read hfuel)) hfuel
          (c :: tail) hxs
        have hwhole := value_encode style h
          (Nat.le_succ_of_le (Nat.le_max_right fuel (encode style num (.obj fields)).length)) ends_nil
        rw [List.append_nil] at hwhole
        nth_rewrite 2 [htext] at hwhole
        rw [List.cons_append, value, if_neg (by decide), if_neg (by decide), if_pos rfl, hmore,
          Option.map_some, Option.some.injEq, Prod.mk.injEq] at hwhole
        exact absurd hwhole.2 (List.append_ne_nil_of_right_ne_nil _ (List.cons_ne_nil c tail))

end JsonText
