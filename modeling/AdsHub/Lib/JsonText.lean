import Mathlib.Data.List.Sort
import Mathlib.Data.String.Basic
import Mathlib.Data.Rat.Lemmas
import AdsHub.Lib.JsonEncode
import AdsHub.Lib.Text

/-!
# AdsHub.Lib.JsonText — the options of `json.dumps`

What can be asked of the encoder, and what it does to the text:

* `unicodeStyle` — `ensure_ascii=False`: only the quote, the backslash and control
  characters are escaped;
* `compactStyle` — the default `ensure_ascii=True` with `separators=(',', ':')`: what is
  not printable ASCII is escaped, and nothing stands between tokens;
* `sortKeys` — `sort_keys=True`: the keys of every object in order;
* `integers` — numbers, as far as they are integers.

`forall_mem_encode` says which characters a text can have: those of ASCII, and what
the style writes for the characters of its strings.
-/

namespace JsonText

variable {style : Style} {num : NumText}

/-! ## `ensure_ascii=False` -/

/-- The four digits of a `\u` escape. -/
def hex4 (n : ℕ) : List Char :=
  [Nat.digitChar (n / 4096 % 16), Nat.digitChar (n / 256 % 16), Nat.digitChar (n / 16 % 16),
    Nat.digitChar (n % 16)]

/-- The characters that have an escape of their own, each with the letter of it. -/
def shortEscapes : List (Char × Char) :=
  [('"', '"'), ('\\', '\\'), ('\n', 'n'), ('\r', 'r'), ('\t', 't'), (Char.ofNat 12, 'f'),
   (Char.ofNat 8, 'b')]

/-- The quote, the backslash and the control characters are escaped; any other
character stands for itself. -/
def escapeUnicode (c : Char) : List Char :=
  match shortEscapes.find? (fun p => p.1 = c) with
  | some p => ['\\', p.2]
  | none => if c.toNat < 32 then '\\' :: 'u' :: hex4 c.toNat else [c]

theorem hexDigit?_digitChar : ∀ d < 16, hexDigit? (Nat.digitChar d) = some d := by decide

theorem hexDigit?_mod (n : ℕ) : hexDigit? (Nat.digitChar (n % 16)) = some (n % 16) :=
  hexDigit?_digitChar (n % 16) (Nat.mod_lt n (by decide))

/-- The four digits of a number are its digits in base 16. -/
theorem hex4_value {n : ℕ} (h : n < 0x10000) :
    16 * (16 * (16 * (16 * 0 + n / 4096 % 16) + n / 256 % 16) + n / 16 % 16) + n % 16 = n := by
  omega

/-- The digits of an escape. -/
theorem readString_hex {n : ℕ} (hn : n < 0x10000) {next : Scan} {out : Option Char}
    (hunit : codeUnit n = some (.more next out)) (rest : List Char) :
    readString .plain ('\\' :: 'u' :: (hex4 n ++ rest)) =
      (readString next rest).map (fun p => (out.toList ++ p.1, p.2)) := by
  have hu : scanChar .plain '\\' = some (.more .escape none) := rfl
  have hhex : scanChar .escape 'u' = some (.more (.hex 0 0) none) := rfl
  simp only [hex4, List.cons_append, List.nil_append, readString, hu, hhex]
  simp only [scanChar, hexDigit?_mod, Option.bind_some, Nat.reduceLT, Nat.reduceAdd, if_true,
    if_false, hex4_value hn, hunit, Option.map_map]
  congr 1

/-- The digits of the second half of a pair. -/
theorem readString_pairHex {high n : ℕ} (hn : n < 0x10000) {out : Char}
    (hunit : lowSurrogate high n = some (.more .plain (some out))) (rest : List Char) :
    readString (.pair high) ('\\' :: 'u' :: (hex4 n ++ rest)) =
      (readString .plain rest).map (fun p => (out :: p.1, p.2)) := by
  have hu : scanChar (.pair high) '\\' = some (.more (.pairEscape high) none) := rfl
  have hhex : scanChar (.pairEscape high) 'u' = some (.more (.pairHex high 0 0) none) := rfl
  simp only [hex4, List.cons_append, List.nil_append, readString, hu, hhex]
  simp only [scanChar, hexDigit?_mod, Option.bind_some, Nat.reduceLT, Nat.reduceAdd, if_true,
    if_false, hex4_value hn, hunit, Option.map_map]
  congr 1

/-- A code unit outside the surrogates is a character of its own. -/
theorem codeUnit_char {n : ℕ} (h : n < 0xD800 ∨ 0xDFFF < n) :
    codeUnit n = some (.more .plain (some (Char.ofNat n))) := by
  rw [codeUnit, if_neg (by omega), if_neg (by omega)]

/-- An escape of one letter is read as its character. -/
theorem readString_short {c out : Char} (hc : c ≠ 'u') (h : unescape c = some out)
    (rest : List Char) : readString .plain ('\\' :: c :: rest) =
      (readString .plain rest).map (fun p => (out :: p.1, p.2)) := by
  have hu : scanChar .plain '\\' = some (.more .escape none) := rfl
  have hescape : scanChar .escape c = some (.more .plain (some out)) := by
    simp [scanChar, hc, h]
  simp only [readString, hu, hescape, Option.map_map]
  congr 1

/-- A character that needs no escape is read as itself. -/
theorem readString_self {c : Char} (hquote : c ≠ '"') (hslash : c ≠ '\\') (hc : ¬ c.toNat < 32)
    (rest : List Char) : readString .plain (c :: rest) =
      (readString .plain rest).map (fun p => (c :: p.1, p.2)) := by
  have hplain : scanChar .plain c = some (.more .plain (some c)) := by
    simp [scanChar, hquote, hslash, hc]
  simp only [readString, hplain]
  rfl

/-- What the table of the short escapes has to be. -/
theorem shortEscapes_spec : ∀ p ∈ shortEscapes, (p.2 ≠ 'u' ∧ unescape p.2 = some p.1) ∧
    (32 ≤ p.2.toNat ∧ p.2.toNat < 127) ∧ p.1.toNat < 127 := by decide

/-- A character of the table is read from its escape. -/
theorem readString_table {c : Char} {p : Char × Char}
    (h : shortEscapes.find? (fun p => p.1 = c) = some p) (rest : List Char) :
    readString .plain ('\\' :: p.2 :: rest) =
      (readString .plain rest).map (fun p => (c :: p.1, p.2)) := by
  have hp : p.1 = c := by simpa using List.find?_some h
  have hspec := (shortEscapes_spec p (List.mem_of_find?_eq_some h)).1
  rw [← hp]
  exact readString_short hspec.1 hspec.2 rest

/-- The quote and the backslash are in the table. -/
theorem ne_of_not_table {c : Char} (h : shortEscapes.find? (fun p => p.1 = c) = none) :
    c ≠ '"' ∧ c ≠ '\\' := by
  rw [List.find?_eq_none] at h
  constructor
  · rintro rfl
    exact h ('"', '"') (by decide) (by decide)
  · rintro rfl
    exact h ('\\', '\\') (by decide) (by decide)

/-- What is written for a character is read back as it. -/
theorem readString_escapeUnicode (c : Char) (rest : List Char) :
    readString .plain (escapeUnicode c ++ rest) =
      (readString .plain rest).map (fun p => (c :: p.1, p.2)) := by
  unfold escapeUnicode
  cases hfind : shortEscapes.find? (fun p => p.1 = c) with
  | some p => exact readString_table hfind rest
  | none =>
    by_cases hc : c.toNat < 32
    · simp only [if_pos hc, List.cons_append]
      rw [readString_hex (by omega) (codeUnit_char (Or.inl (by omega))), Char.ofNat_toNat]
      rfl
    · have hne := ne_of_not_table hfind
      simp only [if_neg hc]
      exact readString_self hne.1 hne.2 hc rest

/-- Printable ASCII. -/
def Printable (c : Char) : Prop := 32 ≤ c.toNat ∧ c.toNat < 127

instance (c : Char) : Decidable (Printable c) := inferInstanceAs (Decidable (_ ∧ _))

theorem hex4_printable (n : ℕ) : ∀ d ∈ hex4 n, Printable d := by
  have hall : ∀ d < 16, Printable (Nat.digitChar d) := by decide
  have hdigit : ∀ n, Printable (Nat.digitChar (n % 16)) :=
    fun n => hall (n % 16) (Nat.mod_lt n (by decide))
  simp only [hex4, List.forall_mem_cons]
  exact ⟨hdigit _, hdigit _, hdigit _, hdigit _, fun _ h => absurd h List.not_mem_nil⟩

/-- An escape is printable ASCII. -/
theorem unicodeEscape_printable (n : ℕ) : ∀ d ∈ '\\' :: 'u' :: hex4 n, Printable d := by
  rw [List.forall_mem_cons, List.forall_mem_cons]
  exact ⟨by decide, by decide, hex4_printable n⟩

theorem table_printable {c : Char} {p : Char × Char}
    (h : shortEscapes.find? (fun p => p.1 = c) = some p) : ∀ d ∈ ['\\', p.2], Printable d := by
  have hspec := (shortEscapes_spec p (List.mem_of_find?_eq_some h)).2.1
  rw [List.forall_mem_cons, List.forall_mem_singleton]
  exact ⟨by decide, hspec⟩

/-- A character is written as itself or in printable ASCII, and itself only if it is no
control character. -/
theorem escapeUnicode_cases (c : Char) :
    (escapeUnicode c = [c] ∧ 32 ≤ c.toNat) ∨
      ((∀ d ∈ escapeUnicode c, 32 ≤ d.toNat ∧ d.toNat < 127) ∧ c.toNat < 127) := by
  unfold escapeUnicode
  cases hfind : shortEscapes.find? (fun p => p.1 = c) with
  | some p =>
    have hp : p.1 = c := by simpa using List.find?_some hfind
    have hspec := (shortEscapes_spec p (List.mem_of_find?_eq_some hfind)).2
    exact Or.inr ⟨table_printable hfind, hp ▸ hspec.2⟩
  | none =>
    by_cases hc : c.toNat < 32
    · simp only [if_pos hc]
      exact Or.inr ⟨unicodeEscape_printable c.toNat, by omega⟩
    · exact Or.inl ⟨if_neg hc, not_lt.1 hc⟩

/-- The style of `json.dumps(..., ensure_ascii=False)`. -/
def unicodeStyle : Style where
  escape := escapeUnicode
  itemSpace := [' ']
  keySpace := [' ']
  read_escape := readString_escapeUnicode
  itemSpace_ws := List.forall_mem_singleton.2 rfl
  keySpace_ws := List.forall_mem_singleton.2 rfl

/-! ## `ensure_ascii=True` -/

/-- The quote, the backslash and everything that is not printable ASCII is escaped, in
two halves above `U+FFFF`. -/
def escapeAscii (c : Char) : List Char :=
  match shortEscapes.find? (fun p => p.1 = c) with
  | some p => ['\\', p.2]
  | none =>
    if 32 ≤ c.toNat ∧ c.toNat < 127 then [c]
    else if c.toNat < 0x10000 then '\\' :: 'u' :: hex4 c.toNat
    else
      '\\' :: 'u' :: (hex4 (0xD800 + (c.toNat - 0x10000) / 0x400) ++
        '\\' :: 'u' :: hex4 (0xDC00 + (c.toNat - 0x10000) % 0x400))

/-- A character above `U+FFFF` is read from its two halves. -/
theorem readString_halves {n : ℕ} (hlow : 0x10000 ≤ n) (hhigh : n < 0x110000) (rest : List Char) :
    readString .plain ('\\' :: 'u' :: (hex4 (0xD800 + (n - 0x10000) / 0x400) ++
        '\\' :: 'u' :: (hex4 (0xDC00 + (n - 0x10000) % 0x400) ++ rest))) =
      (readString .plain rest).map (fun p => (Char.ofNat n :: p.1, p.2)) := by
  have hfirst : codeUnit (0xD800 + (n - 0x10000) / 0x400) =
      some (.more (.pair (0xD800 + (n - 0x10000) / 0x400)) none) := by
    rw [codeUnit, if_pos (by omega)]
  have hsecond : lowSurrogate (0xD800 + (n - 0x10000) / 0x400) (0xDC00 + (n - 0x10000) % 0x400) =
      some (.more .plain (some (Char.ofNat n))) := by
    have hcode : 0x10000 + (0xD800 + (n - 0x10000) / 0x400 - 0xD800) * 0x400 +
        (0xDC00 + (n - 0x10000) % 0x400 - 0xDC00) = n := by omega
    rw [lowSurrogate, if_pos (by omega), hcode]
  rw [readString_hex (by omega) hfirst, readString_pairHex (by omega) hsecond, Option.map_map]
  rfl

/-- A character is a code point that is no surrogate. -/
theorem toNat_range (c : Char) :
    (c.toNat < 0xD800 ∨ 0xDFFF < c.toNat) ∧ c.toNat < 0x110000 := by
  have hvalid : c.toNat < 0xD800 ∨ 0xDFFF < c.toNat ∧ c.toNat < 0x110000 := c.valid
  omega

/-- Also in the ASCII style, what is written for a character is read back as it. -/
theorem readString_escapeAscii (c : Char) (rest : List Char) :
    readString .plain (escapeAscii c ++ rest) =
      (readString .plain rest).map (fun p => (c :: p.1, p.2)) := by
  rcases toNat_range c with ⟨hvalid, hmax⟩
  unfold escapeAscii
  cases hfind : shortEscapes.find? (fun p => p.1 = c) with
  | some p => exact readString_table hfind rest
  | none =>
    by_cases hprint : 32 ≤ c.toNat ∧ c.toNat < 127
    · have hne := ne_of_not_table hfind
      simp only [if_pos hprint]
      exact readString_self hne.1 hne.2 (by omega) rest
    · by_cases hone : c.toNat < 0x10000
      · simp only [if_neg hprint, if_pos hone, List.cons_append]
        rw [readString_hex hone (codeUnit_char hvalid), Char.ofNat_toNat]
        rfl
      · simp only [if_neg hprint, if_neg hone, List.cons_append, List.append_assoc]
        rw [readString_halves (by omega) hmax, Char.ofNat_toNat]

/-- Whatever a character is, it is written in printable ASCII. -/
theorem escapeAscii_printable (c : Char) : ∀ d ∈ escapeAscii c, Printable d := by
  unfold escapeAscii
  cases hfind : shortEscapes.find? (fun p => p.1 = c) with
  | some p => exact table_printable hfind
  | none =>
    by_cases hprint : 32 ≤ c.toNat ∧ c.toNat < 127
    · simp only [if_pos hprint]
      exact List.forall_mem_singleton.2 hprint
    · by_cases hone : c.toNat < 0x10000
      · simp only [if_neg hprint, if_pos hone]
        exact unicodeEscape_printable c.toNat
      · simp only [if_neg hprint, if_neg hone]
        rw [← List.cons_append, ← List.cons_append, List.forall_mem_append]
        exact ⟨unicodeEscape_printable _, unicodeEscape_printable _⟩

/-- The style of `json.dumps(..., separators=(',', ':'))`. -/
def compactStyle : Style where
  escape := escapeAscii
  itemSpace := []
  keySpace := []
  read_escape := readString_escapeAscii
  itemSpace_ws := List.forall_mem_nil _
  keySpace_ws := List.forall_mem_nil _

/-! ## `sort_keys=True` -/

mutual

/-- The same value with the keys of every object in order. -/
def sortKeys : Json → Json
  | .null => .null
  | .bool b => .bool b
  | .num n => .num n
  | .str s => .str s
  | .arr items => .arr (sortItems items)
  | .obj fields => .obj (sortFields fields)

def sortItems : List Json → List Json
  | [] => []
  | j :: items => sortKeys j :: sortItems items

def sortFields : List (String × Json) → List (String × Json)
  | [] => []
  | (k, v) :: fields =>
    (sortFields fields).orderedInsert (fun f g => f.1 ≤ g.1) (k, sortKeys v)

end

/-- The recursion over the items of an array is a map. -/
theorem sortItems_eq (items : List Json) : sortItems items = items.map sortKeys := by
  induction items with
  | nil => rfl
  | cons j items ih => rw [sortItems, ih, List.map_cons]

/-- The items of a sorted object are those of the object, each with its value sorted. -/
theorem sortFields_perm (fields : List (String × Json)) :
    (sortFields fields).Perm (fields.map (fun f => (f.1, sortKeys f.2))) := by
  induction fields with
  | nil => exact List.Perm.refl _
  | cons f fields ih =>
    rcases f with ⟨k, v⟩
    rw [sortFields, List.map_cons]
    exact (List.perm_orderedInsert _ _ _).trans (ih.cons _)

/-- Sorting the keys keeps a value writable. -/
theorem Writable.sortKeys {j : Json} (h : Writable num j) : Writable num (sortKeys j) := by
  induction j using Json.induction with
  | null => exact h
  | bool b => exact h
  | num n => exact h
  | str s => exact h
  | arr items ih =>
    cases h with
    | arr hitems =>
      rw [JsonText.sortKeys, sortItems_eq]
      refine Writable.arr ?_
      intro j hj
      rcases List.mem_map.1 hj with ⟨i, hi, rfl⟩
      exact ih i hi (hitems i hi)
  | obj fields ih =>
    cases h with
    | obj hkeys hfields =>
      -- sorting moves the items and keeps the keys apart
      have hperm := sortFields_perm fields
      rw [JsonText.sortKeys]
      refine Writable.obj ?_ ?_
      · rw [(hperm.map Prod.fst).nodup_iff, List.map_map]
        exact hkeys
      · intro f hf
        rcases List.mem_map.1 (hperm.subset hf) with ⟨g, hg, rfl⟩
        exact ih g hg (hfields g hg)

/-! ## The strings and the characters of a text -/

/-- The property holds of every string of a value, the keys included. -/
inductive AllStrings (P : String → Prop) : Json → Prop where
  | null : AllStrings P .null
  | bool (b : Bool) : AllStrings P (.bool b)
  | num (n : ℚ) : AllStrings P (.num n)
  | str {s : String} (h : P s) : AllStrings P (.str s)
  | arr {items : List Json} (h : ∀ j ∈ items, AllStrings P j) : AllStrings P (.arr items)
  | obj {fields : List (String × Json)} (hkeys : ∀ f ∈ fields, P f.1)
      (h : ∀ f ∈ fields, AllStrings P f.2) : AllStrings P (.obj fields)

section

variable {P : String → Prop}

theorem allStrings_str {s : String} : AllStrings P (.str s) ↔ P s :=
  ⟨fun h => by cases h; assumption, AllStrings.str⟩

theorem allStrings_arr {items : List Json} :
    AllStrings P (.arr items) ↔ ∀ j ∈ items, AllStrings P j :=
  ⟨fun h => by cases h; assumption, AllStrings.arr⟩

theorem allStrings_obj {fields : List (String × Json)} :
    AllStrings P (.obj fields) ↔ ∀ f ∈ fields, P f.1 ∧ AllStrings P f.2 := by
  constructor
  · intro h f hf
    cases h with
    | obj hkeys h => exact ⟨hkeys f hf, h f hf⟩
  · intro h
    exact AllStrings.obj (fun f hf => (h f hf).1) (fun f hf => (h f hf).2)

/-- What holds of every string holds of those of a value. -/
theorem allStrings_of_forall (h : ∀ s, P s) (j : Json) : AllStrings P j := by
  induction j using Json.induction with
  | null => exact AllStrings.null
  | bool b => exact AllStrings.bool b
  | num n => exact AllStrings.num n
  | str s => exact AllStrings.str (h s)
  | arr items ih => exact AllStrings.arr ih
  | obj fields ih => exact AllStrings.obj (fun f _ => h f.1) ih

/-- Sorting the keys changes no string. -/
theorem allStrings_sortKeys (j : Json) : AllStrings P (sortKeys j) ↔ AllStrings P j := by
  induction j using Json.induction with
  | null => exact Iff.rfl
  | bool b => exact Iff.rfl
  | num n => exact Iff.rfl
  | str s => exact Iff.rfl
  | arr items ih =>
    rw [sortKeys, sortItems_eq, allStrings_arr, allStrings_arr, List.forall_mem_map]
    exact forall₂_congr ih
  | obj fields ih =>
    rw [sortKeys, allStrings_obj, allStrings_obj]
    -- the order of the items is of no account here
    have hmem : ∀ f, f ∈ sortFields fields ↔ f ∈ fields.map (fun g => (g.1, sortKeys g.2)) :=
      fun f => (sortFields_perm fields).mem_iff
    simp only [hmem, List.forall_mem_map]
    refine forall₂_congr ?_
    intro f hf
    rw [ih f hf]

end

section

variable {Q : Char → Prop}

/-- A joined text has the characters of its parts and of what joins them. -/
theorem forall_mem_intercalate {sep : List Char} (hsep : ∀ c ∈ sep, Q c)
    (texts : List (List Char)) :
    (∀ c ∈ sep.intercalate texts, Q c) ↔ ∀ t ∈ texts, ∀ c ∈ t, Q c := by
  induction texts with
  | nil => simp
  | cons t texts ih =>
    cases texts with
    | nil => simp
    | cons t' texts =>
      rw [List.intercalate_cons_cons, List.forall_mem_append, List.forall_mem_append, ih,
        List.forall_mem_cons (l := t' :: texts)]
      constructor
      · rintro ⟨⟨ht, -⟩, hrest⟩
        exact ⟨ht, hrest⟩
      · rintro ⟨ht, hrest⟩
        exact ⟨⟨ht, hsep⟩, hrest⟩

/-- What a style writes between strings and numbers has the property, and so has every
printable character of ASCII. -/
structure Passes (style : Style) (Q : Char → Prop) : Prop where
  ascii : ∀ c : Char, 32 ≤ c.toNat → c.toNat < 127 → Q c
  itemSpace : ∀ c ∈ style.itemSpace, Q c
  keySpace : ∀ c ∈ style.keySpace, Q c

/-- Every character that the style writes for a string has the property. -/
def Style.Writes (style : Style) (Q : Char → Prop) (s : String) : Prop :=
  ∀ c ∈ s.toList, ∀ d ∈ style.escape c, Q d

/-- A quoted string has those that the style writes for it, and its quotes. -/
theorem forall_mem_quote (h : Passes style Q) (s : String) :
    (∀ c ∈ quote style s, Q c) ↔ style.Writes Q s := by
  have hquote : Q '"' := h.ascii '"' (by decide) (by decide)
  rw [quote, List.forall_mem_cons, List.forall_mem_append, List.forall_mem_singleton,
    List.forall_mem_flatMap, and_iff_right hquote, and_iff_left hquote]
  exact Iff.rfl

theorem isNumChar_ascii {c : Char} (h : isNumChar c = true) : 32 ≤ c.toNat ∧ c.toNat < 127 := by
  unfold isNumChar isDigit at h
  simp only [Bool.or_eq_true, Bool.and_eq_true, decide_eq_true_eq, beq_iff_eq] at h
  rcases h with ((((h | rfl) | rfl) | rfl) | rfl) | rfl
  · have hlow : '0'.toNat ≤ c.toNat := h.1
    have hhigh : c.toNat ≤ '9'.toNat := h.2
    have hzero : '0'.toNat = 48 := rfl
    have hnine : '9'.toNat = 57 := rfl
    omega
  all_goals decide

/-- The characters of a text are those of its strings, as far as the property goes. -/
theorem forall_mem_encode (h : Passes style Q) {j : Json} (hj : Writable num j) :
    (∀ c ∈ encode style num j, Q c) ↔ AllStrings (style.Writes Q) j := by
  have hsep : ∀ c ∈ ',' :: style.itemSpace, Q c := by
    rw [List.forall_mem_cons]
    exact ⟨h.ascii ',' (by decide) (by decide), h.itemSpace⟩
  induction j using Json.induction with
  | null =>
    have hword : ∀ c ∈ ['n', 'u', 'l', 'l'], 32 ≤ c.toNat ∧ c.toNat < 127 := by simp
    refine iff_of_true ?_ AllStrings.null
    intro c hc
    exact h.ascii c (hword c hc).1 (hword c hc).2
  | bool b =>
    have hword : ∀ c ∈ ['t', 'r', 'u', 'e', 'f', 'a', 'l', 's', 'e'],
        32 ≤ c.toNat ∧ c.toNat < 127 := by simp
    refine iff_of_true ?_ (AllStrings.bool b)
    intro c hc
    have hmem : c ∈ ['t', 'r', 'u', 'e', 'f', 'a', 'l', 's', 'e'] := by
      cases b with
      | true => exact List.mem_append_left ['f', 'a', 'l', 's', 'e'] hc
      | false => exact List.mem_append_right ['t', 'r', 'u', 'e'] hc
    exact h.ascii c (hword c hmem).1 (hword c hmem).2
  | num n =>
    refine iff_of_true ?_ (AllStrings.num n)
    intro c hc
    cases hj with
    | num hexact =>
      -- a number is written in characters of literals
      have hchar := isNumber_chars (num.isNumber_write n hexact) c hc
      exact h.ascii c (isNumChar_ascii hchar).1 (isNumChar_ascii hchar).2
  | str s => rw [encode, forall_mem_quote h, allStrings_str]
  | arr items ih =>
    cases hj with
    | arr hitems =>
      rw [encode, encodeItems_eq, List.forall_mem_cons, List.forall_mem_append,
        List.forall_mem_singleton, forall_mem_intercalate hsep, List.forall_mem_map,
        allStrings_arr, and_iff_right (h.ascii '[' (by decide) (by decide)),
        and_iff_left (h.ascii ']' (by decide) (by decide))]
      exact forall₂_congr (fun j hmem => ih j hmem (hitems j hmem))
  | obj fields ih =>
    cases hj with
    | obj hkeys hfields =>
      rw [encode, encodeFields_eq, List.forall_mem_cons, List.forall_mem_append,
        List.forall_mem_singleton, forall_mem_intercalate hsep, List.forall_mem_map,
        allStrings_obj, and_iff_right (h.ascii '{' (by decide) (by decide)),
        and_iff_left (h.ascii '}' (by decide) (by decide))]
      refine forall₂_congr ?_
      intro f hf
      rw [encodeField, List.forall_mem_append, List.forall_mem_cons, List.forall_mem_append,
        forall_mem_quote h, and_iff_right (h.ascii ':' (by decide) (by decide)),
        and_iff_right h.keySpace]
      exact and_congr Iff.rfl (ih f hf (hfields f hf))

end

/-- A compact text is printable, whatever its strings hold. -/
theorem compact_printable {j : Json} (hj : Writable num j) :
    ∀ c ∈ encode compactStyle num j, Printable c := by
  have hpasses : Passes compactStyle Printable :=
    ⟨fun _ hlow hhigh => ⟨hlow, hhigh⟩, List.forall_mem_nil _, List.forall_mem_nil _⟩
  rw [forall_mem_encode hpasses hj]
  refine allStrings_of_forall ?_ j
  intro s c _
  exact escapeAscii_printable c

/-! ## Integers -/

/-- The digits of a number are the integer part of a literal. -/
theorem numStep_toDigits {s : NumState} (hs : s = .start ∨ s = .minus) (n : ℕ) :
    (Nat.toDigits 10 n).foldlM numStep s = some (if n = 0 then .zero else .int) := by
  have hdigit : ∀ d < 10, isDigit (Nat.digitChar d) = true := by decide
  have hfirst : ∀ d < 10, numStep s (Nat.digitChar d) = some (if d = 0 then .zero else .int) := by
    rcases hs with rfl | rfl <;> decide
  induction n using Nat.strongRecOn with
  | ind n ih =>
    by_cases hn : n < 10
    · rw [Nat.toDigits_of_lt_base hn, List.foldlM_cons, hfirst n hn]
      rfl
    · have hpos : n / 10 ≠ 0 := by omega
      have hlast : numStep .int (Nat.digitChar (n % 10)) = some .int := by
        rw [numStep, if_pos (hdigit _ (Nat.mod_lt n (by decide)))]
      rw [Nat.toDigits_of_base_le (by decide) (by omega), List.foldlM_append,
        ih (n / 10) (by omega), if_neg hpos, if_neg (by omega), Option.bind_eq_bind,
        Option.bind_some, List.foldlM_cons, hlast]
      rfl

/-- Integers in decimal. -/
def writeInt (q : ℚ) : List Char := Text.intText q.num

def readInt (l : List Char) : ℚ := Text.intValue l

/-- The text of an integer is a number literal. -/
theorem isNumber_writeInt (q : ℚ) : isNumber (writeInt q) = true := by
  have haccepts : (if q.num.natAbs = 0 then NumState.zero else NumState.int).accepts = true := by
    split <;> rfl
  unfold isNumber writeInt Text.intText
  by_cases hq : q.num < 0
  · have hminus : numStep .start '-' = some .minus := rfl
    rw [if_pos hq, List.foldlM_cons, hminus, Option.bind_eq_bind, Option.bind_some,
      numStep_toDigits (Or.inr rfl)]
    exact haccepts
  · rw [if_neg hq, numStep_toDigits (Or.inl rfl)]
    exact haccepts

/-- An integer is read back from its text. -/
theorem readInt_writeInt {q : ℚ} (h : q.den = 1) : readInt (writeInt q) = q := by
  rw [readInt, writeInt, Text.intValue_intText]
  exact Rat.coe_int_num_of_den_eq_one h

/-- The numbers of Python's `int`. -/
def integers : NumText where
  write := writeInt
  read := readInt
  Exact := fun q => q.den = 1
  isNumber_write := fun q _ => isNumber_writeInt q
  read_write := fun _ h => readInt_writeInt h

end JsonText
