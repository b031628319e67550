import Mathlib.Data.List.Basic
import Mathlib.Data.List.DropRight
import Mathlib.Data.List.Infix
import Mathlib.Tactic.IntervalCases
import Mathlib.Tactic.Ring

/-!
# AdsHub.Lib.Text — fixed-width decimals, lines and the SQL `LIKE` operator

Timestamps are kept as text and selected by `LIKE 'text%'`. What a reader of
such a table relies on is here in general form:

* `pad w n` — `n` in decimal, zero-filled to `w` digits; `pad_inj` says that
  below `10 ^ w` nothing is lost;
* `intText n` — an integer in decimal, which `intValue` reads back;
* `after p s` — what follows the text `p` at the start of `s`;
* `like` — SQLite's `LIKE` (`%` any text, `_` one character, ASCII letters
  compared without case), and `like_percent` — a pattern of plain characters
  followed by `%` selects the texts that start with it, up to case.

A reader of a file of lines relies on `splitlines_append`: a line that has no
character at which `str.splitlines` breaks is one line of the file.
-/

namespace Text

/-! ## Fixed-width decimals -/

/-- `n` in decimal, zero-filled (and cut) to the last `w` digits. -/
def pad : ℕ → ℕ → List Char
  | 0, _ => []
  | w + 1, n => pad w (n / 10) ++ [Nat.digitChar (n % 10)]

@[simp] theorem pad_length (w n : ℕ) : (pad w n).length = w := by
  induction w generalizing n with
  | zero => rfl
  | succ w ih => simp [pad, ih]

/-- Digit characters of different digits differ. -/
theorem digitChar_inj {a b : ℕ} (ha : a < 10) (hb : b < 10)
    (h : Nat.digitChar a = Nat.digitChar b) : a = b := by
  interval_cases a <;> interval_cases b <;> first | rfl | exact absurd h (by decide)

/-- Below `10 ^ w` the padded text determines the number. -/
theorem pad_inj {w n m : ℕ} (hn : n < 10 ^ w) (hm : m < 10 ^ w)
    (h : pad w n = pad w m) : n = m := by
  induction w generalizing n m with
  | zero => omega
  | succ w ih =>
    have hsplit := List.append_inj' h rfl
    have hq : n / 10 = m / 10 := by
      apply ih _ _ hsplit.1
      · rw [Nat.div_lt_iff_lt_mul (by decide)]
        rwa [pow_succ] at hn
      · rw [Nat.div_lt_iff_lt_mul (by decide)]
        rwa [pow_succ] at hm
    have hr : n % 10 = m % 10 :=
      digitChar_inj (Nat.mod_lt n (by decide)) (Nat.mod_lt m (by decide))
        (List.cons.inj hsplit.2).1
    omega

/-- Every character of a padded number is a digit. -/
theorem mem_pad {w n : ℕ} {c : Char} (h : c ∈ pad w n) :
    ∃ d < 10, c = Nat.digitChar d := by
  induction w generalizing n with
  | zero => simp [pad] at h
  | succ w ih =>
    rw [pad, List.mem_append, List.mem_singleton] at h
    rcases h with h | h
    · exact ih h
    · exact ⟨n % 10, Nat.mod_lt n (by decide), h⟩

/-! ## Integers -/

/-- An integer in decimal. -/
def intText (n : ℤ) : List Char :=
  if n < 0 then '-' :: Nat.toDigits 10 n.natAbs else Nat.toDigits 10 n.natAbs

/-- The integer of such a text. -/
def intValue (l : List Char) : ℤ :=
  if l.head? = some '-' then -(Nat.ofDigitChars 10 l.tail 0 : ℤ) else Nat.ofDigitChars 10 l 0

/-- The text of an integer is read back as that integer. -/
@[simp] theorem intValue_intText (n : ℤ) : intValue (intText n) = n := by
  unfold intValue intText
  by_cases hneg : n < 0
  · rw [if_pos hneg, List.head?_cons, if_pos rfl, List.tail_cons, Nat.ofDigitChars_ten_toDigits]
    omega
  · have hhead : (Nat.toDigits 10 n.natAbs).head? ≠ some '-' := by
      intro hhead
      -- a sign is no digit
      have hdigit := Nat.isDigit_of_mem_toDigits (by decide) (Nat.le_refl 10)
        (List.mem_of_mem_head? hhead)
      exact absurd hdigit (by decide)
    rw [if_neg hneg, if_neg hhead, Nat.ofDigitChars_ten_toDigits]
    omega

/-- It is what `toString` writes. -/
@[simp] theorem toList_repr (n : ℤ) : n.repr.toList = intText n := by
  cases n with
  | ofNat m =>
    show (Nat.repr m).toList = _
    simp [Nat.repr, intText]
  | negSucc m =>
    show ("-" ++ Nat.repr (m + 1)).toList = _
    simp [Nat.repr, intText]

/-! ## Texts that start with a given text -/

/-- What follows `p` in `s`, if `s` starts with `p`. -/
def after (p s : String) : Option String :=
  if s.toList.take p.toList.length = p.toList then
    some (String.ofList (s.toList.drop p.toList.length))
  else none

@[simp] theorem after_append (p s : String) : after p (p ++ s) = some s := by
  simp [after, String.toList_append]

/-- The text is what it starts with and what follows. -/
theorem eq_append_of_after {p s rest : String} (h : after p s = some rest) : s = p ++ rest := by
  unfold after at h
  split at h
  · next hstart =>
    cases h
    apply String.toList_injective
    have hsplit := List.take_append_drop p.toList.length s.toList
    rw [hstart] at hsplit
    rw [String.toList_append, String.toList_ofList, hsplit]
  · cases h

/-! ## Case -/

/-- `str.lower` of a text in ASCII. -/
def asciiLower (s : String) : String := String.ofList (s.toList.map Char.toLower)

/-! ## White space -/

/-- The characters that Python's `str.isspace` accepts and `str.strip` removes. -/
def isSpace (c : Char) : Bool :=
  let n := c.toNat
  (9 ≤ n && n ≤ 13) || (28 ≤ n && n ≤ 32) || n == 0x85 || n == 0xA0 || n == 0x1680 ||
    (0x2000 ≤ n && n ≤ 0x200A) || n == 0x2028 || n == 0x2029 || n == 0x202F || n == 0x205F ||
    n == 0x3000

/-- `str.strip`. -/
def strip (s : String) : String :=
  String.ofList ((s.toList.dropWhile isSpace).rdropWhile isSpace)

/-- Nothing is left of the text after `strip()`. -/
def blank (s : List Char) : Bool := s.all isSpace

/-! ## Lines -/

/-- The characters at which Python's `str.splitlines` ends a line. -/
def isLineBreak (c : Char) : Bool :=
  let n := c.toNat
  (10 ≤ n && n ≤ 13) || (28 ≤ n && n ≤ 30) || n == 0x85 || n == 0x2028 || n == 0x2029

/-- `splitlines` behind a carriage return (`cr`) or not: a line feed that follows one
belongs to it. -/
def splitlinesFrom : Bool → List Char → List (List Char)
  | _, [] => []
  | cr, c :: cs =>
    -- the line feed of `\r\n` ends no line of its own
    if cr && c == '\n' then splitlinesFrom false cs
    else if isLineBreak c then [] :: splitlinesFrom (c == '\r') cs
    else
      match splitlinesFrom false cs with
      | [] => [[c]]
      | line :: lines => (c :: line) :: lines

/-- `str.splitlines`. -/
def splitlines (s : List Char) : List (List Char) := splitlinesFrom false s

/-- What a file opened as text gives of `s`: every kind of line end becomes `\n`. -/
def universalNewlines : Bool → List Char → List Char
  | _, [] => []
  | cr, c :: cs =>
    if cr && c == '\n' then universalNewlines false cs
    else if c == '\r' then '\n' :: universalNewlines true cs
    else c :: universalNewlines false cs

theorem universalNewlines_eq {s : List Char} (h : ∀ c ∈ s, c ≠ '\r') :
    universalNewlines false s = s := by
  induction s with
  | nil => rfl
  | cons c cs ih =>
    rw [List.forall_mem_cons] at h
    have hc : (c == '\r') = false := by simpa using h.1
    simp only [universalNewlines, Bool.false_and, Bool.false_eq_true, if_false, hc, ih h.2]

/-- A line without breaks and the break that ends it are the first line of a text. -/
theorem splitlines_append {line : List Char} (hline : ∀ c ∈ line, isLineBreak c = false) {b : Char}
    (hb : isLineBreak b = true) (hcr : b ≠ '\r') (rest : List Char) :
    splitlines (line ++ b :: rest) = line :: splitlines rest := by
  unfold splitlines
  induction line with
  | nil =>
    have hb' : (b == '\r') = false := by simpa using hcr
    simp only [List.nil_append, splitlinesFrom, Bool.false_and, Bool.false_eq_true, if_false, hb,
      if_true, hb']
  | cons c line ih =>
    rw [List.forall_mem_cons] at hline
    simp only [List.cons_append, splitlinesFrom, Bool.false_and, Bool.false_eq_true, if_false,
      hline.1, ih hline.2]

/-- A line without a break behind it is the last line of a text. -/
theorem splitlines_last {line : List Char} (hline : ∀ c ∈ line, isLineBreak c = false)
    (hne : line ≠ []) : splitlines line = [line] := by
  unfold splitlines
  induction line with
  | nil => exact absurd rfl hne
  | cons c line ih =>
    rw [List.forall_mem_cons] at hline
    simp only [splitlinesFrom, Bool.false_and, Bool.false_eq_true, if_false, hline.1]
    cases line with
    | nil => rfl
    | cons d line => rw [ih hline.2 (List.cons_ne_nil d line)]

/-! ## LIKE -/

/-- SQLite's `LIKE`: `%` stands for any text, `_` for any one character, and
ASCII letters are compared without case. -/
def like : List Char → List Char → Bool
  | [], s => s.isEmpty
  | x :: p, s =>
    if x = '%' then s.tails.any (like p)
    else match s with
      | [] => false
      | c :: s' => (x = '_' || x.toLower == c.toLower) && like p s'

/-- A character that `LIKE` takes as itself. -/
def Plain (c : Char) : Prop := c ≠ '%' ∧ c ≠ '_'

theorem like_percent_nil (s : List Char) : like ['%'] s = true := by
  have h : ([] : List Char) ∈ s.tails := by simp
  simp only [like, if_true, List.any_eq_true]
  exact ⟨[], h, rfl⟩

/-- A pattern of plain characters followed by `%` selects the texts that start
with those characters, up to ASCII case. -/
theorem like_percent {p : List Char} (hp : ∀ c ∈ p, Plain c) (s : List Char) :
    like (p ++ ['%']) s = true ↔
      p.map Char.toLower <+: s.map Char.toLower := by
  induction p generalizing s with
  | nil => simpa using like_percent_nil s
  | cons x p ih =>
    rw [List.forall_mem_cons] at hp
    rcases hp with ⟨⟨hpct, hone⟩, hrest⟩
    cases s with
    | nil => simp [like, hpct]
    | cons c s => simp [like, hpct, hone, ih hrest, List.cons_prefix_cons]

/-- When neither text has characters that case folding changes, `LIKE` with a
trailing `%` compares the first characters as they are. -/
theorem like_percent_append {p q t : List Char} (hp : ∀ c ∈ p, Plain c)
    (hpl : p.map Char.toLower = p) (hql : q.map Char.toLower = q)
    (hlen : p.length = q.length) : like (p ++ ['%']) (q ++ t) = true ↔ p = q := by
  rw [like_percent hp, hpl, List.map_append, hql]
  constructor
  · intro h
    have hpq : p <+: q :=
      List.prefix_of_prefix_length_le h (List.prefix_append _ _) hlen.le
    exact hpq.eq_of_length hlen
  · rintro rfl
    exact List.prefix_append _ _

/-- A digit is a plain character that case folding keeps. -/
theorem digitChar_plain {d : ℕ} (h : d < 10) :
    Plain (Nat.digitChar d) ∧ (Nat.digitChar d).toLower = Nat.digitChar d := by
  unfold Plain
  interval_cases d <;> decide

end Text
