import Mathlib.Data.List.Basic
import AdsHub.Lib.Json
import AdsHub.Lib.Dict

/-!
# AdsHub.Lib.JsonDecode — reading JSON texts

A decoder in the manner of Python's `json.loads`: white space is skipped between
tokens, a string may not contain raw control characters, and the items of an object
become a dictionary. What a number literal stands for is a parameter. `NaN` and the
infinities, which Python's decoder takes too, and escapes of unpaired surrogates have
no value here and are refused.

The recursion over nested values is on a fuel. Every result of the decoder is final:
more fuel and more text behind it change nothing (`value_stable`), except that a
number at the very end of the text could go on.
-/

namespace JsonText

/-! ## Strings -/

/-- Where the reader of a string stands: between characters, behind a backslash, in a
`\u` escape after some digits, or behind the first half of a surrogate pair. -/
inductive Scan where
  | plain
  | escape
  | hex (digits code : ℕ)
  | pair (high : ℕ)
  | pairEscape (high : ℕ)
  | pairHex (high digits code : ℕ)

/-- What a character does to the reader. -/
inductive Scanned where
  | closed
  | more (next : Scan) (out : Option Char)

def hexDigit? (c : Char) : Option ℕ :=
  if '0' ≤ c ∧ c ≤ '9' then some (c.toNat - '0'.toNat)
  else if 'a' ≤ c ∧ c ≤ 'f' then some (c.toNat - 'a'.toNat + 10)
  else if 'A' ≤ c ∧ c ≤ 'F' then some (c.toNat - 'A'.toNat + 10)
  else none

/-- The one-character escapes. -/
def unescape (c : Char) : Option Char :=
  if c = '"' ∨ c = '\\' ∨ c = '/' then some c
  else if c = 'b' then some (Char.ofNat 8)
  else if c = 'f' then some (Char.ofNat 12)
  else if c = 'n' then some '\n'
  else if c = 'r' then some '\r'
  else if c = 't' then some '\t'
  else none

/-- The four digits of an escape are read. -/
def codeUnit (code : ℕ) : Option Scanned :=
  -- the first half of a pair waits for the second, a second half alone is no character
  if 0xD800 ≤ code ∧ code < 0xDC00 then some (.more (.pair code) none)
  else if 0xDC00 ≤ code ∧ code < 0xE000 then none
  else some (.more .plain (some (Char.ofNat code)))

/-- The four digits of the second half of a pair are read. -/
def lowSurrogate (high code : ℕ) : Option Scanned :=
  if 0xDC00 ≤ code ∧ code < 0xE000 then
    some (.more .plain (some (Char.ofNat (0x10000 + (high - 0xD800) * 0x400 + (code - 0xDC00)))))
  else none

def scanChar : Scan → Char → Option Scanned
  | .plain, c =>
    if c = '"' then some .closed
    else if c = '\\' then some (.more .escape none)
    -- a control character has to be escaped
    else if c.toNat < 32 then none
    else some (.more .plain (some c))
  | .escape, c =>
    if c = 'u' then some (.more (.hex 0 0) none)
    else (unescape c).map (fun out => .more .plain (some out))
  | .hex digits code, c =>
    (hexDigit? c).bind (fun d =>
      if digits < 3 then some (.more (.hex (digits + 1) (16 * code + d)) none)
      else codeUnit (16 * code + d))
  | .pair high, c => if c = '\\' then some (.more (.pairEscape high) none) else none
  | .pairEscape high, c => if c = 'u' then some (.more (.pairHex high 0 0) none) else none
  | .pairHex high digits code, c =>
    (hexDigit? c).bind (fun d =>
      if digits < 3 then some (.more (.pairHex high (digits + 1) (16 * code + d)) none)
      else lowSurrogate high (16 * code + d))

/-- The rest of a string up to its closing quote, and what follows it. -/
def readString : Scan → List Char → Option (List Char × List Char)
  | _, [] => none
  | scan, c :: cs =>
    match scanChar scan c with
    | none => none
    | some .closed => some ([], cs)
    | some (.more next out) => (readString next cs).map (fun p => (out.toList ++ p.1, p.2))

/-- A string that was read to its closing quote does not care what follows. -/
theorem readString_append {scan : Scan} {l s rest : List Char} (more : List Char)
    (h : readString scan l = some (s, rest)) :
    readString scan (l ++ more) = some (s, rest ++ more) := by
  induction l generalizing scan s with
  | nil => cases h
  | cons c cs ih =>
    rw [List.cons_append]
    unfold readString at h ⊢
    split at h
    · cases h
    · cases h
      rfl
    · next next out hnext =>
      rcases Option.map_eq_some_iff.1 h with ⟨⟨s', rest'⟩, hread, heq⟩
      cases heq
      simp only [ih hread, Option.map_some]

/-! ## Numbers -/

/-- The parts of a number literal. -/
inductive NumState where
  | start
  | minus
  | zero
  | int
  | point
  | frac
  | exp
  | expSign
  | expDigits
deriving DecidableEq

def isDigit (c : Char) : Bool := '0' ≤ c && c ≤ '9'

def numStep : NumState → Char → Option NumState
  | .start, c => if c = '-' then some .minus else if c = '0' then some .zero
    else if isDigit c then some .int else none
  | .minus, c => if c = '0' then some .zero else if isDigit c then some .int else none
  | .zero, c => if c = '.' then some .point else if c = 'e' ∨ c = 'E' then some .exp else none
  | .int, c => if isDigit c then some .int else if c = '.' then some .point
    else if c = 'e' ∨ c = 'E' then some .exp else none
  | .point, c => if isDigit c then some .frac else none
  | .frac, c => if isDigit c then some .frac else if c = 'e' ∨ c = 'E' then some .exp else none
  | .exp, c => if c = '+' ∨ c = '-' then some .expSign
    else if isDigit c then some .expDigits else none
  | .expSign, c => if isDigit c then some .expDigits else none
  | .expDigits, c => if isDigit c then some .expDigits else none

def NumState.accepts : NumState → Bool
  | .zero | .int | .frac | .expDigits => true
  | _ => false

/-- The texts of the form `-?(0|[1-9][0-9]*)(\.[0-9]+)?([eE][-+]?[0-9]+)?`. -/
def isNumber (l : List Char) : Bool :=
  match l.foldlM numStep .start with
  | some state => state.accepts
  | none => false

/-- The characters of number literals. -/
def isNumChar (c : Char) : Bool :=
  isDigit c || c == '-' || c == '+' || c == '.' || c == 'e' || c == 'E'

/-- A number literal. It ends before the first character that is in no literal; after
anything else no value can end. -/
def number (num : List Char → ℚ) (l : List Char) : Option (Json × List Char) :=
  if isNumber (l.takeWhile isNumChar) then
    some (.num (num (l.takeWhile isNumChar)), l.dropWhile isNumChar)
  else none

/-- A number that was followed by something already is the same in a longer text. -/
theorem number_append {num : List Char → ℚ} {l rest : List Char} {j : Json} (more : List Char)
    (hrest : rest ≠ []) (h : number num l = some (j, rest)) :
    number num (l ++ more) = some (j, rest ++ more) := by
  unfold number at h ⊢
  split at h
  · next hnum =>
    cases h
    -- the literal has ended before `more`, as something else follows it
    have hne : (l.dropWhile isNumChar).isEmpty = false := by simpa using hrest
    have hdrop : (l ++ more).dropWhile isNumChar = l.dropWhile isNumChar ++ more := by
      rw [List.dropWhile_append, hne]
      rfl
    have htake : (l ++ more).takeWhile isNumChar = l.takeWhile isNumChar := by
      have hsplit : (l ++ more).takeWhile isNumChar ++ (l ++ more).dropWhile isNumChar =
          l.takeWhile isNumChar ++ (l.dropWhile isNumChar ++ more) := by
        rw [List.takeWhile_append_dropWhile, ← List.append_assoc,
          List.takeWhile_append_dropWhile]
      rw [hdrop] at hsplit
      exact List.append_cancel_right hsplit
    rw [htake, hdrop, if_pos hnum]
  · cases h

/-! ## Values -/

def isWs (c : Char) : Bool := c == ' ' || c == '\t' || c == '\n' || c == '\r'

def skipWs (l : List Char) : List Char := l.dropWhile isWs

/-- The rest of one of the words `null`, `true` and `false`. -/
def keyword (word : List Char) (j : Json) (l : List Char) : Option (Json × List Char) :=
  if l.take word.length = word then some (j, l.drop word.length) else none

section

variable {α : Type*}

/-- Elements separated by commas, up to the closing bracket. -/
def sequence (element : List Char → Option (α × List Char)) (close : Char) :
    ℕ → List Char → Option (List α × List Char)
  | 0, _ => none
  | n + 1, l =>
    match element (skipWs l) with
    | none => none
    | some (x, rest) =>
      match skipWs rest with
      | [] => none
      | c :: rest' =>
        if c = close then some ([x], rest')
        else if c = ',' then
          (sequence element close n rest').map (fun p => (x :: p.1, p.2))
        else none

/-- What follows an opening bracket: the closing one, or elements up to it. -/
def bracketed (element : List Char → Option (α × List Char)) (close : Char) (n : ℕ)
    (l : List Char) : Option (List α × List Char) :=
  match skipWs l with
  | [] => none
  | c :: rest => if c = close then some ([], rest) else sequence element close n (c :: rest)

end

/-- An item of an object. -/
def member (value : List Char → Option (Json × List Char)) :
    List Char → Option ((String × Json) × List Char)
  | [] => none
  | c :: cs =>
    if c = '"' then
      match readString .plain cs with
      | none => none
      | some (key, rest) =>
        match skipWs rest with
        | [] => none
        | d :: rest' =>
          if d = ':' then
            (value (skipWs rest')).map (fun p => ((String.ofList key, p.1), p.2))
          else none
    else none

/-- A value at the start of a text, and what follows it. -/
def value (num : List Char → ℚ) : ℕ → List Char → Option (Json × List Char)
  | 0, _ => none
  | _, [] => none
  | n + 1, c :: cs =>
    if c = '"' then (readString .plain cs).map (fun p => (.str (String.ofList p.1), p.2))
    else if c = '[' then (bracketed (value num n) ']' n cs).map (fun p => (.arr p.1, p.2))
    else if c = '{' then
      (bracketed (member (value num n)) '}' n cs).map (fun p => (.obj (Dict.ofItems p.1), p.2))
    else if c = 'n' then keyword ['u', 'l', 'l'] .null cs
    else if c = 't' then keyword ['r', 'u', 'e'] (.bool true) cs
    else if c = 'f' then keyword ['a', 'l', 's', 'e'] (.bool false) cs
    else number num (c :: cs)

/-- The decoder with a given fuel. -/
def decode (num : List Char → ℚ) (fuel : ℕ) (text : List Char) : Option Json :=
  match value num fuel (skipWs text) with
  | none => none
  | some (j, rest) => if (skipWs rest).isEmpty then some j else none

/-- `json.loads`: the length of the text is fuel enough. -/
def loads (num : List Char → ℚ) (text : List Char) : Option Json := decode num text.length text

/-! ## Results are final -/

theorem skipWs_append {l : List Char} (h : skipWs l ≠ []) (more : List Char) :
    skipWs (l ++ more) = skipWs l ++ more := by
  have hne : (l.dropWhile isWs).isEmpty = false := by simpa [skipWs] using h
  rw [skipWs, List.dropWhile_append, hne]
  rfl

theorem skipWs_cons_append {l rest : List Char} {c : Char} (h : skipWs l = c :: rest)
    (more : List Char) : skipWs (l ++ more) = c :: (rest ++ more) := by
  have hne : skipWs l ≠ [] := by
    rw [h]
    exact List.cons_ne_nil c rest
  rw [skipWs_append hne, h, List.cons_append]

/-- Nor does a keyword. -/
theorem keyword_append {word l rest : List Char} {j v : Json} (more : List Char)
    (h : keyword word j l = some (v, rest)) :
    keyword word j (l ++ more) = some (v, rest ++ more) := by
  unfold keyword at h ⊢
  split at h
  · next hword =>
    cases h
    have hlength : word.length ≤ l.length := by
      have hmin := congrArg List.length hword
      rw [List.length_take] at hmin
      omega
    rw [List.take_append_of_le_length hlength, if_pos hword,
      List.drop_append_of_le_length hlength]
  · cases h

section

variable {α : Type*}

/-- A result of the first reader that is followed by something is the result of the
second one too, with any text behind it; and the first one reads nothing out of
nothing. -/
structure Stable (first second : List Char → Option (α × List Char)) : Prop where
  empty : first [] = none
  result : ∀ {l x rest} (more), rest ≠ [] → first l = some (x, rest) →
    second (l ++ more) = some (x, rest ++ more)

/-- A reader that has succeeded behind white space has not read nothing. -/
theorem Stable.skipWs {first second : List Char → Option (α × List Char)}
    (h : Stable first second) {l : List Char} {x : α} {rest : List Char} (more : List Char)
    (hrest : rest ≠ []) (hl : first (skipWs l) = some (x, rest)) :
    second (JsonText.skipWs (l ++ more)) = some (x, rest ++ more) := by
  have hne : JsonText.skipWs l ≠ [] := by
    intro hnil
    rw [hnil, h.empty] at hl
    cases hl
  rw [skipWs_append hne]
  exact h.result more hrest hl

variable {first second : List Char → Option (α × List Char)} {close : Char}

/-- The elements of a list stay the ones that were read, with more fuel and more text. -/
theorem sequence_append (h : Stable first second) {n m : ℕ} (hnm : n ≤ m) {l rest : List Char}
    {xs : List α} (more : List Char) (hl : sequence first close n l = some (xs, rest)) :
    sequence second close m (l ++ more) = some (xs, rest ++ more) := by
  induction n generalizing m l xs with
  | zero => cases hl
  | succ n ih =>
    cases m with
    | zero => omega
    | succ m =>
      unfold sequence at hl ⊢
      cases hfirst : first (skipWs l) with
      | none =>
        rw [hfirst] at hl
        cases hl
      | some p =>
        rcases p with ⟨x, mid⟩
        rw [hfirst] at hl
        dsimp only at hl
        cases hmid : skipWs mid with
        | nil =>
          rw [hmid] at hl
          cases hl
        | cons c mid' =>
          -- the comma or the bracket behind the element tells that it has ended
          have hmid_ne : mid ≠ [] := by
            rintro rfl
            cases hmid
          rw [hmid] at hl
          rw [h.skipWs more hmid_ne hfirst]
          dsimp only
          rw [skipWs_cons_append hmid]
          dsimp only at hl ⊢
          by_cases hclose : c = close
          · rw [if_pos hclose] at hl ⊢
            cases hl
            rfl
          · rw [if_neg hclose] at hl ⊢
            by_cases hcomma : c = ','
            · rw [if_pos hcomma] at hl ⊢
              rcases Option.map_eq_some_iff.1 hl with ⟨⟨ys, rest'⟩, hys, heq⟩
              cases heq
              rw [ih (Nat.le_of_succ_le_succ hnm) hys]
              rfl
            · rw [if_neg hcomma] at hl
              cases hl

/-- So do those of a list that may be empty. -/
theorem bracketed_append (h : Stable first second) {n m : ℕ} (hnm : n ≤ m) {l rest : List Char}
    {xs : List α} (more : List Char) (hl : bracketed first close n l = some (xs, rest)) :
    bracketed second close m (l ++ more) = some (xs, rest ++ more) := by
  unfold bracketed at hl ⊢
  cases hskip : skipWs l with
  | nil =>
    rw [hskip] at hl
    cases hl
  | cons c mid =>
    rw [hskip] at hl
    rw [skipWs_cons_append hskip]
    dsimp only at hl ⊢
    by_cases hclose : c = close
    · rw [if_pos hclose] at hl ⊢
      cases hl
      rfl
    · rw [if_neg hclose] at hl ⊢
      rw [← List.cons_append]
      exact sequence_append h hnm more hl

end

/-- A member is as final as its value. -/
theorem member_stable {first second : List Char → Option (Json × List Char)}
    (h : Stable first second) : Stable (member first) (member second) where
  empty := rfl
  result := by
    intro l x rest more hrest hl
    cases l with
    | nil => cases hl
    | cons c cs =>
      rw [List.cons_append]
      unfold member at hl ⊢
      dsimp only at hl ⊢
      by_cases hc : c = '"'
      · rw [if_pos hc] at hl ⊢
        -- the key ends at its quote, whatever follows
        cases hread : readString .plain cs with
        | none =>
          rw [hread] at hl
          cases hl
        | some p =>
          rcases p with ⟨key, mid⟩
          rw [hread] at hl
          rw [readString_append more hread]
          dsimp only at hl ⊢
          cases hmid : skipWs mid with
          | nil =>
            rw [hmid] at hl
            cases hl
          | cons d mid' =>
            rw [hmid] at hl
            -- the blanks end at a character that is there already
            rw [skipWs_cons_append hmid]
            dsimp only at hl ⊢
            by_cases hd : d = ':'
            · rw [if_pos hd] at hl ⊢
              rcases Option.map_eq_some_iff.1 hl with ⟨⟨v, rest'⟩, hv, heq⟩
              cases heq
              rw [h.skipWs more hrest hv]
              rfl
            · rw [if_neg hd] at hl
              cases hl
      · rw [if_neg hc] at hl
        cases hl

/-- More fuel and more text change no result that is followed by something. -/
theorem value_stable (num : List Char → ℚ) {n m : ℕ} (hnm : n ≤ m) :
    Stable (value num n) (value num m) := by
  induction n generalizing m with
  | zero => exact ⟨rfl, fun _ _ h => by cases h⟩
  | succ n ih =>
    cases m with
    | zero => omega
    | succ m =>
      -- nested values are read with one less of fuel, in both readers
      have hnested : Stable (value num n) (value num m) := ih (Nat.le_of_succ_le_succ hnm)
      refine ⟨rfl, ?_⟩
      intro l x rest more hrest hl
      cases l with
      | nil => cases hl
      | cons c cs =>
        rw [List.cons_append]
        unfold value at hl ⊢
        by_cases hquote : c = '"'
        · rw [if_pos hquote] at hl ⊢
          rcases Option.map_eq_some_iff.1 hl with ⟨⟨s, rest'⟩, hs, heq⟩
          cases heq
          rw [readString_append more hs]
          rfl
        rw [if_neg hquote] at hl ⊢
        by_cases harr : c = '['
        · rw [if_pos harr] at hl ⊢
          rcases Option.map_eq_some_iff.1 hl with ⟨⟨js, rest'⟩, hjs, heq⟩
          cases heq
          rw [bracketed_append hnested (Nat.le_of_succ_le_succ hnm) more hjs]
          rfl
        rw [if_neg harr] at hl ⊢
        by_cases hobj : c = '{'
        · rw [if_pos hobj] at hl ⊢
          rcases Option.map_eq_some_iff.1 hl with ⟨⟨fields, rest'⟩, hfields, heq⟩
          cases heq
          rw [bracketed_append (member_stable hnested) (Nat.le_of_succ_le_succ hnm) more hfields]
          rfl
        rw [if_neg hobj] at hl ⊢
        by_cases hnull : c = 'n'
        · rw [if_pos hnull] at hl ⊢
          exact keyword_append more hl
        rw [if_neg hnull] at hl ⊢
        by_cases htrue : c = 't'
        · rw [if_pos htrue] at hl ⊢
          exact keyword_append more hl
        rw [if_neg htrue] at hl ⊢
        by_cases hfalse : c = 'f'
        · rw [if_pos hfalse] at hl ⊢
          exact keyword_append more hl
        rw [if_neg hfalse] at hl ⊢
        exact number_append more hrest hl

end JsonText
