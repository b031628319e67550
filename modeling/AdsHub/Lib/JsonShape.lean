import AdsHub.Lib.JsonEncode

/-!
# AdsHub.Lib.JsonShape — brackets and quotes of JSON texts

A reader that looks at brackets, quotes and backslashes only. What the decoder reads is
balanced for it (`value_balanced`), and the text of an object is open as long as it is not
complete (`open_part`). From these: a text that begins with an incomplete object and ends
with a complete one is refused by the decoder, wherever the first one was cut
(`loads_after_part`).

The second object may start inside a string of the first. Then its strings are read as
what is between strings, and the other way round, and there is one quote too many: this is
`flipped`.
-/

namespace JsonText

/-- Outside of strings, in a string, behind a backslash in a string, each with the number
of open brackets; or at something that is in no JSON text. -/
inductive Shape where
  | outside (depth : ℕ)
  | inside (depth : ℕ)
  | escaped (depth : ℕ)
  | broken

def Shape.step : Shape → Char → Shape
  | .outside depth, c =>
    if c = '"' then .inside depth
    else if c = '{' ∨ c = '[' then .outside (depth + 1)
    else if c = '}' ∨ c = ']' then
      match depth with
      | 0 => .broken
      | depth + 1 => .outside depth
    else if c = '\\' then .broken
    else .outside depth
  | .inside depth, c =>
    if c = '"' then .outside depth else if c = '\\' then .escaped depth else .inside depth
  | .escaped depth, _ => .inside depth
  | .broken, _ => .broken

/-- The state behind a text. -/
def Shape.after (s : Shape) (l : List Char) : Shape := l.foldl Shape.step s

@[simp] theorem Shape.after_nil (s : Shape) : s.after [] = s := rfl

@[simp] theorem Shape.after_cons (s : Shape) (c : Char) (l : List Char) :
    s.after (c :: l) = (s.step c).after l := rfl

theorem Shape.after_append (s : Shape) (l m : List Char) : s.after (l ++ m) = (s.after l).after m :=
  List.foldl_append

/-- Nothing mends a text whose brackets do not match. -/
theorem Shape.broken_after (l : List Char) : Shape.broken.after l = .broken := by
  induction l with
  | nil => rfl
  | cons c l ih => exact ih

/-- The text leaves the state outside of strings as it is. -/
def Balanced (l : List Char) : Prop := ∀ depth, (Shape.outside depth).after l = .outside depth

/-- Balanced texts can be put next to one another. -/
theorem Balanced.append {l m : List Char} (hl : Balanced l) (hm : Balanced m) :
    Balanced (l ++ m) := by
  intro depth
  rw [Shape.after_append, hl, hm]

/-- No bracket, quote or backslash. -/
def neutral (c : Char) : Bool :=
  c ≠ '"' ∧ c ≠ '{' ∧ c ≠ '[' ∧ c ≠ '}' ∧ c ≠ ']' ∧ c ≠ '\\'

theorem step_neutral {c : Char} (h : neutral c = true) (depth : ℕ) :
    (Shape.outside depth).step c = .outside depth := by
  rw [neutral, decide_eq_true_eq] at h
  simp [Shape.step, h]

/-- A text without brackets, quotes and backslashes is balanced. -/
theorem balanced_neutral {l : List Char} (h : ∀ c ∈ l, neutral c = true) : Balanced l := by
  intro depth
  induction l with
  | nil => rfl
  | cons c l ih =>
    rw [List.forall_mem_cons] at h
    rw [Shape.after_cons, step_neutral h.1]
    exact ih h.2

theorem Balanced.cons {l : List Char} (h : Balanced l) {c : Char} (hc : neutral c = true) :
    Balanced (c :: l) := by
  intro depth
  rw [Shape.after_cons, step_neutral hc]
  exact h depth

/-- So is a balanced text between brackets; their kinds are not told apart. -/
theorem Balanced.bracket {body : List Char} (h : Balanced body) {left right : Char}
    (hleft : left = '{' ∨ left = '[') (hright : right = '}' ∨ right = ']') :
    Balanced (left :: (body ++ [right])) := by
  intro depth
  have hopen : (Shape.outside depth).step left = .outside (depth + 1) := by
    rcases hleft with rfl | rfl <;> rfl
  have hclose : (Shape.outside (depth + 1)).step right = .outside depth := by
    rcases hright with rfl | rfl <;> rfl
  rw [Shape.after_cons, hopen, Shape.after_append, h, Shape.after_cons, hclose, Shape.after_nil]

/-! ## What the decoder reads -/

theorem isWs_neutral {c : Char} (h : isWs c = true) : neutral c = true := by
  simp only [isWs, Bool.or_eq_true, beq_iff_eq] at h
  rcases h with ((rfl | rfl) | rfl) | rfl <;> decide

/-- The white space that is skipped is balanced. -/
theorem skipWs_split (l : List Char) : ∃ blanks, l = blanks ++ skipWs l ∧ Balanced blanks := by
  refine ⟨l.takeWhile isWs, List.takeWhile_append_dropWhile.symm, balanced_neutral ?_⟩
  intro c hc
  exact isWs_neutral (List.all_eq_true.1 List.all_takeWhile c hc)

/-- The state that the reader of a string is in. -/
def Scan.shape : Scan → ℕ → Shape
  | .escape, depth => .escaped depth
  | .pairEscape _, depth => .escaped depth
  | _, depth => .inside depth

def Scanned.shape : Scanned → ℕ → Shape
  | .closed, depth => .outside depth
  | .more next _, depth => next.shape depth

/-- A hexadecimal digit leaves a string open. -/
theorem hexDigit_step {c : Char} {d : ℕ} (h : hexDigit? c = some d) (depth : ℕ) :
    (Shape.inside depth).step c = .inside depth := by
  have hquote : c ≠ '"' := by
    rintro rfl
    cases h
  have hback : c ≠ '\\' := by
    rintro rfl
    cases h
  rw [Shape.step, if_neg hquote, if_neg hback]

/-- Behind the digits of an escape the reader is inside the string again. -/
theorem codeUnit_shape {code : ℕ} {r : Scanned} (h : codeUnit code = some r) (depth : ℕ) :
    r.shape depth = .inside depth := by
  unfold codeUnit at h
  split at h
  · cases h
    rfl
  · split at h
    · cases h
    · cases h
      rfl

/-- And so it is behind those of a second half. -/
theorem lowSurrogate_shape {high code : ℕ} {r : Scanned} (h : lowSurrogate high code = some r)
    (depth : ℕ) : r.shape depth = .inside depth := by
  unfold lowSurrogate at h
  split at h
  · cases h
    rfl
  · cases h

/-- A character of a string does the same to both readers. -/
theorem scanChar_shape {scan : Scan} {c : Char} {r : Scanned} (h : scanChar scan c = some r)
    (depth : ℕ) : (scan.shape depth).step c = r.shape depth := by
  cases scan with
  | plain =>
    -- closing quote, backslash, or a character of the string; a raw control is refused
    rw [scanChar] at h
    show (if c = '"' then Shape.outside depth else if c = '\\' then .escaped depth
      else .inside depth) = r.shape depth
    split at h
    · next hc =>
      cases h
      rw [if_pos hc]
      rfl
    · next hc =>
      rw [if_neg hc]
      split at h
      · next hback =>
        cases h
        rw [if_pos hback]
        rfl
      · next hback =>
        rw [if_neg hback]
        split at h
        · cases h
        · cases h
          rfl
  | escape =>
    -- whatever is escaped, the shape is back inside the string
    rw [scanChar] at h
    split at h
    · cases h
      rfl
    · obtain ⟨out, -, rfl⟩ := Option.map_eq_some_iff.1 h
      rfl
  | hex digits code =>
    -- a digit can be neither quote nor backslash; the last one completes a code unit
    obtain ⟨d, hd, h⟩ := Option.bind_eq_some_iff.1 h
    have hinside : ((Scan.hex digits code).shape depth).step c = .inside depth :=
      hexDigit_step hd depth
    rw [hinside]
    split at h
    · cases h
      rfl
    · exact (codeUnit_shape h depth).symm
  | pair high =>
    -- behind a first half only a backslash is read
    rw [scanChar] at h
    split at h
    · next hc =>
      cases h
      rw [hc]
      rfl
    · cases h
  | pairEscape high =>
    rw [scanChar] at h
    split at h
    · cases h
      rfl
    · cases h
  | pairHex high digits code =>
    -- as for `hex`, with the second half at the end
    obtain ⟨d, hd, h⟩ := Option.bind_eq_some_iff.1 h
    have hinside : ((Scan.pairHex high digits code).shape depth).step c = .inside depth :=
      hexDigit_step hd depth
    rw [hinside]
    split at h
    · cases h
      rfl
    · exact (lowSurrogate_shape h depth).symm

/-- A string that was read to its closing quote leaves the depth as it was. -/
theorem readString_shape {scan : Scan} {l s rest : List Char}
    (h : readString scan l = some (s, rest)) :
    ∃ used, l = used ++ rest ∧ ∀ depth, (scan.shape depth).after used = .outside depth := by
  induction l generalizing scan s with
  | nil => cases h
  | cons c l ih =>
    unfold readString at h
    split at h
    · cases h
    · next hclosed =>
      cases h
      exact ⟨[c], rfl, scanChar_shape hclosed⟩
    · next next out hnext =>
      obtain ⟨⟨s', rest'⟩, hread, heq⟩ := Option.map_eq_some_iff.1 h
      cases heq
      obtain ⟨used, rfl, hused⟩ := ih hread
      refine ⟨c :: used, rfl, ?_⟩
      intro depth
      rw [Shape.after_cons, scanChar_shape hnext]
      exact hused depth

/-- A string with its quotes. -/
theorem quoted_balanced {l s rest : List Char} (h : readString .plain l = some (s, rest)) :
    ∃ used, '"' :: l = used ++ rest ∧ Balanced used := by
  obtain ⟨used, rfl, hused⟩ := readString_shape h
  exact ⟨'"' :: used, rfl, hused⟩

/-- A reader that reads balanced texts. -/
def ReadsBalanced {α : Type*} (read : List Char → Option (α × List Char)) : Prop :=
  ∀ l x rest, read l = some (x, rest) → ∃ used, l = used ++ rest ∧ Balanced used

/-- The same behind blanks. -/
theorem ReadsBalanced.skipWs {α : Type*} {read : List Char → Option (α × List Char)}
    (h : ReadsBalanced read) {l rest : List Char} {x : α}
    (hl : read (JsonText.skipWs l) = some (x, rest)) : ∃ used, l = used ++ rest ∧ Balanced used := by
  obtain ⟨blanks, hblanks, hbalanced⟩ := skipWs_split l
  obtain ⟨used, hused, hread⟩ := h _ _ _ hl
  refine ⟨blanks ++ used, ?_, hbalanced.append hread⟩
  rw [List.append_assoc, ← hused]
  exact hblanks

/-- What is read for a number is balanced. -/
theorem number_balanced (num : List Char → ℚ) : ReadsBalanced (number num) := by
  intro l j rest h
  unfold number at h
  split at h
  · cases h
    refine ⟨l.takeWhile isNumChar, List.takeWhile_append_dropWhile.symm, balanced_neutral ?_⟩
    intro c hc
    have hnum := List.all_eq_true.1 List.all_takeWhile c hc
    by_contra hbracket
    rw [neutral, decide_eq_true_eq] at hbracket
    have hcases : c = '"' ∨ c = '{' ∨ c = '[' ∨ c = '}' ∨ c = ']' ∨ c = '\\' := by
      by_contra hnone
      simp only [not_or] at hnone
      exact hbracket hnone
    rcases hcases with rfl | rfl | rfl | rfl | rfl | rfl <;> exact absurd hnum (by decide)
  · cases h

/-- What is read for a keyword is balanced. -/
theorem keyword_balanced {word : List Char} (hword : ∀ c ∈ word, neutral c = true) (j : Json) :
    ReadsBalanced (keyword word j) := by
  intro l v rest h
  unfold keyword at h
  split at h
  · next htake =>
    cases h
    refine ⟨word, ?_, balanced_neutral hword⟩
    nth_rewrite 1 [← htake]
    exact (List.take_append_drop word.length l).symm
  · cases h

section

variable {α : Type*} {element : List Char → Option (α × List Char)} {close : Char}

/-- The text of the elements up to the closing bracket is balanced. -/
theorem sequence_balanced (h : ReadsBalanced element) {n : ℕ} {l rest : List Char} {xs : List α}
    (hl : JsonText.sequence element close n l = some (xs, rest)) :
    ∃ body, l = body ++ close :: rest ∧ Balanced body := by
  -- on the fuel: one element, then the closing bracket or a comma and the rest
  induction n generalizing l xs with
  | zero => cases hl
  | succ n ih =>
    unfold JsonText.sequence at hl
    split at hl
    · cases hl
    · next x mid hx =>
      obtain ⟨used, rfl, hused⟩ := h.skipWs hx
      obtain ⟨blanks, hmid, hblanks⟩ := skipWs_split mid
      split at hl
      · cases hl
      · next c mid' hc =>
        rw [hc] at hmid
        split at hl
        · -- the closing bracket: the element and the blanks behind it
          next hclose =>
          cases hl
          refine ⟨used ++ blanks, ?_, hused.append hblanks⟩
          rw [hmid, hclose, List.append_assoc]
        · split at hl
          · -- a comma is neutral, and the rest is balanced by induction
            next hcomma =>
            obtain ⟨⟨ys, rest'⟩, hys, heq⟩ := Option.map_eq_some_iff.1 hl
            cases heq
            obtain ⟨body, rfl, hbody⟩ := ih hys
            refine ⟨used ++ (blanks ++ ',' :: body), ?_,
              hused.append (hblanks.append (hbody.cons (by decide)))⟩
            rw [hmid, hcomma]
            simp only [List.append_assoc, List.cons_append]
          · cases hl

/-- The same for a list that may be empty. -/
theorem bracketed_balanced (h : ReadsBalanced element) {n : ℕ} {l rest : List Char} {xs : List α}
    (hl : bracketed element close n l = some (xs, rest)) :
    ∃ body, l = body ++ close :: rest ∧ Balanced body := by
  obtain ⟨blanks, hblanks, hbalanced⟩ := skipWs_split l
  unfold bracketed at hl
  split at hl
  · cases hl
  · next c mid hskip =>
    rw [hskip] at hblanks
    split at hl
    · next hclose =>
      cases hl
      exact ⟨blanks, by rw [hblanks, hclose], hbalanced⟩
    · obtain ⟨body, hbody, hsequence⟩ := sequence_balanced h hl
      refine ⟨blanks ++ body, ?_, hbalanced.append hsequence⟩
      rw [hblanks, hbody, List.append_assoc]

end

/-- A member is balanced if its value is. -/
theorem member_balanced {value : List Char → Option (Json × List Char)} (h : ReadsBalanced value) :
    ReadsBalanced (member value) := by
  intro l f rest hl
  unfold member at hl
  split at hl
  · cases hl
  · next c cs =>
    split at hl
    · next hc =>
      split at hl
      · cases hl
      · next key mid hread =>
        -- the key, a colon and the value, with blanks between; each is balanced
        obtain ⟨quoted, hquoted, hkey⟩ := quoted_balanced hread
        obtain ⟨blanks, hmid, hblanks⟩ := skipWs_split mid
        split at hl
        · cases hl
        · next d mid' hd =>
          rw [hd] at hmid
          split at hl
          · next hcolon =>
            obtain ⟨⟨j, rest'⟩, hvalue, heq⟩ := Option.map_eq_some_iff.1 hl
            cases heq
            obtain ⟨used, rfl, hused⟩ := h.skipWs hvalue
            refine ⟨quoted ++ (blanks ++ ':' :: used), ?_,
              hkey.append (hblanks.append (hused.cons (by decide)))⟩
            rw [hc, hquoted, hmid, hcolon]
            simp only [List.append_assoc, List.cons_append]
          · cases hl
    · cases hl

/-- What a value is read from is balanced. -/
theorem value_balanced (num : List Char → ℚ) (n : ℕ) : ReadsBalanced (value num n) := by
  induction n with
  | zero =>
    intro l j rest h
    cases h
  | succ n ih =>
    intro l j rest h
    cases l with
    | nil => cases h
    | cons c cs =>
      unfold value at h
      split at h
      · next hc =>
        obtain ⟨p, hp, heq⟩ := Option.map_eq_some_iff.1 h
        cases heq
        rw [hc]
        exact quoted_balanced hp
      · split at h
        · next hc =>
          obtain ⟨p, hp, heq⟩ := Option.map_eq_some_iff.1 h
          cases heq
          obtain ⟨body, rfl, hbody⟩ := bracketed_balanced ih hp
          refine ⟨c :: (body ++ [']']), by simp, hbody.bracket (Or.inr hc) (Or.inr rfl)⟩
        · split at h
          · next hc =>
            obtain ⟨p, hp, heq⟩ := Option.map_eq_some_iff.1 h
            cases heq
            obtain ⟨body, rfl, hbody⟩ := bracketed_balanced (member_balanced ih) hp
            refine ⟨c :: (body ++ ['}']), by simp, hbody.bracket (Or.inl hc) (Or.inl rfl)⟩
          · -- a word has its first letter here
            have hword : ∀ {word : List Char} {v : Json}, (∀ d ∈ word, neutral d = true) →
                neutral c = true → keyword word v cs = some (j, rest) →
                ∃ used, c :: cs = used ++ rest ∧ Balanced used := by
              intro word v hneutral hc hkeyword
              obtain ⟨used, rfl, hused⟩ := keyword_balanced hneutral v cs j rest hkeyword
              exact ⟨c :: used, rfl, hused.cons hc⟩
            split at h
            · next hc => exact hword (by simp [neutral]) (by rw [hc]; rfl) h
            · split at h
              · next hc => exact hword (by simp [neutral]) (by rw [hc]; rfl) h
              · split at h
                · next hc => exact hword (by simp [neutral]) (by rw [hc]; rfl) h
                · exact number_balanced num (c :: cs) j rest h

/-- A text that is decoded is balanced. -/
theorem loads_balanced {num : List Char → ℚ} {text : List Char} {j : Json}
    (h : loads num text = some j) : Balanced text := by
  unfold loads decode at h
  split at h
  · cases h
  · next v rest hvalue =>
    split at h
    · next hrest =>
      obtain ⟨used, hused, hbalanced⟩ := (value_balanced num text.length).skipWs hvalue
      obtain ⟨blanks, hblanks, hws⟩ := skipWs_split rest
      rw [List.isEmpty_iff.1 hrest, List.append_nil] at hblanks
      rw [hused, hblanks]
      exact hbalanced.append hws
    · cases h

/-! ## Objects -/

variable {style : Style} {num : NumText}

/-- The text of an object: balanced between its braces. -/
theorem object_body (style : Style) {fields : List (String × Json)} (h : Writable num (.obj fields)) :
    ∃ body, encode style num (.obj fields) = '{' :: (body ++ ['}']) ∧ Balanced body := by
  have htext : encode style num (.obj fields) = '{' ::
      ((',' :: style.itemSpace).intercalate (encodeFields style num fields) ++ ['}']) := by
    rw [encode]
  refine ⟨_, htext, ?_⟩
  have hvalue := value_encode style h (Nat.le_succ _) ends_nil
  rw [htext, List.append_nil, value, if_neg (by decide), if_neg (by decide), if_pos rfl] at hvalue
  obtain ⟨⟨items, rest⟩, hitems, heq⟩ := Option.map_eq_some_iff.1 hvalue
  cases heq
  obtain ⟨body, hbody, hbalanced⟩ := bracketed_balanced (member_balanced (value_balanced _ _)) hitems
  rw [List.append_cancel_right hbody]
  exact hbalanced

/-- The text of an object is balanced, as the decoder reads it. -/
theorem object_balanced {fields : List (String × Json)} (h : Writable num (.obj fields)) :
    Balanced (encode style num (.obj fields)) := by
  obtain ⟨body, htext, hbody⟩ := object_body style h
  rw [htext]
  exact hbody.bracket (Or.inl rfl) (Or.inl rfl)

/-- The same with one more bracket open. -/
def Shape.deeper : Shape → Shape
  | .outside depth => .outside (depth + 1)
  | .inside depth => .inside (depth + 1)
  | .escaped depth => .escaped (depth + 1)
  | .broken => .broken

/-- Whatever a text does without breaking, it does one level deeper too. -/
theorem Shape.step_deeper {s : Shape} {c : Char} (h : s.step c ≠ .broken) :
    s.deeper.step c = (s.step c).deeper := by
  cases s with
  | outside depth =>
    simp only [Shape.deeper, Shape.step] at h ⊢
    split
    · rfl
    · split
      · rfl
      · split
        · -- a closing bracket breaks at depth zero only, which `h` excludes
          cases depth with
          | zero => simp_all
          | succ depth => rfl
        · split
          · rfl
          · rfl
  | inside depth =>
    simp only [Shape.deeper, Shape.step]
    split
    · rfl
    · split
      · rfl
      · rfl
  | escaped depth => rfl
  | broken => rfl

/-- A bracket around a text that does not break makes no difference to it. -/
theorem Shape.after_deeper {s : Shape} {l : List Char} (h : s.after l ≠ .broken) :
    s.deeper.after l = (s.after l).deeper := by
  induction l generalizing s with
  | nil => rfl
  | cons c l ih =>
    have hstep : s.step c ≠ .broken := by
      intro hbroken
      rw [Shape.after_cons, hbroken, Shape.broken_after] at h
      exact h rfl
    rw [Shape.after_cons, Shape.step_deeper hstep]
    exact ih h

/-- An object that is not complete has its brace open. -/
theorem open_part {fields : List (String × Json)} (h : Writable num (.obj fields))
    {part tail : List Char} {c : Char} (hpart : part ≠ [])
    (htext : encode style num (.obj fields) = part ++ c :: tail) :
    ∃ s : Shape, s ≠ .broken ∧ (Shape.outside 0).after part = s.deeper := by
  obtain ⟨body, hbody, hbalanced⟩ := object_body style h
  rw [hbody] at htext
  cases part with
  | nil => exact absurd rfl hpart
  | cons d part =>
    rw [List.cons_append, List.cons.injEq] at htext
    obtain ⟨rfl, htext⟩ := htext
    -- the last character of the text is its brace
    have hlast := List.dropLast_append_getLast (List.cons_ne_nil c tail)
    rw [← hlast, ← List.append_assoc] at htext
    have hsplit : body = part ++ (c :: tail).dropLast := (List.append_inj' htext rfl).1
    have hends := hbalanced 0
    have hmiddle : (Shape.outside 0).after part ≠ .broken := by
      intro hbroken
      rw [hsplit, Shape.after_append, hbroken, Shape.broken_after] at hends
      cases hends
    refine ⟨(Shape.outside 0).after part, hmiddle, ?_⟩
    rw [Shape.after_cons]
    exact Shape.after_deeper hmiddle

/-! ## Two objects -/

/-- Between strings, a character other than a quote breaks the text or changes the depth
alone. -/
theorem step_outside {c : Char} (h : c ≠ '"') (depth : ℕ) :
    (Shape.outside depth).step c = .broken ∨
      c ≠ '\\' ∧ ∃ depth', (Shape.outside depth).step c = .outside depth' := by
  simp only [Shape.step, if_neg h]
  split
  · next hopen =>
    refine Or.inr ⟨?_, depth + 1, rfl⟩
    rintro rfl
    exact absurd hopen (by decide)
  · split
    · next hclose =>
      cases depth with
      | zero => exact Or.inl rfl
      | succ depth =>
        refine Or.inr ⟨?_, depth, rfl⟩
        rintro rfl
        exact absurd hclose (by decide)
    · split
      · exact Or.inl rfl
      · next hback => exact Or.inr ⟨hback, depth, rfl⟩

/-- A text that is balanced is not when it is read with strings and what is between them
exchanged. -/
theorem flipped {l : List Char} {depth : ℕ} :
    (∀ start, (Shape.outside start).after l = .outside depth →
      ∀ inner outer, (Shape.inside inner).after l ≠ .outside outer) ∧
    (∀ start, (Shape.inside start).after l = .outside depth →
      ∀ inner outer, (Shape.outside inner).after l ≠ .outside outer) := by
  have hbroken : ∀ (l : List Char) (d : ℕ), Shape.broken.after l ≠ .outside d := by
    intro l d h
    rw [Shape.broken_after] at h
    cases h
  induction l with
  | nil =>
    constructor
    · intro start _ inner outer h
      cases h
    · intro start h
      cases h
  | cons c l ih =>
    simp only [Shape.after_cons]
    constructor
    · intro start h inner outer
      by_cases hquote : c = '"'
      · rw [hquote] at h ⊢
        exact ih.2 start h inner outer
      · rcases step_outside hquote start with hstep | ⟨hback, next, hstep⟩
        · rw [hstep] at h
          exact absurd h (hbroken l depth)
        · rw [hstep] at h
          rw [Shape.step, if_neg hquote, if_neg hback]
          exact ih.1 next h inner outer
    · intro start h inner outer
      by_cases hquote : c = '"'
      · rw [hquote] at h ⊢
        exact ih.1 start h inner outer
      · -- a backslash of a string is now outside of strings
        rcases step_outside hquote inner with hstep | ⟨hback, next, hstep⟩
        · rw [hstep]
          exact hbroken l outer
        · rw [Shape.step, if_neg hquote, if_neg hback] at h
          rw [hstep]
          exact ih.2 start h next outer

/-- A complete object does not close what is open before it. -/
theorem deeper_after_object {fields : List (String × Json)} (h : Writable num (.obj fields))
    {s : Shape} (hs : s ≠ .broken) :
    s.deeper.after (encode style num (.obj fields)) ≠ .outside 0 := by
  have hbalanced : Balanced (encode style num (.obj fields)) := object_balanced h
  cases s with
  | outside depth =>
    show (Shape.outside (depth + 1)).after (encode style num (.obj fields)) ≠ .outside 0
    rw [hbalanced (depth + 1)]
    intro hzero
    cases hzero
  | inside depth => exact flipped.1 0 (hbalanced 0) (depth + 1) 0
  | escaped depth =>
    -- the brace is what the backslash escapes
    obtain ⟨body, hbody, -⟩ := object_body style h
    have hzero := hbalanced 0
    rw [hbody] at hzero ⊢
    exact flipped.1 1 hzero (depth + 1) 0
  | broken => exact absurd rfl hs

/-- A text that begins with a part of an object and ends with another object is not
decoded. -/
theorem loads_after_part {fields others : List (String × Json)} (h : Writable num (.obj fields))
    (hothers : Writable num (.obj others)) {part tail : List Char} {c : Char} (hpart : part ≠ [])
    (htext : encode style num (.obj fields) = part ++ c :: tail) :
    loads num.read (part ++ encode style num (.obj others)) = none := by
  obtain ⟨s, hs, hopen⟩ := open_part h hpart htext
  cases hloads : loads num.read (part ++ encode style num (.obj others)) with
  | none => rfl
  | some j =>
    have hends := loads_balanced hloads 0
    rw [Shape.after_append, hopen] at hends
    exact absurd hends (deeper_after_object hothers hs)

/-- Neither are two objects one after the other. -/
theorem loads_two_objects {fields others : List (String × Json)} (h : Writable num (.obj fields))
    (hothers : Writable num (.obj others)) :
    loads num.read (encode style num (.obj fields) ++ encode style num (.obj others)) = none := by
  obtain ⟨body, hbody, -⟩ := object_body style hothers
  have hends : Ends (encode style num (.obj others)) := by
    rw [hbody]
    exact ends_cons (by decide) _
  have hskip : skipWs (encode style num (.obj others)) = encode style num (.obj others) := by
    have hstart := (starts_encode style hothers).skipWs []
    rwa [List.append_nil] at hstart
  rw [loads, decode, (starts_encode style h).skipWs,
    value_encode style h (by rw [List.length_append]; omega) hends]
  dsimp only
  rw [hskip, hbody]
  rfl

end JsonText
