import Mathlib.Data.List.Basic
import Mathlib.Data.List.TakeWhile

/-!
# AdsHub.Lib.EventStream — reading `text/event-stream`

The reader of a server-sent event stream, as a browser's `EventSource` has it: the text
is cut into lines that end in LF, CR or CRLF; a line is a comment, or a field with an
optional space behind its colon; an empty line dispatches what the fields before it
have set up. The last id stays for later events, and a block without data is dropped.
A line or block that the text does not finish is not read.

`parse_blocks` is what a writer relies on: blocks of an `id`, an `event` and a `data`
line, none of which has a line end in its value, are read as one message each.
-/

namespace EventStream

/-- A message that is dispatched. -/
structure Message where
  id : List Char
  event : List Char
  data : List Char
deriving DecidableEq

/-! ## Lines -/

/-- The lines of a text, behind a carriage return (`cr`) or not: a line feed that follows
one belongs to it. What the last line end is followed by is no line. -/
def linesFrom : Bool → List Char → List (List Char)
  | _, [] => []
  | cr, c :: cs =>
    if cr && c == '\n' then linesFrom false cs
    else if c == '\n' || c == '\r' then [] :: linesFrom (c == '\r') cs
    else
      match linesFrom false cs with
      | [] => []
      | line :: lines => (c :: line) :: lines

/-- The text without a byte order mark at its start. -/
def dropMark : List Char → List Char
  | [] => []
  | c :: cs => if c = '\uFEFF' then cs else c :: cs

/-! ## Fields -/

/-- The last id, and the type and the data of the event that is being read. -/
structure Buffers where
  id : List Char := []
  event : List Char := []
  data : List Char := []

/-- `field: value`. A `retry` and an unknown field have no effect on messages. -/
def setField (b : Buffers) (field value : List Char) : Buffers :=
  if field = ['e', 'v', 'e', 'n', 't'] then { b with event := value }
  else if field = ['d', 'a', 't', 'a'] then { b with data := b.data ++ value ++ ['\n'] }
  else if field = ['i', 'd'] then
    -- an id with a null character is ignored
    if '\x00' ∈ value then b else { b with id := value }
  else b

/-- One space after the colon does not belong to the value. -/
def dropSpace : List Char → List Char
  | [] => []
  | c :: cs => if c = ' ' then cs else c :: cs

/-- A line that is not empty: a comment, a field with a value, or a field alone. -/
def readLine (b : Buffers) (line : List Char) : Buffers :=
  match line.dropWhile (· ≠ ':') with
  | [] => setField b line []
  | _ :: value =>
    if line.takeWhile (· ≠ ':') = [] then b
    else setField b (line.takeWhile (· ≠ ':')) (dropSpace value)

/-- The messages of the lines; an empty line dispatches, unless there is no data. -/
def interpret : Buffers → List (List Char) → List Message
  | _, [] => []
  | b, line :: lines =>
    if line = [] then
      if b.data = [] then interpret { id := b.id } lines
      else
        -- the line feed of the last data line is not data
        ⟨b.id, if b.event = [] then ['m', 'e', 's', 's', 'a', 'g', 'e'] else b.event,
          b.data.dropLast⟩ :: interpret { id := b.id } lines
    else interpret (readLine b line) lines

/-- The messages of a stream. -/
def parse (text : List Char) : List Message := interpret {} (linesFrom false (dropMark text))

/-! ## A block -/

/-- A text without line ends. -/
def OneLine (l : List Char) : Prop := ∀ c ∈ l, c ≠ '\n' ∧ c ≠ '\r'

theorem OneLine.append {l m : List Char} (hl : OneLine l) (hm : OneLine m) : OneLine (l ++ m) :=
  List.forall_mem_append.2 ⟨hl, hm⟩

theorem linesFrom_line {line : List Char} (h : OneLine line) (rest : List Char) :
    linesFrom false (line ++ '\n' :: rest) = line :: linesFrom false rest := by
  induction line with
  | nil => rfl
  | cons c line ih =>
    rw [OneLine, List.forall_mem_cons] at h
    have hend : (c == '\n' || c == '\r') = false := by simp [h.1]
    simp only [List.cons_append, linesFrom, Bool.false_and, Bool.false_eq_true, if_false, hend,
      ih h.2]

/-- A field with a space behind its colon. -/
def fieldLine (field value : List Char) : List Char := field ++ ':' :: ' ' :: value

theorem readLine_fieldLine (b : Buffers) {field : List Char} (hne : field ≠ [])
    (hcolon : ∀ c ∈ field, c ≠ ':') (value : List Char) :
    readLine b (fieldLine field value) = setField b field value := by
  have hname : ∀ c ∈ field, decide (c ≠ ':') = true := by simpa using hcolon
  have hdrop : (fieldLine field value).dropWhile (· ≠ ':') = ':' :: ' ' :: value := by
    rw [fieldLine, List.dropWhile_append_of_pos hname]
    rfl
  have htake : (fieldLine field value).takeWhile (· ≠ ':') = field := by
    rw [fieldLine, List.takeWhile_append_of_pos hname]
    simp
  unfold readLine
  rw [hdrop, htake]
  simp only [if_neg hne]
  rfl

/-- A message that a block can carry: nothing in it ends a line, its type is not the
default one, and its id has no null character. -/
structure Carried (m : Message) : Prop where
  id_line : OneLine m.id
  id_null : '\x00' ∉ m.id
  event_line : OneLine m.event
  event_ne : m.event ≠ []
  data_line : OneLine m.data

/-- The block of a message: its three fields, and an empty line. -/
def block (m : Message) : List Char :=
  fieldLine ['i', 'd'] m.id ++ '\n' ::
    (fieldLine ['e', 'v', 'e', 'n', 't'] m.event ++ '\n' ::
      (fieldLine ['d', 'a', 't', 'a'] m.data ++ ['\n', '\n']))

/-- A field whose name is of letters and whose value is one line is one line. -/
theorem oneLine_fieldLine {field value : List Char} (hfield : field.all Char.isAlpha = true)
    (hvalue : OneLine value) : OneLine (fieldLine field value) := by
  have hletters : OneLine field := by
    intro c hc
    have halpha := List.all_eq_true.1 hfield c hc
    constructor <;> rintro rfl <;> exact absurd halpha (by decide)
  refine hletters.append ?_
  rw [OneLine, List.forall_mem_cons, List.forall_mem_cons]
  exact ⟨by decide, by decide, hvalue⟩

/-- A block is four lines. -/
theorem linesFrom_block {m : Message} (h : Carried m) (rest : List Char) :
    linesFrom false (block m ++ rest) =
      fieldLine ['i', 'd'] m.id :: fieldLine ['e', 'v', 'e', 'n', 't'] m.event ::
        fieldLine ['d', 'a', 't', 'a'] m.data :: [] :: linesFrom false rest := by
  have hdata : linesFrom false (fieldLine ['d', 'a', 't', 'a'] m.data ++ '\n' :: '\n' :: rest) =
      fieldLine ['d', 'a', 't', 'a'] m.data :: [] :: linesFrom false rest := by
    rw [linesFrom_line (oneLine_fieldLine rfl h.data_line)]
    rfl
  simp only [block, List.append_assoc, List.cons_append, List.nil_append]
  rw [linesFrom_line (oneLine_fieldLine rfl h.id_line),
    linesFrom_line (oneLine_fieldLine rfl h.event_line), hdata]

theorem interpret_fieldLine (b : Buffers) {field : List Char} (hne : field ≠ [])
    (hcolon : ∀ c ∈ field, c ≠ ':') (value : List Char) (lines : List (List Char)) :
    interpret b (fieldLine field value :: lines) = interpret (setField b field value) lines := by
  have hline : fieldLine field value ≠ [] := by simp [fieldLine]
  rw [interpret, if_neg hline, readLine_fieldLine b hne hcolon]

/-- A block is read as its message, and leaves nothing behind but the id. -/
theorem interpret_block {m : Message} (h : Carried m) (last : List Char) (rest : List Char) :
    interpret { id := last } (linesFrom false (block m ++ rest)) =
      m :: interpret { id := m.id } (linesFrom false rest) := by
  have hid : setField { id := last } ['i', 'd'] m.id = { id := m.id } := by
    simp [setField, h.id_null]
  have hevent : setField { id := m.id } ['e', 'v', 'e', 'n', 't'] m.event =
      { id := m.id, event := m.event } := by
    simp [setField]
  have hdata : setField { id := m.id, event := m.event } ['d', 'a', 't', 'a'] m.data =
      { id := m.id, event := m.event, data := m.data ++ ['\n'] } := by
    simp [setField]
  rw [linesFrom_block h, interpret_fieldLine _ (List.cons_ne_nil _ _) (by simp), hid,
    interpret_fieldLine _ (List.cons_ne_nil _ _) (by simp), hevent,
    interpret_fieldLine _ (List.cons_ne_nil _ _) (by simp), hdata]
  -- the empty line dispatches
  simp [interpret, h.event_ne]

/-- Blocks one after another are read as their messages. -/
theorem parse_blocks {messages : List Message} (h : ∀ m ∈ messages, Carried m) :
    parse (messages.flatMap block) = messages := by
  have hlines : ∀ last, interpret { id := last } (linesFrom false (messages.flatMap block)) =
      messages := by
    induction messages with
    | nil => exact fun last => rfl
    | cons m messages ih =>
      intro last
      rw [List.forall_mem_cons] at h
      rw [List.flatMap_cons, interpret_block h.1, ih h.2]
  have hmark : dropMark (messages.flatMap block) = messages.flatMap block := by
    cases messages with
    | nil => rfl
    | cons m messages =>
      -- a block starts with its `id`
      rw [List.flatMap_cons]
      rfl
  rw [parse, hmark]
  exact hlines []

/-! ## A text that is cut off -/

/-- Text that follows adds lines, and changes none that has ended. -/
theorem linesFrom_cut (cr : Bool) (text more : List Char) :
    linesFrom cr text <+: linesFrom cr (text ++ more) := by
  induction text generalizing cr with
  | nil => exact List.nil_prefix
  | cons c text ih =>
    rw [List.cons_append, linesFrom, linesFrom]
    by_cases hskip : (cr && c == '\n') = true
    · rw [if_pos hskip, if_pos hskip]
      exact ih false
    · rw [if_neg hskip, if_neg hskip]
      by_cases hend : (c == '\n' || c == '\r') = true
      · rw [if_pos hend, if_pos hend]
        exact List.cons_prefix_cons.2 ⟨rfl, ih _⟩
      · rw [if_neg hend, if_neg hend]
        -- the character belongs to the first line, if there is one
        have hrest := ih false
        cases hlines : linesFrom false text with
        | nil => exact List.nil_prefix
        | cons line lines =>
          rw [hlines] at hrest
          rcases hrest with ⟨rest, hrest⟩
          rw [← hrest]
          exact ⟨rest, rfl⟩

theorem interpret_cut (b : Buffers) (lines more : List (List Char)) :
    interpret b lines <+: interpret b (lines ++ more) := by
  induction lines generalizing b with
  | nil => exact List.nil_prefix
  | cons line lines ih =>
    rw [List.cons_append, interpret, interpret]
    by_cases hempty : line = []
    · rw [if_pos hempty, if_pos hempty]
      by_cases hdata : b.data = []
      · rw [if_pos hdata, if_pos hdata]
        exact ih _
      · rw [if_neg hdata, if_neg hdata]
        exact List.cons_prefix_cons.2 ⟨rfl, ih _⟩
    · rw [if_neg hempty, if_neg hempty]
      exact ih _

/-- A text that is cut off anywhere is read as the first messages of the whole. -/
theorem parse_cut {cut text : List Char} (h : cut <+: text) : parse cut <+: parse text := by
  rcases h with ⟨more, rfl⟩
  have hmark : ∃ more', dropMark (cut ++ more) = dropMark cut ++ more' := by
    cases cut with
    | nil => exact ⟨dropMark more, rfl⟩
    | cons c cut =>
      refine ⟨more, ?_⟩
      rw [List.cons_append, dropMark, dropMark]
      split <;> rfl
  obtain ⟨more', hmark⟩ := hmark
  rcases linesFrom_cut false (dropMark cut) more' with ⟨lines, hlines⟩
  rw [parse, parse, hmark, ← hlines]
  exact interpret_cut {} _ lines

end EventStream
