import AdsHub.Audit
import AdsHub.Lib.JsonShape

/-!
# AdsHub.AuditCrash — the audit log after a write that was cut off

`append` writes a line and its newline. If the process ends while it does, the file has an
initial part of them, and the next process appends its own lines behind it. `torn_log`
says what `read` then returns, wherever the line was cut and whatever is appended later:
nothing of the log is lost if nothing or all of the line was written; if only the newline
is missing, the log is readable until the next append; in every other case `read` raises
for good. No record is ever dropped, changed or made up.

This holds for one write that is cut off. Of two in a row, the second can complete the
first, and a record is read that was never written; the example at the end shows this.

A write is cut between characters; the coding as UTF-8 is not modelled.
-/

namespace AdsHub.AuditMemory

open JsonText

variable {num : NumText}

/-- A write of which the file has only the first part. -/
structure TornWrite (num : NumText) where
  now : Utc
  event : AuditEvent num
  part : List Char
  rest : List Char
  cut : line now event ++ ['\n'] = part ++ rest

/-- The file after it. -/
def tear (file : Option (List Char)) (torn : TornWrite num) : Option (List Char) :=
  some (file.getD [] ++ torn.part)

/-- The file after further events. -/
def appendTo (file : Option (List Char)) (entries : List (Utc × AuditEvent num)) :
    Option (List Char) :=
  entries.foldl (fun file entry => append file entry.1 entry.2) file

theorem appendTo_some (text : List Char) (entries : List (Utc × AuditEvent num)) :
    appendTo (some text) entries = some (text ++ logText entries) := by
  induction entries generalizing text with
  | nil => exact congrArg some (List.append_nil text).symm
  | cons entry entries ih =>
    have hfirst : appendTo (some text) (entry :: entries) =
        appendTo (some (text ++ (line entry.1 entry.2 ++ ['\n']))) entries := rfl
    rw [hfirst, ih, List.append_assoc]
    rfl

/-- The text of the file after a torn write and the events behind it. -/
theorem appendTo_tear (entries later : List (Utc × AuditEvent num)) (torn : TornWrite num) :
    appendTo (tear (appendAll entries) torn) later =
      some (logText entries ++ (torn.part ++ logText later)) := by
  have hfile : (appendAll entries).getD [] = logText entries := by
    rw [appendAll_eq]
    split
    · next hnil =>
      rw [hnil]
      rfl
    · rfl
  rw [tear, hfile, appendTo_some, List.append_assoc]

theorem part_no_return (torn : TornWrite num) : ∀ c ∈ torn.part, c ≠ '\r' := by
  have hwhole := write_no_return torn.now torn.event
  rw [torn.cut, List.forall_mem_append] at hwhole
  exact hwhole.1

/-- `read` gets the text as it was written. -/
theorem read_torn (entries later : List (Utc × AuditEvent num)) (torn : TornWrite num) :
    read num (appendTo (tear (appendAll entries) torn) later) =
      readText num (logText entries ++ (torn.part ++ logText later)) := by
  rw [appendTo_tear, read, Text.universalNewlines_eq]
  intro c hc
  rcases List.mem_append.1 hc with hc | hc
  · exact logText_no_return entries c hc
  · rcases List.mem_append.1 hc with hc | hc
    · exact part_no_return torn c hc
    · exact logText_no_return later c hc

/-! ## The first line of a text -/

/-- It is decoded, or the whole text is unreadable. -/
theorem readText_first {text l : List Char} {lines : List (List Char)}
    (hsplit : Text.splitlines text = l :: lines) (hhead : ∃ rest, l = '{' :: rest) :
    readText num text = (loads num.read l).bind (fun j =>
      ((lines.filter (fun l => !Text.blank l)).mapM (loads num.read)).map (j :: ·)) := by
  obtain ⟨body, hbody⟩ := hhead
  have hblank : Text.blank l = false := by
    rw [hbody]
    exact blank_object body
  rw [readText, hsplit, List.filter_cons_of_pos (by rw [hblank]; rfl), List.mapM_cons]
  cases loads num.read l with
  | none => rfl
  | some j => cases (lines.filter (fun l => !Text.blank l)).mapM (loads num.read) <;> rfl

theorem readText_refused {l : List Char} (hbreaks : ∀ c ∈ l, Text.isLineBreak c = false)
    (hhead : ∃ rest, l = '{' :: rest) (hloads : loads num.read l = none) :
    readText num l = none ∧ ∀ rest, readText num (l ++ '\n' :: rest) = none := by
  constructor
  · have hne : l ≠ [] := by
      obtain ⟨body, rfl⟩ := hhead
      exact List.cons_ne_nil _ _
    rw [readText_first (Text.splitlines_last hbreaks hne) hhead, hloads]
    rfl
  · intro rest
    rw [readText_first (Text.splitlines_append hbreaks (by decide) (by decide) rest) hhead, hloads]
    rfl

/-- A line without its newline is read as its record. -/
theorem readText_last {now : Utc} {event : AuditEvent num} (h : Unsplit event) :
    readText num (line now event) = some [sorted now event] := by
  have hhead := line_head now event
  have hne : line now event ≠ [] := by
    obtain ⟨body, hbody⟩ := hhead
    rw [hbody]
    exact List.cons_ne_nil _ _
  have hloads : loads num.read (line now event) = some (sorted now event) :=
    loads_encode unicodeStyle (sorted_writable now event)
  rw [readText_first (Text.splitlines_last ((line_lineBreak now event).2 h) hne) hhead, hloads]
  rfl

/-! ## The torn line -/

section

variable {torn : TornWrite num}

/-- Where a line can be cut. -/
theorem TornWrite.cases (torn : TornWrite num) :
    torn.rest = [] ∧ torn.part = line torn.now torn.event ++ ['\n'] ∨
    torn.rest = ['\n'] ∧ torn.part = line torn.now torn.event ∨
    ∃ c tail, torn.rest = c :: (tail ++ ['\n']) ∧
      line torn.now torn.event = torn.part ++ c :: tail := by
  have hcut := torn.cut
  rcases List.eq_nil_or_concat torn.rest with hrest | ⟨before, last, hrest⟩
  · rw [hrest, List.append_nil] at hcut
    exact Or.inl ⟨hrest, hcut.symm⟩
  · rw [hrest, List.concat_eq_append, ← List.append_assoc] at hcut
    obtain ⟨hline, hlast⟩ := List.append_inj' hcut rfl
    rw [List.concat_eq_append, ← hlast] at hrest
    cases before with
    | nil =>
      rw [List.append_nil] at hline
      exact Or.inr (Or.inl ⟨hrest, hline.symm⟩)
    | cons c tail => exact Or.inr (Or.inr ⟨c, tail, hrest, hline⟩)

theorem part_breaks (h : Unsplit torn.event) {c : Char} {tail : List Char}
    (hline : line torn.now torn.event = torn.part ++ c :: tail) :
    ∀ d ∈ torn.part, Text.isLineBreak d = false := by
  intro d hd
  refine (line_lineBreak torn.now torn.event).2 h d ?_
  rw [hline]
  exact List.mem_append_left _ hd

theorem part_head (hpart : torn.part ≠ []) {c : Char} {tail : List Char}
    (hline : line torn.now torn.event = torn.part ++ c :: tail) :
    ∃ rest, torn.part = '{' :: rest := by
  obtain ⟨body, hbody⟩ := line_head torn.now torn.event
  rw [hbody] at hline
  cases hp : torn.part with
  | nil => exact absurd hp hpart
  | cons d part =>
    rw [hp, List.cons_append, List.cons.injEq] at hline
    exact ⟨part, by rw [← hline.1]⟩

/-- A line that goes on with the next one is read as one line with it. -/
theorem readText_joined {first : List Char} (hbreaks : ∀ d ∈ first, Text.isLineBreak d = false)
    (hhead : ∃ body, first = '{' :: body) {entry : Utc × AuditEvent num} (hentry : Unsplit entry.2)
    (hloads : loads num.read (first ++ line entry.1 entry.2) = none) (rest : List Char) :
    readText num (first ++ (line entry.1 entry.2 ++ '\n' :: rest)) = none := by
  obtain ⟨body, hbody⟩ := hhead
  rw [← List.append_assoc]
  refine (readText_refused ?_ ⟨body ++ line entry.1 entry.2, ?_⟩ hloads).2 rest
  · intro d hd
    rcases List.mem_append.1 hd with hd | hd
    · exact hbreaks d hd
    · exact (line_lineBreak entry.1 entry.2).2 hentry d hd
  · rw [hbody, List.cons_append]

/-- Something of the line is there, but not all of it: whatever follows is unreadable. -/
theorem readText_part (h : Unsplit torn.event) {c : Char} {tail : List Char}
    (hpart : torn.part ≠ []) (hline : line torn.now torn.event = torn.part ++ c :: tail)
    {later : List (Utc × AuditEvent num)} (hlater : ∀ entry ∈ later, Unsplit entry.2) :
    readText num (torn.part ++ logText later) = none := by
  have hbreaks := part_breaks h hline
  have hhead := part_head hpart hline
  cases later with
  | nil =>
    have hloads : loads num.read torn.part = none :=
      decode_truncated (sorted_writable torn.now torn.event) hline torn.part.length
    have hnil : torn.part ++ logText ([] : List (Utc × AuditEvent num)) = torn.part :=
      List.append_nil torn.part
    rw [hnil]
    exact (readText_refused hbreaks hhead hloads).1
  | cons entry later =>
    rw [List.forall_mem_cons] at hlater
    -- the next line goes on where the torn one ends
    have hloads : loads num.read (torn.part ++ line entry.1 entry.2) = none :=
      loads_after_part (sorted_writable torn.now torn.event) (sorted_writable entry.1 entry.2)
        hpart hline
    rw [logText_cons]
    exact readText_joined hbreaks hhead hlater.1 hloads _

/-- Only the newline is missing: the next append makes the log unreadable. -/
theorem readText_unended {now : Utc} {event : AuditEvent num} (h : Unsplit event)
    {entry : Utc × AuditEvent num} (hentry : Unsplit entry.2) (rest : List Char) :
    readText num (line now event ++ (line entry.1 entry.2 ++ '\n' :: rest)) = none := by
  have hloads : loads num.read (line now event ++ line entry.1 entry.2) = none :=
    loads_two_objects (sorted_writable now event) (sorted_writable entry.1 entry.2)
  exact readText_joined ((line_lineBreak now event).2 h) (line_head now event) hentry hloads rest

end

/-! ## The log -/

theorem records_append (entries others : List (Utc × AuditEvent num)) :
    records (entries ++ others) = records entries ++ records others := List.map_append

/-- What is read behind the events that were written before. -/
theorem readText_torn {torn : TornWrite num} (h : Unsplit torn.event)
    {later : List (Utc × AuditEvent num)} (hlater : ∀ entry ∈ later, Unsplit entry.2) :
    readText num (torn.part ++ logText later) =
      if torn.part = [] then some (records later)
      else if torn.rest = [] ∨ torn.rest = ['\n'] ∧ later = [] then
        some (records ((torn.now, torn.event) :: later))
      else none := by
  by_cases hpart : torn.part = []
  · rw [if_pos hpart, hpart, List.nil_append]
    exact readText_logText hlater
  · rw [if_neg hpart]
    -- all of the line, all but its newline, or a proper part of its text
    rcases torn.cases with ⟨hrest, hwhole⟩ | ⟨hrest, hline⟩ | ⟨c, tail, hrest, hline⟩
    · have htext : torn.part ++ logText later =
          line torn.now torn.event ++ '\n' :: logText later := by
        rw [hwhole, List.append_assoc]
        rfl
      rw [if_pos (Or.inl hrest), htext, readText_line h, readText_logText hlater]
      rfl
    · rw [hline]
      cases later with
      | nil =>
        have hnil : line torn.now torn.event ++ logText ([] : List (Utc × AuditEvent num)) =
            line torn.now torn.event := List.append_nil _
        rw [if_pos (Or.inr ⟨hrest, rfl⟩), hnil]
        exact readText_last h
      | cons entry later =>
        -- the next event starts on the same line, and two objects are not one document
        rw [List.forall_mem_cons] at hlater
        have hnot : ¬ (torn.rest = [] ∨ torn.rest = ['\n'] ∧ entry :: later = []) := by
          rw [hrest]
          rintro (hnil | ⟨-, hnil⟩)
          · cases hnil
          · cases hnil
        rw [if_neg hnot, logText_cons]
        exact readText_unended h hlater.1 _
    · have hnot : ¬ (torn.rest = [] ∨ torn.rest = ['\n'] ∧ later = []) := by
        rw [hrest]
        rintro (hnil | ⟨hnewline, -⟩)
        · cases hnil
        · rw [List.cons.injEq] at hnewline
          exact List.append_ne_nil_of_right_ne_nil tail (List.cons_ne_nil _ _) hnewline.2
      rw [if_neg hnot]
      exact readText_part h hpart hline hlater

/-- For every log, every write that is cut off at any character and all events that are
appended later: the log is read without that write if nothing of it is in the file, with
it if all of it is, or all but the newline and nothing behind it, and else not at all. -/
theorem torn_log (entries later : List (Utc × AuditEvent num)) (torn : TornWrite num)
    (h : ∀ entry ∈ entries ++ (torn.now, torn.event) :: later, Unsplit entry.2) :
    read num (appendTo (tear (appendAll entries) torn) later) =
      if torn.part = [] then some (records (entries ++ later))
      else if torn.rest = [] ∨ torn.rest = ['\n'] ∧ later = [] then
        some (records (entries ++ (torn.now, torn.event) :: later))
      else none := by
  rw [List.forall_mem_append, List.forall_mem_cons] at h
  obtain ⟨hentries, htorn, hlater⟩ := h
  rw [read_torn, readText_logText_append hentries, readText_torn htorn hlater, records_append,
    records_append]
  split
  · rfl
  · split
    · rfl
    · rfl

/-- An event with a number under one key. -/
def countEvent (key : String) : AuditEvent integers where
  fields := [(key, .num 0)]
  writable := .obj (List.nodup_singleton _) (by
    rw [List.forall_mem_singleton]
    exact .num rfl)

/-- Of its line, the first `n` characters are written. -/
def tornCount (key : String) (n : ℕ) : TornWrite integers where
  now := morning
  event := countEvent key
  part := (line morning (countEvent key) ++ ['\n']).take n
  rest := (line morning (countEvent key) ++ ['\n']).drop n
  cut := (List.take_append_drop n _).symm

/-- A log with one event, a write that stops inside a key, and another event. -/
theorem torn_log_key :
    Unsplit (countEvent "a") ∧
      read integers (appendTo (tear (appendAll [(morning, countEvent "a")]) (tornCount "a" 3))
        [(morning, countEvent "a")]) = none := by
  have hunsplit : Unsplit (countEvent "a") := by
    unfold Unsplit
    rw [allStrings_obj]
    simp [countEvent, Splits, AllStrings.num]
  refine ⟨hunsplit, ?_⟩
  rw [torn_log [(morning, countEvent "a")] [(morning, countEvent "a")] (tornCount "a" 3)]
  · have hpart : (tornCount "a" 3).part ≠ [] := by decide
    have hrest : ¬ ((tornCount "a" 3).rest = [] ∨ (tornCount "a" 3).rest = ['\n'] ∧
        [(morning, countEvent "a")] = []) := by
      rintro (hnil | ⟨-, hnil⟩)
      · revert hnil
        decide
      · cases hnil
    rw [if_neg hpart, if_neg hrest]
  · have hall : ∀ entry ∈ [(morning, countEvent "a"), (morning, countEvent "a"),
        (morning, countEvent "a")], Unsplit entry.2 := by
      simp [hunsplit]
    exact hall

/-- Two writes in a row that are cut off: the key of the second completes the first. -/
example : read integers (tear (tear none (tornCount "a" 3)) (tornCount ":1\x7d" 5)) =
    some [.obj [("a\x7b", .num 1)]] := by
  rfl

end AdsHub.AuditMemory
