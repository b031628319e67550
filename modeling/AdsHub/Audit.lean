import AdsHub.Lib.JsonText
import AdsHub.Clock

/-!
# AdsHub.Audit — the audit log of `agentic/runtime/memory.py`

`AuditMemory` keeps one JSON record per line of a text file. The writer escapes
control characters and leaves all others as they are; the reader splits the file
wherever Unicode ends a line. Three characters are left unescaped by the one and end
a line for the other: U+0085, U+2028 and U+2029. `audit_read_iff`: the log reads back
exactly if none of them occurs in the events.

The file is the text it holds, `none` before the first write; its UTF-8 coding is
without loss and not modelled. A `read` that raises is `none`.
-/

namespace AdsHub

open JsonText

/-- An event: a dictionary that JSON can hold. -/
structure AuditEvent (num : NumText) where
  fields : List (String × Json)
  writable : Writable num (.obj fields)

namespace AuditMemory

variable {num : NumText}

/-- `{'ts': now, **event}`. -/
def record (now : Utc) (event : AuditEvent num) : List (String × Json) :=
  Dict.update [("ts", .str now.isoformat)] event.fields

/-- The record as `json.dumps(..., sort_keys=True)` takes it: the same dictionary, its
keys in order. -/
def sorted (now : Utc) (event : AuditEvent num) : Json := sortKeys (.obj (record now event))

/-- The text that is written for an event. -/
def line (now : Utc) (event : AuditEvent num) : List Char :=
  encode unicodeStyle num (sorted now event)

/-- `AuditMemory.append`. -/
def append (file : Option (List Char)) (now : Utc) (event : AuditEvent num) :
    Option (List Char) :=
  some (file.getD [] ++ (line now event ++ ['\n']))

/-- The lines of a text that are not blank, each decoded. -/
def readText (num : NumText) (text : List Char) : Option (List Json) :=
  ((Text.splitlines text).filter (fun l => !Text.blank l)).mapM (loads num.read)

/-- `AuditMemory.read`. -/
def read (num : NumText) (file : Option (List Char)) : Option (List Json) :=
  match file with
  | none => some []
  | some text => readText num (Text.universalNewlines false text)

/-- The file after the events, from an absent one. -/
def appendAll (entries : List (Utc × AuditEvent num)) : Option (List Char) :=
  entries.foldl (fun file entry => append file entry.1 entry.2) none

/-! ## Which characters a line has -/

/-- The character is left unescaped although it ends a line. -/
def Splits (c : Char) : Prop := c.toNat = 0x85 ∨ c.toNat = 0x2028 ∨ c.toNat = 0x2029

/-- No string of the event, key or value, has one of these characters. -/
def Unsplit (event : AuditEvent num) : Prop :=
  AllStrings (fun s => ∀ c ∈ s.toList, ¬ Splits c) (.obj event.fields)

theorem isLineBreak_ascii {c : Char} (h : 32 ≤ c.toNat) (h' : c.toNat < 127) :
    Text.isLineBreak c = false := by
  simp only [Text.isLineBreak, Bool.or_eq_false_iff, Bool.and_eq_false_iff, decide_eq_false_iff_not,
    beq_eq_false_iff_ne]
  omega

theorem isLineBreak_of_not_control {c : Char} (h : 32 ≤ c.toNat) :
    Text.isLineBreak c = false ↔ ¬ Splits c := by
  simp only [Text.isLineBreak, Splits, Bool.or_eq_false_iff, Bool.and_eq_false_iff,
    decide_eq_false_iff_not, beq_eq_false_iff_ne]
  omega

theorem passes_lineBreak : Passes unicodeStyle (fun c => Text.isLineBreak c = false) where
  ascii := fun _ => isLineBreak_ascii
  itemSpace := List.forall_mem_singleton.2 (by decide)
  keySpace := List.forall_mem_singleton.2 (by decide)

/-- What is written for a character ends a line exactly if the character is one of the
three. -/
theorem escape_lineBreak (c : Char) :
    (∀ d ∈ escapeUnicode c, Text.isLineBreak d = false) ↔ ¬ Splits c := by
  rcases escapeUnicode_cases c with ⟨hself, hc⟩ | ⟨hascii, hc⟩
  · rw [hself, List.forall_mem_singleton]
    exact isLineBreak_of_not_control hc
  · refine iff_of_true ?_ ?_
    · intro d hd
      exact isLineBreak_ascii (hascii d hd).1 (hascii d hd).2
    · unfold Splits
      omega

theorem escape_no_return (c : Char) : ∀ d ∈ escapeUnicode c, d ≠ '\r' := by
  intro d hd
  have h32 : 32 ≤ d.toNat := by
    rcases escapeUnicode_cases c with ⟨hself, hc⟩ | ⟨hascii, -⟩
    · rw [hself, List.mem_singleton] at hd
      rw [hd]
      exact hc
    · exact (hascii d hd).1
  rintro rfl
  exact absurd h32 (by decide)

theorem passes_no_return : Passes unicodeStyle (fun c => c ≠ '\r') where
  ascii := by
    rintro c hc - rfl
    exact absurd hc (by decide)
  itemSpace := List.forall_mem_singleton.2 (by decide)
  keySpace := List.forall_mem_singleton.2 (by decide)

/-! ## The line of an event -/

theorem record_writable (now : Utc) (event : AuditEvent num) :
    Writable num (.obj (record now event)) := by
  cases event.writable with
  | obj hkeys hfields =>
    -- an event with a key `ts` replaces the time stamp, so the keys stay distinct
    have hstart : ([("ts", Json.str now.isoformat)].map Prod.fst).Nodup := List.nodup_singleton _
    refine Writable.obj (Dict.nodup_update hstart _) ?_
    intro f hf
    rcases Dict.mem_of_mem_update hf with hf | hf
    · rw [List.mem_singleton] at hf
      rw [hf]
      exact Writable.str _
    · exact hfields f hf

theorem sorted_writable (now : Utc) (event : AuditEvent num) : Writable num (sorted now event) :=
  (record_writable now event).sortKeys

/-- The time stamp has none of the three characters, and the record has all items of
the event. -/
theorem unsplit_record (now : Utc) (event : AuditEvent num) :
    AllStrings (fun s => ∀ c ∈ s.toList, ¬ Splits c) (.obj (record now event)) ↔
      Unsplit event := by
  have hkeys : (event.fields.map Prod.fst).Nodup := by
    cases event.writable with
    | obj hkeys _ => exact hkeys
  have hts : ∀ c ∈ "ts".toList, ¬ Splits c := by
    simp [Splits]
  unfold Unsplit
  rw [allStrings_obj, allStrings_obj]
  constructor
  · intro h f hf
    exact h f (Dict.mem_update hkeys hf)
  · intro h f hf
    rcases Dict.mem_of_mem_update hf with hf | hf
    · rw [List.mem_singleton] at hf
      rw [hf]
      refine ⟨hts, AllStrings.str ?_⟩
      intro c hc
      have hascii := Utc.isoformat_ascii now c hc
      unfold Splits
      omega
    · exact h f hf

theorem line_lineBreak (now : Utc) (event : AuditEvent num) :
    (∀ c ∈ line now event, Text.isLineBreak c = false) ↔ Unsplit event := by
  -- for the strings of the record: what is written ends a line exactly if the string has one of the three
  have hwrites : unicodeStyle.Writes (fun c => Text.isLineBreak c = false) =
      fun s => ∀ c ∈ s.toList, ¬ Splits c := by
    funext s
    exact propext (forall₂_congr (fun c _ => escape_lineBreak c))
  rw [line, forall_mem_encode passes_lineBreak (sorted_writable now event), hwrites, sorted,
    allStrings_sortKeys, unsplit_record]

theorem line_no_return (now : Utc) (event : AuditEvent num) : ∀ c ∈ line now event, c ≠ '\r' := by
  rw [line, forall_mem_encode passes_no_return (sorted_writable now event)]
  exact allStrings_of_forall (fun _ c _ => escape_no_return c) _

/-- Nor has what `append` writes. -/
theorem write_no_return (now : Utc) (event : AuditEvent num) :
    ∀ c ∈ line now event ++ ['\n'], c ≠ '\r' :=
  List.forall_mem_append.2 ⟨line_no_return now event, List.forall_mem_singleton.2 (by decide)⟩

theorem line_head (now : Utc) (event : AuditEvent num) : ∃ rest, line now event = '{' :: rest :=
  ⟨_, rfl⟩

/-- A text that starts like an object is not blank. -/
theorem blank_object (rest : List Char) : Text.blank ('{' :: rest) = false := by
  simp [Text.blank, Text.isSpace]

/-! ## Reading -/

/-- A line without the three characters is read as its record. -/
theorem readText_line {now : Utc} {event : AuditEvent num} (h : Unsplit event)
    (rest : List Char) :
    readText num (line now event ++ '\n' :: rest) =
      (readText num rest).map (sorted now event :: ·) := by
  obtain ⟨tail, htail⟩ := line_head now event
  have hblank : Text.blank (line now event) = false := by
    rw [htail]
    exact blank_object tail
  have hloads : loads num.read (line now event) = some (sorted now event) :=
    loads_encode unicodeStyle (sorted_writable now event)
  -- the first line of the text is the line of the event
  rw [readText, Text.splitlines_append ((line_lineBreak now event).2 h) (by decide) (by decide),
    List.filter_cons_of_pos (by rw [hblank]; rfl), List.mapM_cons, hloads, readText]
  cases ((Text.splitlines rest).filter (fun l => !Text.blank l)).mapM (loads num.read) <;> rfl

/-- A line with one of them is cut there, and its first part cannot be decoded. -/
theorem readText_split {now : Utc} {event : AuditEvent num} (h : ¬ Unsplit event)
    (rest : List Char) : readText num (line now event ++ '\n' :: rest) = none := by
  rw [← line_lineBreak now event] at h
  cases hfind : (line now event).find? Text.isLineBreak with
  | none =>
    rw [List.find?_eq_none] at hfind
    exact absurd (fun c hc => by simpa using hfind c hc) h
  | some b =>
    obtain ⟨hb, part, tail, hline, hpart⟩ := List.find?_eq_some_iff_append.1 hfind
    have hreturn : b ≠ '\r' := by
      refine line_no_return now event b ?_
      rw [hline]
      exact List.mem_append_right _ List.mem_cons_self
    -- the part up to the break is not empty, as an object starts with a brace
    obtain ⟨body, hbody⟩ := line_head now event
    have hblank : Text.blank part = false := by
      cases part with
      | nil =>
        rw [hbody, List.nil_append, List.cons.injEq] at hline
        rw [← hline.1] at hb
        exact absurd hb (by decide)
      | cons c part =>
        rw [hbody, List.cons_append, List.cons.injEq] at hline
        rw [← hline.1]
        exact blank_object part
    -- the record is cut before its end
    have hloads : loads num.read part = none :=
      decode_truncated (sorted_writable now event) hline part.length
    have hbreaks : ∀ c ∈ part, Text.isLineBreak c = false := by
      intro c hc
      simpa using hpart c hc
    rw [hline, List.append_assoc, List.cons_append, readText,
      Text.splitlines_append hbreaks hb hreturn, List.filter_cons_of_pos (by rw [hblank]; rfl),
      List.mapM_cons, hloads]
    rfl

/-- The text of a log. -/
def logText (entries : List (Utc × AuditEvent num)) : List Char :=
  entries.flatMap (fun entry => line entry.1 entry.2 ++ ['\n'])

/-- The records of a log. -/
def records (entries : List (Utc × AuditEvent num)) : List Json :=
  entries.map (fun entry => sortKeys (.obj (record entry.1 entry.2)))

theorem logText_cons (entry : Utc × AuditEvent num) (entries : List (Utc × AuditEvent num)) :
    logText (entry :: entries) = line entry.1 entry.2 ++ '\n' :: logText entries := by
  simp [logText]

theorem logText_no_return (entries : List (Utc × AuditEvent num)) :
    ∀ c ∈ logText entries, c ≠ '\r' := by
  intro c hc
  obtain ⟨entry, -, hc⟩ := List.mem_flatMap.1 hc
  exact write_no_return entry.1 entry.2 c hc

/-- The file is there once there is an event, and has the lines of the events in order. -/
theorem appendAll_eq (entries : List (Utc × AuditEvent num)) :
    appendAll entries = if entries = [] then none else some (logText entries) := by
  induction entries using List.reverseRecOn with
  | nil => rfl
  | append_singleton entries entry ih =>
    have hfold : appendAll (entries ++ [entry]) = append (appendAll entries) entry.1 entry.2 := by
      simp [appendAll]
    rw [hfold, ih, if_neg (List.append_ne_nil_of_right_ne_nil _ (List.cons_ne_nil _ _)), append,
      logText, logText, List.flatMap_append]
    by_cases hnil : entries = []
    · simp [hnil]
    · simp [hnil]

/-- The records of a log are read before what stands behind it. -/
theorem readText_logText_append {entries : List (Utc × AuditEvent num)}
    (h : ∀ entry ∈ entries, Unsplit entry.2) (rest : List Char) :
    readText num (logText entries ++ rest) = (readText num rest).map (records entries ++ ·) := by
  induction entries with
  | nil =>
    cases hrest : readText num rest <;> simp [logText, records, hrest]
  | cons entry entries ih =>
    rw [List.forall_mem_cons] at h
    have htext : logText (entry :: entries) ++ rest =
        line entry.1 entry.2 ++ '\n' :: (logText entries ++ rest) := by
      rw [logText_cons, List.append_assoc, List.cons_append]
    rw [htext, readText_line h.1, ih h.2, Option.map_map]
    rfl

/-- A log without the three characters reads back. -/
theorem readText_logText {entries : List (Utc × AuditEvent num)}
    (h : ∀ entry ∈ entries, Unsplit entry.2) :
    readText num (logText entries) = some (records entries) := by
  have hread := readText_logText_append h []
  rw [List.append_nil] at hread
  rw [hread]
  exact congrArg some (List.append_nil _)

/-- One event with them makes the whole log unreadable. -/
theorem readText_logText_split {entries : List (Utc × AuditEvent num)}
    (h : ∃ entry ∈ entries, ¬ Unsplit entry.2) : readText num (logText entries) = none := by
  induction entries with
  | nil =>
    rcases h with ⟨entry, hentry, -⟩
    exact absurd hentry List.not_mem_nil
  | cons entry entries ih =>
    rw [logText_cons]
    by_cases hentry : Unsplit entry.2
    · rcases h with ⟨other, hother, hsplit⟩
      have hmem : other ∈ entries := by
        rcases List.mem_cons.1 hother with rfl | hmem
        · exact absurd hentry hsplit
        · exact hmem
      rw [readText_line hentry, ih ⟨other, hmem, hsplit⟩]
      rfl
    · exact readText_split hentry _

theorem read_appendAll (entries : List (Utc × AuditEvent num)) :
    read num (appendAll entries) = readText num (logText entries) := by
  rw [appendAll_eq]
  by_cases hnil : entries = []
  · rw [if_pos hnil, hnil]
    rfl
  · rw [if_neg hnil, read, Text.universalNewlines_eq (logText_no_return entries)]

/-- The log reads back as the records that were appended, in their order, exactly if no
string of an event has one of the characters U+0085, U+2028 and U+2029. -/
theorem audit_read_iff (entries : List (Utc × AuditEvent num)) :
    read num (appendAll entries) =
        some (entries.map (fun entry => sortKeys (.obj (record entry.1 entry.2)))) ↔
      ∀ entry ∈ entries, AllStrings
        (fun s => ∀ c ∈ s.toList, ¬ (c.toNat = 0x85 ∨ c.toNat = 0x2028 ∨ c.toNat = 0x2029))
        (.obj entry.2.fields) := by
  rw [read_appendAll]
  constructor
  · intro h entry hentry
    by_contra hsplit
    rw [readText_logText_split ⟨entry, hentry, hsplit⟩] at h
    cases h
  · exact readText_logText

/-- A note with a line separator in it. -/
def twoLineNote : AuditEvent integers where
  fields := [("note", .str (String.ofList ['a', Char.ofNat 0x2028, 'b']))]
  writable := .obj (List.nodup_singleton _) (by
    intro f hf
    rw [List.mem_singleton] at hf
    rw [hf]
    exact .str _)

/-- A log of that note alone. -/
def noteLog : List (Utc × AuditEvent integers) :=
  [(morning, twoLineNote)]

/-- It does not read back: the reader raises. -/
theorem note_unreadable :
    read integers (appendAll noteLog) = none ∧
      read integers (appendAll noteLog) ≠
        some (noteLog.map (fun entry => sortKeys (.obj (record entry.1 entry.2)))) := by
  have hnone : read integers (appendAll noteLog) = none := by
    rw [read_appendAll]
    refine readText_logText_split ⟨_, List.mem_cons_self, ?_⟩
    intro h
    -- the note has U+2028 in it
    have hnote := (allStrings_obj.1 h _ List.mem_cons_self).2
    rw [allStrings_str] at hnote
    exact hnote (Char.ofNat 0x2028) (by decide) (by unfold Splits; decide)
  refine ⟨hnone, ?_⟩
  rw [hnone]
  exact (Option.some_ne_none _).symm

end AuditMemory

end AdsHub
