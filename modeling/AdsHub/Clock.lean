import Mathlib.Data.List.Basic
import AdsHub.Lib.Text

/-!
# AdsHub.Clock — UTC readings and their two textual forms

`datetime.now(timezone.utc)` is read in two places of the spend ledger and
written down in two ways: `isoformat()` becomes a row's `created_at`, and
`strftime('%Y-%m')` becomes the pattern that selects the rows of a month. The
one fact the ledger needs of them is `like_createdAt`: the pattern of a reading
selects exactly the rows written in the same calendar month.
-/

namespace AdsHub

/-- A reading of the UTC clock, as `datetime` keeps it. The day bound is that
of the longest month. -/
structure Utc where
  year : ℕ
  month : ℕ
  day : ℕ
  hour : ℕ
  minute : ℕ
  second : ℕ
  microsecond : ℕ
  year_range : 1 ≤ year ∧ year ≤ 9999 := by decide
  month_range : 1 ≤ month ∧ month ≤ 12 := by decide
  day_range : 1 ≤ day ∧ day ≤ 31 := by decide
  time_range : hour < 24 ∧ minute < 60 ∧ second < 60 ∧ microsecond < 1000000 := by decide

namespace Utc

/-- Months since the year 0. -/
def monthIndex (t : Utc) : ℕ := t.year * 12 + (t.month - 1)

/-- Position of a reading on the time line, in microseconds of months of 31 days. -/
def ordinal (t : Utc) : ℕ :=
  ((((t.monthIndex * 31 + (t.day - 1)) * 24 + t.hour) * 60 + t.minute) * 60 + t.second)
    * 1000000 + t.microsecond

/-- Earlier or at the same time. -/
instance : LE Utc := ⟨fun s t => s.ordinal ≤ t.ordinal⟩

instance (s t : Utc) : Decidable (s ≤ t) := inferInstanceAs (Decidable (s.ordinal ≤ t.ordinal))

theorem le_def {s t : Utc} : s ≤ t ↔ s.ordinal ≤ t.ordinal := Iff.rfl

theorem le_trans {s t u : Utc} (h : s ≤ t) (h' : t ≤ u) : s ≤ u := Nat.le_trans h h'

/-- The month of a later reading is not an earlier one. -/
theorem monthIndex_mono {s t : Utc} (h : s ≤ t) : s.monthIndex ≤ t.monthIndex := by
  have hs := s.day_range
  have ht := t.day_range
  have hs' := s.time_range
  have ht' := t.time_range
  rw [le_def, ordinal, ordinal] at h
  omega

/-! ## Textual forms -/

/-- `strftime('%Y-%m')`. -/
def strftimeYm (t : Utc) : List Char :=
  Text.pad 4 t.year ++ '-' :: Text.pad 2 t.month

/-- `isoformat()` of a UTC reading: the fraction is left out when it is zero. -/
def isoformat (t : Utc) : String :=
  String.ofList
    (t.strftimeYm ++ '-' :: Text.pad 2 t.day ++ 'T' :: Text.pad 2 t.hour ++ ':' :: Text.pad 2 t.minute
      ++ ':' :: Text.pad 2 t.second
      ++ (if t.microsecond = 0 then [] else '.' :: Text.pad 6 t.microsecond)
      ++ ['+', '0', '0', ':', '0', '0'])

theorem pad_ascii (w n : ℕ) : ∀ c ∈ Text.pad w n, c.toNat < 127 := by
  have hdigit : ∀ d < 10, (Nat.digitChar d).toNat < 127 := by decide
  intro c hc
  rcases Text.mem_pad hc with ⟨d, hd, rfl⟩
  exact hdigit d hd

theorem isoformat_ascii (t : Utc) : ∀ c ∈ t.isoformat.toList, c.toNat < 127 := by
  have hfraction : ∀ c ∈ (if t.microsecond = 0 then [] else '.' :: Text.pad 6 t.microsecond),
      c.toNat < 127 := by
    split
    · exact fun _ hc => absurd hc List.not_mem_nil
    · rw [List.forall_mem_cons]
      exact ⟨by decide, pad_ascii _ _⟩
  rw [isoformat, String.toList_ofList]
  simp only [strftimeYm, List.forall_mem_append, List.forall_mem_cons]
  refine ⟨⟨⟨⟨⟨⟨⟨pad_ascii _ _, by decide, pad_ascii _ _⟩, by decide, pad_ascii _ _⟩, by decide,
    pad_ascii _ _⟩, by decide, pad_ascii _ _⟩, by decide, pad_ascii _ _⟩, hfraction⟩, ?_⟩
  exact ⟨by decide, by decide, by decide, by decide, by decide, by decide,
    fun _ hc => absurd hc List.not_mem_nil⟩

/-- The two readings lie in one calendar month. -/
def SameMonth (s t : Utc) : Prop := s.monthIndex = t.monthIndex

instance (s t : Utc) : Decidable (SameMonth s t) :=
  inferInstanceAs (Decidable (s.monthIndex = t.monthIndex))

theorem sameMonth_iff {s t : Utc} : SameMonth s t ↔ s.year = t.year ∧ s.month = t.month := by
  have hs := s.month_range
  have ht := t.month_range
  unfold SameMonth monthIndex
  omega

/-- Characters of a `%Y-%m` text: digits and the hyphen. -/
theorem strftimeYm_chars {t : Utc} {c : Char} (h : c ∈ t.strftimeYm) :
    Text.Plain c ∧ c.toLower = c := by
  rw [strftimeYm, List.mem_append, List.mem_cons] at h
  rcases h with h | h | h
  · rcases Text.mem_pad h with ⟨d, hd, rfl⟩
    exact Text.digitChar_plain hd
  · subst h
    unfold Text.Plain
    decide
  · rcases Text.mem_pad h with ⟨d, hd, rfl⟩
    exact Text.digitChar_plain hd

theorem strftimeYm_toLower (t : Utc) : t.strftimeYm.map Char.toLower = t.strftimeYm := by
  rw [List.map_congr_left (fun c hc => (strftimeYm_chars hc).2), List.map_id']

theorem strftimeYm_inj {s t : Utc} : s.strftimeYm = t.strftimeYm ↔ SameMonth s t := by
  rw [sameMonth_iff, strftimeYm, strftimeYm]
  constructor
  · intro h
    rcases List.append_inj h (by simp) with ⟨hy, hm⟩
    have hs := s.year_range
    have ht := t.year_range
    have hs' := s.month_range
    have ht' := t.month_range
    refine ⟨Text.pad_inj (w := 4) ?_ ?_ hy, Text.pad_inj (w := 2) ?_ ?_ (List.cons.inj hm).2⟩ <;>
      omega
  · rintro ⟨hy, hm⟩
    rw [hy, hm]

/-- `created_at LIKE '%Y-%m' || '%'` selects the rows of the reading's month. -/
theorem like_createdAt (now created : Utc) :
    Text.like (now.strftimeYm ++ ['%']) created.isoformat.toList = true ↔
      SameMonth now created := by
  rw [isoformat, String.toList_ofList]
  simp only [List.append_assoc]
  rw [Text.like_percent_append (fun c hc => (strftimeYm_chars hc).1) (strftimeYm_toLower now)
    (strftimeYm_toLower created) (by simp [strftimeYm])]
  exact strftimeYm_inj

end Utc

/-! ## A sample reading -/

/-- Nine o'clock on the first of July 2026. -/
def morning : Utc where
  year := 2026
  month := 7
  day := 1
  hour := 9
  minute := 0
  second := 0
  microsecond := 0

end AdsHub
