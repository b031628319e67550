import Mathlib.Data.List.TakeWhile
import AdsHub.Lib.Text

/-!
# AdsHub.Lib.Url — texts that are put into the path of a URL

A program that builds a URL by putting texts next to one another relies on these texts
staying where they are put. They do not always: a `?` or a `#` ends the path, a `/` starts
another segment, `.` and `..` are taken out of a path, an escape `%41` is read as the
character it stands for, and a URL with a control character is refused by the client.

* `path url` — the URL up to the end of its path, if a client takes it;
* `pathText s` — the text neither ends a path nor makes a client refuse it;
* `plainSegment s` — the text is one segment, and is read as it is written.
-/

namespace Url

/-- A character that ends the path: the query or the fragment follows. -/
def endsPath (c : Char) : Bool := c == '?' || c == '#'

/-- The control characters of ASCII, which are refused in a URL. -/
def isControl (c : Char) : Bool := decide (c.toNat < 32) || c.toNat == 127

/-- The text neither ends a path nor makes a client refuse it. -/
def pathText (s : String) : Bool := s.toList.all (fun c => !endsPath c && !isControl c)

/-- A digit of an escape. -/
def isHexDigit (c : Char) : Bool :=
  c.isDigit || (decide ('a' ≤ c) && decide (c ≤ 'f')) || (decide ('A' ≤ c) && decide (c ≤ 'F'))

/-- There is an escape in the text: a percent sign and two hexadecimal digits. -/
def hasEscape : List Char → Bool
  | [] => false
  | c :: cs =>
    (match c, cs with
      | '%', a :: b :: _ => isHexDigit a && isHexDigit b
      | _, _ => false) || hasEscape cs

/-- The text is one segment of a path, and is read as it is written. -/
def plainSegment (s : String) : Bool :=
  pathText s && !s.toList.contains '/' && !hasEscape s.toList && s != "" && s != "." && s != ".."

/-- The URL up to the end of its path; none if a client refuses it. -/
def path (url : String) : Option String :=
  if url.toList.any isControl then none
  else some (String.ofList (url.toList.takeWhile (fun c => !endsPath c)))

theorem pathText_append (s t : String) : pathText (s ++ t) = (pathText s && pathText t) := by
  simp [pathText, String.toList_append]

/-- The text of a plain segment can stand in a path. -/
theorem pathText_of_plainSegment {s : String} (h : plainSegment s = true) : pathText s = true := by
  simp only [plainSegment, Bool.and_eq_true] at h
  exact h.1.1.1.1.1

/-- A URL of such texts is all path. -/
theorem path_eq_self {url : String} (h : pathText url = true) : path url = some url := by
  simp only [pathText, List.all_eq_true, Bool.and_eq_true, Bool.not_eq_true'] at h
  have hcontrol : url.toList.any isControl = false := by
    simpa using fun c hc => (h c hc).2
  have hwhole : url.toList.takeWhile (fun c => !endsPath c) = url.toList :=
    List.takeWhile_eq_self_iff.2 (fun c hc => by simp [(h c hc).1])
  rw [path, hcontrol, if_neg Bool.false_ne_true, hwhole, String.ofList_toList]

/-- The path of a URL is such a text. -/
theorem pathText_of_path {url p : String} (h : path url = some p) : pathText p = true := by
  unfold path at h
  split at h
  · cases h
  · next hcontrol =>
    cases h
    simp only [List.any_eq_true, not_exists, not_and, Bool.not_eq_true] at hcontrol
    simp only [pathText, String.toList_ofList, List.all_eq_true, Bool.and_eq_true,
      Bool.not_eq_true']
    intro c hc
    refine ⟨by simpa using List.mem_takeWhile_imp hc, hcontrol c ?_⟩
    exact (List.takeWhile_prefix _).subset hc

/-- What the path of a URL starts with stays where it was put. -/
theorem pathText_of_after {p s rest : String} (hs : pathText s = true)
    (h : Text.after p s = some rest) : pathText p = true := by
  have hsplit : s = p ++ rest := Text.eq_append_of_after h
  rw [hsplit, pathText_append, Bool.and_eq_true] at hs
  exact hs.1

end Url
