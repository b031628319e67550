import Mathlib.Data.Rat.Defs

/-!
# AdsHub.Lib.Json — JSON values

Numbers are exact rationals; an object keeps its fields in the order they were
written.
-/

/-- A JSON value. -/
inductive Json where
  | null
  | bool (b : Bool)
  | num (n : ℚ)
  | str (s : String)
  | arr (items : List Json)
  | obj (fields : List (String × Json))
