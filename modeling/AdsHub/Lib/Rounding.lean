import Mathlib.Algebra.Order.Floor.Ring
import Mathlib.Data.Int.Log
import Mathlib.Data.Rat.Floor
import Mathlib.Tactic.FieldSimp
import Mathlib.Tactic.Linarith
import Mathlib.Tactic.NormNum
import Mathlib.Tactic.Positivity

/-!
# AdsHub.Lib.Rounding — to the nearest integer, and to the nearest double

`roundHalfEven` is the nearest integer, the even one of two that are equally near.
`le_roundHalfEven_iff` says from where on it reaches an integer: half of one below it,
and the point itself if that integer is even.

A double is a multiple of a power of two with 53 binary digits. `Binary64.nearest x` is the
double for an exact result `x` (rounding to nearest, ties to even), and `Binary64.round x`
is none where that is an infinity. Of an integer `m` and a result that is not negative,
`Binary64.le_nearest_iff` says from where on the double is at least `m`, with the point
written out: half of a place below the first double that is not less than `m`.
-/

namespace Rounding

/-- The nearest integer, the even one of two that are equally near. -/
def roundHalfEven (q : ℚ) : ℤ :=
  if q - ⌊q⌋ < 1 / 2 then ⌊q⌋
  else if 1 / 2 < q - ⌊q⌋ then ⌊q⌋ + 1
  else if ⌊q⌋ % 2 = 0 then ⌊q⌋ else ⌊q⌋ + 1

/-- It is off by a half at most, and is even where it is off by a half. -/
theorem roundHalfEven_spec (q : ℚ) :
    |q - roundHalfEven q| ≤ 1 / 2 ∧ (|q - roundHalfEven q| = 1 / 2 → roundHalfEven q % 2 = 0) := by
  -- the cases are those of the fraction: below a half, above it, or equal to it
  have hlow : 0 ≤ q - ⌊q⌋ := sub_nonneg.2 (Int.floor_le q)
  have hhigh : q - ⌊q⌋ < 1 := by linarith [Int.lt_floor_add_one q]
  unfold roundHalfEven
  by_cases hless : q - ⌊q⌋ < 1 / 2
  · rw [if_pos hless, abs_of_nonneg hlow]
    exact ⟨hless.le, fun h => absurd h hless.ne⟩
  · rw [if_neg hless]
    -- rounding up is off by what is missing to the next integer
    have hup : |q - ((⌊q⌋ + 1 : ℤ) : ℚ)| = 1 - (q - ⌊q⌋) := by
      rw [abs_of_nonpos (by push_cast; linarith)]
      push_cast
      ring
    by_cases hmore : 1 / 2 < q - ⌊q⌋
    · rw [if_pos hmore, hup]
      exact ⟨by linarith, fun h => by linarith⟩
    · have hhalf : q - ⌊q⌋ = 1 / 2 := le_antisymm (not_lt.1 hmore) (not_lt.1 hless)
      rw [if_neg hmore]
      by_cases heven : ⌊q⌋ % 2 = 0
      · rw [if_pos heven, abs_of_nonneg hlow, hhalf]
        exact ⟨le_refl _, fun _ => heven⟩
      · rw [if_neg heven, hup, hhalf]
        exact ⟨by norm_num, fun _ => by omega⟩

/-- The rounded integer is the only one that is near enough, and even on a tie. -/
theorem roundHalfEven_unique {q : ℚ} {n : ℤ} (hnear : |q - n| ≤ 1 / 2)
    (htie : |q - n| = 1 / 2 → n % 2 = 0) : roundHalfEven q = n := by
  rcases roundHalfEven_spec q with ⟨hnear', htie'⟩
  by_contra hne
  -- two different integers within a half are both a half away
  have hdist : (1 : ℚ) ≤ |(roundHalfEven q : ℚ) - n| := by
    have hint : 1 ≤ |roundHalfEven q - n| := Int.one_le_abs (sub_ne_zero.2 hne)
    exact_mod_cast hint
  have hsum : |(roundHalfEven q : ℚ) - n| ≤ |q - roundHalfEven q| + |q - n| := by
    have hsplit : (roundHalfEven q : ℚ) - n = (q - n) - (q - roundHalfEven q) := by ring
    rw [hsplit]
    linarith [abs_sub (q - n) (q - roundHalfEven q)]
  have heven := htie (le_antisymm hnear (by linarith))
  have heven' := htie' (le_antisymm hnear' (by linarith))
  -- and then one of them is odd
  have hone : |roundHalfEven q - n| ≤ 1 := by
    have hle : |(roundHalfEven q : ℚ) - n| ≤ 1 := by linarith
    exact_mod_cast hle
  rw [abs_le] at hone
  omega

/-- Rounding is symmetric about the middle of an even whole. -/
theorem roundHalfEven_sub {whole : ℤ} (hwhole : whole % 2 = 0) (q : ℚ) :
    roundHalfEven (whole - q) = whole - roundHalfEven q := by
  rcases roundHalfEven_spec q with ⟨hnear, htie⟩
  have hdist : |(whole : ℚ) - q - ((whole - roundHalfEven q : ℤ) : ℚ)| = |q - roundHalfEven q| := by
    rw [← abs_neg]
    congr 1
    push_cast
    ring
  apply roundHalfEven_unique
  · rwa [hdist]
  · intro h
    rw [hdist] at h
    have heven := htie h
    omega

/-- An integer is reached from half of one below it on; the point itself counts if the
integer is even. -/
theorem le_roundHalfEven_iff {n : ℤ} {q : ℚ} :
    n ≤ roundHalfEven q ↔ (n : ℚ) - 1 / 2 < q ∨ (n : ℚ) - 1 / 2 = q ∧ n % 2 = 0 := by
  rcases roundHalfEven_spec q with ⟨hnear, htie⟩
  have hlow := (abs_le.1 hnear).1
  have hhigh := (abs_le.1 hnear).2
  constructor
  · intro hle
    have hle' : (n : ℚ) ≤ roundHalfEven q := by exact_mod_cast hle
    rcases lt_or_eq_of_le (show (n : ℚ) - 1 / 2 ≤ q by linarith) with hlt | heq
    · exact Or.inl hlt
    · -- at the point itself, `n` is the rounded integer and off by a half
      have hsame : (roundHalfEven q : ℚ) = n := le_antisymm (by linarith) hle'
      have heven := htie (by rw [hsame, ← heq, abs_of_nonpos (by linarith)]; ring)
      have hsame' : roundHalfEven q = n := by exact_mod_cast hsame
      exact Or.inr ⟨heq, hsame' ▸ heven⟩
  · rintro (hlt | ⟨heq, heven⟩)
    · -- what is rounded is more than `n - 1`
      have hmore : ((n - 1 : ℤ) : ℚ) < roundHalfEven q := by
        push_cast
        linarith
      have hmore' : n - 1 < roundHalfEven q := by exact_mod_cast hmore
      omega
    · have hround : roundHalfEven q = n := by
        apply roundHalfEven_unique
        · rw [← heq, abs_of_nonpos (by linarith)]
          linarith
        · exact fun _ => heven
      exact hround.ge

/-- An integer that is not more than `q` is not more than the rounded one. -/
theorem le_roundHalfEven {n : ℤ} {q : ℚ} (h : (n : ℚ) ≤ q) : n ≤ roundHalfEven q :=
  le_roundHalfEven_iff.2 (Or.inl (by linarith))

/-- An integer that is not less than `q` is not less than the rounded one. -/
theorem roundHalfEven_le {n : ℤ} {q : ℚ} (h : q ≤ n) : roundHalfEven q ≤ n := by
  by_contra hnot
  have hnext := le_roundHalfEven_iff.1 (show n + 1 ≤ roundHalfEven q by omega)
  push_cast at hnext
  rcases hnext with hlt | ⟨heq, -⟩
  · linarith
  · linarith

end Rounding

namespace Binary64

open Rounding

/-- The exponent of the last place of the doubles around `x`. -/
def exponent (x : ℚ) : ℤ := max (Int.log 2 |x| - 52) (-1074)

/-- The double nearest to `x`, ties to even, in an unbounded range. -/
def nearest (x : ℚ) : ℚ := roundHalfEven (x / 2 ^ exponent x) * 2 ^ exponent x

/-- The double for the exact result `x`; none is an infinity. -/
def round (x : ℚ) : Option ℚ := if |nearest x| < 2 ^ 1024 then some (nearest x) else none

/-! ## Where the rounding lands -/

theorem place_pos (e : ℤ) : (0 : ℚ) < 2 ^ e := zpow_pos (by norm_num) e

/-- Counted in places that are not larger, a power of two is an integer. -/
theorem zpow_div_zpow {e j : ℤ} (h : e ≤ j) : (2 : ℚ) ^ j / 2 ^ e = ((2 ^ (j - e).toNat : ℤ) : ℚ) := by
  rw [← zpow_sub₀ (by norm_num)]
  push_cast
  rw [← zpow_natCast, Int.toNat_of_nonneg (by omega)]

/-- The doubles from `2 ^ (e + 52)` up to the next power of two are the multiples of
`2 ^ e`. -/
theorem exponent_eq {x : ℚ} {e : ℤ} (he : -1074 ≤ e) (hlow : 2 ^ (e + 52) ≤ x)
    (hhigh : x < 2 ^ (e + 53)) : exponent x = e := by
  have hpos : 0 < x := (place_pos _).trans_le hlow
  have hle : e + 52 ≤ Int.log 2 x :=
    (Int.zpow_le_iff_le_log (by norm_num) hpos).1 (by exact_mod_cast hlow)
  have hlt : Int.log 2 x < e + 53 :=
    (Int.lt_zpow_iff_log_lt (by norm_num) hpos).1 (by exact_mod_cast hhigh)
  rw [exponent, abs_of_pos hpos]
  omega

theorem nearest_eq {x : ℚ} {e : ℤ} (he : -1074 ≤ e) (hlow : 2 ^ (e + 52) ≤ x)
    (hhigh : x < 2 ^ (e + 53)) : nearest x = roundHalfEven (x / 2 ^ e) * 2 ^ e := by
  rw [nearest, exponent_eq he hlow hhigh]

theorem nearest_nonneg {x : ℚ} (h : 0 ≤ x) : 0 ≤ nearest x := by
  have hpos := place_pos (exponent x)
  have hround : 0 ≤ roundHalfEven (x / 2 ^ exponent x) :=
    le_roundHalfEven (by exact_mod_cast div_nonneg h hpos.le)
  unfold nearest
  positivity

/-- Rounding does not fall below a power of two. -/
theorem zpow_le_nearest {x : ℚ} {j : ℤ} (hj : -1074 ≤ j) (h : 2 ^ j ≤ x) : 2 ^ j ≤ nearest x := by
  have hpos : 0 < x := (place_pos _).trans_le h
  have hlog : j ≤ Int.log 2 x :=
    (Int.zpow_le_iff_le_log (by norm_num) hpos).1 (by exact_mod_cast h)
  have hself : (2 : ℚ) ^ Int.log 2 x ≤ x := by exact_mod_cast Int.zpow_log_le_self (by norm_num) hpos
  -- the largest power of two below `x` is a multiple of the place
  have hexp : exponent x ≤ Int.log 2 x := by
    rw [exponent, abs_of_pos hpos]
    omega
  have hcount := zpow_div_zpow hexp
  have hround := le_roundHalfEven (hcount ▸ div_le_div_of_nonneg_right hself (place_pos _).le)
  calc (2 : ℚ) ^ j ≤ 2 ^ Int.log 2 x := zpow_le_zpow_right₀ (by norm_num) hlog
    _ = ((2 ^ (Int.log 2 x - exponent x).toNat : ℤ) : ℚ) * 2 ^ exponent x := by
        rw [← hcount, div_mul_cancel₀ _ (place_pos _).ne']
    _ ≤ nearest x :=
        mul_le_mul_of_nonneg_right (by exact_mod_cast hround) (place_pos _).le

/-- Rounding does not pass a power of two. -/
theorem nearest_le_zpow {x : ℚ} {j : ℤ} (hj : -1021 ≤ j) (hx : 0 < x) (h : x < 2 ^ j) :
    nearest x ≤ 2 ^ j := by
  have hlog : Int.log 2 x < j := (Int.lt_zpow_iff_log_lt (by norm_num) hx).1 (by exact_mod_cast h)
  have hexp : exponent x ≤ j := by
    rw [exponent, abs_of_pos hx]
    omega
  have hcount := zpow_div_zpow hexp
  have hround := roundHalfEven_le (hcount ▸ div_le_div_of_nonneg_right h.le (place_pos (exponent x)).le)
  calc nearest x
      ≤ ((2 ^ (j - exponent x).toNat : ℤ) : ℚ) * 2 ^ exponent x :=
        mul_le_mul_of_nonneg_right (by exact_mod_cast hround) (place_pos _).le
    _ = 2 ^ j := by rw [← hcount, div_mul_cancel₀ _ (place_pos _).ne']

/-- Integers of at most 53 binary digits are doubles. -/
theorem nearest_natCast {k : ℕ} (hk : k < 2 ^ 53) : nearest k = k := by
  rcases Nat.eq_zero_or_pos k with rfl | hpos
  · simp [nearest, roundHalfEven]
  have hpos' : (0 : ℚ) < k := by exact_mod_cast hpos
  have hlog : Int.log 2 (k : ℚ) < 53 :=
    (Int.lt_zpow_iff_log_lt (by norm_num) hpos').1 (by exact_mod_cast hk)
  have hexp : exponent (k : ℚ) ≤ 0 := by
    rw [exponent, abs_of_pos hpos']
    omega
  -- the place divides one, so `k` is a whole number of places
  have hcount : (k : ℚ) / 2 ^ exponent (k : ℚ) =
      ((k * 2 ^ (0 - exponent (k : ℚ)).toNat : ℤ) : ℚ) := by
    have hone := zpow_div_zpow hexp
    rw [zpow_zero] at hone
    rw [Int.cast_mul, ← hone, Int.cast_natCast, mul_one_div]
  have hround := roundHalfEven_unique (q := (k : ℚ) / 2 ^ exponent (k : ℚ))
    (by rw [hcount, sub_self, abs_zero]; norm_num) (by rw [hcount, sub_self, abs_zero]; norm_num)
  rw [nearest, hround, ← hcount, div_mul_cancel₀ _ (place_pos _).ne']

/-! ## From where on an integer is reached -/

/-- The distance of the doubles just below `m`. -/
def gap (m : ℕ) : ℚ := 2 ^ ((Nat.clog 2 m : ℤ) - 53)

/-- The first double that is not less than `m`, counted in these distances. -/
def place (m : ℕ) : ℤ := ⌈(m : ℚ) / gap m⌉

/-- `y` is at or beyond the point from which results are rounded to `m` or more: half of a
place below the first double that is not less than `m`; the point itself is rounded up if
that double is even. -/
def Reaches (m : ℕ) (y : ℚ) : Prop :=
  (place m - 1 / 2 : ℚ) * gap m < y ∨ (place m - 1 / 2 : ℚ) * gap m = y ∧ place m % 2 = 0

instance (m : ℕ) (y : ℚ) : Decidable (Reaches m y) :=
  inferInstanceAs (Decidable (_ ∨ _ ∧ _))

theorem gap_pos (m : ℕ) : 0 < gap m := place_pos _

/-- The powers of two around `m`, counted in these distances. -/
theorem zpow_eq_mul_gap (m k : ℕ) : (2 : ℚ) ^ ((Nat.clog 2 m : ℤ) - 53 + k) = 2 ^ k * gap m := by
  rw [zpow_add₀ (by norm_num), zpow_natCast, mul_comm, gap]

/-- A number from 1 on lies between two powers of two. -/
theorem zpow_clog {m : ℕ} (hm : 0 < m) :
    (2 : ℚ) ^ ((Nat.clog 2 m : ℤ) - 1) < m ∧ (m : ℚ) ≤ 2 ^ (Nat.clog 2 m : ℤ) := by
  constructor
  · rcases Nat.lt_or_ge 1 m with h | h
    · have hpos := Nat.clog_pos (by norm_num : 1 < 2) h
      have hlt : 2 ^ (Nat.clog 2 m - 1) < m := Nat.pow_pred_clog_lt_self (by norm_num) h
      have hcast : ((Nat.clog 2 m : ℤ) - 1) = ((Nat.clog 2 m - 1 : ℕ) : ℤ) := by omega
      rw [hcast, zpow_natCast]
      exact_mod_cast hlt
    · obtain rfl : m = 1 := by omega
      norm_num
  · have hle : m ≤ 2 ^ Nat.clog 2 m := Nat.le_pow_clog (by norm_num) m
    rw [zpow_natCast]
    exact_mod_cast hle

/-- Zero is reached by whatever is not negative. -/
theorem reaches_zero {y : ℚ} (hy : 0 ≤ y) : Reaches 0 y := by
  have hgap := gap_pos 0
  have hplace : place 0 = 0 := by simp [place]
  left
  rw [hplace]
  push_cast
  linarith

/-- The double for a result that is not negative is at least `m` exactly from that point on. -/
theorem le_nearest_iff {m : ℕ} {y : ℚ} (hy : 0 ≤ y) : (m : ℚ) ≤ nearest y ↔ Reaches m y := by
  rcases Nat.eq_zero_or_pos m with rfl | hm
  · exact iff_of_true (by exact_mod_cast nearest_nonneg hy) (reaches_zero hy)
  obtain ⟨hlow, hhigh⟩ := zpow_clog hm
  have hgap := gap_pos m
  -- counted in places, the powers of two on both sides of `m` are `2 ^ 52` and `2 ^ 53`
  have hbelow : (2 : ℚ) ^ ((Nat.clog 2 m : ℤ) - 1) = 2 ^ 52 * gap m := by
    rw [← zpow_eq_mul_gap]
    congr 1
    omega
  have habove : (2 : ℚ) ^ (Nat.clog 2 m : ℤ) = 2 ^ 53 * gap m := by
    rw [← zpow_eq_mul_gap]
    congr 1
    omega
  rcases lt_or_ge y (2 ^ ((Nat.clog 2 m : ℤ) - 1)) with hless | hmore
  · -- below both: neither the double nor the point gets there
    have hplace : 2 ^ 52 < place m := by
      rw [place, Int.lt_ceil, lt_div_iff₀ hgap]
      push_cast
      linarith
    have hpoint : ((2 : ℚ) ^ 52 + 1 / 2) * gap m ≤ (place m - 1 / 2 : ℚ) * gap m := by
      have hnext : ((2 ^ 52 + 1 : ℤ) : ℚ) ≤ place m := by exact_mod_cast hplace
      push_cast at hnext
      exact mul_le_mul_of_nonneg_right (by linarith) hgap.le
    refine iff_of_false (not_le.2 ?_) ?_
    · rcases hy.eq_or_lt with rfl | hpos
      · have hzero : nearest 0 = 0 := by simp [nearest, roundHalfEven]
        rw [hzero]
        exact_mod_cast hm
      · exact (nearest_le_zpow (by omega) hpos hless).trans_lt hlow
    · rintro (hlt | ⟨heq, -⟩)
      · nlinarith
      · nlinarith
  · rcases lt_or_ge y (2 ^ (Nat.clog 2 m : ℤ)) with hless | hmore'
    · -- between them the doubles are the multiples of the place
      have hnear : nearest y = roundHalfEven (y / gap m) * gap m := by
        apply nearest_eq (by omega)
        · rwa [show (Nat.clog 2 m : ℤ) - 53 + 52 = Nat.clog 2 m - 1 by ring]
        · rwa [show (Nat.clog 2 m : ℤ) - 53 + 53 = Nat.clog 2 m by ring]
      rw [hnear, ← div_le_iff₀ hgap, ← Int.ceil_le, ← place, le_roundHalfEven_iff, Reaches,
        lt_div_iff₀ hgap, eq_div_iff hgap.ne']
    · -- beyond both
      refine iff_of_true (hhigh.trans (zpow_le_nearest (by omega) hmore')) (Or.inl ?_)
      have hplace : place m ≤ 2 ^ 53 := by
        rw [place, Int.ceil_le, div_le_iff₀ hgap]
        push_cast
        linarith
      have hplace' : (place m : ℚ) ≤ 2 ^ 53 := by exact_mod_cast hplace
      calc (place m - 1 / 2 : ℚ) * gap m < 2 ^ 53 * gap m :=
            mul_lt_mul_of_pos_right (by linarith) hgap
        _ ≤ y := habove ▸ hmore'

/-- The double is cut to `m` exactly between the points of `m` and of the next integer. -/
theorem floor_nearest_eq_iff {m : ℕ} {y : ℚ} (hy : 0 ≤ y) :
    ⌊nearest y⌋ = m ↔ Reaches m y ∧ ¬ Reaches (m + 1) y := by
  rw [Int.floor_eq_iff, ← le_nearest_iff hy, ← le_nearest_iff hy, not_le]
  push_cast
  exact Iff.rfl

/-- A result that is not negative overflows exactly from the point of `2 ^ 1024` on. -/
theorem round_eq_none_iff {y : ℚ} (hy : 0 ≤ y) : round y = none ↔ Reaches (2 ^ 1024) y := by
  rw [← le_nearest_iff hy, Nat.cast_pow, Nat.cast_ofNat, round, abs_of_nonneg (nearest_nonneg hy),
    ite_eq_right_iff, ← not_lt]
  exact ⟨fun h hlt => Option.some_ne_none _ (h hlt), fun h hlt => absurd hlt h⟩

/-- Short of it, the result is the nearest double. -/
theorem round_eq_some {y : ℚ} (hy : 0 ≤ y) (h : ¬ Reaches (2 ^ 1024) y) :
    round y = some (nearest y) := by
  rw [← le_nearest_iff hy, not_le, Nat.cast_pow, Nat.cast_ofNat] at h
  rw [round, abs_of_nonneg (nearest_nonneg hy), if_pos h]

/-- No double of ordinary size is near an infinity. -/
theorem round_eq_nearest {x : ℚ} (h : |nearest x| ≤ 2 ^ 53) : round x = some (nearest x) := by
  have hlimit : (2 : ℚ) ^ 53 < 2 ^ 1024 := pow_lt_pow_right₀ (by norm_num) (by norm_num)
  rw [round, if_pos (h.trans_lt hlimit)]

end Binary64
