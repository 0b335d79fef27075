import Mathlib.Algebra.Order.Floor.Ring
import Mathlib.Data.Int.Log
import Mathlib.Data.Rat.Floor
import Mathlib.Tactic.FieldSimp
import Mathlib.Tactic.GCongr
import Mathlib.Tactic.Linarith
import Mathlib.Tactic.NormNum
import Mathlib.Tactic.Positivity
import Mathlib.Tactic.Ring

/-!
# Machinery/Binary64 — arithmetic on numbers with 53 bits

A number is rounded to the nearest one that has 53 bits, and of two to the one whose last bit is 0
(`rounded`); an operation is the exact one, rounded.  Exponents have no bounds here, so that nothing
overflows.  Rounding moves a number by little (`abs_rounded_sub_le`), which decides how a result is
cut off unless it ought to be an integer (`floor_eq_of_near`); then `le_rounded_add` helps, by which
a sum of two rounded numbers does not fall short of a coarse number that the numbers exceed.
-/

namespace Binary64

/-- The nearest integer, and the even one of two. -/
def nearest (x : ℚ) : ℤ :=
  if x - ⌊x⌋ < 1 / 2 then ⌊x⌋
  else if 1 / 2 < x - ⌊x⌋ then ⌊x⌋ + 1
  else if ⌊x⌋ % 2 = 0 then ⌊x⌋ else ⌊x⌋ + 1

/-- The exponent of the last one of the 53 bits. -/
def exponent (x : ℚ) : ℤ := Int.log 2 |x| - 52

/-- The double next to a number. -/
def rounded (x : ℚ) : ℚ := nearest (x / 2 ^ exponent x) * 2 ^ exponent x

/-- The sum of two doubles, rounded. -/
def add (x y : ℚ) : ℚ := rounded (x + y)

/-- Their product. -/
def mul (x y : ℚ) : ℚ := rounded (x * y)

/-- Their quotient. -/
def div (x y : ℚ) : ℚ := rounded (x / y)

variable {x y k : ℚ} {n e s : ℤ}

/-! ## The nearest integer -/

/-- The nearest integer is at most one half away. -/
theorem abs_nearest_sub_le (x : ℚ) : |nearest x - x| ≤ 1 / 2 := by
  have hle := Int.floor_le x
  have hlt := Int.lt_floor_add_one x
  rw [nearest, abs_le]
  split_ifs with hlow hhigh heven
  · constructor <;> linarith
  · push_cast
    constructor <;> linarith
  · constructor <;> linarith
  · push_cast
    constructor <;> linarith

/-- An integer less than one half away is the nearest one. -/
theorem nearest_eq (h : |x - n| < 1 / 2) : nearest x = n := by
  have hx := abs_le.mp (abs_nearest_sub_le x)
  obtain ⟨hlow, hhigh⟩ := abs_lt.mp h
  have hlt : ((nearest x : ℤ) : ℚ) < (n + 1 : ℤ) := by push_cast; linarith
  have hgt : ((n : ℤ) : ℚ) < (nearest x + 1 : ℤ) := by push_cast; linarith
  rw [Int.cast_lt] at hlt hgt
  omega

theorem nearest_intCast (n : ℤ) : nearest n = n :=
  nearest_eq (by rw [sub_self, abs_zero]; norm_num)

/-- An even number is not missed from half of one below. -/
theorem le_nearest_of_even (heven : n % 2 = 0) (h : (n : ℚ) - 1 / 2 ≤ x) : n ≤ nearest x := by
  by_cases hle : n ≤ ⌊x⌋
  · rw [nearest]
    split_ifs <;> omega
  · have hlt := Int.lt_floor_add_one x
    have hfloor : ⌊x⌋ + 1 = n := by
      have hgt : ((n : ℤ) : ℚ) < (⌊x⌋ + 2 : ℤ) := by push_cast; linarith
      rw [Int.cast_lt] at hgt
      omega
    have hcast : (⌊x⌋ : ℚ) + 1 = n := by exact_mod_cast hfloor
    rw [nearest, if_neg (by linarith)]
    split_ifs
    · exact hfloor.ge
    · omega
    · exact hfloor.ge

/-! ## The exponent

The exponent of a number is the one for which its significand has 53 bits, so that its unit in the
last place is the power of two with that exponent. -/

theorem two_zpow_pos (e : ℤ) : (0 : ℚ) < 2 ^ e := zpow_pos two_pos e

theorem zpow_le_abs (hx : x ≠ 0) : (2 : ℚ) ^ (exponent x + 52) ≤ |x| := by
  rw [exponent, sub_add_cancel]
  exact Int.zpow_log_le_self one_lt_two (abs_pos.mpr hx)

theorem abs_lt_zpow (x : ℚ) : |x| < (2 : ℚ) ^ (exponent x + 53) := by
  have h := Int.lt_zpow_succ_log_self one_lt_two |x|
  rwa [exponent, show Int.log 2 |x| - 52 + 53 = Int.log 2 |x| + 1 by ring]

/-- The exponent is told by the two powers that a number is between. -/
theorem exponent_eq (hle : (2 : ℚ) ^ (e + 52) ≤ |x|) (hlt : |x| < (2 : ℚ) ^ (e + 53)) :
    exponent x = e := by
  have hpos : 0 < |x| := (two_zpow_pos _).trans_le hle
  have hlow := (Int.zpow_le_iff_le_log one_lt_two hpos).mp (by exact_mod_cast hle)
  have hhigh := (Int.lt_zpow_iff_log_lt one_lt_two hpos).mp (by exact_mod_cast hlt)
  rw [exponent]
  omega

/-- A number that reaches a power has at least its exponent. -/
theorem le_exponent (h : (2 : ℚ) ^ (e + 52) ≤ |x|) : e ≤ exponent x := by
  have hlt := h.trans_lt (abs_lt_zpow x)
  rw [zpow_lt_zpow_iff_right₀ one_lt_two] at hlt
  omega

theorem exponent_lt (hx : x ≠ 0) (h : |x| < (2 : ℚ) ^ (e + 52)) : exponent x < e := by
  have hlt := (zpow_le_abs hx).trans_lt h
  rw [zpow_lt_zpow_iff_right₀ one_lt_two] at hlt
  omega

/-- Shifting a number shifts its exponent. -/
theorem exponent_mul_zpow (hx : x ≠ 0) (s : ℤ) : exponent (x * 2 ^ s) = exponent x + s := by
  have hs := two_zpow_pos s
  refine exponent_eq ?_ ?_
  · rw [abs_mul, abs_of_pos hs, show exponent x + s + 52 = exponent x + 52 + s by ring,
      zpow_add₀ two_ne_zero]
    exact mul_le_mul_of_nonneg_right (zpow_le_abs hx) hs.le
  · rw [abs_mul, abs_of_pos hs, show exponent x + s + 53 = exponent x + 53 + s by ring,
      zpow_add₀ two_ne_zero]
    exact mul_lt_mul_of_pos_right (abs_lt_zpow x) hs

/-! ## Rounding

A number is taken to the nearest multiple of a power of two, the one with its exponent, and a tie to
the even one.  Exponents are not bounded. -/

theorem rounded_zero : rounded 0 = 0 := by
  rw [rounded, zero_div]
  have h := nearest_intCast 0
  rw [Int.cast_zero] at h
  rw [h, Int.cast_zero, zero_mul]

/-- **Rounding is off by half a unit in the last place at most.** -/
theorem abs_rounded_sub_le_half (x : ℚ) : |rounded x - x| ≤ 2 ^ exponent x / 2 := by
  have hpos := two_zpow_pos (exponent x)
  have hx : x = x / 2 ^ exponent x * 2 ^ exponent x := (div_mul_cancel₀ x hpos.ne').symm
  calc |rounded x - x|
    _ = |nearest (x / 2 ^ exponent x) - x / 2 ^ exponent x| * 2 ^ exponent x := by
      conv_lhs => rw [rounded]; rhs; rhs; rw [hx]
      rw [← sub_mul, abs_mul, abs_of_pos hpos]
    _ ≤ 1 / 2 * 2 ^ exponent x :=
      mul_le_mul_of_nonneg_right (abs_nearest_sub_le _) hpos.le
    _ = 2 ^ exponent x / 2 := by ring

/-- **Rounding moves a number by no more than one part in 2^53.** -/
theorem abs_rounded_sub_le (x : ℚ) : |rounded x - x| ≤ |x| / 2 ^ 53 := by
  by_cases hx : x = 0
  · rw [hx, rounded_zero, sub_self, abs_zero, zero_div]
  · have hle := zpow_le_abs hx
    rw [zpow_add₀ two_ne_zero] at hle
    refine (abs_rounded_sub_le_half x).trans ?_
    rw [show (2 : ℚ) ^ (52 : ℤ) = 2 ^ 53 / 2 by norm_num] at hle
    rw [le_div_iff₀ (by positivity)]
    linarith

theorem rounded_le (hx : 0 ≤ x) : rounded x ≤ x * (1 + 1 / 2 ^ 53) := by
  have h := (abs_le.mp (abs_rounded_sub_le x)).2
  rw [abs_of_nonneg hx] at h
  linarith

theorem le_rounded (hx : 0 ≤ x) : x * (1 - 1 / 2 ^ 53) ≤ rounded x := by
  have h := (abs_le.mp (abs_rounded_sub_le x)).1
  rw [abs_of_nonneg hx] at h
  linarith

/-- Rounding twice, with an exact factor in between. -/
theorem abs_rounded_mul_rounded_sub_le (hx : 0 ≤ x) (hy : 0 ≤ y) :
    |rounded (rounded x * y) - x * y| ≤ x * y * (3 / 2 ^ 53) := by
  have hrx := (mul_nonneg hx (by norm_num)).trans (le_rounded hx)
  have hlow := le_rounded (mul_nonneg hrx hy)
  have hhigh := rounded_le (mul_nonneg hrx hy)
  have hxy := mul_nonneg hx hy
  have hlow' := mul_le_mul_of_nonneg_right (le_rounded hx) hy
  have hhigh' := mul_le_mul_of_nonneg_right (rounded_le hx) hy
  rw [abs_le]
  constructor
  · linarith
  · linarith

theorem rounded_nonneg (hx : 0 ≤ x) : 0 ≤ rounded x :=
  (mul_nonneg hx (by norm_num)).trans (le_rounded hx)

/-- The nearest multiple of the last bit is the one a number is rounded to. -/
theorem rounded_eq (h : |x - n * 2 ^ exponent x| < 2 ^ exponent x / 2) :
    rounded x = n * 2 ^ exponent x := by
  have hpos := two_zpow_pos (exponent x)
  rw [rounded, nearest_eq (n := n)]
  have hdiv : x / 2 ^ exponent x - n = (x - n * 2 ^ exponent x) / 2 ^ exponent x := by
    field_simp
  rw [hdiv, abs_div, abs_of_pos hpos, div_lt_iff₀ hpos]
  linarith

/-- A double that is nearer than half a unit is the rounded one. -/
theorem rounded_eq_of_le_of_lt (hle : (2 : ℚ) ^ (e + 52) ≤ |x|) (hlt : |x| < (2 : ℚ) ^ (e + 53))
    (h : |x - n * 2 ^ e| < 2 ^ e / 2) : rounded x = n * 2 ^ e := by
  obtain rfl := exponent_eq hle hlt
  exact rounded_eq h

/-- **A number that has 53 bits stays what it is.** -/
theorem rounded_of_bits (hn : |n| < 2 ^ 53) (s : ℤ) : rounded (n * 2 ^ s) = n * 2 ^ s := by
  by_cases hzero : n = 0
  · rw [hzero, Int.cast_zero, zero_mul, rounded_zero]
  set x : ℚ := n * 2 ^ s with hx
  have hle : exponent x ≤ s := by
    refine Int.lt_add_one_iff.mp (exponent_lt ?_ ?_)
    · exact mul_ne_zero (Int.cast_ne_zero.mpr hzero) (two_zpow_pos s).ne'
    · rw [hx, abs_mul, abs_of_pos (two_zpow_pos s), show s + 1 + 52 = 53 + s by ring,
        zpow_add₀ two_ne_zero]
      refine mul_lt_mul_of_pos_right ?_ (two_zpow_pos s)
      exact_mod_cast hn
  have hm : x = (n * 2 ^ (s - exponent x).toNat : ℤ) * 2 ^ exponent x := by
    rw [Int.cast_mul, Int.cast_pow, Int.cast_two, ← zpow_natCast,
      Int.toNat_of_nonneg (Int.sub_nonneg_of_le hle), mul_assoc, ← zpow_add₀ two_ne_zero,
      sub_add_cancel]
  have hexact : |x - (n * 2 ^ (s - exponent x).toNat : ℤ) * 2 ^ exponent x|
      < 2 ^ exponent x / 2 := by
    rw [← hm, sub_self, abs_zero]
    exact half_pos (two_zpow_pos _)
  rw [rounded_eq hexact, ← hm]

/-- An integer of at most 53 bits is a double. -/
theorem rounded_intCast (hn : |n| < 2 ^ 53) : rounded n = n := by
  have h := rounded_of_bits hn 0
  rwa [zpow_zero, mul_one] at h

theorem rounded_mul_zpow (x : ℚ) (s : ℤ) : rounded (x * 2 ^ s) = rounded x * 2 ^ s := by
  by_cases hx : x = 0
  · rw [hx, zero_mul, rounded_zero, zero_mul]
  · have hdiv : x * 2 ^ s / 2 ^ (exponent x + s) = x / 2 ^ exponent x := by
      rw [zpow_add₀ two_ne_zero, mul_div_mul_right _ _ (two_zpow_pos s).ne']
    rw [rounded, exponent_mul_zpow hx, hdiv, zpow_add₀ two_ne_zero, ← mul_assoc]
    rfl

/-- **What a number has been divided by gives it back**, where the last bit of the quotient comes to
less than that of the number. -/
theorem mul_rounded_div {c : ℚ} (hc : 0 < c) (hx : x = n * 2 ^ s) (hlow : 2 ^ (s + 52) < x)
    (hhigh : x < 2 ^ (s + 53)) (hexp : c * 2 ^ exponent (x / c) < 2 ^ s) :
    mul c (rounded (x / c)) = x := by
  have hs := two_zpow_pos s
  have hnear : |c * rounded (x / c) - n * 2 ^ s| < 2 ^ s / 2 := by
    have hexact : c * (x / c) = n * 2 ^ s := by rw [mul_div_cancel₀ _ hc.ne', hx]
    rw [← hexact, ← mul_sub, abs_mul, abs_of_pos hc]
    have herr := mul_le_mul_of_nonneg_left (abs_rounded_sub_le_half (x / c)) hc.le
    linarith
  -- the number is a whole bit away from either end
  have hlow' : (2 : ℚ) ^ (s + 52) + 2 ^ s ≤ n * 2 ^ s := by
    have hlt : 2 ^ 52 < n := by
      rw [hx, add_comm, zpow_add₀ two_ne_zero] at hlow
      exact_mod_cast lt_of_mul_lt_mul_right hlow hs.le
    rw [add_comm s, zpow_add₀ two_ne_zero, ← add_one_mul]
    exact mul_le_mul_of_nonneg_right (by exact_mod_cast hlt) hs.le
  have hhigh' : (n : ℚ) * 2 ^ s + 2 ^ s ≤ 2 ^ (s + 53) := by
    have hlt : n < 2 ^ 53 := by
      rw [hx, add_comm, zpow_add₀ two_ne_zero] at hhigh
      exact_mod_cast lt_of_mul_lt_mul_right hhigh hs.le
    rw [add_comm s, zpow_add₀ two_ne_zero, ← add_one_mul]
    exact mul_le_mul_of_nonneg_right (by exact_mod_cast hlt) hs.le
  obtain ⟨hgt, hlt⟩ := abs_lt.mp hnear
  have hpos : 0 < c * rounded (x / c) := by
    linarith [two_zpow_pos (s + 52)]
  rw [mul, rounded_eq_of_le_of_lt (e := s) (n := n) ?_ ?_ hnear, hx]
  · rw [abs_of_pos hpos]
    linarith
  · rw [abs_of_pos hpos]
    linarith

/-! ## What is cut off

If what is computed is near enough to a number, the integer part is that of the number or one beside
it. -/

section Fractions

variable {v t : ℚ} {d : ℕ} {m : ℤ}

/-- A fraction above an integer is above it by a whole unit of its denominator. -/
theorem add_le_of_lt (hd : 0 < d) (ht : t * d = n) (h : (m : ℚ) < t) : m + 1 / d ≤ t := by
  have hd' : (0 : ℚ) < d := Nat.cast_pos.mpr hd
  have hgt : ((m * d : ℤ) : ℚ) < n := by
    rw [← ht]
    push_cast
    exact mul_lt_mul_of_pos_right h hd'
  have hstep : ((m * d + 1 : ℤ) : ℚ) ≤ n := by
    rw [Int.cast_lt] at hgt
    exact_mod_cast hgt
  push_cast at hstep
  rw [← mul_le_mul_iff_left₀ hd', add_mul, one_div_mul_cancel hd'.ne', ht]
  exact hstep

/-- A fraction below an integer is below it by a denominator. -/
theorem add_le_intCast_of_lt (hd : 0 < d) (ht : t * d = n) (h : t < m) : t + 1 / d ≤ m := by
  have hneg := add_le_of_lt (t := -t) (n := -n) (m := -m) hd (by rw [neg_mul, ht, Int.cast_neg])
    (by rw [Int.cast_neg]; exact neg_lt_neg h)
  rw [Int.cast_neg] at hneg
  linarith

/-- What is nearer to a fraction than a denominator is cut off to no more. -/
theorem floor_le_of_near (hd : 0 < d) (ht : t * d = n) (hv : |v - t| < 1 / d) : ⌊v⌋ ≤ ⌊t⌋ := by
  have hstep := add_le_intCast_of_lt (m := ⌊t⌋ + 1) hd ht
    (by rw [Int.cast_add, Int.cast_one]; exact Int.lt_floor_add_one t)
  have hlt := (abs_lt.mp hv).2
  exact Int.lt_add_one_iff.mp (Int.floor_lt.mpr (by linarith))

/-- A number that differs from a fraction by less than its denominator allows is cut off like it,
unless the fraction is an integer that the number falls short of. -/
theorem floor_eq_of_near (hd : 0 < d) (ht : t * d = n) (hv : |v - t| < 1 / d)
    (hle : ∀ k : ℤ, t = k → t ≤ v) : ⌊v⌋ = ⌊t⌋ := by
  refine le_antisymm (floor_le_of_near hd ht hv) (Int.le_floor.mpr ?_)
  by_cases hint : (⌊t⌋ : ℚ) = t
  · exact hint.trans_le (hle _ hint.symm)
  · have hstep := add_le_of_lt hd ht (lt_of_le_of_ne (Int.floor_le t) hint)
    have hlt := (abs_lt.mp hv).1
    linarith

/-- One more than what is left of a number does not fall short of the fraction. -/
theorem le_floor_add_one_of_near (hd : 0 < d) (ht : t * d = n) (hv : |v - t| < 1 / d) :
    t ≤ ⌊v⌋ + 1 := by
  by_contra hlt
  rw [not_le] at hlt
  have hstep := add_le_of_lt (m := ⌊v⌋ + 1) hd ht (by push_cast; exact hlt)
  have hfloor := Int.lt_floor_add_one v
  have hgt := (abs_lt.mp hv).1
  push_cast at hstep
  linarith

end Fractions

/-- A fraction with a small denominator is rounded up to the same integer before and after. -/
theorem ceil_rounded {d : ℕ} (hd : 0 < d) (hx : x * d = n) (hsmall : |x| * d < 2 ^ 53) :
    ⌈rounded x⌉ = ⌈x⌉ := by
  have hd' : (0 : ℚ) < d := Nat.cast_pos.mpr hd
  have hneg : ⌊-rounded x⌋ = ⌊-x⌋ := by
    refine floor_eq_of_near (n := -n) hd ?_ ?_ fun k hk => ?_
    · rw [neg_mul, hx, Int.cast_neg]
    · rw [neg_sub_neg, abs_sub_comm, lt_div_iff₀ hd']
      calc |rounded x - x| * d
        _ ≤ |x| / 2 ^ 53 * d := mul_le_mul_of_nonneg_right (abs_rounded_sub_le x) hd'.le
        _ = |x| * d / 2 ^ 53 := by ring
        _ < 1 := (div_lt_one (by positivity)).mpr hsmall
    · have hk : x = (-k : ℤ) := by
        push_cast
        linarith
      have hle : |x| ≤ |x| * d := le_mul_of_one_le_right (abs_nonneg x) (by exact_mod_cast hd)
      have hlt : |-k| < 2 ^ 53 := by
        have := hle.trans_lt hsmall
        rw [hk] at this
        exact_mod_cast this
      rw [hk, rounded_intCast hlt]
  rw [Int.floor_neg, Int.floor_neg] at hneg
  exact neg_inj.mp hneg

/-! ## Sums -/

/-- Two roundings move a sum by two parts in 2^53 at most. -/
theorem abs_add_rounded_sub_le (hx : 0 ≤ x) (hy : 0 ≤ y) :
    |add (rounded x) (rounded y) - (x + y)| ≤ (x + y) * (3 / 2 ^ 53) := by
  have hrx := rounded_nonneg hx
  have hry := rounded_nonneg hy
  have hlow := le_rounded (add_nonneg hrx hry)
  have hhigh := rounded_le (add_nonneg hrx hry)
  have hx' := abs_le.mp (abs_rounded_sub_le x)
  have hy' := abs_le.mp (abs_rounded_sub_le y)
  rw [abs_of_nonneg hx] at hx'
  rw [abs_of_nonneg hy] at hy'
  rw [add, abs_le]
  constructor
  · linarith
  · linarith

/-- An even multiple of the last bit is not missed from half a bit below. -/
theorem le_rounded_of_even (hk : k = (2 * n : ℤ) * 2 ^ exponent x)
    (h : k - 2 ^ exponent x / 2 ≤ x) : k ≤ rounded x := by
  have hpos := two_zpow_pos (exponent x)
  have hle : 2 * n ≤ nearest (x / 2 ^ exponent x) := by
    refine le_nearest_of_even (by omega) ?_
    rw [le_div_iff₀ hpos]
    rw [hk] at h
    linarith
  rw [hk, rounded]
  exact mul_le_mul_of_nonneg_right (by exact_mod_cast hle) hpos.le

/-- A greater number has no smaller exponent. -/
theorem exponent_mono (hy : 0 < y) (hyx : y ≤ x) : exponent y ≤ exponent x := by
  refine le_exponent ((zpow_le_abs hy.ne').trans ?_)
  rw [abs_of_pos hy, abs_of_pos (hy.trans_le hyx)]
  exact hyx

/-- A number is not rounded below its power of two. -/
theorem zpow_le_rounded (hx : 0 < x) : (2 : ℚ) ^ (exponent x + 52) ≤ rounded x := by
  have hpos := two_zpow_pos (exponent x)
  have hle := zpow_le_abs hx.ne'
  rw [abs_of_pos hx] at hle
  refine le_rounded_of_even (n := 2 ^ 51) ?_ (by linarith)
  rw [zpow_add₀ two_ne_zero]
  push_cast
  ring

theorem exists_zpow_eq (h : e ≤ s) : ∃ r : ℤ, (2 : ℚ) ^ s = r * 2 ^ e := by
  refine ⟨2 ^ (s - e).toNat, ?_⟩
  rw [Int.cast_pow, Int.cast_two, ← zpow_natCast, Int.toNat_of_nonneg (Int.sub_nonneg_of_le h),
    ← zpow_add₀ two_ne_zero, sub_add_cancel]

/-- The last bit of a sum is that of the larger number, or up to two bits above it. -/
theorem exponent_add_rounded (hy : 0 < y) (hyx : y ≤ x) :
    exponent x ≤ exponent (rounded x + rounded y) ∧
      exponent (rounded x + rounded y) < exponent x + 3 := by
  have hx := hy.trans_le hyx
  have hlow := zpow_le_rounded hx
  have hry := rounded_nonneg hy.le
  have hsum : 0 < rounded x + rounded y := by linarith [two_zpow_pos (exponent x + 52)]
  refine ⟨le_exponent ?_, exponent_lt hsum.ne' ?_⟩
  · rw [abs_of_pos hsum]
    linarith
  · have hdouble : ∀ z : ℚ, 0 ≤ z → rounded z ≤ 2 * z := fun z hz =>
      (rounded_le hz).trans (by linarith)
    have hlt := abs_lt_zpow x
    rw [abs_of_pos hx] at hlt
    rw [abs_of_pos hsum, show exponent x + 3 + 52 = exponent x + 53 + 2 by ring,
      zpow_add₀ two_ne_zero]
    calc rounded x + rounded y
      _ ≤ 2 * x + 2 * y := add_le_add (hdouble x hx.le) (hdouble y hy.le)
      _ ≤ x * 2 ^ (2 : ℤ) := by linarith
      _ < 2 ^ (exponent x + 53) * 2 ^ (2 : ℤ) := mul_lt_mul_of_pos_right hlt (by norm_num)

/-- **The sum of two rounded numbers does not fall short** of a coarse number that the exact sum
exceeds: each is off by half of its last bit at most, and their sum is a multiple of the finer
one. -/
theorem le_rounded_add (hy : 0 < y) (hyx : y ≤ x) (hk : k = n * 2 ^ (exponent x + 3))
    (h : k < x + y) : k ≤ add (rounded x) (rounded y) := by
  obtain ⟨hlow, hhigh⟩ := exponent_add_rounded hy hyx
  -- half of the last bit of `x` is all that is missing at most
  have hmiss : k - 2 ^ exponent x / 2 ≤ rounded x + rounded y := by
    have hpos := two_zpow_pos (exponent y)
    obtain ⟨r, hr⟩ := exists_zpow_eq (exponent_mono hy hyx)
    obtain ⟨q, hq⟩ := exists_zpow_eq (exponent_mono hy hyx |>.trans (Int.le_add_of_nonneg_right
      (show (0 : ℤ) ≤ 3 by decide)))
    obtain ⟨a, ha⟩ : ∃ a : ℤ, rounded x = a * 2 ^ exponent x := ⟨_, rfl⟩
    obtain ⟨b, hb⟩ : ∃ b : ℤ, rounded y = b * 2 ^ exponent y := ⟨_, rfl⟩
    have hx := (abs_le.mp (abs_rounded_sub_le_half x)).1
    have hy := (abs_le.mp (abs_rounded_sub_le_half y)).1
    set z : ℤ := a * r + b - n * q with hz
    have hsum : rounded x + rounded y - k = z * 2 ^ exponent y := by
      rw [hk, hq, ha, hb, hr, hz]
      push_cast
      ring
    have hgt : (-(r + 1) : ℚ) * 2 ^ exponent y < (2 * z) * 2 ^ exponent y := by
      rw [mul_assoc 2, ← hsum]
      rw [hr] at hx
      linarith
    have hstep : -(r + 1) < 2 * z := by
      have := lt_of_mul_lt_mul_right hgt hpos.le
      exact_mod_cast this
    have hle : (-r : ℚ) ≤ 2 * z := by
      have : -r ≤ 2 * z := by omega
      exact_mod_cast this
    have := mul_le_mul_of_nonneg_right hle hpos.le
    rw [hr]
    linarith
  obtain ⟨q, hq⟩ := exists_zpow_eq (Int.le_sub_one_of_lt hhigh)
  refine le_rounded_of_even (n := n * q) ?_ ((sub_le_sub_left ?_ k).trans hmiss)
  · rw [hk, show exponent x + 3 = exponent x + 3 - 1 + 1 by ring, zpow_add₀ two_ne_zero, hq]
    push_cast
    ring
  · have := zpow_le_zpow_right₀ (one_le_two (α := ℚ)) hlow
    linarith

/-- **Where two numbers exceed an integer, so does the sum of what they are rounded to**, as long as
the bits of an integer are coarse. -/
theorem intCast_le_add_rounded {m : ℤ} (hx : 0 < x) (hy : 0 < y) (hx' : x < 2 ^ 49)
    (hy' : y < 2 ^ 49) (h : (m : ℚ) < x + y) : m ≤ add (rounded x) (rounded y) := by
  have hcoarse : ∀ z : ℚ, 0 < z → z < 2 ^ 49 → ∃ r : ℤ, (m : ℚ) = r * 2 ^ (exponent z + 3) := by
    intro z hz hlt
    have hexp : exponent z < -3 := exponent_lt hz.ne' (by rw [abs_of_pos hz]; exact_mod_cast hlt)
    obtain ⟨r, hr⟩ := exists_zpow_eq (e := exponent z + 3) (s := 0) (by omega)
    refine ⟨m * r, ?_⟩
    rw [Int.cast_mul, mul_assoc, ← hr, zpow_zero, mul_one]
  rcases le_total y x with hle | hle
  · obtain ⟨r, hr⟩ := hcoarse x hx hx'
    exact le_rounded_add hy hle hr h
  · obtain ⟨r, hr⟩ := hcoarse y hy hy'
    rw [add, add_comm]
    exact le_rounded_add hx hle hr (by rwa [add_comm])

end Binary64
