import Mathlib.Algebra.Order.Floor.Ring
import Mathlib.Data.Int.Log
import Mathlib.Data.Rat.Floor
import Mathlib.Tactic.Linarith

/-! Binary floating point with 53 bits: which rationals it has, and the nearest of them. -/
namespace Numbers
variable {q r : ℚ}

/-- `m * 2 ^ e`, with 53 bits for `m` and no exponent below that of the subnormal numbers. -/
def OnGrid (q : ℚ) : Prop := ∃ m e : ℤ, |m| ≤ 2 ^ 53 ∧ -1074 ≤ e ∧ q = m * 2 ^ e

/-- The nearest integer, and the even one of two. -/
def roundEven (q : ℚ) : ℤ :=
  if 2 * Int.fract q < 1 then ⌊q⌋
  else if 1 < 2 * Int.fract q then ⌈q⌉
  else if ⌊q⌋ % 2 = 0 then ⌊q⌋ else ⌈q⌉

/-- The exponent of the last bit that a rational keeps. -/
def place (q : ℚ) : ℤ := max (Int.log 2 |q| - 52) (-1074)

/-- The nearest rational on the grid. -/
def rounded (q : ℚ) : ℚ := roundEven (q / 2 ^ place q) * 2 ^ place q

theorem floor_le_roundEven (q : ℚ) : ⌊q⌋ ≤ roundEven q := by
  unfold roundEven
  split_ifs
  · exact le_rfl
  · exact Int.floor_le_ceil q
  · exact le_rfl
  · exact Int.floor_le_ceil q

theorem roundEven_le_ceil (q : ℚ) : roundEven q ≤ ⌈q⌉ := by
  unfold roundEven
  split_ifs
  · exact Int.floor_le_ceil q
  · exact le_rfl
  · exact Int.floor_le_ceil q
  · exact le_rfl

private theorem roundEven_intCast (k : ℤ) : roundEven k = k := by
  unfold roundEven
  rw [Int.fract_intCast, mul_zero, if_pos one_pos, Int.floor_intCast]

/-- Rounding does not depend on the sign. -/
theorem roundEven_neg (q : ℚ) : roundEven (-q) = -roundEven q := by
  by_cases hint : Int.fract q = 0
  · obtain ⟨k, rfl⟩ := Int.fract_eq_zero_iff.mp hint
    rw [← Int.cast_neg, roundEven_intCast, roundEven_intCast]
  · have hfract : Int.fract (-q) = 1 - Int.fract q := Int.fract_neg hint
    have hceil : ⌈q⌉ = ⌊q⌋ + 1 := by
      have hcast : (⌈q⌉ : ℚ) = ⌊q⌋ + 1 := by
        rw [Int.ceil_eq_add_one_sub_fract hint]
        linarith [Int.floor_add_fract q]
      exact_mod_cast hcast
    unfold roundEven
    rw [hfract, Int.floor_neg, Int.ceil_neg, hceil]
    split_ifs <;> first | omega | (exfalso; linarith)

theorem two_zpow_pos (e : ℤ) : (0 : ℚ) < 2 ^ e := zpow_pos two_pos e

theorem two_zpow_le {e e' : ℤ} (h : e ≤ e') : (2 : ℚ) ^ e ≤ 2 ^ e' := zpow_le_zpow_right₀ one_le_two h

theorem place_neg (q : ℚ) : place (-q) = place q := by
  unfold place
  rw [abs_neg]

theorem rounded_neg (q : ℚ) : rounded (-q) = -rounded q := by
  unfold rounded
  rw [place_neg, neg_div, roundEven_neg]
  push_cast
  ring

theorem le_place (q : ℚ) : -1074 ≤ place q := le_max_right _ _

theorem abs_lt_place (q : ℚ) : |q| < 2 ^ (place q + 53) := by
  have hlog : |q| < 2 ^ (Int.log 2 |q| + 1) := Int.lt_zpow_succ_log_self one_lt_two |q|
  have hplace : Int.log 2 |q| - 52 ≤ place q := le_max_left _ _
  exact lt_of_lt_of_le hlog (two_zpow_le (by omega))

/-- Above the subnormal numbers all 53 bits are kept. -/
theorem place_le_abs (h : q ≠ 0) (hp : -1074 < place q) : 2 ^ (place q + 52) ≤ |q| := by
  have hlog : (2 : ℚ) ^ Int.log 2 |q| ≤ |q| := Int.zpow_log_le_self one_lt_two (abs_pos.mpr h)
  have hplace : place q + 52 = Int.log 2 |q| := by
    unfold place at hp ⊢
    omega
  rwa [hplace]

theorem onGrid_neg (h : OnGrid r) : OnGrid (-r) := by
  obtain ⟨m, e, hm, he, rfl⟩ := h
  refine ⟨-m, e, ?_, he, ?_⟩
  · rwa [abs_neg]
  · rw [Int.cast_neg, neg_mul]

private theorem abs_le_of_lt_place {m e : ℤ} (hm : |m| ≤ 2 ^ 53) (he : e < place q) :
    |(m : ℚ) * 2 ^ e| ≤ 2 ^ (place q + 52) := by
  have hcast : |(m : ℚ)| ≤ 2 ^ (53 : ℤ) := by exact_mod_cast hm
  calc |(m : ℚ) * 2 ^ e| = |(m : ℚ)| * 2 ^ e := by rw [abs_mul, abs_of_pos (two_zpow_pos e)]
    _ ≤ 2 ^ (53 : ℤ) * 2 ^ e := mul_le_mul_of_nonneg_right hcast (two_zpow_pos e).le
    _ = 2 ^ (53 + e) := (zpow_add₀ two_ne_zero 53 e).symm
    _ ≤ 2 ^ (place q + 52) := two_zpow_le (by omega)

/-- Between a rational on the grid and one above it there is a multiple of the last place. -/
theorem exists_multiple (h : OnGrid r) (hrq : r ≤ q) : ∃ k : ℤ, r ≤ k * 2 ^ place q ∧ k * 2 ^ place q ≤ q := by
  obtain ⟨m, e, hm, he, rfl⟩ := h
  rcases Int.lt_or_le e (place q) with hlt | hle
  · have hsmall := abs_le.mp (abs_le_of_lt_place hm hlt)
    have hsplit : (2 : ℚ) ^ (place q + 52) = 2 ^ 52 * 2 ^ place q := by
      rw [add_comm, zpow_add₀ two_ne_zero]
      rfl
    rcases lt_trichotomy q 0 with hq | hq | hq
    · have hlarge := place_le_abs (ne_of_lt hq) (lt_of_le_of_lt he hlt)
      rw [abs_of_neg hq] at hlarge
      refine ⟨-2 ^ 52, ?_, ?_⟩ <;> push_cast <;> linarith [hsmall.1]
    · refine ⟨0, ?_, ?_⟩ <;> rw [Int.cast_zero, zero_mul]
      · exact hq ▸ hrq
      · exact hq.ge
    · have hlarge := place_le_abs (ne_of_gt hq) (lt_of_le_of_lt he hlt)
      rw [abs_of_pos hq] at hlarge
      refine ⟨2 ^ 52, ?_, ?_⟩ <;> push_cast <;> linarith [hsmall.2]
  · have hmultiple : ((m * 2 ^ (e - place q).toNat : ℤ) : ℚ) * 2 ^ place q = m * 2 ^ e := by
      have hexp : e = ((e - place q).toNat : ℤ) + place q := by omega
      conv_rhs => rw [hexp, zpow_add₀ two_ne_zero, zpow_natCast]
      push_cast
      ring
    exact ⟨m * 2 ^ (e - place q).toNat, hmultiple.ge, hmultiple.trans_le hrq⟩

/-- Rounding does not pass a rational on the grid. -/
theorem le_rounded (h : OnGrid r) (hrq : r ≤ q) : r ≤ rounded q := by
  obtain ⟨k, hrk, hkq⟩ := exists_multiple h hrq
  have hfloor : k ≤ ⌊q / 2 ^ place q⌋ := Int.le_floor.mpr ((le_div_iff₀ (two_zpow_pos _)).mpr hkq)
  have hround : (k : ℚ) ≤ roundEven (q / 2 ^ place q) := by exact_mod_cast hfloor.trans (floor_le_roundEven _)
  exact hrk.trans (mul_le_mul_of_nonneg_right hround (two_zpow_pos _).le)

theorem rounded_le (h : OnGrid r) (hqr : q ≤ r) : rounded q ≤ r := by
  obtain ⟨k, hrk, hkq⟩ := exists_multiple (onGrid_neg h) (neg_le_neg hqr)
  rw [place_neg] at hrk hkq
  have hceil : ⌈q / 2 ^ place q⌉ ≤ -k := by
    refine Int.ceil_le.mpr ((div_le_iff₀ (two_zpow_pos _)).mpr ?_)
    push_cast
    linarith
  have hround : (roundEven (q / 2 ^ place q) : ℚ) ≤ -k := by exact_mod_cast (roundEven_le_ceil _).trans hceil
  calc rounded q ≤ -k * 2 ^ place q := mul_le_mul_of_nonneg_right hround (two_zpow_pos _).le
    _ ≤ r := by linarith

theorem rounded_of_onGrid (h : OnGrid q) : rounded q = q := le_antisymm (rounded_le h le_rfl) (le_rounded h le_rfl)

theorem onGrid_rounded (q : ℚ) : OnGrid (rounded q) := by
  have hpos := two_zpow_pos (place q)
  have hsplit : (2 : ℚ) ^ (place q + 53) = 2 ^ 53 * 2 ^ place q := by
    rw [add_comm, zpow_add₀ two_ne_zero]
    rfl
  have hq := abs_lt.mp (abs_lt_place q)
  rw [hsplit] at hq
  refine ⟨roundEven (q / 2 ^ place q), place q, ?_, le_place q, rfl⟩
  rw [abs_le]
  constructor
  · have hfloor : -2 ^ 53 ≤ ⌊q / 2 ^ place q⌋ := by
      refine Int.le_floor.mpr ((le_div_iff₀ hpos).mpr ?_)
      push_cast
      linarith [hq.1]
    exact hfloor.trans (floor_le_roundEven _)
  · have hceil : ⌈q / 2 ^ place q⌉ ≤ 2 ^ 53 := by
      refine Int.ceil_le.mpr ((div_le_iff₀ hpos).mpr ?_)
      push_cast
      linarith [hq.2]
    exact (roundEven_le_ceil _).trans hceil

theorem onGrid_intCast {n : ℤ} (h : |n| ≤ 2 ^ 53) : OnGrid n := by
  refine ⟨n, 0, h, by decide, ?_⟩
  rw [zpow_zero, mul_one]

end Numbers
