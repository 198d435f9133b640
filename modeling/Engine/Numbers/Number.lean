import Engine.Numbers.Double

/-! The numbers of a language that has doubles only: their arithmetic and comparison, with one zero. -/
namespace Numbers

/-- A finite double. -/
structure Double where
  val : ℚ
  onGrid : OnGrid val
  bounded : |val| < 2 ^ 1024
deriving DecidableEq

inductive Number
  | finite (d : Double)
  | infinity
  | negInfinity
  | nan
deriving DecidableEq

namespace Number
variable {q r : ℚ} {n m : ℤ} {x : Number} {d : Double}

/-- The value of a finite number. -/
def value : Number → Option ℚ
  | finite d => some d.val
  | _ => none

def nearest (q : ℚ) : Number :=
  if h : |rounded q| < 2 ^ 1024 then .finite ⟨rounded q, onGrid_rounded q, h⟩
  else if 0 < q then infinity else negInfinity

/-- An infinity with the sign of a factor. -/
def signed (q : ℚ) (x y : Number) : Number := if 0 < q then x else if q < 0 then y else nan

def neg : Number → Number
  | finite d => nearest (-d.val)
  | infinity => negInfinity
  | negInfinity => infinity
  | nan => nan

def add : Number → Number → Number
  | nan, _ => nan
  | _, nan => nan
  | finite a, finite b => nearest (a.val + b.val)
  | infinity, negInfinity => nan
  | negInfinity, infinity => nan
  | infinity, _ => infinity
  | _, infinity => infinity
  | negInfinity, _ => negInfinity
  | _, negInfinity => negInfinity

def sub (x y : Number) : Number := add x (neg y)

def mul : Number → Number → Number
  | nan, _ => nan
  | _, nan => nan
  | finite a, finite b => nearest (a.val * b.val)
  | finite a, infinity => signed a.val infinity negInfinity
  | finite a, negInfinity => signed a.val negInfinity infinity
  | infinity, finite b => signed b.val infinity negInfinity
  | negInfinity, finite b => signed b.val negInfinity infinity
  | infinity, infinity => infinity
  | negInfinity, negInfinity => infinity
  | infinity, negInfinity => negInfinity
  | negInfinity, infinity => negInfinity

/-- A division by zero is an infinity with the sign of the dividend. -/
def div : Number → Number → Number
  | nan, _ => nan
  | _, nan => nan
  | finite a, finite b => if b.val = 0 then signed a.val infinity negInfinity else nearest (a.val / b.val)
  | finite _, _ => nearest 0
  | infinity, finite b => if b.val < 0 then negInfinity else infinity
  | negInfinity, finite b => if b.val < 0 then infinity else negInfinity
  | _, _ => nan

def lt : Number → Number → Bool
  | nan, _ => false
  | _, nan => false
  | finite a, finite b => a.val < b.val
  | negInfinity, y => match y with
    | negInfinity => false
    | _ => true
  | finite _, y => match y with
    | infinity => true
    | _ => false
  | infinity, _ => false

def le : Number → Number → Bool
  | nan, _ => false
  | _, nan => false
  | x, y => !lt y x

/-- `Math.max` of two. -/
def max (x y : Number) : Number := match x, y with
  | nan, _ => nan
  | _, nan => nan
  | x, y => if lt x y then y else x

/-- `Math.min` of two. -/
def min (x y : Number) : Number := match x, y with
  | nan, _ => nan
  | _, nan => nan
  | x, y => if lt y x then y else x

/-- An integer from a finite number, an infinity from itself. -/
def toInteger (f : ℚ → ℤ) : Number → Number
  | finite d => nearest (f d.val)
  | x => x

/-- `Math.round`: halves go up. -/
def round (x : Number) : Number := toInteger (fun q => ⌊q + 1 / 2⌋) x

/-- `Math.ceil`. -/
def ceil (x : Number) : Number := toInteger (fun q => ⌈q⌉) x

/-- The integer part. -/
def trunc (q : ℚ) : ℤ := if q < 0 then ⌈q⌉ else ⌊q⌋

/-- The index that `slice` takes a number for, in a list of this length. -/
def sliceIndex (length : ℕ) : Number → ℕ
  | nan => 0
  | negInfinity => 0
  | infinity => length
  | finite d => if trunc d.val < 0 then (length + trunc d.val).toNat else Nat.min (trunc d.val).toNat length

/-- `slice`. -/
def slice {α : Type} (l : List α) (start stop : Number) : List α :=
  (l.take (sliceIndex l.length stop)).drop (sliceIndex l.length start)

/-! ### The nearest number -/

theorem two_pow_lt : (2 : ℚ) ^ 53 < 2 ^ 1024 := pow_lt_pow_right₀ one_lt_two (by decide)

/-- A rational that is a double is the nearest one to itself. -/
theorem nearest_eq (h : OnGrid q) (hq : |q| < 2 ^ 1024) : nearest q = finite ⟨q, h, hq⟩ := by
  have hrounded : rounded q = q := rounded_of_onGrid h
  unfold nearest
  rw [dif_pos (hrounded.symm ▸ hq)]
  congr

theorem nearest_val (d : Double) : nearest d.val = finite d := nearest_eq d.onGrid d.bounded

theorem abs_intCast_lt (h : |n| ≤ 2 ^ 53) : |(n : ℚ)| < 2 ^ 1024 := by
  have hcast : |(n : ℚ)| ≤ 2 ^ 53 := by exact_mod_cast h
  exact lt_of_le_of_lt hcast two_pow_lt

/-- The integers up to `2 ^ 53` are doubles. -/
theorem nearest_intCast (h : |n| ≤ 2 ^ 53) : nearest n = finite ⟨n, onGrid_intCast h, abs_intCast_lt h⟩ :=
  nearest_eq (onGrid_intCast h) (abs_intCast_lt h)

/-- What is not below a non-negative double is not rounded below it. -/
theorem nearest_of_le (h : OnGrid r) (hr : 0 ≤ r) (hrq : r ≤ q) :
    nearest q = infinity ∨ ∃ d, nearest q = finite d ∧ r ≤ d.val := by
  have hle : r ≤ rounded q := le_rounded h hrq
  unfold nearest
  split_ifs with hbound hpos
  · exact Or.inr ⟨_, rfl, hle⟩
  · exact Or.inl rfl
  · have hzero : q = 0 := le_antisymm (not_lt.mp hpos) (hr.trans hrq)
    refine absurd ?_ hbound
    have hgrid : OnGrid 0 := by exact_mod_cast onGrid_intCast (n := 0) (by decide)
    rw [hzero, rounded_of_onGrid hgrid, abs_zero]
    positivity

/-- A rational between two doubles is rounded to a double between them. -/
theorem nearest_of_between {t : ℚ} (h : OnGrid r) (hr : |r| < 2 ^ 1024) (hrq : r ≤ q) (ht : OnGrid t)
    (hbound : |t| < 2 ^ 1024) (hqt : q ≤ t) : (nearest q).value = some (rounded q) ∧ r ≤ rounded q ∧ rounded q ≤ t := by
  have hlow : r ≤ rounded q := le_rounded h hrq
  have hhigh : rounded q ≤ t := rounded_le ht hqt
  have habs : |rounded q| < 2 ^ 1024 := by
    rw [abs_lt] at hr hbound ⊢
    exact ⟨lt_of_lt_of_le hr.1 hlow, lt_of_le_of_lt hhigh hbound.2⟩
  refine ⟨?_, hlow, hhigh⟩
  unfold nearest
  rw [dif_pos habs]
  rfl

/-- The value of a finite result is the rounded one. -/
theorem rounded_of_value (h : (nearest q).value = some r) : r = rounded q := by
  unfold nearest at h
  split_ifs at h
  · exact (Option.some.inj h).symm
  · cases h
  · cases h

/-! ### Values -/

variable {y : Number} {a b : ℚ}

theorem eq_finite (h : x.value = some q) : ∃ d, x = finite d ∧ d.val = q := by
  cases x with
  | finite d => exact ⟨d, rfl, Option.some.inj h⟩
  | infinity => cases h
  | negInfinity => cases h
  | nan => cases h

theorem onGrid_value (h : x.value = some q) : OnGrid q ∧ |q| < 2 ^ 1024 := by
  obtain ⟨d, rfl, rfl⟩ := eq_finite h
  exact ⟨d.onGrid, d.bounded⟩

theorem nearest_of_value (h : x.value = some q) : nearest q = x := by
  obtain ⟨d, rfl, rfl⟩ := eq_finite h
  exact nearest_val d

/-- What is rounded to a finite number is rounded to its negative, negated. -/
theorem value_nearest_neg (h : (nearest q).value = some r) : (nearest (-q)).value = some (-r) := by
  have hr := rounded_of_value h
  have hneg : rounded (-q) = -r := by rw [rounded_neg, hr]
  have hbound : |rounded (-q)| < 2 ^ 1024 := by
    rw [hneg, abs_neg]
    exact (onGrid_value h).2
  unfold nearest
  rw [dif_pos hbound]
  exact congrArg some hneg

theorem add_of_value (hx : x.value = some a) (hy : y.value = some b) : add x y = nearest (a + b) := by
  obtain ⟨d, rfl, rfl⟩ := eq_finite hx
  obtain ⟨d', rfl, rfl⟩ := eq_finite hy
  rfl

theorem sub_of_value (hx : x.value = some a) (hy : y.value = some b) : sub x y = nearest (a - b) := by
  obtain ⟨d, rfl, rfl⟩ := eq_finite hx
  obtain ⟨d', rfl, rfl⟩ := eq_finite hy
  have hneg : |-d'.val| < 2 ^ 1024 := by
    rw [abs_neg]
    exact d'.bounded
  show add _ (nearest (-d'.val)) = _
  rw [nearest_eq (onGrid_neg d'.onGrid) hneg, sub_eq_add_neg]
  rfl

theorem mul_of_value (hx : x.value = some a) (hy : y.value = some b) : mul x y = nearest (a * b) := by
  obtain ⟨d, rfl, rfl⟩ := eq_finite hx
  obtain ⟨d', rfl, rfl⟩ := eq_finite hy
  rfl

theorem div_of_value (hx : x.value = some a) (hy : y.value = some b) (hb : b ≠ 0) : div x y = nearest (a / b) := by
  obtain ⟨d, rfl, rfl⟩ := eq_finite hx
  obtain ⟨d', rfl, rfl⟩ := eq_finite hy
  exact if_neg hb

theorem max_of_value (hx : x.value = some a) (hy : y.value = some b) :
    (max x y).value = some (if a < b then b else a) := by
  obtain ⟨d, rfl, rfl⟩ := eq_finite hx
  obtain ⟨d', rfl, rfl⟩ := eq_finite hy
  show (if decide (d.val < d'.val) = true then finite d' else finite d).value = _
  simp only [decide_eq_true_iff]
  split_ifs <;> rfl

theorem min_of_value (hx : x.value = some a) (hy : y.value = some b) :
    (min x y).value = some (if b < a then b else a) := by
  obtain ⟨d, rfl, rfl⟩ := eq_finite hx
  obtain ⟨d', rfl, rfl⟩ := eq_finite hy
  show (if decide (d'.val < d.val) = true then finite d' else finite d).value = _
  simp only [decide_eq_true_iff]
  split_ifs <;> rfl

theorem value_intCast (h : |n| ≤ 2 ^ 53) : (nearest n).value = some (n : ℚ) := by
  rw [nearest_intCast h]
  rfl

/-- A double is an integer already, or small. -/
theorem onGrid_ceil (h : OnGrid q) (hq : |q| < 2 ^ 1024) : OnGrid ⌈q⌉ ∧ |(⌈q⌉ : ℚ)| < 2 ^ 1024 := by
  by_cases hsmall : |⌈q⌉| ≤ 2 ^ 53
  · exact ⟨onGrid_intCast hsmall, abs_intCast_lt hsmall⟩
  · suffices hinteger : (⌈q⌉ : ℚ) = q by
      rw [hinteger]
      exact ⟨h, hq⟩
    obtain ⟨m, e, hm, he, rfl⟩ := h
    rcases Int.lt_or_le e 0 with hneg | hnonneg
    · have hle : |(m : ℚ) * 2 ^ e| ≤ 2 ^ 53 := by
        have hcast : |(m : ℚ)| ≤ 2 ^ 53 := by exact_mod_cast hm
        have hone : (2 : ℚ) ^ e ≤ 1 := zpow_le_one_of_nonpos₀ one_le_two hneg.le
        rw [abs_mul, abs_of_pos (two_zpow_pos e)]
        exact (mul_le_of_le_one_right (abs_nonneg _) hone).trans hcast
      have hbounds := abs_le.mp hle
      refine absurd (abs_le.mpr ⟨?_, ?_⟩) hsmall
      · have hceil : ((-2 ^ 53 : ℤ) : ℚ) ≤ ⌈(m : ℚ) * 2 ^ e⌉ := by
          push_cast
          exact hbounds.1.trans (Int.le_ceil _)
        exact_mod_cast hceil
      · refine Int.ceil_le.mpr ?_
        push_cast
        exact hbounds.2
    · obtain ⟨k, rfl⟩ := Int.eq_ofNat_of_zero_le hnonneg
      have hcast : (m : ℚ) * 2 ^ (k : ℤ) = ((m * 2 ^ k : ℤ) : ℚ) := by
        rw [zpow_natCast]
        push_cast
        rfl
      rw [hcast, Int.ceil_intCast]

theorem ceil_of_value (hx : x.value = some a) : (ceil x).value = some (⌈a⌉ : ℚ) := by
  obtain ⟨hgrid, hbound⟩ := onGrid_value hx
  obtain ⟨d, rfl, rfl⟩ := eq_finite hx
  obtain ⟨hceil, hbound⟩ := onGrid_ceil hgrid hbound
  show (nearest ⌈d.val⌉).value = _
  rw [nearest_eq hceil hbound]
  rfl

theorem round_of_value (hx : x.value = some a) : round x = nearest ⌊a + 1 / 2⌋ := by
  obtain ⟨d, rfl, rfl⟩ := eq_finite hx
  rfl

/-! ### Natural numbers -/

variable {k l : ℕ}

def ofNat (n : ℕ) : Number := nearest n

private theorem abs_natCast_le (h : k ≤ 2 ^ 53) : |(k : ℤ)| ≤ 2 ^ 53 := by
  rw [abs_of_nonneg (Int.natCast_nonneg _)]
  exact_mod_cast h

theorem value_ofNat (h : k ≤ 2 ^ 53) : (ofNat k).value = some (k : ℚ) := by
  have hvalue := value_intCast (abs_natCast_le h)
  rwa [Int.cast_natCast] at hvalue

theorem add_ofNat (h : k + l ≤ 2 ^ 53) : add (ofNat k) (ofNat l) = ofNat (k + l) := by
  rw [add_of_value (value_ofNat (by omega)) (value_ofNat (by omega)), ← Nat.cast_add]
  rfl

theorem sub_ofNat (hk : k ≤ 2 ^ 53) (hl : l ≤ k) : sub (ofNat k) (ofNat l) = ofNat (k - l) := by
  rw [sub_of_value (value_ofNat hk) (value_ofNat (by omega)), ← Nat.cast_sub hl]
  rfl

end Number
end Numbers
