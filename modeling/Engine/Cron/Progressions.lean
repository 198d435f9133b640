import Mathlib.Data.Nat.Notation
import Mathlib.Tactic.SplitIfs
import Mathlib.Order.Basic

/-! Arithmetic progressions of times, and how far they keep from each other. -/
namespace Cron

/-- `first`, `first + step` and so on, up to `last`. -/
structure Progression where
  first : ℕ
  last : ℕ
  step : ℕ
  first_le : first ≤ last
  step_pos : 0 < step
deriving DecidableEq

namespace Progression

def has (p : Progression) (x : ℕ) : Bool := p.first ≤ x && x ≤ p.last && (x - p.first) % p.step == 0

/-- The greatest element. -/
def final (p : Progression) : ℕ := p.first + p.step * ((p.last - p.first) / p.step)

/-- A progression of more than one element has a step of `d` at least. -/
def isCoarse (d : ℕ) (p : Progression) : Prop := p.first + p.step ≤ p.last → d ≤ p.step

/-- `x` is an element, or at least `d` in front of the first one, behind the final one, or from both its neighbours. -/
def clears (d : ℕ) (p : Progression) (x : ℕ) : Prop :=
  p.has x = true ∨ x + d ≤ p.first ∨ p.final + d ≤ x ∨
    p.first ≤ x ∧ x ≤ p.final ∧ d ≤ (x - p.first) % p.step ∧ (x - p.first) % p.step + d ≤ p.step

variable {p q : Progression} {d x y : ℕ}

theorem has_iff : p.has x = true ↔ ∃ i, x = p.first + p.step * i ∧ x ≤ p.last := by
  unfold has
  rw [Bool.and_eq_true, Bool.and_eq_true, decide_eq_true_eq, decide_eq_true_eq, beq_iff_eq]
  constructor
  · rintro ⟨⟨hfirst, hlast⟩, hmod⟩
    obtain ⟨i, hi⟩ := Nat.dvd_of_mod_eq_zero hmod
    exact ⟨i, by omega, hlast⟩
  · rintro ⟨i, rfl, hlast⟩
    refine ⟨⟨by omega, hlast⟩, ?_⟩
    rw [Nat.add_sub_cancel_left]
    exact Nat.mul_mod_right _ _

theorem has_first (p : Progression) : p.has p.first = true := has_iff.mpr ⟨0, by omega, p.first_le⟩

theorem final_le (p : Progression) : p.final ≤ p.last := by
  have hle := Nat.mul_div_le (p.last - p.first) p.step
  have hfirst := p.first_le
  unfold final
  omega

theorem has_final (p : Progression) : p.has p.final = true := has_iff.mpr ⟨_, rfl, p.final_le⟩

private theorem le_final (h : p.has x = true) : x ≤ p.final := by
  obtain ⟨i, rfl, hlast⟩ := has_iff.mp h
  have hi : i ≤ (p.last - p.first) / p.step := by
    rw [Nat.le_div_iff_mul_le p.step_pos, Nat.mul_comm]
    omega
  exact Nat.add_le_add_left (Nat.mul_le_mul_left _ hi) _

/-- Two elements of a coarse progression are `d` apart. -/
theorem apart_of_isCoarse (hp : p.isCoarse d) (hx : p.has x = true) (hy : p.has y = true) (hlt : x < y) :
    x + d ≤ y := by
  obtain ⟨i, rfl, -⟩ := has_iff.mp hx
  obtain ⟨j, rfl, hlast⟩ := has_iff.mp hy
  have hij : i < j := Nat.lt_of_mul_lt_mul_left (a := p.step) (by omega)
  have hstep : p.step * i + p.step ≤ p.step * j := by
    rw [← Nat.mul_succ]
    exact Nat.mul_le_mul_left _ hij
  have hd := hp (by omega)
  omega

/-- Clearing a coarse progression is being `d` apart from each of its other elements. -/
theorem clears_iff (hp : p.isCoarse d) :
    p.clears d x ↔ ∀ y, p.has y = true → x ≠ y → x + d ≤ y ∨ y + d ≤ x := by
  -- the elements around `x`
  have hsplit := Nat.div_add_mod (x - p.first) p.step
  have hmod := Nat.mod_lt (x - p.first) p.step_pos
  constructor
  · rintro hclears y hy hne
    have hfirst : p.first ≤ y := by
      obtain ⟨i, rfl, -⟩ := has_iff.mp hy
      exact Nat.le_add_right _ _
    have hfinal := le_final hy
    rcases hclears with hx | hbefore | hbehind | ⟨hlow, hhigh, hleft, hright⟩
    · rcases Nat.lt_or_gt_of_ne hne with hlt | hlt
      · exact Or.inl (apart_of_isCoarse hp hx hy hlt)
      · exact Or.inr (apart_of_isCoarse hp hy hx hlt)
    · exact Or.inl (by omega)
    · exact Or.inr (by omega)
    · obtain ⟨j, rfl, -⟩ := has_iff.mp hy
      rcases Nat.lt_or_ge ((x - p.first) / p.step) j with hj | hj
      · have hmul : p.step * ((x - p.first) / p.step) + p.step ≤ p.step * j := by
          rw [← Nat.mul_succ]
          exact Nat.mul_le_mul_left _ hj
        exact Or.inl (by omega)
      · have hmul : p.step * j ≤ p.step * ((x - p.first) / p.step) := Nat.mul_le_mul_left _ hj
        exact Or.inr (by omega)
  · intro h
    unfold clears
    by_cases hx : p.has x = true
    · exact Or.inl hx
    have hne : ∀ y, p.has y = true → x ≠ y := by
      rintro y hy rfl
      exact hx hy
    by_cases hlow : x < p.first
    · have happart := h p.first p.has_first (hne _ p.has_first)
      exact Or.inr (Or.inl (by omega))
    by_cases hhigh : p.final < x
    · have happart := h p.final p.has_final (hne _ p.has_final)
      exact Or.inr (Or.inr (Or.inl (by omega)))
    have hfinal := p.final_le
    have hbelow : p.has (p.first + p.step * ((x - p.first) / p.step)) = true := has_iff.mpr ⟨_, rfl, by omega⟩
    have hmodpos : (x - p.first) % p.step ≠ 0 := by
      intro hzero
      exact hne _ hbelow (by omega)
    have hlt : (x - p.first) / p.step < (p.last - p.first) / p.step := by
      by_contra hle
      have hmul := Nat.mul_le_mul_left p.step (Nat.le_of_not_lt hle)
      unfold final at hhigh
      omega
    have habove : p.has (p.first + p.step * ((x - p.first) / p.step + 1)) = true := by
      have hmul := Nat.mul_le_mul_left p.step hlt
      unfold final at hfinal
      exact has_iff.mpr ⟨_, rfl, by rw [Nat.succ_eq_add_one] at hmul; omega⟩
    have hleft := h _ hbelow (hne _ hbelow)
    have hright := h _ habove (hne _ habove)
    rw [Nat.mul_succ] at hright
    refine Or.inr (Or.inr (Or.inr ⟨by omega, by omega, ?_, ?_⟩))
    · omega
    · omega

end Progression

/-- The elements of all progressions are equal or `d` apart. -/
def Spaced (d : ℕ) (ps : List Progression) : Prop :=
  ∀ x y, (∃ p ∈ ps, p.has x = true) → (∃ q ∈ ps, q.has y = true) → x ≠ y → x + d ≤ y ∨ y + d ≤ x

/-- Every element of the one clears the other. -/
def KeepsFrom (d : ℕ) (p q : Progression) : Prop := ∀ x, p.has x = true → q.clears d x

theorem spaced_iff {d : ℕ} {ps : List Progression} :
    Spaced d ps ↔ (∀ p ∈ ps, p.isCoarse d) ∧ ∀ p ∈ ps, ∀ q ∈ ps, KeepsFrom d p q := by
  constructor
  · intro h
    have hcoarse : ∀ p ∈ ps, p.isCoarse d := by
      intro p hp hlast
      have hnext : p.has (p.first + p.step) = true := Progression.has_iff.mpr ⟨1, by omega, hlast⟩
      have hpos := p.step_pos
      have happart := h _ _ ⟨p, hp, p.has_first⟩ ⟨p, hp, hnext⟩ (by omega)
      omega
    refine ⟨hcoarse, ?_⟩
    intro p hp q hq x hx
    exact (Progression.clears_iff (hcoarse q hq)).mpr fun y hy hne => h x y ⟨p, hp, hx⟩ ⟨q, hq, hy⟩ hne
  · rintro ⟨hcoarse, hkeeps⟩ x y ⟨p, hp, hx⟩ ⟨q, hq, hy⟩ hne
    exact (Progression.clears_iff (hcoarse q hq)).mp (hkeeps p hp q hq x hx) y hy hne

end Cron
