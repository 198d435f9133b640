import Engine.Codec.Decimal
import Engine.Numbers.Number
import Mathlib.Data.List.DropRight

/-! Integers among the numbers: their texts, and the big integers that they are. -/
namespace Numbers

/-- An integer that a double can hold. -/
structure Integral where
  val : ℤ
  onGrid : OnGrid val
  bounded : |(val : ℚ)| < 2 ^ 1024

/-- `BigInt(x)` of a number, if it is an integer. -/
def Number.integer : Number → Option ℤ
  | finite d => if d.val.den = 1 then some d.val.num else none
  | _ => none

namespace Integral
open Number

def number (n : Integral) : Number := finite ⟨n.val, n.onGrid, n.bounded⟩

private theorem abs_le_of_bits (n : Fin (2 ^ 16)) : |(n.val : ℤ)| ≤ 2 ^ 53 := by
  have hlt := n.isLt
  rw [abs_of_nonneg (by omega)]
  omega

/-- A `uint16`. -/
def ofBits (n : Fin (2 ^ 16)) : Integral :=
  ⟨n.val, onGrid_intCast (abs_le_of_bits n), abs_intCast_lt (abs_le_of_bits n)⟩

/-- The multiple of `10 ^ j` that is closest to `n`. -/
def closest (n j : ℕ) : ℕ := 10 ^ j * ((n + 10 ^ j / 2) / 10 ^ j)

/-- What `n` is rounded to, with as few digits as tell it from the other doubles. -/
def shortest (n : ℕ) : ℕ :=
  let candidates := (List.range ((Nat.toDigits 10 n).length + 1)).map (closest n)
  ((candidates.filter fun m : ℕ => nearest m = nearest n).getLast?).getD n

/-- One digit before the point, and an exponent. -/
def exponentText : List Char → List Char
  | [] => []
  | d :: ds =>
    let fraction := ds.rdropWhile (· = '0')
    d :: ((if fraction = [] then [] else '.' :: fraction) ++ 'e' :: '+' :: Nat.toDigits 10 ds.length)

def unsignedText (n : Integral) : List Char :=
  let digits := Nat.toDigits 10 (shortest n.val.natAbs)
  if n.val.natAbs < 10 ^ 21 then digits else exponentText digits

/-- `n.toString()`. -/
def text (n : Integral) : List Char := if n.val < 0 then '-' :: n.unsignedText else n.unsignedText

end Integral

/-- `${x}`, where a number that is not an integer has no text. -/
def Number.integerText : Number → String
  | .finite d => if h : d.val.den = 1 then
      String.ofList (Integral.text ⟨d.val.num, by simpa [Rat.coe_int_num_of_den_eq_one h] using d.onGrid,
        by simpa [Rat.coe_int_num_of_den_eq_one h] using d.bounded⟩)
    else ""
  | .infinity => "Infinity"
  | .negInfinity => "-Infinity"
  | .nan => "NaN"

namespace Integral
open Number

variable {n : Integral}

theorem integerText_number : n.number.integerText = String.ofList n.text := by
  have hden : (n.val : ℚ).den = 1 := Rat.den_intCast n.val
  unfold number Number.integerText
  simp only [hden, dite_true]
  congr

/-- The shortest digits are rounded to the same number. -/
theorem nearest_shortest (k : ℕ) : nearest (shortest k) = nearest k := by
  unfold shortest
  dsimp only
  cases hlast : (((List.range ((Nat.toDigits 10 k).length + 1)).map (closest k)).filter
      fun m : ℕ => nearest m = nearest k).getLast? with
  | none => rfl
  | some m =>
    have hmem := List.mem_of_getLast? hlast
    exact of_decide_eq_true (List.mem_filter.mp hmem).2

theorem integer_of_value {x : Number} {k : ℤ} (h : x.value = some (k : ℚ)) : x.integer = some k := by
  obtain ⟨d, rfl, hd⟩ := eq_finite h
  show (if d.val.den = 1 then some d.val.num else none) = some k
  rw [hd, if_pos (Rat.den_intCast k), Rat.num_intCast]

theorem value_of_integer {x : Number} {k : ℤ} (h : x.integer = some k) : x.value = some (k : ℚ) := by
  unfold Number.integer at h
  split at h
  case h_1 d =>
    split_ifs at h with hden
    cases h
    show some d.val = _
    rw [Rat.coe_int_num_of_den_eq_one hden]
  case h_2 => cases h

/-- What a number converts to converts back to the number. -/
theorem nearest_of_integer {x : Number} {k : ℤ} (h : x.integer = some k) : nearest k = x :=
  nearest_of_value (value_of_integer h)

/-- Below `10 ^ 21` the text of an integer is one of an integer. -/
theorem readInteger_text (h : n.val.natAbs < 10 ^ 21) : ∃ k, Codec.readInteger n.text = some k := by
  have hdigits : n.unsignedText = Nat.toDigits 10 (shortest n.val.natAbs) := if_pos h
  unfold text
  rw [hdigits]
  split_ifs
  · refine ⟨-(shortest n.val.natAbs : ℤ), ?_⟩
    rw [Codec.readInteger_minus, Codec.readNumeral_toDigits]
    rfl
  · refine ⟨(shortest n.val.natAbs : ℤ), ?_⟩
    rw [Codec.readInteger_of_ne (Codec.head?_ne_of_digits fun c hc => Codec.isDigit_of_mem hc),
      Codec.readNumeral_toDigits]
    rfl

/-- The characters of a number. -/
def IsNumeric (c : Char) : Prop := c.isDigit = true ∨ c ∈ ['-', '+', '.', 'e']

private theorem exponentText_cons {d : Char} {ds : List Char} (h : ∀ c ∈ ds, c.isDigit = true) :
    ∃ c cs, (c = '.' ∨ c = 'e') ∧ 'e' ∈ c :: cs ∧ (∀ x ∈ cs, IsNumeric x) ∧ exponentText (d :: ds) = d :: c :: cs := by
  have hexponent : ∀ x ∈ Nat.toDigits 10 ds.length, IsNumeric x := fun x hx => Or.inl (Codec.isDigit_of_mem hx)
  by_cases hfraction : ds.rdropWhile (· = '0') = []
  · refine ⟨'e', '+' :: Nat.toDigits 10 ds.length, Or.inr rfl, List.mem_cons_self, ?_,
      by simp [exponentText, hfraction]⟩
    intro x hx
    rcases List.mem_cons.mp hx with rfl | hx
    · exact Or.inr (by decide)
    · exact hexponent x hx
  · refine ⟨'.', ds.rdropWhile (· = '0') ++ 'e' :: '+' :: Nat.toDigits 10 ds.length, Or.inl rfl, by simp, ?_,
      by simp [exponentText, hfraction]⟩
    intro x hx
    rcases List.mem_append.mp hx with hx | hx
    · exact Or.inl (h x ((List.rdropWhile_prefix _ ds).subset hx))
    rcases List.mem_cons.mp hx with rfl | hx
    · exact Or.inr (by decide)
    rcases List.mem_cons.mp hx with rfl | hx
    · exact Or.inr (by decide)
    · exact hexponent x hx

/-- From `10 ^ 21` on there is a point or an exponent after the first digit. -/
theorem unsignedText_of_le (h : 10 ^ 21 ≤ n.val.natAbs) : ∃ d c cs, d.isDigit = true ∧ (c = '.' ∨ c = 'e') ∧
    'e' ∈ c :: cs ∧ (∀ x ∈ cs, IsNumeric x) ∧ n.unsignedText = d :: c :: cs := by
  have hexponent : n.unsignedText = exponentText (Nat.toDigits 10 (shortest n.val.natAbs)) := if_neg (not_lt.mpr h)
  rw [hexponent]
  cases hdigits : Nat.toDigits 10 (shortest n.val.natAbs) with
  | nil => exact absurd hdigits Nat.toDigits_ne_nil
  | cons d ds =>
    have hall : ∀ c ∈ d :: ds, c.isDigit = true := fun c hc => Codec.isDigit_of_mem (hdigits ▸ hc)
    obtain ⟨c, cs, hrest⟩ := exponentText_cons (d := d) fun c hc => hall c (List.mem_cons_of_mem _ hc)
    exact ⟨d, c, cs, hall d List.mem_cons_self, hrest⟩

end Integral
end Numbers
