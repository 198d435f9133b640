import Engine.Codec.Integer
import Mathlib.Data.Rat.Cast.Defs

/-! Decimal texts with a sign and a point. -/
namespace Codec

/-- Decimal digits, and nothing else. -/
def readNumeral (cs : List Char) : Option ℕ :=
  if cs.isEmpty = false ∧ cs.all Char.isDigit = true then some (Nat.ofDigitChars 10 cs 0) else none

/-- A numeral, or a numeral after a minus. -/
def readInteger : List Char → Option ℤ
  | '-' :: cs => (readNumeral cs).map fun n : ℕ => -(n : ℤ)
  | cs => (readNumeral cs).map fun n : ℕ => (n : ℤ)

/-- A numeral, or two numerals around a point. -/
def readUnsignedDecimal (cs : List Char) : Option ℚ :=
  match cs.dropWhile Char.isDigit with
  | [] => (readNumeral cs).map fun n : ℕ => (n : ℚ)
  | '.' :: fraction =>
    match readNumeral (cs.takeWhile Char.isDigit), readNumeral fraction with
    | some n, some m => some (n + m / 10 ^ fraction.length)
    | _, _ => none
  | _ => none

def readDecimal : List Char → Option ℚ
  | '-' :: cs => (readUnsignedDecimal cs).map fun q : ℚ => -q
  | cs => readUnsignedDecimal cs

/-- `n.toString()` of a big integer. -/
def integerText (n : ℤ) : List Char :=
  if n < 0 then '-' :: Nat.toDigits 10 n.natAbs else Nat.toDigits 10 n.natAbs

variable {cs : List Char} {n : ℤ}

theorem readNumeral_eq_some {k : ℕ} :
    readNumeral cs = some k ↔ cs ≠ [] ∧ (∀ c ∈ cs, c.isDigit = true) ∧ Nat.ofDigitChars 10 cs 0 = k := by
  unfold readNumeral
  simp only [List.isEmpty_eq_false_iff, List.all_eq_true]
  split_ifs with h
  · rw [Option.some.injEq]
    tauto
  · constructor
    · intro hnone
      cases hnone
    · intro hdigits
      exact absurd ⟨hdigits.1, hdigits.2.1⟩ h

theorem readNumeral_toDigits (k : ℕ) : readNumeral (Nat.toDigits 10 k) = some k :=
  readNumeral_eq_some.mpr
    ⟨Nat.toDigits_ne_nil, fun _ hc => isDigit_of_mem hc, Nat.ofDigitChars_ten_toDigits⟩

theorem readInteger_minus (cs : List Char) :
    readInteger ('-' :: cs) = (readNumeral cs).map fun n : ℕ => -(n : ℤ) := rfl

/-- Without a minus in front, an integer is a numeral. -/
theorem readInteger_of_ne (h : cs.head? ≠ some '-') : readInteger cs = (readNumeral cs).map fun n : ℕ => (n : ℤ) := by
  unfold readInteger
  split
  · exact absurd rfl h
  · rfl

theorem readDecimal_of_ne (h : cs.head? ≠ some '-') : readDecimal cs = readUnsignedDecimal cs := by
  unfold readDecimal
  split
  · exact absurd rfl h
  · rfl

theorem head?_ne_of_digits (h : ∀ c ∈ cs, c.isDigit = true) : cs.head? ≠ some '-' := by
  intro hhead
  have hdigit := h '-' (List.mem_of_head? hhead)
  revert hdigit
  decide

/-- The text of an integer is read back. -/
theorem readInteger_integerText (n : ℤ) : readInteger (integerText n) = some n := by
  unfold integerText
  split_ifs with h
  · rw [readInteger_minus, readNumeral_toDigits]
    show some (-(n.natAbs : ℤ)) = some n
    congr
    omega
  · rw [readInteger_of_ne (head?_ne_of_digits fun c hc => isDigit_of_mem hc), readNumeral_toDigits]
    show some (n.natAbs : ℤ) = some n
    congr
    omega

private theorem readUnsignedDecimal_of_readNumeral {k : ℕ} (h : readNumeral cs = some k) :
    readUnsignedDecimal cs = some (k : ℚ) := by
  unfold readUnsignedDecimal
  have hrest : cs.dropWhile Char.isDigit = [] := List.dropWhile_eq_nil_iff.mpr (readNumeral_eq_some.mp h).2.1
  rw [hrest]
  show (readNumeral cs).map _ = _
  rw [h]
  rfl

/-- An integer is the decimal that it is. -/
theorem readDecimal_of_readInteger (h : readInteger cs = some n) : readDecimal cs = some (n : ℚ) := by
  unfold readInteger at h
  split at h
  case h_1 rest =>
    obtain ⟨k, hk, rfl⟩ := Option.map_eq_some_iff.mp h
    show (readUnsignedDecimal rest).map _ = _
    rw [readUnsignedDecimal_of_readNumeral hk, Int.cast_neg, Int.cast_natCast]
    rfl
  case h_2 hne =>
    obtain ⟨k, hk, rfl⟩ := Option.map_eq_some_iff.mp h
    rw [readDecimal_of_ne (head?_ne_of_digits (readNumeral_eq_some.mp hk).2.1), readUnsignedDecimal_of_readNumeral hk,
      Int.cast_natCast]

end Codec
