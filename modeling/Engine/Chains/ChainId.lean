import Engine.Codec.Integer
import Engine.Model.Types
import Engine.Numbers.Integral

/-! The chain that a request names, `getChainIdFromChain` of `server/utils/chain.ts`. -/
namespace Engine.Chains
open Numbers Number

structure Chain where
  id : Number

/-- `utils/chain.ts`, over the overrides of the configuration. -/
def getChain (chainOverrides : List Chain) (chainId : Number) : Chain :=
  match chainOverrides.find? fun override => chainId = override.id with
  | some override => override
  | none => ⟨chainId⟩

inductive ChainStatus
  | active
  | incubating
  | deprecated
deriving DecidableEq

structure ChainV4 where
  chainId : Number
  status : Option ChainStatus

/-- The chains that `getChainBySlugAsync` finds, and the lower-casing of the language. -/
structure Directory where
  bySlug : String → Option ChainV4
  toLowerCase : String → String

/-- `Number.parseInt(input)`. -/
def parseNumber (input : String) : Number :=
  match Codec.parseInt input.toList with
  | some n => nearest n
  | none => .nan

/-- Below `10 ^ 21` an integer is read back from its text. -/
theorem parseNumber_integerText {n : Integral} (h : n.val.natAbs < 10 ^ 21) :
    parseNumber n.number.integerText = n.number := by
  have hdigits : n.unsignedText = Nat.toDigits 10 (Integral.shortest n.val.natAbs) := if_pos h
  have hnumber : n.number.value = some (n.val : ℚ) := rfl
  unfold parseNumber
  rw [Integral.integerText_number, String.toList_ofList, Integral.text, hdigits]
  split_ifs with hsign
  · have hval : (n.val.natAbs : ℚ) = -n.val := by
      have hcast : (n.val.natAbs : ℤ) = -n.val := by omega
      rw [← Int.cast_natCast, hcast, Int.cast_neg]
    have habs : (nearest (n.val.natAbs : ℚ)).value = some (n.val.natAbs : ℚ) := by
      rw [hval]
      exact value_nearest_neg ((nearest_of_value hnumber).symm ▸ hnumber)
    rw [← Integral.nearest_shortest] at habs
    have hread := value_nearest_neg habs
    rw [hval, neg_neg] at hread
    rw [Codec.parseInt_minus_toDigits]
    show nearest ((-(Integral.shortest n.val.natAbs : ℤ) : ℤ) : ℚ) = _
    rw [Int.cast_neg, Int.cast_natCast]
    exact (nearest_of_value hread).symm.trans (nearest_of_value hnumber)
  · have hval : (n.val.natAbs : ℚ) = n.val := by
      have hcast : (n.val.natAbs : ℤ) = n.val := by omega
      rw [← Int.cast_natCast, hcast]
    rw [Codec.parseInt_toDigits]
    show nearest ((Integral.shortest n.val.natAbs : ℤ) : ℚ) = _
    rw [Int.cast_natCast, Integral.nearest_shortest, hval]
    exact nearest_of_value hnumber

def badChainError (chain : String) : Err :=
  createCustomError ("Invalid chain: " ++ chain ++ ". If this is a custom chain, add it to chain overrides.") 400
    "INVALID_CHAIN"

/-- `none` of a slug is thrown, and caught. -/
def getChainIdFromChain (chainOverrides : List Chain) (directory : Directory) (input : String) : Except Err Number :=
  let chainId := parseNumber input
  if chainId ≠ .nan then .ok (getChain chainOverrides chainId).id
  else match directory.bySlug (directory.toLowerCase input) with
    | some chainV4 =>
      if chainV4.status ≠ some .deprecated then .ok chainV4.chainId else .error (badChainError input)
    | none => .error (badChainError input)

/-- Decimal digits, and nothing else. -/
def isNumeral (input : String) : Bool := !input.toList.isEmpty && input.toList.all Char.isDigit

/-- The number that a numeral denotes. -/
def denoted (input : String) : ℕ := Nat.ofDigitChars 10 input.toList 0

/-- The chain of a slug, unless it is deprecated. -/
def Directory.HasSlug (directory : Directory) (input : String) (x : Number) : Prop :=
  ∃ chain, directory.bySlug (directory.toLowerCase input) = some chain ∧ chain.status ≠ some .deprecated ∧
    chain.chainId = x

/-- The id that an input names: by a numeral, or else by a slug. -/
def Names (directory : Directory) (input : String) (x : Number) : Prop :=
  if isNumeral input = true then x.value = some (denoted input : ℚ) else directory.HasSlug input x

/-- Exactly the named id is returned. -/
def Exact (chainOverrides : List Chain) (directory : Directory) (input : String) : Prop :=
  ∀ x, getChainIdFromChain chainOverrides directory input = .ok x ↔ Names directory input x

section
variable {chainOverrides : List Chain} {directory : Directory} {input : String} {x : Number}

theorem getChain_id (chainId : Number) : (getChain chainOverrides chainId).id = chainId := by
  unfold getChain
  split
  · rename_i override hfound
    have hid := List.find?_some hfound
    exact (of_decide_eq_true hid).symm
  · rfl

theorem nearest_ne_nan (q : ℚ) : nearest q ≠ .nan := by
  unfold nearest
  split_ifs <;> exact fun h => by cases h

theorem parseNumber_of_numeral (h : isNumeral input = true) : parseNumber input = nearest (denoted input : ℚ) := by
  unfold isNumeral at h
  rw [Bool.and_eq_true, Bool.not_eq_true', List.isEmpty_eq_false_iff, List.all_eq_true] at h
  unfold parseNumber
  rw [Codec.parseInt_of_digits h.2 h.1]
  show nearest (((denoted input : ℕ) : ℤ) : ℚ) = _
  rw [Int.cast_natCast]

/-- What starts like a number is looked up as one. -/
theorem getChainIdFromChain_of_number (h : parseNumber input ≠ .nan) :
    getChainIdFromChain chainOverrides directory input = .ok (parseNumber input) := by
  unfold getChainIdFromChain
  rw [if_pos h, getChain_id]

private theorem getChainIdFromChain_of_nan (h : parseNumber input = .nan) :
    getChainIdFromChain chainOverrides directory input = .ok x ↔ directory.HasSlug input x := by
  unfold getChainIdFromChain Directory.HasSlug
  rw [if_neg (not_not.mpr h)]
  cases hslug : directory.bySlug (directory.toLowerCase input) with
  | none => simp
  | some chain =>
    by_cases hstatus : chain.status = some .deprecated
    · simp [hstatus]
    · simp [hstatus]

private theorem hasSlug_unique {y : Number} (hx : directory.HasSlug input x) (hy : directory.HasSlug input y) :
    x = y := by
  obtain ⟨chain, hchain, -, rfl⟩ := hx
  obtain ⟨chain', hchain', -, rfl⟩ := hy
  rw [hchain] at hchain'
  cases hchain'
  rfl

/-- An input is resolved exactly where it is a numeral whose number is a double, or does not start like a number, or
starts like the id of the chain with that slug. -/
theorem exact_iff (chainOverrides : List Chain) (directory : Directory) (input : String) :
    Exact chainOverrides directory input ↔
      if isNumeral input = true then OnGrid (denoted input) ∧ (denoted input : ℚ) < 2 ^ 1024
      else parseNumber input = .nan ∨ directory.HasSlug input (parseNumber input) := by
  unfold Exact Names
  by_cases hnumeral : isNumeral input = true
  · have hparse := parseNumber_of_numeral hnumeral
    have hnumber : parseNumber input ≠ .nan := hparse ▸ nearest_ne_nan _
    have habs : |(denoted input : ℚ)| = denoted input := abs_of_nonneg (Nat.cast_nonneg _)
    simp only [hnumeral, if_true, getChainIdFromChain_of_number hnumber, hparse, Except.ok.injEq]
    constructor
    · intro h
      obtain ⟨hgrid, hbound⟩ := onGrid_value ((h _).mp rfl)
      exact ⟨hgrid, habs ▸ hbound⟩
    · intro h x
      obtain ⟨hgrid, hbound⟩ := h
      rw [nearest_eq hgrid (habs.symm ▸ hbound)]
      constructor
      · rintro rfl
        rfl
      · intro hx
        obtain ⟨d, rfl, hd⟩ := eq_finite hx
        congr
        exact hd.symm
  · simp only [hnumeral, Bool.false_eq_true, if_false]
    by_cases hnumber : parseNumber input = .nan
    · simp only [hnumber, true_or, iff_true]
      exact fun x => getChainIdFromChain_of_nan hnumber
    · rw [getChainIdFromChain_of_number hnumber, or_iff_right hnumber]
      constructor
      · intro h
        exact (h _).mp rfl
      · intro h x
        constructor
        · rintro hx
          cases hx
          exact h
        · intro hx
          exact congrArg Except.ok (hasSlug_unique h hx)

/-- Nothing has a slug. -/
def noSlugs : Directory := ⟨fun _ => none, id⟩

/-- A numeral with other characters after it is taken for a chain. -/
theorem not_exact : ¬ Exact [] noSlugs "137abc" := by
  intro h
  have hnumber : parseNumber "137abc" = nearest ((137 : ℤ) : ℚ) := rfl
  have hne : parseNumber "137abc" ≠ .nan := hnumber ▸ nearest_ne_nan _
  have hnumeral : isNumeral "137abc" = false := by decide
  have hnames := (h _).mp (getChainIdFromChain_of_number hne)
  unfold Names at hnames
  rw [hnumeral, if_neg Bool.false_ne_true] at hnames
  obtain ⟨chain, hchain, -⟩ := hnames
  cases hchain

end
end Engine.Chains
