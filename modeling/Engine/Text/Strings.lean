import Mathlib.Data.List.Infix
import Mathlib.Data.Nat.Notation
import Mathlib.Order.Lattice

/-! JavaScript's string functions, as far as the service uses them. -/
namespace Engine

/-- `s.startsWith(p)`. -/
def startsWith (s p : String) : Bool := p.toList.isPrefixOf s.toList

/-- `s.endsWith(p)`. -/
def endsWith (s p : String) : Bool := p.toList.isSuffixOf s.toList

/-- `s.includes(p)`. -/
def includesText (s p : String) : Bool := p.toList <:+: s.toList

/-- `s.slice(n)`. -/
def slice (s : String) (n : ℕ) : String := String.ofList (s.toList.drop n)

/-- `s.slice(n, -m)`. -/
def sliceTo (s : String) (n m : ℕ) : String := String.ofList ((s.toList.take (s.length - m)).drop n)

/-- The first place of a word in a text, rewritten. -/
def replaceFirst (p r : List Char) : List Char → List Char
  | [] => []
  | c :: cs => if p.isPrefixOf (c :: cs) then r ++ (c :: cs).drop p.length else c :: replaceFirst p r cs

/-- `s.replace(p, r)`, for a non-empty `p` and an `r` without `$`. -/
def replace (s p r : String) : String := String.ofList (replaceFirst p.toList r.toList s.toList)

/-- A string that JavaScript takes for true. -/
def truthy (s : Option String) : Option String := s.filter (· ≠ "")

/-- `utils/primitiveTypes.ts`. Addresses are ASCII. -/
def normalizeAddress (val : String) : String := val.toLower

theorem toList_toLower (s : String) : s.toLower.toList = s.toList.map Char.toLower := String.toList_map

theorem toNat_toLower (c : Char) :
    c.toLower.toNat = if 65 ≤ c.toNat ∧ c.toNat ≤ 90 then c.toNat + 32 else c.toNat := by
  unfold Char.toLower
  split
  · rename_i hupper
    have hle : c.toNat ≤ 90 := hupper.2
    have hsum : (c.val + 32).toNat = (c.toNat + 32) % 2 ^ 32 := UInt32.toNat_add c.val 32
    rw [if_pos ⟨hupper.1, hle⟩]
    show (c.val + 32).toNat = c.toNat + 32
    omega
  · rename_i hother
    exact (if_neg hother).symm

private theorem toLower_toLower (c : Char) : c.toLower.toLower = c.toLower := by
  have hrange : ¬ (65 ≤ c.toLower.toNat ∧ c.toLower.toNat ≤ 90) := by
    have hlower := toNat_toLower c
    split_ifs at hlower with hupper
    · omega
    · omega
  exact dif_neg hrange

theorem normalizeAddress_idem (val : String) : normalizeAddress (normalizeAddress val) = normalizeAddress val := by
  unfold normalizeAddress
  rw [← String.toList_inj, toList_toLower, toList_toLower, List.map_map]
  exact List.map_congr_left fun c _ => toLower_toLower c

theorem startsWith_iff {s p : String} : startsWith s p = true ↔ ∃ rest, s = p ++ rest := by
  unfold startsWith
  rw [List.isPrefixOf_iff_prefix]
  constructor
  · intro h
    obtain ⟨rest, hrest⟩ := h
    refine ⟨String.ofList rest, ?_⟩
    rw [← String.toList_inj, String.toList_append, String.toList_ofList, hrest]
  · intro h
    obtain ⟨rest, rfl⟩ := h
    rw [String.toList_append]
    exact List.prefix_append _ _

theorem endsWith_iff {s p : String} : endsWith s p = true ↔ ∃ front, s = front ++ p := by
  unfold endsWith
  rw [List.isSuffixOf_iff_suffix]
  constructor
  · intro h
    obtain ⟨front, hfront⟩ := h
    refine ⟨String.ofList front, ?_⟩
    rw [← String.toList_inj, String.toList_append, String.toList_ofList, hfront]
  · intro h
    obtain ⟨front, rfl⟩ := h
    rw [String.toList_append]
    exact List.suffix_append _ _

theorem sliceTo_append (front p : String) : sliceTo (front ++ p) 0 p.length = front := by
  have hlen : (front ++ p).length - p.length = front.toList.length := by
    rw [String.length_append, Nat.add_sub_cancel, String.length_toList]
  unfold sliceTo
  rw [hlen, String.toList_append, List.take_left, List.drop_zero, String.ofList_toList]

theorem slice_append (p rest : String) : slice (p ++ rest) p.length = rest := by
  unfold slice
  rw [String.toList_append, ← String.length_toList, List.drop_left, String.ofList_toList]

theorem truthy_eq_some {s : Option String} {t : String} : truthy s = some t ↔ s = some t ∧ t ≠ "" := by
  unfold truthy
  rw [Option.filter_eq_some_iff]
  simp

end Engine
