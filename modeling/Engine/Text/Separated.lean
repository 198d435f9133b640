import Engine.Codec.Integer
import Engine.Text.Strings

/-! Texts of items between separators, and the white space around a text. -/
namespace Engine

/-- `s.split(c)`. -/
def split (c : Char) (s : String) : List String := (s.toList.splitOn c).map String.ofList

/-- `l.join(c)`. -/
def join (c : Char) (l : List String) : String := String.ofList ([c].intercalate (l.map String.toList))

/-- `s.trim()`. -/
def trim (s : String) : String :=
  String.ofList ((s.toList.dropWhile Codec.isWhitespace).reverse.dropWhile Codec.isWhitespace).reverse

/-- `[...new Set(l)]`. -/
def dedupe (l : List String) : List String := l.eraseDups

variable {c : Char} {s : String} {l : List String}

theorem mem_dedupe : s ∈ dedupe l ↔ s ∈ l := List.mem_eraseDups

theorem dedupe_eq_nil : dedupe l = [] ↔ l = [] := by
  constructor
  · intro h
    apply List.eq_nil_iff_forall_not_mem.mpr
    intro s hs
    have hmem : s ∈ dedupe l := mem_dedupe.mpr hs
    rw [h] at hmem
    cases hmem
  · intro h
    rw [h]
    rfl

/-- Two texts around a separator are one when they are split at it alike, or one goes on over the
other's separator. -/
theorem append_cons_eq_iff {u u' v v' : List Char} : u ++ c :: v = u' ++ c :: v' ↔
    (u = u' ∧ v = v') ∨ (∃ r, u' = u ++ c :: r ∧ v = r ++ c :: v') ∨ ∃ r, u = u' ++ c :: r ∧ v' = r ++ c :: v := by
  constructor
  · intro h
    obtain ⟨r, hu, hv⟩ | ⟨r, hu, hv⟩ := List.append_eq_append_iff.mp h
    · cases r with
      | nil =>
        rw [List.append_nil] at hu
        exact Or.inl ⟨hu.symm, (List.cons.inj hv).2⟩
      | cons x r =>
        obtain ⟨rfl, hrest⟩ := List.cons.inj hv
        exact Or.inr (Or.inl ⟨r, hu, hrest⟩)
    · cases r with
      | nil =>
        rw [List.append_nil] at hu
        exact Or.inl ⟨hu, (List.cons.inj hv).2.symm⟩
      | cons x r =>
        obtain ⟨rfl, hrest⟩ := List.cons.inj hv
        exact Or.inr (Or.inr ⟨r, hu, hrest⟩)
  · intro h
    obtain ⟨rfl, rfl⟩ | ⟨r, rfl, rfl⟩ | ⟨r, rfl, rfl⟩ := h
    · rfl
    · rw [List.append_assoc, List.cons_append]
    · rw [List.append_assoc, List.cons_append]

/-- A first item without the separator is told by it. -/
theorem append_cons_inj_of_not_mem {u u' v v' : List Char} (hu : c ∉ u) (hu' : c ∉ u') :
    u ++ c :: v = u' ++ c :: v' ↔ u = u' ∧ v = v' := by
  rw [append_cons_eq_iff]
  constructor
  · intro h
    obtain h | ⟨r, rfl, -⟩ | ⟨r, rfl, -⟩ := h
    · exact h
    · exact absurd (List.mem_append_right _ List.mem_cons_self) hu'
    · exact absurd (List.mem_append_right _ List.mem_cons_self) hu
  · exact Or.inl

/-! ### Numbers -/

theorem toList_toString (n : ℕ) : (toString n).toList = Nat.toDigits 10 n := by
  show (Nat.repr n).toList = _
  rw [Nat.repr, String.toList_ofList]

theorem not_mem_toDigits {c : Char} (hc : c.isDigit = false) (n : ℕ) : c ∉ Nat.toDigits 10 n := by
  intro hmem
  rw [Codec.isDigit_of_mem hmem] at hc
  cases hc

theorem toDigits_inj {n m : ℕ} (h : Nat.toDigits 10 n = Nat.toDigits 10 m) : n = m := by
  have hparse := congrArg Codec.parseDigits h
  rw [Codec.parseDigits_toDigits, Codec.parseDigits_toDigits] at hparse
  exact Option.some.inj hparse

/-! ### Splitting and joining -/

/-- No item of a split text has the separator. -/
theorem not_mem_of_mem_splitOn {cs xs : List Char} (h : xs ∈ cs.splitOn c) : c ∉ xs := by
  induction cs generalizing xs with
  | nil =>
    rw [List.splitOn_nil, List.mem_singleton] at h
    subst h
    exact List.not_mem_nil
  | cons x cs ih =>
    rw [List.splitOn_cons_eq_if_modifyHead] at h
    split at h
    case isTrue hx =>
      rcases List.mem_cons.mp h with rfl | h
      · exact List.not_mem_nil
      · exact ih h
    case isFalse hx =>
      obtain ⟨y, ys, hy⟩ := List.exists_cons_of_ne_nil (List.splitOn_ne_nil c cs)
      rw [hy] at h ih
      rcases List.mem_cons.mp h with rfl | h
      · intro hc
        rcases List.mem_cons.mp hc with rfl | hc
        · exact hx (beq_self_eq_true c)
        · exact ih List.mem_cons_self hc
      · exact ih (List.mem_cons_of_mem _ h)

theorem not_mem_of_mem_split (h : s ∈ split c s') : c ∉ s.toList := by
  obtain ⟨xs, hxs, rfl⟩ := List.mem_map.mp h
  rw [String.toList_ofList]
  exact not_mem_of_mem_splitOn hxs

/-- Items without the separator are read back. -/
theorem split_join (hl : l ≠ []) (hc : ∀ s ∈ l, c ∉ s.toList) : split c (join c l) = l := by
  have hitems : ∀ xs ∈ l.map String.toList, c ∉ xs := by
    intro xs hxs
    obtain ⟨s, hs, rfl⟩ := List.mem_map.mp hxs
    exact hc s hs
  have hne : l.map String.toList ≠ [] := by simpa using hl
  unfold split join
  rw [String.toList_ofList, List.splitOn_intercalate c hitems hne, List.map_map]
  have hid : String.ofList ∘ String.toList = id := by
    funext s
    exact String.ofList_toList
  rw [hid, List.map_id]

theorem not_mem_trim (h : c ∉ s.toList) : c ∉ (trim s).toList := by
  unfold trim
  rw [String.toList_ofList, List.mem_reverse]
  intro hc
  have hc := (List.dropWhile_sublist Codec.isWhitespace).subset hc
  rw [List.mem_reverse] at hc
  exact h ((List.dropWhile_sublist Codec.isWhitespace).subset hc)

end Engine
