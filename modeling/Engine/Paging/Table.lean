import Mathlib.Data.List.Nodup
import Mathlib.Order.Lattice

/-! Tables whose rows have different keys, and the insert that skips duplicates. -/
namespace Keyset

structure Table {ρ κ : Type} (key : ρ → κ) where
  rows : List ρ
  unique : (rows.map key).Nodup

section
variable {ρ κ : Type} {key : ρ → κ}

def Table.empty (key : ρ → κ) : Table key := ⟨[], List.nodup_nil⟩

/-- Change rows, but not their keys. -/
def Table.modify (t : Table key) (f : ρ → ρ) (hf : ∀ x, key (f x) = key x) : Table key where
  rows := t.rows.map f
  unique := by
    have hkeys : (t.rows.map f).map key = t.rows.map key := by
      rw [List.map_map]
      exact List.map_congr_left fun x _ => hf x
    rw [hkeys]
    exact t.unique

theorem Table.keys_modify {t : Table key} (f : ρ → ρ) (hf : ∀ x, key (f x) = key x) :
    (t.modify f hf).rows.map key = t.rows.map key := by
  unfold Table.modify
  rw [List.map_map]
  exact List.map_congr_left fun x _ => hf x

theorem Table.eq_of_key_eq (t : Table key) {x y : ρ} (hx : x ∈ t.rows) (hy : y ∈ t.rows) (h : key x = key y) : x = y :=
  List.inj_on_of_nodup_map t.unique hx hy h

/-- Rows of one key are at most one. -/
theorem Table.length_filter_le_one (t : Table key) (p : ρ → Bool)
    (h : ∀ x ∈ t.rows, ∀ y ∈ t.rows, p x = true → p y = true → key x = key y) : (t.rows.filter p).length ≤ 1 := by
  have hunique : ((t.rows.filter p).map key).Nodup := t.unique.sublist (List.filter_sublist.map key)
  have hmem : ∀ x ∈ t.rows.filter p, x ∈ t.rows ∧ p x = true := fun x hx => List.mem_filter.mp hx
  cases hrows : t.rows.filter p with
  | nil => simp
  | cons x rows =>
    cases rows with
    | nil => simp
    | cons y rows =>
      rw [hrows] at hunique hmem
      obtain ⟨hx, hpx⟩ := hmem x List.mem_cons_self
      obtain ⟨hy, hpy⟩ := hmem y (List.mem_cons_of_mem x List.mem_cons_self)
      rw [List.map_cons, List.map_cons, h x hx y hy hpx hpy, List.nodup_cons] at hunique
      exact absurd List.mem_cons_self hunique.1

variable [DecidableEq κ]

/-- The row of a key. -/
def Table.find? (t : Table key) (k : κ) : Option ρ := t.rows.find? fun x => key x = k

theorem Table.find?_eq_some {t : Table key} {k : κ} {x : ρ} : t.find? k = some x ↔ x ∈ t.rows ∧ key x = k := by
  unfold Table.find?
  constructor
  · intro h
    exact ⟨List.mem_of_find?_eq_some h, of_decide_eq_true (List.find?_some (p := fun y => decide (key y = k)) h)⟩
  · intro h
    obtain ⟨hx, hk⟩ := h
    cases hfind : t.rows.find? fun y => decide (key y = k) with
    | none => exact absurd (decide_eq_true hk) (List.find?_eq_none.mp hfind x hx)
    | some y =>
      have hy : key y = k := of_decide_eq_true (List.find?_some (p := fun y => decide (key y = k)) hfind)
      rw [t.eq_of_key_eq (List.mem_of_find?_eq_some hfind) hx (hy.trans hk.symm)]

theorem Table.find?_eq_none {t : Table key} {k : κ} : t.find? k = none ↔ ∀ x ∈ t.rows, key x ≠ k := by
  unfold Table.find?
  rw [List.find?_eq_none]
  simp only [decide_eq_true_eq]

/-- The rows with new keys, the first one of each key. -/
def newRows (key : ρ → κ) : List κ → List ρ → List ρ
  | _, [] => []
  | keys, x :: xs => if key x ∈ keys then newRows key keys xs else x :: newRows key (key x :: keys) xs

variable {keys : List κ} {xs : List ρ} {x : ρ}

theorem mem_of_mem_newRows (h : x ∈ newRows key keys xs) : x ∈ xs := by
  induction xs generalizing keys with
  | nil => cases h
  | cons y xs ih =>
    unfold newRows at h
    split_ifs at h
    · exact List.mem_cons_of_mem y (ih h)
    · rcases List.mem_cons.mp h with rfl | h
      · exact List.mem_cons_self
      · exact List.mem_cons_of_mem y (ih h)

theorem key_not_mem_of_mem_newRows (h : x ∈ newRows key keys xs) : key x ∉ keys := by
  induction xs generalizing keys with
  | nil => cases h
  | cons y xs ih =>
    unfold newRows at h
    split_ifs at h with hy
    · exact ih h
    · rcases List.mem_cons.mp h with rfl | h
      · exact hy
      · have hnot := ih h
        rw [List.mem_cons, not_or] at hnot
        exact hnot.2

private theorem nodup_newRows : ((newRows key keys xs).map key).Nodup := by
  induction xs generalizing keys with
  | nil => exact List.nodup_nil
  | cons y xs ih =>
    unfold newRows
    split_ifs
    · exact ih
    · rw [List.map_cons, List.nodup_cons]
      constructor
      · intro hmem
        obtain ⟨x, hx, hkey⟩ := List.mem_map.mp hmem
        have hnot := key_not_mem_of_mem_newRows hx
        rw [hkey] at hnot
        exact hnot List.mem_cons_self
      · exact ih

/-- `INSERT … ON CONFLICT DO NOTHING`. The new rows are `newRows`. -/
def Table.insert (t : Table key) (xs : List ρ) : Table key where
  rows := t.rows ++ newRows key (t.rows.map key) xs
  unique := by
    rw [List.map_append, List.nodup_append]
    refine ⟨t.unique, nodup_newRows, ?_⟩
    intro a ha b hb hab
    obtain ⟨x, hx, rfl⟩ := List.mem_map.mp hb
    exact key_not_mem_of_mem_newRows hx (hab ▸ ha)

theorem Table.key_mem_insert {t : Table key} {k : κ} (h : k ∈ t.rows.map key) : k ∈ (t.insert xs).rows.map key := by
  obtain ⟨y, hy, rfl⟩ := List.mem_map.mp h
  exact List.mem_map_of_mem (List.mem_append_left _ hy)

/-- A row that is inserted changes no other key's row. -/
theorem Table.find?_insert_of_ne {t : Table key} {k : κ} (h : ∀ y ∈ xs, key y ≠ k) :
    (t.insert xs).find? k = t.find? k := by
  unfold Table.find? Table.insert
  rw [List.find?_append]
  have hnew : (newRows key (t.rows.map key) xs).find? (fun y => decide (key y = k)) = none := by
    rw [List.find?_eq_none]
    intro y hy
    rw [decide_eq_true_eq]
    exact h y (mem_of_mem_newRows hy)
  rw [hnew, Option.or_none]

theorem Table.find?_insert_new {t : Table key} (h : t.find? (key x) = none) :
    (t.insert [x]).find? (key x) = some x := by
  rw [Table.find?_eq_some]
  have hnot : key x ∉ t.rows.map key := by
    intro hmem
    obtain ⟨y, hy, hkey⟩ := List.mem_map.mp hmem
    exact Table.find?_eq_none.mp h y hy hkey
  have hnew : x ∈ newRows key (t.rows.map key) [x] := by
    unfold newRows
    rw [if_neg hnot]
    exact List.mem_cons_self
  exact ⟨List.mem_append_right _ hnew, rfl⟩

theorem Table.mem_insert {t : Table key} (h : x ∈ (t.insert xs).rows) :
    x ∈ t.rows ∨ x ∈ xs ∧ key x ∉ t.rows.map key := by
  rcases List.mem_append.mp h with h | h
  · exact Or.inl h
  · exact Or.inr ⟨mem_of_mem_newRows h, key_not_mem_of_mem_newRows h⟩

end
end Keyset
