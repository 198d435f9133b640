import Mathlib.Order.Lattice
import Mathlib.Tactic.SplitIfs

/-! Sorted sets whose members are their own scores: add, pop the least, empty. -/
namespace Concurrent

/-- The members in strictly increasing order. -/
structure SortedSet (α : Type) [LinearOrder α] where
  elems : List α
  sorted : elems.Pairwise (· < ·)

namespace SortedSet
variable {α : Type} [LinearOrder α]

def empty : SortedSet α := ⟨[], .nil⟩

instance : Membership α (SortedSet α) := ⟨fun s a => a ∈ s.elems⟩

instance (a : α) (s : SortedSet α) : Decidable (a ∈ s) := decidable_of_iff (s.elems.elem a = true) List.elem_iff

@[simp] theorem mem_elems {a : α} {s : SortedSet α} : a ∈ s.elems ↔ a ∈ s := Iff.rfl

@[simp] theorem not_mem_empty (a : α) : a ∉ (empty : SortedSet α) := List.not_mem_nil

def insertElem (a : α) : List α → List α
  | [] => [a]
  | b :: bs => if a < b then a :: b :: bs else if a = b then b :: bs else b :: insertElem a bs

theorem mem_insertElem {a b : α} {l : List α} : b ∈ insertElem a l ↔ b = a ∨ b ∈ l := by
  induction l with
  | nil => simp [insertElem]
  | cons c l ih =>
    simp only [insertElem]
    split_ifs with hlt heq
    · simp
    · subst heq
      simp
    · simp only [List.mem_cons, ih]
      exact or_left_comm

private theorem insertElem_pairwise {a : α} {l : List α} (h : l.Pairwise (· < ·)) :
    (insertElem a l).Pairwise (· < ·) := by
  induction l with
  | nil => simp [insertElem]
  | cons c l ih =>
    obtain ⟨hc, hl⟩ := List.pairwise_cons.mp h
    simp only [insertElem]
    split_ifs with hlt heq
    · refine List.pairwise_cons.mpr ⟨fun b hb => ?_, h⟩
      rcases List.mem_cons.mp hb with rfl | hb
      · exact hlt
      · exact lt_trans hlt (hc b hb)
    · exact h
    · refine List.pairwise_cons.mpr ⟨fun b hb => ?_, ih hl⟩
      rcases mem_insertElem.mp hb with rfl | hb
      · exact lt_of_le_of_ne (not_lt.mp hlt) (Ne.symm heq)
      · exact hc b hb

/-- `ZADD key a a`. -/
def add (s : SortedSet α) (a : α) : SortedSet α := ⟨insertElem a s.elems, insertElem_pairwise s.sorted⟩

@[simp] theorem mem_add {s : SortedSet α} {a b : α} : b ∈ s.add a ↔ b = a ∨ b ∈ s := mem_insertElem

/-- `ZPOPMIN key`: the least member, if there is one, and the set without it. -/
def popMin (s : SortedSet α) : Option α × SortedSet α :=
  match s with
  | ⟨[], h⟩ => (none, ⟨[], h⟩)
  | ⟨a :: l, h⟩ => (some a, ⟨l, (List.pairwise_cons.mp h).2⟩)

theorem popMin_none {s : SortedSet α} (h : s.popMin.1 = none) : s.popMin.2 = s := by
  obtain ⟨l, hl⟩ := s
  cases l with
  | nil => rfl
  | cons a l => cases h

theorem popMin_some {s : SortedSet α} {a : α} (h : s.popMin.1 = some a) :
    a ∈ s ∧ ∀ b, b ∈ s.popMin.2 ↔ b ∈ s ∧ b ≠ a := by
  obtain ⟨l, hl⟩ := s
  cases l with
  | nil => cases h
  | cons c l =>
    cases Option.some.inj h
    have hc := (List.pairwise_cons.mp hl).1
    refine ⟨List.mem_cons_self, fun b => ?_⟩
    change b ∈ l ↔ b ∈ a :: l ∧ b ≠ a
    refine ⟨fun hb => ⟨List.mem_cons_of_mem _ hb, (ne_of_lt (hc b hb)).symm⟩, fun hb => ?_⟩
    exact (List.mem_cons.mp hb.1).resolve_left hb.2

/-- The set without the members that do not pass. -/
def filter (s : SortedSet α) (p : α → Bool) : SortedSet α := ⟨s.elems.filter p, s.sorted.filter p⟩

@[simp] theorem mem_filter {s : SortedSet α} {p : α → Bool} {a : α} : a ∈ s.filter p ↔ a ∈ s ∧ p a = true :=
  List.mem_filter

end SortedSet
end Concurrent
