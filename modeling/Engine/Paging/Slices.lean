import Mathlib.Data.List.Basic

/-! Reading a list in pages by number. -/
namespace Paging
variable {α β : Type}

/-- The elements from `page * size` on, `size` of them. -/
def slice (size page : ℕ) (l : List α) : List α := (l.drop (page * size)).take size

theorem slice_eq (size page : ℕ) (l : List α) : slice size page l =
    (l.take (page * size + size)).drop (page * size) := by
  unfold slice
  rw [List.drop_take, Nat.add_sub_cancel_left]

/-- The first pages together. -/
theorem flatMap_slice (size pages : ℕ) (l : List α) :
    (List.range pages).flatMap (fun page => slice size page l) = l.take (pages * size) := by
  induction pages with
  | zero => simp
  | succ pages ih =>
    rw [List.range_succ, List.flatMap_append, ih, List.flatMap_singleton, slice, Nat.succ_mul]
    exact List.take_add.symm

/-- All pages together, with what each of their elements gives. -/
theorem flatMap_filterMap_slice (f : α → Option β) {size pages : ℕ} {l : List α} (h : l.length ≤ pages * size) :
    (List.range pages).flatMap (fun page => (slice size page l).filterMap f) = l.filterMap f := by
  have hall : (List.range pages).flatMap (fun page => slice size page l) = l :=
    (flatMap_slice size pages l).trans (List.take_of_length_le h)
  calc (List.range pages).flatMap (fun page => (slice size page l).filterMap f)
      = ((List.range pages).flatMap fun page => slice size page l).filterMap f := by
        rw [List.filterMap_flatMap]
    _ = l.filterMap f := by rw [hall]

end Paging
