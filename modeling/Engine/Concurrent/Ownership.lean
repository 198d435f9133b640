import Mathlib.Tactic.SplitIfs

/-! Resources and the places they are in: a resource is in one place at most, and
steps move it from place to place. -/
namespace Concurrent
variable {ν π : Type} {R R' : ν → π → Prop}

/-- No resource is in two places. -/
def Exclusive (R : ν → π → Prop) : Prop := ∀ n p p', R n p → R n p' → p = p'

/-- Every resource goes from its place `p` to the place `f n p`. -/
def Relocates (f : ν → π → π) (R R' : ν → π → Prop) : Prop := ∀ n p', R' n p' ↔ ∃ p, R n p ∧ f n p = p'

theorem Relocates.exclusive {f : ν → π → π} (h : Relocates f R R') (hR : Exclusive R) : Exclusive R' := by
  intro n p p' hp hp'
  obtain ⟨a, ha, rfl⟩ := (h n p).mp hp
  obtain ⟨b, hb, rfl⟩ := (h n p').mp hp'
  rw [hR n a b ha hb]

theorem Relocates.placed {f : ν → π → π} (h : Relocates f R R') {n : ν} : (∃ p, R' n p) ↔ ∃ p, R n p := by
  refine ⟨fun ⟨p', hp'⟩ => ?_, fun ⟨p, hp⟩ => ⟨f n p, (h n _).mpr ⟨p, hp, rfl⟩⟩⟩
  obtain ⟨p, hp, -⟩ := (h n p').mp hp'
  exact ⟨p, hp⟩

/-- Nothing moves. -/
theorem relocates_of_iff (h : ∀ n p, R' n p ↔ R n p) : Relocates (fun _ p => p) R R' := by
  intro n p'
  simp [h]

/-- Some resources leave the place `a` for `b`. -/
theorem relocates_of_move {S : ν → Prop} [DecidablePred S] {a b : π} (hR : Exclusive R)
    (ha : ∀ n, S n → R n a) (h : ∀ n p', R' n p' ↔ (S n ∧ p' = b) ∨ (R n p' ∧ ¬ (S n ∧ p' = a))) :
    Relocates (fun n p => if S n then b else p) R R' := by
  intro n p'
  rw [h]
  by_cases hS : S n
  · simp only [hS, true_and, ↓reduceIte]
    refine ⟨?_, fun ⟨p, _, hp⟩ => Or.inl hp.symm⟩
    rintro (rfl | ⟨hp, hne⟩)
    · exact ⟨a, ha n hS, rfl⟩
    · exact absurd (hR n p' a hp (ha n hS)) hne
  · simp [hS]

/-- A new resource appears in one place. -/
theorem Exclusive.insert (hR : Exclusive R) {n₀ : ν} {p₀ : π} (hnew : ∀ p, ¬ R n₀ p)
    (h : ∀ n p, R' n p ↔ (n = n₀ ∧ p = p₀) ∨ R n p) : Exclusive R' := by
  intro n p p' hp hp'
  rcases (h n p).mp hp with ⟨rfl, rfl⟩ | hp <;> rcases (h n p').mp hp' with ⟨hn, rfl⟩ | hp'
  · rfl
  · exact absurd hp' (hnew p')
  · exact absurd (hn ▸ hp) (hnew p)
  · exact hR n p p' hp hp'

end Concurrent
