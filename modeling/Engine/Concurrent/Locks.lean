import Engine.Concurrent.Machine

/-! Locks that the world keeps and programs hold: a lock that a program believes to hold is
locked, and no other program holds it. -/
namespace Concurrent
variable {I : Interface} {α κ : Type} {M : Machine I α}

/-- Which lock a program believes to hold, which locks the world has given away, and that only
the holder of a lock gives it back. -/
structure Locking (C : Contract M) (G : Guard M) (κ : Type) where
  holds : C.Local → Option κ
  locked : M.World → κ → Prop
  taken : ∀ s s' n k x, Started C G s s' n k → holds (C.init k) = some x → ¬ locked s.world x ∧ locked s'.world x
  kept : ∀ s s' n k x, Started C G s s' n k → locked s.world x → locked s'.world x
  held : ∀ s s' i l o a r x, Stepped C G s s' i l o a r → holds (C.next l o r) = some x →
    holds l = some x ∧ (locked s.world x → locked s'.world x)
  others : ∀ s s' i l o a r x, Stepped C G s s' i l o a r → locked s.world x → holds l ≠ some x → locked s'.world x

section
variable {C : Contract M} {G : Guard M} (L : Locking C G κ) {s s' : State M} {w : M.World} {i : ℕ} {l : C.Local}
  {o : I.Op} {a : Except I.Err (I.Choice o)} {r : Except I.Err (I.Reply o)}

/-- Every lock that is held is locked, and held once. -/
structure Locking.Exclusive (s : State M) : Prop where
  locked : ∀ i l x, s.localOf C i = some l → L.holds l = some x → L.locked s.world x
  unique : ∀ i j l l' x, s.localOf C i = some l → s.localOf C j = some l' → L.holds l = some x →
    L.holds l' = some x → i = j

/-- What the summaries are after a program was started. -/
theorem Started.localOf {n j : ℕ} {k : M.Kind} {l : C.Local} (st : Started C G s s' n k)
    (hl : s'.localOf C j = some l) : (j = n ∧ l = C.init k) ∨ (j ≠ n ∧ s.localOf C j = some l) := by
  by_cases hj : j = n
  · subst hj
    exact Or.inl ⟨rfl, Option.some.inj (hl.symm.trans st.self)⟩
  · exact Or.inr ⟨hj, (st.others j hj).symm.trans hl⟩

/-- What the summaries are after a call. -/
theorem Stepped.localOf {j : ℕ} {l' : C.Local} (st : Stepped C G s s' i l o a r)
    (hl : s'.localOf C j = some l') : (j = i ∧ l' = C.next l o r) ∨ (j ≠ i ∧ s.localOf C j = some l') := by
  by_cases hj : j = i
  · subst hj
    exact Or.inl ⟨rfl, Option.some.inj (hl.symm.trans st.self)⟩
  · exact Or.inr ⟨hj, (st.others j hj).symm.trans hl⟩

variable {L}

theorem Locking.Exclusive.start {n : ℕ} {k : M.Kind} (h : L.Exclusive s) (st : Started C G s s' n k) :
    L.Exclusive s' := by
  have hfree : ∀ j l x, s.localOf C j = some l → L.holds l = some x → L.holds (C.init k) ≠ some x := by
    intro j l x hl hx hk
    exact (L.taken s s' n k x st hk).1 (h.locked j l x hl hx)
  constructor
  · intro j l x hl hx
    rcases st.localOf hl with ⟨rfl, rfl⟩ | ⟨-, hj⟩
    · exact (L.taken s s' j k x st hx).2
    · exact L.kept s s' n k x st (h.locked j l x hj hx)
  · intro i j l l' x hl hl' hx hx'
    rcases st.localOf hl with ⟨hi, rfl⟩ | ⟨-, hi⟩ <;> rcases st.localOf hl' with ⟨hj, rfl⟩ | ⟨-, hj⟩
    · omega
    · exact absurd hx (hfree j l' x hj hx')
    · exact absurd hx' (hfree i l x hi hx)
    · exact h.unique i j l l' x hi hj hx hx'

theorem Locking.Exclusive.call (h : L.Exclusive s) (st : Stepped C G s s' i l o a r) : L.Exclusive s' := by
  constructor
  · intro j l' x hl' hx
    rcases st.localOf hl' with ⟨rfl, rfl⟩ | ⟨hne, hj⟩
    · have hheld := L.held s s' j l o a r x st hx
      exact hheld.2 (h.locked j l x st.caller hheld.1)
    · have hother : L.holds l ≠ some x := fun hheld => hne (h.unique j i l' l x hj st.caller hx hheld)
      exact L.others s s' i l o a r x st (h.locked j l' x hj hx) hother
  · intro j j' m m' x hm hm' hx hx'
    rcases st.localOf hm with ⟨hi, rfl⟩ | ⟨-, hj⟩ <;> rcases st.localOf hm' with ⟨hi', rfl⟩ | ⟨-, hj'⟩
    · omega
    · have hheld := L.held s s' i l o a r x st hx
      exact hi ▸ h.unique i j' l m' x st.caller hj' hheld.1 hx'
    · have hheld := L.held s s' i l o a r x st hx'
      exact hi' ▸ h.unique j i m l x hj st.caller hx hheld.1
    · exact h.unique j j' m m' x hj hj' hx hx'

theorem Locking.exclusive (L : Locking C G κ) (h : Reachable G (State.initial w) s) : L.Exclusive s := by
  refine h.invariant C L.Exclusive ?_ (fun _ _ _ _ _ ih st => ih.start st) (fun _ _ _ _ _ _ _ _ ih st => ih.call st)
  constructor
  · intro i l x hl
    cases hl
  · intro i j l l' x hl
    cases hl

end
end Concurrent
