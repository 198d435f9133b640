import Engine.Concurrent.Locks

/-! Two contracts for the programs of one machine are one contract, and a protocol carries over
to a summary that it can be read off. -/
namespace Concurrent
variable {I : Interface} {α : Type}

/-- Both protocols at once. -/
def Protocol.prod (P R : Protocol I) : Protocol I where
  Local := P.Local × R.Local
  next l o r := (P.next l.1 o r, R.next l.2 o r)
  allowed l o := P.allowed l.1 o ∧ R.allowed l.2 o
  possible o r := P.possible o r ∧ R.possible o r

namespace Program
variable {P R : Protocol I} {Q : P.Local → Except I.Err α → Prop} {Q' : R.Local → Except I.Err α → Prop}
  {l : P.Local} {l' : R.Local} {p : Program I α}

theorem Follows.prod (h : p.Follows P Q l) (h' : p.Follows R Q' l') :
    p.Follows (P.prod R) (fun l r => Q l.1 r ∧ Q' l.2 r) (l, l') := by
  induction p generalizing l l' with
  | done a => exact ⟨h, h'⟩
  | raise e => exact ⟨h, h'⟩
  | call o next ih => exact ⟨⟨h.1, h'.1⟩, fun r hr => ih r (h.2 r hr.1) (h'.2 r hr.2)⟩

/-- A program that follows a protocol follows every protocol whose summary moves along. -/
theorem Follows.map (h : p.Follows P Q l) (f : P.Local → R.Local)
    (hallowed : ∀ l o, P.allowed l o → R.allowed (f l) o)
    (hnext : ∀ l o r, P.allowed l o → R.possible o r → P.possible o r ∧ R.next (f l) o r = f (P.next l o r)) :
    p.Follows R (fun l' r => ∃ l, l' = f l ∧ Q l r) (f l) := by
  induction p generalizing l with
  | done a => exact ⟨l, rfl, h⟩
  | raise e => exact ⟨l, rfl, h⟩
  | call o next ih =>
    refine ⟨hallowed l o h.1, fun r hr => ?_⟩
    obtain ⟨hp, hn⟩ := hnext l o r h.1 hr
    rw [hn]
    exact ih r (h.2 r hp)

/-- A program of calls of one kind stays where these calls are allowed and stay. -/
theorem Only.follows_in {S : I.Op → Prop} {F : P.Local → Prop} (h : p.Only S)
    (hallowed : ∀ l o, F l → S o → P.allowed l o) (hnext : ∀ l o r, F l → S o → F (P.next l o r)) (hl : F l) :
    p.Follows P (fun l _ => F l) l := by
  induction p generalizing l with
  | done a => exact hl
  | raise e => exact hl
  | call o next ih => exact ⟨hallowed l o hl h.1, fun r _ => ih r (h.2 r) (hnext l o r hl h.1)⟩

theorem only_any (p : Program I α) : p.Only fun _ => True := by
  induction p with
  | done a => trivial
  | raise e => trivial
  | call o next ih => exact ⟨trivial, ih⟩

end Program

/-- Both contracts at once. -/
def Contract.prod {M : Machine I α} (C C' : Contract M) : Contract M where
  toProtocol := C.toProtocol.prod C'.toProtocol
  init k := (C.init k, C'.init k)
  ends l r := C.ends l.1 r ∧ C'.ends l.2 r
  answers w o a r w' h := ⟨C.answers w o a r w' h, C'.answers w o a r w' h⟩
  starts w k p w' h := (C.starts w k p w' h).prod (C'.starts w k p w' h)

section
variable {M : Machine I α} {C : Contract M} {G : Guard M} {s s' : State M} {w : M.World}

theorem Protocol.after_prod {P R : Protocol I} (l : P.Local) (l' : R.Local) (i : ℕ) (tr : List (Event I)) :
    (P.prod R).after (l, l') i tr = (P.after l i tr, R.after l' i tr) := by
  induction tr with
  | nil => rfl
  | cons e tr ih =>
    simp only [Protocol.after]
    split_ifs
    · rw [ih]
      rfl
    · exact ih

/-- The summaries of both contracts. -/
theorem localOf_prod {C' : Contract M} {i : ℕ} {l : C.Local} {l' : C'.Local}
    (h : s.localOf (C.prod C') i = some (l, l')) : s.localOf C i = some l ∧ s.localOf C' i = some l' := by
  obtain ⟨t, ht, hl⟩ := Option.map_eq_some_iff.mp h
  have hboth := (Protocol.after_prod (P := C.toProtocol) (R := C'.toProtocol) _ _ i s.trace).symm.trans hl
  obtain ⟨rfl, rfl⟩ := Prod.mk.inj hboth
  exact ⟨Option.map_eq_some_iff.mpr ⟨t, ht, rfl⟩, Option.map_eq_some_iff.mpr ⟨t, ht, rfl⟩⟩

/-- What holds of a program when it starts, and is kept by its calls and by the calls of others,
holds of every program. -/
theorem Reachable.each {J : M.World → C.Local → Prop} (h : Reachable G (State.initial w) s)
    (hstart : ∀ s s' n k, Reachable G (State.initial w) s → Started C G s s' n k →
      J s'.world (C.init k) ∧ ∀ l, J s.world l → J s'.world l)
    (hcall : ∀ s s' i l o a r, Reachable G (State.initial w) s → Stepped C G s s' i l o a r →
      (J s.world l → J s'.world (C.next l o r)) ∧ ∀ l, J s.world l → J s'.world l)
    {i : ℕ} {l : C.Local} (hl : s.localOf C i = some l) : J s.world l := by
  refine h.invariant C (fun s => ∀ i l, s.localOf C i = some l → J s.world l) ?_ ?_ ?_ i l hl
  · intro i l hl
    cases hl
  · intro s s' n k hr ih st j l hl
    rcases st.localOf hl with ⟨-, rfl⟩ | ⟨-, hj⟩
    · exact (hstart s s' n k hr st).1
    · exact (hstart s s' n k hr st).2 l (ih j l hj)
  · intro s s' i l o a r hr ih st j l' hl'
    rcases st.localOf hl' with ⟨-, rfl⟩ | ⟨-, hj⟩
    · exact (hcall s s' i l o a r hr st).1 (ih i l st.caller)
    · exact (hcall s s' i l o a r hr st).2 l' (ih j l' hj)

end
end Concurrent
