import Mathlib.Data.List.Forall2
import Engine.Concurrent.Protocol

/-! Programs in a world that answers every call the same way each time: what comes out, and
which calls are made. -/
namespace Concurrent

abbrev Replies (I : Interface) := (o : I.Op) → Except I.Err (I.Reply o)

theorem ok_of_toOption {ε α : Type} {r : Except ε α} {a : α} (h : r.toOption = some a) : r = .ok a := by
  cases r with
  | error e => cases h
  | ok a' => exact congrArg Except.ok (Option.some.inj h)

namespace Program
variable {I : Interface} {α β : Type}

def outcome (x : Replies I) : Program I α → Except I.Err α
  | done a => .ok a
  | raise e => .error e
  | call o next => (next (x o)).outcome x

def calls (x : Replies I) : Program I α → List I.Op
  | done _ => []
  | raise _ => []
  | call o next => o :: (next (x o)).calls x

section
variable {x : Replies I} {p : Program I α} {f : α → Program I β} {a : α} {b : β} {e : I.Err}

@[simp] theorem outcome_done : (done a : Program I α).outcome x = .ok a := rfl

@[simp] theorem outcome_raise : (raise e : Program I α).outcome x = .error e := rfl

@[simp] theorem calls_done : (done a : Program I α).calls x = [] := rfl

@[simp] theorem calls_raise : (raise e : Program I α).calls x = [] := rfl

@[simp] theorem outcome_perform (o : I.Op) : (perform o : Program I (I.Reply o)).outcome x = x o := by
  rw [perform, outcome]
  cases x o with
  | ok r => rfl
  | error e => rfl

@[simp] theorem calls_perform (o : I.Op) : (perform o : Program I (I.Reply o)).calls x = [o] := by
  rw [perform, calls]
  cases x o with
  | ok r => rfl
  | error e => rfl

/-! ### Sequencing -/

theorem outcome_bind : (p.bind f).outcome x = (p.outcome x).bind fun a => (f a).outcome x := by
  induction p with
  | done a => rfl
  | raise e => rfl
  | call o next ih => exact ih (x o)

theorem outcome_bind_ok (h : p.outcome x = .ok a) : (p.bind f).outcome x = (f a).outcome x := by
  rw [outcome_bind, h]
  rfl

theorem outcome_bind_eq_ok : (p.bind f).outcome x = .ok b ↔ ∃ a, p.outcome x = .ok a ∧ (f a).outcome x = .ok b := by
  rw [outcome_bind]
  cases p.outcome x with
  | ok a => simp [Except.bind]
  | error e => simp [Except.bind]

theorem calls_bind_ok (h : p.outcome x = .ok a) : (p.bind f).calls x = p.calls x ++ (f a).calls x := by
  induction p with
  | done a' =>
    cases h
    rfl
  | raise e => cases h
  | call o next ih => exact congrArg (o :: ·) (ih (x o) h)

theorem mem_calls_bind {o : I.Op} :
    o ∈ (p.bind f).calls x ↔ o ∈ p.calls x ∨ ∃ a, p.outcome x = .ok a ∧ o ∈ (f a).calls x := by
  induction p with
  | done a =>
    constructor
    · intro h
      exact Or.inr ⟨a, rfl, h⟩
    · intro h
      obtain h | ⟨a', ha, h⟩ := h
      · cases h
      · cases ha
        exact h
  | raise e =>
    constructor
    · intro h
      cases h
    · intro h
      obtain h | ⟨a, ha, -⟩ := h
      · cases h
      · cases ha
  | call o' next ih =>
    show o ∈ o' :: ((next (x o')).bind f).calls x ↔ o ∈ o' :: (next (x o')).calls x ∨ _
    rw [List.mem_cons, List.mem_cons, ih (x o'), or_assoc]
    rfl

/-- What is caught is called after what raised it. -/
theorem mem_calls_handle {c : I.Err → Program I α} {o : I.Op} :
    o ∈ (p.handle c).calls x ↔ o ∈ p.calls x ∨ ∃ e, p.outcome x = .error e ∧ o ∈ (c e).calls x := by
  induction p with
  | done a =>
    constructor
    · intro h
      cases h
    · intro h
      obtain h | ⟨e, he, -⟩ := h
      · cases h
      · cases he
  | raise e =>
    constructor
    · intro h
      exact Or.inr ⟨e, rfl, h⟩
    · intro h
      obtain h | ⟨e', he, h⟩ := h
      · cases h
      · cases he
        exact h
  | call o' next ih =>
    show o ∈ o' :: ((next (x o')).handle c).calls x ↔ o ∈ o' :: (next (x o')).calls x ∨ _
    rw [List.mem_cons, List.mem_cons, ih (x o'), or_assoc]
    rfl

section
variable {γ : Type} {k : I.Op → Option γ} {c : γ}

/-- What is picked from the calls of a sequence is picked from its first or its second part. -/
theorem mem_filterMap_calls_bind : c ∈ ((p.bind f).calls x).filterMap k ↔
    c ∈ (p.calls x).filterMap k ∨ ∃ a, p.outcome x = .ok a ∧ c ∈ ((f a).calls x).filterMap k := by
  simp only [List.mem_filterMap]
  constructor
  · intro h
    obtain ⟨o, ho, hc⟩ := h
    obtain ho | ⟨b, hb, ho⟩ := mem_calls_bind.mp ho
    · exact Or.inl ⟨o, ho, hc⟩
    · exact Or.inr ⟨b, hb, o, ho, hc⟩
  · intro h
    obtain ⟨o, ho, hc⟩ | ⟨b, hb, o, ho, hc⟩ := h
    · exact ⟨o, mem_calls_bind.mpr (Or.inl ho), hc⟩
    · exact ⟨o, mem_calls_bind.mpr (Or.inr ⟨b, hb, ho⟩), hc⟩

theorem mem_filterMap_calls_handle {h : I.Err → Program I α} : c ∈ ((p.handle h).calls x).filterMap k ↔
    c ∈ (p.calls x).filterMap k ∨ ∃ e, p.outcome x = .error e ∧ c ∈ ((h e).calls x).filterMap k := by
  simp only [List.mem_filterMap]
  constructor
  · intro hmem
    obtain ⟨o, ho, hc⟩ := hmem
    obtain ho | ⟨e, he, ho⟩ := mem_calls_handle.mp ho
    · exact Or.inl ⟨o, ho, hc⟩
    · exact Or.inr ⟨e, he, o, ho, hc⟩
  · intro hmem
    obtain ⟨o, ho, hc⟩ | ⟨e, he, o, ho, hc⟩ := hmem
    · exact ⟨o, mem_calls_handle.mpr (Or.inl ho), hc⟩
    · exact ⟨o, mem_calls_handle.mpr (Or.inr ⟨e, he, ho⟩), hc⟩

theorem mem_filterMap_calls_perform {o : I.Op} : c ∈ ((perform o).calls x).filterMap k ↔ k o = some c := by
  rw [calls_perform, List.mem_filterMap]
  simp

end

/-! ### Loops -/

theorem outcome_collect_eq_ok {f : β → Program I α} {bs : List β} {as : List α} :
    (collect f bs).outcome x = .ok as ↔ List.Forall₂ (fun b a => (f b).outcome x = .ok a) bs as := by
  induction bs generalizing as with
  | nil =>
    rw [List.forall₂_nil_left_iff]
    constructor
    · intro h
      exact (Except.ok.inj h).symm
    · rintro rfl
      rfl
  | cons b bs ih =>
    unfold collect
    rw [outcome_bind_eq_ok, List.forall₂_cons_left_iff]
    constructor
    · intro h
      obtain ⟨a, ha, hrest⟩ := h
      obtain ⟨as', has', hdone⟩ := outcome_bind_eq_ok.mp hrest
      exact ⟨a, as', ha, ih.mp has', (Except.ok.inj hdone).symm⟩
    · intro h
      obtain ⟨a, as', ha, has', rfl⟩ := h
      exact ⟨a, ha, outcome_bind_eq_ok.mpr ⟨as', ih.mpr has', rfl⟩⟩

theorem outcome_collect {f : β → Program I α} {g : β → α} {bs : List β}
    (h : ∀ b ∈ bs, (f b).outcome x = .ok (g b)) : (collect f bs).outcome x = .ok (bs.map g) := by
  rw [outcome_collect_eq_ok, List.forall₂_map_right_iff, List.forall₂_same]
  exact h

/-- If the loop ends, each of its turns does. -/
theorem exists_outcome_of_collect {f : β → Program I α} {bs : List β} {as : List α} {b : β}
    (h : (collect f bs).outcome x = .ok as) (hb : b ∈ bs) : ∃ a ∈ as, (f b).outcome x = .ok a := by
  have hall := outcome_collect_eq_ok.mp h
  induction hall with
  | nil => cases hb
  | cons ha hall ih =>
    obtain rfl | hb := List.mem_cons.mp hb
    · exact ⟨_, List.mem_cons_self, ha⟩
    · obtain ⟨a, hmem, ha⟩ := ih (outcome_collect_eq_ok.mpr hall) hb
      exact ⟨a, List.mem_cons_of_mem _ hmem, ha⟩

theorem mem_calls_forEach {f : β → Program I Unit} {bs : List β} {o : I.Op}
    (h : (forEach f bs).outcome x = .ok ()) : o ∈ (forEach f bs).calls x ↔ ∃ b ∈ bs, o ∈ (f b).calls x := by
  induction bs with
  | nil => simp [forEach]
  | cons b bs ih =>
    unfold forEach at h ⊢
    obtain ⟨u, hfirst, hrest⟩ := outcome_bind_eq_ok.mp h
    rw [calls_bind_ok hfirst, List.mem_append, ih hrest]
    simp

/-- A loop that ends well ends each of its turns well. -/
theorem outcome_of_forEach {f : β → Program I Unit} {bs : List β} {b : β} (h : (forEach f bs).outcome x = .ok ())
    (hb : b ∈ bs) : (f b).outcome x = .ok () := by
  induction bs with
  | nil => cases hb
  | cons b' bs ih =>
    unfold forEach at h
    obtain ⟨u, hfirst, hrest⟩ := outcome_bind_eq_ok.mp h
    obtain rfl | hb := List.mem_cons.mp hb
    · exact hfirst
    · exact ih hrest hb

/-! ### Kinds of calls -/

theorem Makes.of_mem_calls {S : I.Op → Prop} {Q : α → Prop} {o : I.Op} (h : p.Makes S Q) (ho : o ∈ p.calls x) :
    S o := by
  induction p with
  | done a' => cases ho
  | raise e => cases ho
  | call o' next ih =>
    obtain rfl | ho := List.mem_cons.mp ho
    · exact h.1
    · exact ih (x o') (h.2 (x o')) ho

theorem Only.of_mem_calls {S : I.Op → Prop} {o : I.Op} (h : p.Only S) (ho : o ∈ p.calls x) : S o := by
  induction p with
  | done a => cases ho
  | raise e => cases ho
  | call o' next ih =>
    obtain rfl | ho := List.mem_cons.mp ho
    · exact h.1
    · exact ih (x o') (h.2 (x o')) ho

end
end Program
end Concurrent
