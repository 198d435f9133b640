import Engine.Concurrent.Protocol

/-! One program run on its own, from a world to a world. -/
namespace Concurrent
variable {I : Interface} {W α β : Type}

/-- Calls are performed atomically. `none`: the outside world cannot answer so here. -/
abbrev Effects (I : Interface) (W : Type) :=
  W → (o : I.Op) → Except I.Err (I.Choice o) → Option (Except I.Err (I.Reply o) × W)

namespace Program

/-- From `w` the program can end with the result `r` in the world `w'`. -/
inductive Runs (effect : Effects I W) : W → Program I α → Except I.Err α → W → Prop
  | done (w : W) (a : α) : Runs effect w (done a) (.ok a) w
  | raise (w : W) (e : I.Err) : Runs effect w (raise e) (.error e) w
  | call (w w₁ w' : W) (o : I.Op) (next : Except I.Err (I.Reply o) → Program I α)
      (a : Except I.Err (I.Choice o)) (x : Except I.Err (I.Reply o)) (r : Except I.Err α)
      (he : effect w o a = some (x, w₁)) (h : Runs effect w₁ (next x) r w') : Runs effect w (call o next) r w'

/-- Run with the given answers to the calls, in order. -/
def exec (effect : Effects I W) : Program I α → W → List ((o : I.Op) → Except I.Err (I.Choice o)) →
    Option (Except I.Err α × W)
  | done a, w, _ => some (.ok a, w)
  | raise e, w, _ => some (.error e, w)
  | call _ _, _, [] => none
  | call o next, w, answer :: answers =>
    match effect w o (answer o) with
    | some (x, w') => (next x).exec effect w' answers
    | none => none

variable {effect : Effects I W} {w w' : W} {r : Except I.Err β}

theorem runs_of_exec {p : Program I α} {answers : List ((o : I.Op) → Except I.Err (I.Choice o))}
    {r : Except I.Err α} (h : p.exec effect w answers = some (r, w')) : Runs effect w p r w' := by
  induction p generalizing w answers with
  | done a =>
    cases h
    exact .done _ _
  | raise e =>
    cases h
    exact .raise _ _
  | call o next ih =>
    cases answers with
    | nil => cases h
    | cons answer answers =>
      simp only [exec] at h
      split at h
      · rename_i x w₁ he
        exact .call _ _ _ _ _ _ _ _ he (ih x h)
      · cases h

@[simp] theorem runs_done {a : α} {r : Except I.Err α} : Runs effect w (Program.done a) r w' ↔ r = .ok a ∧ w' = w := by
  constructor
  · intro h
    cases h
    exact ⟨rfl, rfl⟩
  · intro h
    obtain ⟨rfl, rfl⟩ := h
    exact .done _ _

@[simp] theorem runs_raise {e : I.Err} {r : Except I.Err α} :
    Runs effect w (Program.raise e) r w' ↔ r = .error e ∧ w' = w := by
  constructor
  · intro h
    cases h
    exact ⟨rfl, rfl⟩
  · intro h
    obtain ⟨rfl, rfl⟩ := h
    exact .raise _ _

theorem runs_call {o : I.Op} {next : Except I.Err (I.Reply o) → Program I β} :
    Runs effect w (Program.call o next) r w' ↔ ∃ a x w₁, effect w o a = some (x, w₁) ∧
      Runs effect w₁ (next x) r w' := by
  constructor
  · intro h
    cases h with
    | call _ w₁ _ _ _ a x _ he h => exact ⟨a, x, w₁, he, h⟩
  · intro h
    obtain ⟨a, x, w₁, he, h⟩ := h
    exact .call _ _ _ _ _ a x _ he h

/-- A sequence runs through its first part, or ends with its error. -/
theorem runs_bind {p : Program I α} {f : α → Program I β} : Runs effect w (p.bind f) r w' ↔
    (∃ a w₁, Runs effect w p (.ok a) w₁ ∧ Runs effect w₁ (f a) r w') ∨
      ∃ e, Runs effect w p (.error e) w' ∧ r = .error e := by
  induction p generalizing w with
  | done a => simp [Program.bind, and_assoc]
  | raise e => simp [Program.bind, and_assoc, and_comm]
  | call o next ih =>
    simp only [Program.bind, runs_call, ih]
    constructor
    · intro h
      obtain ⟨a, x, w₁, he, ⟨b, w₂, hp, hf⟩ | ⟨e, hp, hr⟩⟩ := h
      · exact Or.inl ⟨b, w₂, ⟨a, x, w₁, he, hp⟩, hf⟩
      · exact Or.inr ⟨e, ⟨a, x, w₁, he, hp⟩, hr⟩
    · intro h
      obtain ⟨b, w₂, ⟨a, x, w₁, he, hp⟩, hf⟩ | ⟨e, ⟨a, x, w₁, he, hp⟩, hr⟩ := h
      · exact ⟨a, x, w₁, he, Or.inl ⟨b, w₂, hp, hf⟩⟩
      · exact ⟨a, x, w₁, he, Or.inr ⟨e, hp, hr⟩⟩

theorem runs_bind_ok {p : Program I α} {f : α → Program I β} {b : β} : Runs effect w (p.bind f) (.ok b) w' ↔
    ∃ a w₁, Runs effect w p (.ok a) w₁ ∧ Runs effect w₁ (f a) (.ok b) w' := by
  rw [runs_bind]
  simp

theorem runs_handle {p : Program I β} {c : I.Err → Program I β} : Runs effect w (p.handle c) r w' ↔
    (∃ a, Runs effect w p (.ok a) w' ∧ r = .ok a) ∨ ∃ e w₁, Runs effect w p (.error e) w₁ ∧
      Runs effect w₁ (c e) r w' := by
  induction p generalizing w with
  | done a => simp [Program.handle, and_assoc, and_comm]
  | raise e => simp [Program.handle, and_assoc]
  | call o next ih =>
    simp only [Program.handle, runs_call, ih]
    constructor
    · intro h
      obtain ⟨a, x, w₁, he, ⟨b, hp, hr⟩ | ⟨e, w₂, hp, hc⟩⟩ := h
      · exact Or.inl ⟨b, ⟨a, x, w₁, he, hp⟩, hr⟩
      · exact Or.inr ⟨e, w₂, ⟨a, x, w₁, he, hp⟩, hc⟩
    · intro h
      obtain ⟨b, ⟨a, x, w₁, he, hp⟩, hr⟩ | ⟨e, w₂, ⟨a, x, w₁, he, hp⟩, hc⟩ := h
      · exact ⟨a, x, w₁, he, Or.inl ⟨b, hp, hr⟩⟩
      · exact ⟨a, x, w₁, he, Or.inr ⟨e, w₂, hp, hc⟩⟩

theorem runs_perform {o : I.Op} {r : Except I.Err (I.Reply o)} :
    Runs effect w (perform o) r w' ↔ ∃ a, effect w o a = some (r, w') := by
  unfold perform
  rw [runs_call]
  constructor
  · intro h
    obtain ⟨a, x, w₁, he, h⟩ := h
    cases x <;> simp at h <;> obtain ⟨rfl, rfl⟩ := h <;> exact ⟨a, he⟩
  · intro h
    obtain ⟨a, he⟩ := h
    refine ⟨a, r, w', he, ?_⟩
    cases r <;> simp

/-- When the outside answers by the call alone, a program has one outcome. -/
theorem Runs.det {p : Program I β} {w₁ w₂ : W} {r₁ r₂ : Except I.Err β}
    (hdet : ∀ w o a a', effect w o a = effect w o a') (h₁ : Runs effect w p r₁ w₁) (h₂ : Runs effect w p r₂ w₂) :
    r₁ = r₂ ∧ w₁ = w₂ := by
  induction h₁ with
  | done w a =>
    obtain ⟨rfl, rfl⟩ := runs_done.mp h₂
    exact ⟨rfl, rfl⟩
  | raise w e =>
    obtain ⟨rfl, rfl⟩ := runs_raise.mp h₂
    exact ⟨rfl, rfl⟩
  | call w w' w₁ o next a x r he _ ih =>
    obtain ⟨a', x', w'', he', h₂⟩ := runs_call.mp h₂
    rw [hdet w o a' a, he] at he'
    cases he'
    exact ih h₂

/-- What every call of a kind keeps, a program of such calls keeps. -/
theorem Only.runs_invariant {S : I.Op → Prop} {p : Program I β} (hp : p.Only S) {J : W → Prop}
    (hS : ∀ w o a x w', S o → effect w o a = some (x, w') → J w → J w') (h : Runs effect w p r w') (h0 : J w) :
    J w' := by
  induction h with
  | done => exact h0
  | raise => exact h0
  | call w w₁ w' o next a x r he _ ih => exact ih (hp.2 x) (hS w o a x w₁ hp.1 he h0)

/-- Calls whose replies do not depend on the world. -/
theorem Only.runs_anywhere {S : I.Op → Prop} {p : Program I β} {w₁ : W} (hp : p.Only S)
    (hS : ∀ w o a x w', S o → effect w o a = some (x, w') → ∀ w₁, effect w₁ o a = some (x, w₁))
    (h : Runs effect w p r w') : Runs effect w₁ p r w₁ := by
  induction h generalizing w₁ with
  | done => exact .done _ _
  | raise => exact .raise _ _
  | call w w₂ w' o next a x r he _ ih => exact .call _ _ _ _ _ a x _ (hS w o a x w₂ hp.1 he w₁) (ih (hp.2 x))

end Program
end Concurrent
