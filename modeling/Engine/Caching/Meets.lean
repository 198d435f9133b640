import Mathlib.Order.Lattice

/-! Programs with a state and exceptions: what a result satisfies while an invariant of
the state is kept. The state is kept by a throw, as an exception does not undo writes. -/
namespace Caching

/-- `E` is what is thrown. -/
abbrev Stateful (E S : Type) (A : Type) := ExceptT E (StateM S) A

section
variable {E S A B : Type} {I : S → Prop} {c : Stateful E S A} {p : Except E A → Prop} {q : Except E B → Prop}

/-- From each state of `I` the program ends in a state of `I`, with a result of `p`. -/
def Meets (I : S → Prop) (c : Stateful E S A) (p : Except E A → Prop) : Prop :=
  ∀ s, I s → p (c.run s).1 ∧ I (c.run s).2

/-- The result is `r`, from each state of `I`. -/
def Yields (I : S → Prop) (c : Stateful E S A) (r : Except E A) : Prop := Meets I c fun x => x = r

theorem Meets.imp {p' : Except E A → Prop} (h : Meets I c p) (hp : ∀ r, p r → p' r) : Meets I c p' := by
  intro s hs
  obtain ⟨hr, hI⟩ := h s hs
  exact ⟨hp _ hr, hI⟩

theorem Meets.pure {a : A} (h : p (.ok a)) : Meets I (pure a : Stateful E S A) p := fun _ hs => ⟨h, hs⟩

theorem Meets.throw {e : E} (h : p (.error e)) : Meets I (throw e : Stateful E S A) p := fun _ hs => ⟨h, hs⟩

theorem Meets.liftExcept {r : Except E A} (h : p r) : Meets I (liftM r : Stateful E S A) p := by
  intro s hs
  cases r with
  | ok a => exact ⟨h, hs⟩
  | error e => exact ⟨h, hs⟩

theorem Meets.get_bind {f : S → Stateful E S B} (h : ∀ s, I s → Meets I (f s) q) : Meets I (get >>= f) q :=
  fun s hs => h s hs s hs

/-- The same when the state that was read is not changed before it is used. -/
theorem Meets.get_bind_run {f : S → Stateful E S B} (h : ∀ s, I s → q ((f s).run s).1 ∧ I ((f s).run s).2) :
    Meets I (get >>= f) q := h

theorem Meets.modify_bind {f : S → S} {d : Stateful E S B} (hf : ∀ s, I s → I (f s)) (h : Meets I d q) :
    Meets I (modify f >>= fun _ => d) q := fun s hs => h (f s) (hf s hs)

theorem run_bind (c : Stateful E S A) (f : A → Stateful E S B) (s : S) :
    (c >>= f).run s = ExceptT.bindCont f (c.run s).1 (c.run s).2 := rfl

theorem run_bind_ok {f : A → Stateful E S B} {s s' : S} {a : A} (h : c.run s = (.ok a, s')) :
    (c >>= f).run s = (f a).run s' := by
  rw [run_bind, h]
  rfl

theorem run_get_bind (f : S → Stateful E S B) (s : S) : (get >>= f).run s = (f s).run s := rfl

theorem run_modify_bind (f : S → S) (d : Stateful E S B) (s : S) : (modify f >>= fun _ => d).run s = d.run (f s) := rfl

theorem Meets.bind {f : A → Stateful E S B} (hc : Meets I c p) (hok : ∀ a, p (.ok a) → Meets I (f a) q)
    (herror : ∀ e, p (.error e) → q (.error e)) : Meets I (c >>= f) q := by
  intro s hs
  obtain ⟨hr, hI⟩ := hc s hs
  rw [run_bind]
  cases hresult : (c.run s).1 with
  | ok a => exact hok a (hresult ▸ hr) _ hI
  | error e => exact ⟨herror e (hresult ▸ hr), hI⟩

/-- A handler continues in the state the throw left. -/
def recover (handler : E → Stateful E S A) : Except E A → StateM S (Except E A)
  | .ok a => pure (.ok a)
  | .error e => handler e

theorem run_tryCatch (c : Stateful E S A) (handler : E → Stateful E S A) (s : S) :
    (tryCatch c handler : Stateful E S A).run s = recover handler (c.run s).1 (c.run s).2 := by
  have hbind : (tryCatch c handler : Stateful E S A) = (c.run >>= recover handler : StateM S (Except E A)) := by
    show ExceptT.tryCatch c handler = _
    unfold ExceptT.tryCatch
    congr 1
  rw [hbind]
  rfl

theorem run_tryCatch_ok {handler : E → Stateful E S A} {s s' : S} {a : A} (h : c.run s = (.ok a, s')) :
    (tryCatch c handler : Stateful E S A).run s = (.ok a, s') := by
  rw [run_tryCatch, h]
  rfl

theorem run_tryCatch_error {handler : E → Stateful E S A} {s s' : S} {e : E} (h : c.run s = (.error e, s')) :
    (tryCatch c handler : Stateful E S A).run s = (handler e).run s' := by
  rw [run_tryCatch, h]
  rfl

theorem Meets.tryCatch {handler : E → Stateful E S A} {q : Except E A → Prop} (hc : Meets I c p)
    (hok : ∀ a, p (.ok a) → q (.ok a)) (herror : ∀ e, p (.error e) → Meets I (handler e) q) :
    Meets I (tryCatch c handler) q := by
  intro s hs
  obtain ⟨hr, hI⟩ := hc s hs
  rw [run_tryCatch]
  cases hresult : (c.run s).1 with
  | ok a => exact ⟨hok a (hresult ▸ hr), hI⟩
  | error e => exact herror e (hresult ▸ hr) _ hI

/-- The same calls for a program whose result is known. -/
theorem Yields.bind {a : A} {f : A → Stateful E S B} (hc : Yields I c (.ok a)) (hf : Meets I (f a) q) :
    Meets I (c >>= f) q :=
  Meets.bind hc (fun _ h => (Except.ok.inj h) ▸ hf) fun _ h => absurd h (by simp)

theorem Yields.bind_error {e : E} {f : A → Stateful E S B} (hc : Yields I c (.error e)) (he : q (.error e)) :
    Meets I (c >>= f) q :=
  Meets.bind hc (fun _ h => absurd h (by simp)) fun _ h => (Except.error.inj h) ▸ he

/-- A read through a cache: `cached` is a hit, and what was read is stored. -/
def readThrough (cached : S → Option A) (read : Stateful E S A) (store : A → S → S) : Stateful E S A := do
  match cached (← get) with
  | some a => return a
  | none => do
    let a ← read
    modify (store a)
    return a

/-- A cache whose hits agree with the source is not seen in the results. -/
theorem Meets.readThrough {cached : S → Option A} {store : A → S → S}
    (hit : ∀ s, I s → ∀ a, cached s = some a → p (.ok a))
    (hread : Meets I c p) (hstore : ∀ s a, I s → p (.ok a) → I (store a s)) :
    Meets I (readThrough cached c store) p := by
  unfold Caching.readThrough
  apply Meets.get_bind
  intro s hs
  cases hcached : cached s with
  | some a => exact Meets.pure (hit s hs a hcached)
  | none =>
    apply Meets.bind hread
    · intro a ha
      exact Meets.modify_bind (fun s hI => hstore s a hI ha) (Meets.pure ha)
    · exact fun _ h => h

theorem run_liftM (r : Except E A) (s : S) : (liftM r : Stateful E S A).run s = (r, s) := by
  cases r with
  | ok a => rfl
  | error e => rfl

theorem run_readThrough_hit {cached : S → Option A} {store : A → S → S} {s : S} {a : A} (h : cached s = some a) :
    (readThrough cached c store).run s = (.ok a, s) := by
  unfold Caching.readThrough
  rw [run_get_bind, h]
  rfl

/-- What was read is stored, unless the read throws. -/
def stored (store : A → S → S) : Except E A → S → S
  | .ok a, s => store a s
  | .error _, s => s

theorem run_readThrough_miss {cached : S → Option A} {store : A → S → S} {s : S} (h : cached s = none) :
    (readThrough cached c store).run s = ((c.run s).1, stored store (c.run s).1 (c.run s).2) := by
  unfold Caching.readThrough
  rw [run_get_bind, h]
  show (c >>= fun a => modify (store a) >>= fun _ => Pure.pure a).run s = _
  rw [run_bind]
  cases (c.run s).1 with
  | ok a => rfl
  | error e => rfl

end

/-! ### Results that do not depend on the state -/

section
variable {E S A B M : Type} {I : M → S → Prop} {c : Stateful E S A}

/-- One result, from every state of every invariant of a family, each of which is kept. -/
def Settled (I : M → S → Prop) (c : Stateful E S A) : Prop := ∃ r, ∀ m, Yields (I m) c r

namespace Settled

theorem pure (a : A) : Settled I (Pure.pure a : Stateful E S A) := ⟨.ok a, fun _ => Meets.pure rfl⟩

theorem throw (e : E) : Settled I (MonadExcept.throw e : Stateful E S A) := ⟨.error e, fun _ => Meets.throw rfl⟩

theorem liftExcept (r : Except E A) : Settled I (liftM r : Stateful E S A) := ⟨r, fun _ => Meets.liftExcept rfl⟩

theorem bind {f : A → Stateful E S B} (hc : Settled I c) (hf : ∀ a, Settled I (f a)) : Settled I (c >>= f) := by
  obtain ⟨r, hc⟩ := hc
  cases r with
  | ok a =>
    obtain ⟨r', hf⟩ := hf a
    exact ⟨r', fun m => (hc m).bind (hf m)⟩
  | error e => exact ⟨.error e, fun m => (hc m).bind_error rfl⟩

theorem tryCatch {handler : E → Stateful E S A} (hc : Settled I c) (hhandler : ∀ e, Settled I (handler e)) :
    Settled I (MonadExcept.tryCatch c handler) := by
  obtain ⟨r, hc⟩ := hc
  cases r with
  | ok a =>
    refine ⟨.ok a, fun m => Meets.tryCatch (hc m) (fun _ h => h) fun e h => ?_⟩
    cases h
  | error e =>
    obtain ⟨r', hh⟩ := hhandler e
    refine ⟨r', fun m => Meets.tryCatch (hc m) (fun _ h => ?_) fun _ h => (Except.error.inj h) ▸ hh m⟩
    cases h

/-- The result is that from any state of an invariant of the family. -/
theorem yields {m₀ : M} {s₀ : S} (h : Settled I c) (h₀ : I m₀ s₀) (m : M) : Yields (I m) c (c.run s₀).1 := by
  obtain ⟨r, hc⟩ := h
  rw [(hc m₀ s₀ h₀).1]
  exact hc m

/-- A cache is not seen in the results when its entries are what a read from one state gives. -/
theorem readThrough {m₀ : M} {s₀ : S} (h₀ : I m₀ s₀) {cached : S → Option A} {store : A → S → S} (hc : Settled I c)
    (hit : ∀ m s a, I m s → cached s = some a → (c.run s₀).1 = .ok a)
    (hstore : ∀ m s a, I m s → (c.run s₀).1 = .ok a → I m (store a s)) :
    Settled I (readThrough cached c store) :=
  ⟨(c.run s₀).1, fun m => Meets.readThrough (fun s hs a ha => (hit m s a hs ha).symm) (hc.yields h₀ m)
    fun s a hs ha => hstore m s a hs ha.symm⟩

end Settled
end
end Caching
