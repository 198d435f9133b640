import Engine.Concurrent.Machine
import Engine.Concurrent.Sequential

/-! One program run on its own, where the outside decides every call by the call alone; and
programs of an interface among those of a larger one. -/
namespace Concurrent
variable {I : Interface} {W α β : Type}

abbrev Oracle (I : Interface) := (o : I.Op) → Except I.Err (I.Choice o)

namespace Program

/-- What comes out, and the world after it. -/
def runWith (effect : Effects I W) (x : Oracle I) : Program I α → W → Option (Except I.Err α × W)
  | done a, w => some (.ok a, w)
  | raise e, w => some (.error e, w)
  | call o next, w => (effect w o (x o)).bind fun r => (next r.1).runWith effect x r.2

section
variable {effect : Effects I W} {x : Oracle I} {p : Program I α} {f : α → Program I β} {w w' : W} {a : α} {e : I.Err}

@[simp] theorem runWith_done : (done a : Program I α).runWith effect x w = some (.ok a, w) := rfl

@[simp] theorem runWith_raise : (raise e : Program I α).runWith effect x w = some (.error e, w) := rfl

theorem runWith_perform (o : I.Op) : (perform o).runWith effect x w = effect w o (x o) := by
  unfold perform runWith
  cases effect w o (x o) with
  | none => rfl
  | some r =>
    obtain ⟨r, w'⟩ := r
    cases r with
    | ok b => rfl
    | error e => rfl

theorem runWith_bind_ok (h : p.runWith effect x w = some (.ok a, w')) :
    (p.bind f).runWith effect x w = (f a).runWith effect x w' := by
  induction p generalizing w with
  | done b =>
    cases h
    rfl
  | raise e => cases h
  | call o next ih =>
    obtain ⟨⟨r, w₁⟩, hr, hrest⟩ := Option.bind_eq_some_iff.mp h
    show ((effect w o (x o)).bind fun r => ((next r.1).bind f).runWith effect x r.2) = _
    rw [hr]
    exact ih r hrest

theorem runWith_bind_error (h : p.runWith effect x w = some (.error e, w')) :
    (p.bind f).runWith effect x w = some (.error e, w') := by
  induction p generalizing w with
  | done b => cases h
  | raise e' =>
    cases h
    rfl
  | call o next ih =>
    obtain ⟨⟨r, w₁⟩, hr, hrest⟩ := Option.bind_eq_some_iff.mp h
    show ((effect w o (x o)).bind fun r => ((next r.1).bind f).runWith effect x r.2) = _
    rw [hr]
    exact ih r hrest

private theorem runWith_attempt {r : Except I.Err α} (h : p.runWith effect x w = some (r, w')) :
    p.attempt.runWith effect x w = some (.ok r, w') := by
  induction p generalizing w with
  | done b =>
    cases h
    rfl
  | raise e' =>
    cases h
    rfl
  | call o next ih =>
    obtain ⟨⟨r', w₁⟩, hr, hrest⟩ := Option.bind_eq_some_iff.mp h
    show ((effect w o (x o)).bind fun r => ((next r.1).attempt).runWith effect x r.2) = _
    rw [hr]
    exact ih r' hrest

/-- Programs that are settled one after the other. -/
theorem runWith_settle {g : β → Program I α} {step : β → W → W} {result : β → Except I.Err α} {bs : List β}
    (h : ∀ b ∈ bs, ∀ w, (g b).runWith effect x w = some (result b, step b w)) :
    (settle g bs).runWith effect x w = some (.ok (bs.map result), bs.foldl (fun w b => step b w) w) := by
  induction bs generalizing w with
  | nil => rfl
  | cons b bs ih =>
    have hb := runWith_attempt (h b List.mem_cons_self w)
    have hbs := ih (w := step b w) fun b hb => h b (List.mem_cons_of_mem _ hb)
    show ((g b).attempt.bind fun r => (settle g bs).bind fun rs => done (r :: rs)).runWith effect x w = _
    rw [runWith_bind_ok hb, runWith_bind_ok hbs]
    rfl

/-- Programs that leave the world as it is, one after the other. -/
theorem runWith_collect {g : β → Program I α} {result : β → Except I.Err α} {bs : List β}
    (h : ∀ b ∈ bs, (g b).runWith effect x w = some (result b, w)) :
    (collect g bs).runWith effect x w = some (bs.mapM result, w) := by
  induction bs with
  | nil => rfl
  | cons b bs ih =>
    have hb := h b List.mem_cons_self
    have hbs := ih fun b hb => h b (List.mem_cons_of_mem _ hb)
    show ((g b).bind fun a => (collect g bs).bind fun as => done (a :: as)).runWith effect x w = _
    rw [List.mapM_cons]
    cases hr : result b with
    | error e =>
      rw [hr] at hb
      exact runWith_bind_error hb
    | ok a =>
      rw [hr] at hb
      rw [runWith_bind_ok hb]
      cases hrs : bs.mapM result with
      | error e =>
        rw [hrs] at hbs
        exact runWith_bind_error hbs
      | ok as =>
        rw [hrs] at hbs
        exact runWith_bind_ok hbs

end
end Program

/-! ### Lists of results -/

section
variable {γ ε : Type} {f : α → Except ε β} {l : List α}

/-- A list is mapped if each of its elements is, and what comes out is theirs. -/
theorem mapM_of_forall {key : β → γ} {key' : α → γ} {Q : β → Prop}
    (h : ∀ a ∈ l, ∃ b, f a = .ok b ∧ key b = key' a ∧ Q b) :
    ∃ bs, l.mapM f = .ok bs ∧ bs.map key = l.map key' ∧ ∀ b ∈ bs, Q b := by
  induction l with
  | nil => exact ⟨[], rfl, rfl, fun _ h => absurd h List.not_mem_nil⟩
  | cons a l ih =>
    obtain ⟨b, hb, hkey, hQ⟩ := h a List.mem_cons_self
    obtain ⟨bs, hbs, hkeys, hQs⟩ := ih fun a ha => h a (List.mem_cons_of_mem _ ha)
    refine ⟨b :: bs, ?_, ?_, List.forall_mem_cons.mpr ⟨hQ, hQs⟩⟩
    · rw [List.mapM_cons, hb, hbs]
      rfl
    · rw [List.map_cons, List.map_cons, hkey, hkeys]

theorem exists_of_mapM {bs : List β} (h : l.mapM f = .ok bs) : ∀ a ∈ l, ∃ b, f a = .ok b := by
  induction l generalizing bs with
  | nil => exact fun _ ha => absurd ha List.not_mem_nil
  | cons a l ih =>
    rw [List.mapM_cons] at h
    cases ha : f a with
    | error e =>
      rw [ha] at h
      cases h
    | ok b =>
      rw [ha] at h
      cases hl : l.mapM f with
      | error e =>
        rw [hl] at h
        cases h
      | ok bs' => exact List.forall_mem_cons.mpr ⟨⟨b, ha⟩, ih hl⟩

end

/-! ### One program of a machine -/

section
variable {M : Machine I α} {G : Guard M} {s : State M} {kind : M.Kind} {p : Program I α} {x : Oracle I}
  {r : Except I.Err α} {w w' : M.World}

/-- A thread that is left to run alone takes the machine where it goes. -/
theorem reachable_of_thread {i : ℕ} (hi : s.threads[i]? = some (kind, p)) (hG : ∀ s o, G.call s i o (x o) = true)
    (h : p.runWith M.effect x s.world = some (r, w')) : ∃ s', Reachable G s s' ∧ s'.world = w' := by
  induction p generalizing s with
  | done a =>
    cases h
    exact ⟨s, .refl, rfl⟩
  | raise e =>
    cases h
    exact ⟨s, .refl, rfl⟩
  | call o next ih =>
    obtain ⟨⟨r₁, w₁⟩, hr, hrest⟩ := Option.bind_eq_some_iff.mp h
    have hstep : s.step G (.call i x) = some (s.replied i kind (next r₁) ⟨i, o, x o, r₁⟩ w₁) := by
      simp only [State.step, hi, hG, if_true, hr, Option.map_some]
    have hthread : (s.replied i kind (next r₁) ⟨i, o, x o, r₁⟩ w₁).threads[i]? = some (kind, next r₁) :=
      List.getElem?_set_self (List.getElem?_eq_some_iff.mp hi).1
    obtain ⟨s', hreach, hworld⟩ := ih r₁ hthread hrest
    exact ⟨s', (Reachable.refl.step hstep).trans hreach, hworld⟩

theorem reachable_of_runWith (kind : M.Kind) (hstart : M.start s.world kind = some (p, w))
    (hkind : G.start s kind = true)
    (hG : ∀ s i o, G.call s i o (x o) = true) (h : p.runWith M.effect x w = some (r, w')) :
    ∃ s', Reachable G s s' ∧ s'.world = w' := by
  have hstep : s.step G (.start kind) = some (s.spawned kind p w) := by
    simp only [State.step, hkind, if_true, hstart, Option.map_some]
  have hthread : (s.spawned kind p w).threads[s.threads.length]? = some (kind, p) := List.getElem?_concat_length
  obtain ⟨s', hreach, hworld⟩ := reachable_of_thread hthread (fun s o => hG s _ o) h
  exact ⟨s', (Reachable.refl.step hstep).trans hreach, hworld⟩

end

/-! ### A larger interface -/

/-- An interface with more calls. -/
abbrev Interface.extend (I : Interface) (Op : Type) (Reply Choice : Op → Type) : Interface :=
  ⟨I.Op ⊕ Op, Sum.elim I.Reply Reply, Sum.elim I.Choice Choice, I.Err⟩

namespace Program
variable {Op : Type} {Reply Choice : Op → Type}

/-- The same program, which makes none of the other calls. -/
def extend : Program I α → Program (I.extend Op Reply Choice) α
  | done a => done a
  | raise e => raise e
  | call o next => call (.inl o) fun r => (next r).extend

theorem runWith_extend {effect : Effects I W} {x : Oracle I} {effect' : Effects (I.extend Op Reply Choice) W}
    {x' : Oracle (I.extend Op Reply Choice)} (h : ∀ w o, effect' w (.inl o) (x' (.inl o)) = effect w o (x o))
    {p : Program I α} {w : W} : (p.extend : Program (I.extend Op Reply Choice) α).runWith effect' x' w =
      p.runWith effect x w := by
  induction p generalizing w with
  | done a => rfl
  | raise e => rfl
  | call o next ih =>
    show ((effect' w (.inl o) (x' (.inl o))).bind fun r => ((next r.1).extend).runWith effect' x' r.2) =
      (effect w o (x o)).bind fun r => (next r.1).runWith effect x r.2
    rw [h]
    congr 1
    funext r
    exact ih r.1

end Program
end Concurrent
