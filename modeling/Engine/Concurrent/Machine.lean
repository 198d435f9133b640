import Mathlib.Data.List.Basic
import Mathlib.Tactic.SplitIfs
import Engine.Concurrent.Protocol

/-! Any number of programs over one shared world. A step starts a program or
performs the next call of one of them; a schedule is a list of such moves. -/
namespace Concurrent

structure Machine (I : Interface) (α : Type) where
  World : Type
  /-- What a program is started for. -/
  Kind : Type
  /-- Perform a call atomically. `none`: the outside world cannot answer so here. -/
  effect : World → (o : I.Op) → Except I.Err (I.Choice o) → Option (Except I.Err (I.Reply o) × World)
  start : World → Kind → Option (Program I α × World)

structure Event (I : Interface) where
  thread : ℕ
  op : I.Op
  answer : Except I.Err (I.Choice op)
  reply : Except I.Err (I.Reply op)

variable {I : Interface} {α : Type}

/-- The trace lists the calls made, the last one first. Finished programs stay. -/
structure State (M : Machine I α) where
  world : M.World
  threads : List (M.Kind × Program I α)
  trace : List (Event I)

inductive Move (M : Machine I α)
  | start (k : M.Kind)
  | call (i : ℕ) (oracle : (o : I.Op) → Except I.Err (I.Choice o))

/-- Which moves a family of runs is restricted to. -/
structure Guard (M : Machine I α) where
  start : State M → M.Kind → Bool
  call : State M → ℕ → (o : I.Op) → Except I.Err (I.Choice o) → Bool

namespace State
variable {M : Machine I α}

def initial (w : M.World) : State M := ⟨w, [], []⟩

def spawned (s : State M) (k : M.Kind) (p : Program I α) (w : M.World) : State M :=
  ⟨w, s.threads ++ [(k, p)], s.trace⟩

def replied (s : State M) (i : ℕ) (k : M.Kind) (p : Program I α) (e : Event I) (w : M.World) : State M :=
  ⟨w, s.threads.set i (k, p), e :: s.trace⟩

/-- No program has a call left to make. -/
def quiescent (s : State M) : Bool := s.threads.all fun t => t.2.isFinished

/-- The kind and the result of a thread that returned. -/
def returned (s : State M) (i : ℕ) : Option (M.Kind × α) :=
  s.threads[i]?.bind fun t => t.2.result?.map fun a => (t.1, a)

def step (G : Guard M) (s : State M) : Move M → Option (State M)
  | .start k =>
    if G.start s k then (M.start s.world k).map fun r => s.spawned k r.1 r.2 else none
  | .call i oracle =>
    match s.threads[i]? with
    | some (k, .call o next) =>
      if G.call s i o (oracle o) then
        (M.effect s.world o (oracle o)).map fun r =>
          s.replied i k (next r.1) ⟨i, o, oracle o, r.1⟩ r.2
      else none
    | _ => none

def run (G : Guard M) (s : State M) : List (Move M) → Option (State M)
  | [] => some s
  | m :: ms => (s.step G m).bind fun s => s.run G ms

end State

section
variable {M : Machine I α} {G : Guard M} {s₀ s s' : State M}

inductive Reachable (G : Guard M) (s₀ : State M) : State M → Prop
  | refl : Reachable G s₀ s₀
  | step {s s' : State M} {m : Move M} (h : Reachable G s₀ s) (hs : s.step G m = some s') :
      Reachable G s₀ s'

/-- A run from `s₀` with the number of its steps that pass a test. -/
inductive Counted (G : Guard M) (test : State M → State M → Bool) (s₀ : State M) : ℕ → State M → Prop
  | refl : Counted G test s₀ 0 s₀
  | step {n : ℕ} {s s' : State M} {m : Move M} (h : Counted G test s₀ n s) (hs : s.step G m = some s') :
      Counted G test s₀ (if test s s' then n + 1 else n) s'

theorem Counted.reachable {test : State M → State M → Bool} {n : ℕ} (h : Counted G test s₀ n s) :
    Reachable G s₀ s := by
  induction h with
  | refl => exact .refl
  | step _ hs ih => exact ih.step hs

theorem Reachable.trans {s₁ s₂ : State M} (h : Reachable G s₀ s₁) (h' : Reachable G s₁ s₂) :
    Reachable G s₀ s₂ := by
  induction h' with
  | refl => exact h
  | step _ hs ih => exact ih.step hs

theorem reachable_of_run {ms : List (Move M)} (h : s.run G ms = some s') : Reachable G s s' := by
  induction ms generalizing s with
  | nil =>
    cases Option.some.inj h
    exact .refl
  | cons m ms ih =>
    obtain ⟨t, ht, hr⟩ := Option.bind_eq_some_iff.mp h
    exact (Reachable.refl.step ht).trans (ih hr)

/-- A schedule whose end passes a check leads to a reachable state that does. -/
theorem exists_reachable_of_run (G : Guard M) (w : M.World) (ms : List (Move M)) (check : State M → Bool)
    (h : ((State.initial w).run G ms).any check = true) :
    ∃ s', Reachable G (State.initial w) s' ∧ check s' = true := by
  cases hr : (State.initial w).run G ms with
  | none => simp [hr] at h
  | some s' => exact ⟨s', reachable_of_run hr, by simpa [hr] using h⟩

/-- A schedule in two parts, with a check of both states it leads to. -/
theorem exists_reachable_of_runs (G : Guard M) (w : M.World) (ms ms' : List (Move M))
    (check : State M → State M → Bool)
    (h : ((State.initial w).run G ms).any (fun s => (s.run G ms').any (check s)) = true) :
    ∃ s s', Reachable G (State.initial w) s ∧ Reachable G s s' ∧ check s s' = true := by
  obtain ⟨s, hs, hcheck⟩ := exists_reachable_of_run G w ms (fun s => (s.run G ms').any (check s)) h
  obtain ⟨s', hs', hcheck⟩ := (Option.any_eq_true _ _).mp hcheck
  exact ⟨s, s', hs, reachable_of_run hs', hcheck⟩

/-- What a call of thread `i` can do. -/
theorem call_cases {i : ℕ} {x : (o : I.Op) → Except I.Err (I.Choice o)} (h : s.step G (.call i x) = some s') :
    ∃ k o next r w, s.threads[i]? = some (k, .call o next) ∧ G.call s i o (x o) = true ∧
      M.effect s.world o (x o) = some (r, w) ∧ s' = s.replied i k (next r) ⟨i, o, x o, r⟩ w := by
  simp only [State.step] at h
  split at h
  case h_2 => cases h
  case h_1 k o next hi =>
    split at h
    case isFalse => cases h
    case isTrue hg =>
      obtain ⟨⟨r, w⟩, hr, rfl⟩ := Option.map_eq_some_iff.mp h
      exact ⟨k, o, next, r, w, hi, hg, hr, rfl⟩

/-- What a step can do. -/
theorem step_cases {m : Move M} (h : s.step G m = some s') :
    (∃ k p w, G.start s k = true ∧ M.start s.world k = some (p, w) ∧ s' = s.spawned k p w) ∨
    (∃ i k o next a r w, s.threads[i]? = some (k, .call o next) ∧ G.call s i o a = true ∧
      M.effect s.world o a = some (r, w) ∧ s' = s.replied i k (next r) ⟨i, o, a, r⟩ w) := by
  cases m with
  | start k =>
    simp only [State.step] at h
    split at h
    case isFalse => cases h
    case isTrue hg =>
      obtain ⟨⟨p, w⟩, hp, rfl⟩ := Option.map_eq_some_iff.mp h
      exact Or.inl ⟨k, p, w, hg, hp, rfl⟩
  | call i x =>
    obtain ⟨k, o, next, r, w, hi, hg, hr, rfl⟩ := call_cases h
    exact Or.inr ⟨i, k, o, next, x o, r, w, hi, hg, hr, rfl⟩

theorem trace_after_call {i : ℕ} {x : (o : I.Op) → Except I.Err (I.Choice o)} (h : s.step G (.call i x) = some s') :
    ∃ e, e.thread = i ∧ s'.trace = e :: s.trace := by
  obtain ⟨k, o, next, r, w, -, -, -, rfl⟩ := call_cases h
  exact ⟨⟨i, o, x o, r⟩, rfl, rfl⟩

end

/-- The summary of a thread's own calls in a trace. -/
def Protocol.after (P : Protocol I) (l : P.Local) (i : ℕ) : List (Event I) → P.Local
  | [] => l
  | e :: tr => if e.thread = i then P.next (P.after l i tr) e.op e.reply else P.after l i tr

/-- A protocol for the programs of a machine: where each kind starts and how it ends. -/
structure Contract (M : Machine I α) extends Protocol I where
  init : M.Kind → Local
  ends : Local → Except I.Err α → Prop
  answers : ∀ w o a r w', M.effect w o a = some (r, w') → possible o r
  starts : ∀ w k (p : Program I α) w', M.start w k = some (p, w') → p.Follows toProtocol ends (init k)

section
variable {M : Machine I α} (C : Contract M) {G : Guard M} {s₀ s s' : State M}

/-- The summary of thread `i`, if it was started. -/
def State.localOf (s : State M) (i : ℕ) : Option C.Local :=
  s.threads[i]?.map fun t => C.after (C.init t.1) i s.trace

/-- Every thread does what its kind's contract says, from where it is. -/
structure State.Conforms (s : State M) : Prop where
  started : ∀ e ∈ s.trace, e.thread < s.threads.length
  follows : ∀ i k (p : Program I α), s.threads[i]? = some (k, p) →
    p.Follows C.toProtocol C.ends (C.after (C.init k) i s.trace)

theorem Protocol.after_of_not_mem (P : Protocol I) (l : P.Local) (i : ℕ) (tr : List (Event I))
    (h : ∀ e ∈ tr, e.thread ≠ i) : P.after l i tr = l := by
  induction tr with
  | nil => rfl
  | cons e tr ih =>
    rw [Protocol.after, if_neg (h e List.mem_cons_self)]
    exact ih fun e he => h e (List.mem_cons_of_mem _ he)

/-- What every call keeps of the summary is kept. -/
theorem Protocol.after_keeps (P : Protocol I) {J : P.Local → Prop} {l : P.Local} (h0 : J l)
    (hnext : ∀ l o r, J l → J (P.next l o r)) (i : ℕ) (tr : List (Event I)) : J (P.after l i tr) := by
  induction tr with
  | nil => exact h0
  | cons e tr ih =>
    rw [Protocol.after]
    split_ifs
    · exact hnext _ _ _ ih
    · exact ih

theorem conforms_initial (w : M.World) : (State.initial w : State M).Conforms C :=
  ⟨by simp [State.initial], by simp [State.initial]⟩

theorem State.Conforms.spawned (h : s.Conforms C) {k : M.Kind} {p : Program I α} {w : M.World}
    (hp : M.start s.world k = some (p, w)) : (s.spawned k p w).Conforms C := by
  refine ⟨fun e he => ?_, fun i k' p' hi => ?_⟩
  · have := h.started e he
    simp only [State.spawned, List.length_append, List.length_singleton]
    omega
  · simp only [State.spawned] at hi ⊢
    rcases Nat.lt_or_ge i s.threads.length with hlt | hge
    · exact h.follows i k' p' (by simpa [List.getElem?_append_left hlt] using hi)
    · rw [List.getElem?_append_right hge] at hi
      obtain ⟨hi0, hkp⟩ := List.getElem?_eq_some_iff.mp hi
      have hieq : i = s.threads.length := by simp at hi0; omega
      subst hieq
      simp only [Nat.sub_self, List.getElem_cons_zero, Prod.mk.injEq] at hkp
      obtain ⟨rfl, rfl⟩ := hkp
      rw [Protocol.after_of_not_mem _ _ _ _ fun e he => Nat.ne_of_lt (h.started e he)]
      exact C.starts _ _ _ _ hp

theorem State.Conforms.allowed (h : s.Conforms C) {i : ℕ} {k : M.Kind} {o : I.Op}
    {next : Except I.Err (I.Reply o) → Program I α} (hi : s.threads[i]? = some (k, .call o next)) :
    C.allowed (C.after (C.init k) i s.trace) o := (h.follows i k _ hi).1

theorem State.Conforms.replied (h : s.Conforms C) {i : ℕ} {k : M.Kind} {o : I.Op}
    {next : Except I.Err (I.Reply o) → Program I α} (hi : s.threads[i]? = some (k, .call o next))
    (a : Except I.Err (I.Choice o)) {r : Except I.Err (I.Reply o)} (hr : C.possible o r) (w : M.World) :
    (s.replied i k (next r) ⟨i, o, a, r⟩ w).Conforms C := by
  have hlt := (List.getElem?_eq_some_iff.mp hi).1
  refine ⟨fun e he => ?_, fun j k' p' hj => ?_⟩
  · simp only [State.replied, List.length_set] at he ⊢
    rcases List.mem_cons.mp he with rfl | he
    · exact hlt
    · exact h.started e he
  · simp only [State.replied, Protocol.after] at hj ⊢
    by_cases hij : i = j
    · subst hij
      rw [List.getElem?_set_self hlt] at hj
      cases Option.some.inj hj
      simpa using (h.follows i k _ hi).2 r hr
    · rw [List.getElem?_set_ne hij] at hj
      simpa [hij] using h.follows j k' p' hj

theorem Reachable.conforms {w : M.World} (h : Reachable G (State.initial w) s) : s.Conforms C := by
  induction h with
  | refl => exact conforms_initial C w
  | step _ hs ih =>
    obtain ⟨k, p, w, _, hp, rfl⟩ | ⟨i, k, o, next, a, r, w, hi, _, he, rfl⟩ := step_cases hs
    · exact ih.spawned C hp
    · exact ih.replied C hi a (C.answers _ _ _ _ _ he) w

theorem localOf_eq {i : ℕ} {k : M.Kind} {p : Program I α} (hi : s.threads[i]? = some (k, p)) :
    s.localOf C i = some (C.after (C.init k) i s.trace) := by simp [State.localOf, hi]

theorem State.Conforms.localOf_spawned (h : s.Conforms C) (k : M.Kind) (p : Program I α) (w : M.World)
    (j : ℕ) : (s.spawned k p w).localOf C j =
      if j = s.threads.length then some (C.init k) else s.localOf C j := by
  unfold State.localOf
  simp only [State.spawned]
  split_ifs with hj
  · subst hj
    rw [List.getElem?_append_right (Nat.le_refl _)]
    simpa using Protocol.after_of_not_mem _ _ _ _ fun e he => Nat.ne_of_lt (h.started e he)
  · rcases Nat.lt_or_ge j s.threads.length with hlt | hge
    · rw [List.getElem?_append_left hlt]
    · rw [List.getElem?_eq_none (by simp; omega), List.getElem?_eq_none hge]

theorem localOf_replied {i : ℕ} {k : M.Kind} {o : I.Op} {p q : Program I α}
    (hi : s.threads[i]? = some (k, p)) (a : Except I.Err (I.Choice o)) (r : Except I.Err (I.Reply o))
    (w : M.World) (j : ℕ) : (s.replied i k q ⟨i, o, a, r⟩ w).localOf C j =
      if j = i then some (C.next (C.after (C.init k) i s.trace) o r) else s.localOf C j := by
  have hlt := (List.getElem?_eq_some_iff.mp hi).1
  unfold State.localOf
  simp only [State.replied]
  by_cases hj : j = i
  · subst hj
    simp [List.getElem?_set_self hlt, Protocol.after]
  · rw [List.getElem?_set_ne (Ne.symm hj)]
    simp [hj, Ne.symm hj, Protocol.after]

/-- A finished thread's summary is as its contract says. -/
theorem State.Conforms.ends_of_finished (h : s.Conforms C) {i : ℕ} {k : M.Kind} {p : Program I α}
    (hi : s.threads[i]? = some (k, p)) (hp : p.isFinished = true) :
    ∃ r, C.ends (C.after (C.init k) i s.trace) r := by
  have hf := h.follows i k p hi
  cases p with
  | done a => exact ⟨_, hf⟩
  | raise e => exact ⟨_, hf⟩
  | call o next => cases hp

/-- One performed call, seen from the contract: the world, the caller's summary
and the trace move, nothing else does. -/
structure Stepped (G : Guard M) (s s' : State M) (i : ℕ) (l : C.Local) (o : I.Op)
    (a : Except I.Err (I.Choice o)) (r : Except I.Err (I.Reply o)) : Prop where
  caller : s.localOf C i = some l
  allowed : C.allowed l o
  possible : C.possible o r
  granted : G.call s i o a = true
  performed : M.effect s.world o a = some (r, s'.world)
  self : s'.localOf C i = some (C.next l o r)
  others : ∀ j, j ≠ i → s'.localOf C j = s.localOf C j
  traced : s'.trace = ⟨i, o, a, r⟩ :: s.trace

/-- One started program, seen from the contract. -/
structure Started (G : Guard M) (s s' : State M) (n : ℕ) (k : M.Kind) : Prop where
  granted : G.start s k = true
  started : ∃ p, M.start s.world k = some (p, s'.world)
  unused : s.localOf C n = none
  silent : ∀ e ∈ s.trace, e.thread ≠ n
  self : s'.localOf C n = some (C.init k)
  others : ∀ j, j ≠ n → s'.localOf C j = s.localOf C j
  traced : s'.trace = s.trace

theorem stepped_replied (h : s.Conforms C) {i : ℕ} {k : M.Kind} {o : I.Op}
    {next : Except I.Err (I.Reply o) → Program I α} {a : Except I.Err (I.Choice o)} {r : Except I.Err (I.Reply o)}
    {w : M.World} (hi : s.threads[i]? = some (k, .call o next)) (hg : G.call s i o a = true)
    (he : M.effect s.world o a = some (r, w)) :
    Stepped C G s (s.replied i k (next r) ⟨i, o, a, r⟩ w) i (C.after (C.init k) i s.trace) o a r := by
  refine ⟨localOf_eq C hi, h.allowed C hi, C.answers _ _ _ _ _ he, hg, he, ?_, fun j hj => ?_, rfl⟩
  · simp [localOf_replied C hi a r w]
  · simp [localOf_replied C hi a r w, hj]

theorem State.Conforms.step (h : s.Conforms C) {m : Move M} (hs : s.step G m = some s') :
    (∃ n k, Started C G s s' n k) ∨ ∃ i l o a r, Stepped C G s s' i l o a r := by
  obtain ⟨k, p, w, hg, hp, rfl⟩ | ⟨i, k, o, next, a, r, w, hi, hg, he, rfl⟩ := step_cases hs
  · refine Or.inl ⟨s.threads.length, k, hg, ⟨p, hp⟩, by simp [State.localOf],
      fun e he => Nat.ne_of_lt (h.started e he), ?_, fun j hj => ?_, rfl⟩
    · simp [h.localOf_spawned C k p w]
    · simp [h.localOf_spawned C k p w, hj]
  · exact Or.inr ⟨i, _, o, a, r, stepped_replied C h hi hg he⟩

/-- What holds in one reachable state and is kept by every started program and every
performed call holds in every state reached from there. -/
theorem Reachable.invariant_from {w : M.World} {s₁ : State M} (h₁ : Reachable G (State.initial w) s₁)
    (h : Reachable G s₁ s) (Inv : State M → Prop) (h0 : Inv s₁)
    (hstart : ∀ s s' n k, Reachable G (State.initial w) s → Inv s → Started C G s s' n k → Inv s')
    (hcall : ∀ s s' i l o a r, Reachable G (State.initial w) s → Inv s → Stepped C G s s' i l o a r → Inv s') :
    Inv s := by
  induction h with
  | refl => exact h0
  | step hr hs ih =>
    have hr := h₁.trans hr
    obtain ⟨n, k, hst⟩ | ⟨i, l, o, a, r, hst⟩ := (hr.conforms C).step C hs
    · exact hstart _ _ n k hr ih hst
    · exact hcall _ _ i l o a r hr ih hst

/-- What holds at the start and is kept by every started program and every
performed call holds in every reachable state. -/
theorem Reachable.invariant {w : M.World} (h : Reachable G (State.initial w) s) (Inv : State M → Prop)
    (h0 : Inv (State.initial w))
    (hstart : ∀ s s' n k, Reachable G (State.initial w) s → Inv s → Started C G s s' n k → Inv s')
    (hcall : ∀ s s' i l o a r, Reachable G (State.initial w) s → Inv s → Stepped C G s s' i l o a r → Inv s') :
    Inv s := Reachable.refl.invariant_from C h Inv h0 hstart hcall

end
end Concurrent
