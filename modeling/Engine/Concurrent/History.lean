import Engine.Concurrent.Product

/-! What stays true as a run goes on: threads keep their kinds, the trace only gets longer, and
every call in the trace was allowed by what its thread had done before. -/
namespace Concurrent
variable {I : Interface} {α : Type} {M : Machine I α} {G : Guard M} {w : M.World} {s s' : State M}

/-- `s'` is a later state of a run through `s`. -/
structure State.Later (s s' : State M) : Prop where
  trace : ∀ e ∈ s.trace, e ∈ s'.trace
  threads : ∀ (i : ℕ) (k : M.Kind) (p : Program I α), s.threads[i]? = some (k, p) → ∃ p', s'.threads[i]? = some (k, p')

theorem later_of_step {m : Move M} (h : s.step G m = some s') : s.Later s' := by
  obtain ⟨k, p, w, -, -, rfl⟩ | ⟨i, k, o, next, a, r, w, hi, -, -, rfl⟩ := step_cases h
  · refine ⟨fun e he => he, fun j k' p' hj => ⟨p', ?_⟩⟩
    have hlt := (List.getElem?_eq_some_iff.mp hj).1
    exact (List.getElem?_append_left hlt).trans hj
  · refine ⟨fun e he => List.mem_cons_of_mem _ he, fun j k' p' hj => ?_⟩
    have hlt := (List.getElem?_eq_some_iff.mp hi).1
    by_cases hij : i = j
    · subst hij
      obtain ⟨rfl, -⟩ := Prod.mk.inj (Option.some.inj (hi.symm.trans hj))
      exact ⟨_, List.getElem?_set_self hlt⟩
    · exact ⟨p', (List.getElem?_set_ne hij).trans hj⟩

/-- What holds at the start, and is kept by every started program and every performed call as the
run goes on, holds in every reachable state. -/
theorem Reachable.invariant_later (C : Contract M) (h : Reachable G (State.initial w) s) (Inv : State M → Prop)
    (h0 : Inv (State.initial w))
    (hstart : ∀ s s' n k, Reachable G (State.initial w) s → Inv s → s.Later s' → Started C G s s' n k → Inv s')
    (hcall : ∀ s s' i l o a r, Reachable G (State.initial w) s → Inv s → s.Later s' →
      Stepped C G s s' i l o a r → Inv s') : Inv s := by
  induction h with
  | refl => exact h0
  | step hr hs ih =>
    have hlater := later_of_step hs
    obtain ⟨n, k, st⟩ | ⟨i, l, o, a, r, st⟩ := (hr.conforms C).step C hs
    · exact hstart _ _ n k hr ih hlater st
    · exact hcall _ _ i l o a r hr ih hlater st

/-- The thread of a call is there, and its contract allowed the call after what the thread had done before. -/
theorem Reachable.allowed_at (C : Contract M) (h : Reachable G (State.initial w) s) {e : Event I}
    {tr tr' : List (Event I)} (htrace : s.trace = tr ++ e :: tr') :
    ∃ k p, s.threads[e.thread]? = some (k, p) ∧ C.allowed (C.after (C.init k) e.thread tr') e.op := by
  induction h generalizing tr with
  | refl =>
    have hlength := congrArg List.length htrace
    simp [State.initial] at hlength
  | step hr hs ih =>
    obtain ⟨k, p, w, -, -, rfl⟩ | ⟨i, k, o, next, a, r, w, hi, -, -, rfl⟩ := step_cases hs
    · obtain ⟨k', p', hthread, hallowed⟩ := ih htrace
      obtain ⟨p'', hthread⟩ := (later_of_step hs).threads _ k' p' hthread
      exact ⟨k', p'', hthread, hallowed⟩
    · cases tr with
      | nil =>
        obtain ⟨rfl, rfl⟩ := List.cons.inj htrace
        have hlt := (List.getElem?_eq_some_iff.mp hi).1
        exact ⟨k, _, List.getElem?_set_self hlt, (hr.conforms C).allowed C hi⟩
      | cons e' tr =>
        obtain ⟨k', p', hthread, hallowed⟩ := ih (List.cons.inj htrace).2
        obtain ⟨p'', hthread⟩ := (later_of_step hs).threads _ k' p' hthread
        exact ⟨k', p'', hthread, hallowed⟩

/-- The summary of the first of two contracts. -/
theorem localOf_left {C C' : Contract M} (s : State M) (i : ℕ) :
    s.localOf C i = (s.localOf (C.prod C') i).map Prod.fst := by
  unfold State.localOf
  cases s.threads[i]? with
  | none => rfl
  | some t =>
    have hboth := Protocol.after_prod (P := C.toProtocol) (R := C'.toProtocol) (C.init t.1) (C'.init t.1) i s.trace
    exact congrArg (fun l => some l.1) hboth.symm

/-- One call, seen from the first of two contracts. -/
theorem Stepped.left {C C' : Contract M} {i : ℕ} {l : C.Local × C'.Local} {o : I.Op} {a : Except I.Err (I.Choice o)}
    {r : Except I.Err (I.Reply o)} (st : Stepped (C.prod C') G s s' i l o a r) : Stepped C G s s' i l.1 o a r := by
  refine ⟨?_, st.allowed.1, st.possible.1, st.granted, st.performed, ?_, fun j hj => ?_, st.traced⟩
  · rw [localOf_left s i, st.caller]
    rfl
  · rw [localOf_left s' i, st.self]
    rfl
  · rw [localOf_left s' j, localOf_left s j, st.others j hj]

theorem Started.left {C C' : Contract M} {n : ℕ} {k : M.Kind} (st : Started (C.prod C') G s s' n k) :
    Started C G s s' n k := by
  refine ⟨st.granted, st.started, ?_, st.silent, ?_, fun j hj => ?_, st.traced⟩
  · rw [localOf_left s n, st.unused]
    rfl
  · rw [localOf_left s' n, st.self]
    rfl
  · rw [localOf_left s' j, localOf_left s j, st.others j hj]

end Concurrent
