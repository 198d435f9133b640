import Engine.Records.Terminal
import Engine.Records.Windows

/-! A cancel request that finds its transaction queued: what the send worker can still do
after the cancelled record is stored. -/
namespace Engine
open Concurrent Program Function

/-- Cancel requests and the send worker run, with any failures. -/
def cancelRuns : Guard engine where
  start _
    | .sendJob _ _ | .cancel _ => true
    | _ => false
  call _ _ _ _ := true

/-- And the `failed` listener of the send worker stores nothing over a cancelled record. -/
def listenerSparesCancelled : Guard engine where
  start := cancelRuns.start
  call s i o _ :=
    match o with
    | .setTransaction t => (s.world.transactions t.queueId).all fun r =>
        !(r.status == .cancelled && (process s i).any Local.failedListener)
    | _ => true

/-- The last call of the run stored the record that a cancel request made of a queued one. -/
def CancelStored (q : QueueId) (s : State engine) : Prop :=
  ∃ i r block tr, s.trace = ⟨i, .setTransaction (cancelledQueued r block), .ok true, .ok ()⟩ :: tr ∧
    r.queueId = q ∧ r.status = .queued

/-- No attempt of a send job of `q` that is running has read its record yet. -/
def NoneHasRead (q : QueueId) (s : State engine) : Prop :=
  ∀ i l n, process s i = some l → l.request = .sendJob q n → l.held = true → l.read = none

section
variable {G : Guard engine} {s s' : State engine} {w : World} {i : ℕ} {l : Local} {o : Op}
  {a : Except Err o.Choice} {r : Except Err o.Reply} {t : Transaction} {q : QueueId} {x : Submission}

/-- The record is cancelled, and every running send attempt will find it so. -/
structure Final (q : QueueId) (s : State engine) : Prop where
  record : ∃ t, s.world.transactions q = some t ∧ t.status = .cancelled
  attempts : ∀ i l n t, process s i = some l → l.request = .sendJob q n → l.held = true → l.read = some t →
    t.status = .cancelled

/-- What the last call of a run stored is stored. -/
theorem stored_of_trace (h : Reachable G (State.initial w) s) {e : Event Calls} {tr : List (Event Calls)}
    (htrace : s.trace = e :: tr) (ht : stores e = some t) : s.world.transactions t.queueId = some t := by
  induction h with
  | refl => cases htrace
  | @step s s' m hr hs ih =>
    obtain ⟨n, k, st⟩ | ⟨i, l, o, a, r, st⟩ := (hr.conforms recordContract).step recordContract hs
    · rw [(transactions_after_start st).1]
      exact ih (st.traced.symm.trans htrace)
    · obtain ⟨rfl, -⟩ := List.cons.inj (st.traced.symm.trans htrace)
      rw [world_after_call st, ht]
      simp

/-- Only cancel requests and send jobs run. -/
theorem request_of_cancelRuns (h : Reachable listenerSparesCancelled (State.initial w) s)
    (hl : process s i = some l) : (∃ q' n, l.request = .sendJob q' n) ∨ ∃ q', l.request = .cancel q' := by
  obtain ⟨s₀, hg⟩ := granted h hl
  cases hreq : l.request with
  | sendJob q' n => exact Or.inl ⟨q', n, rfl⟩
  | cancel q' => exact Or.inr ⟨q', rfl⟩
  | _ =>
    rw [hreq] at hg
    cases hg

/-- Who submits a transaction is an attempt of its send job that read a record to send. -/
theorem Submits.attempt {l' : Local} (h : Submits l x l')
    (hreq : (∃ q' n, l.request = .sendJob q' n) ∨ ∃ q', l.request = .cancel q') :
    ∃ q' n t, l.request = .sendJob q' n ∧ l.held = true ∧ l.read = some t ∧ t.status ≠ .cancelled := by
  have hqueued : ∀ {t : Transaction} {n : ℕ}, (manuallyRetried t n).status = .queued → t.status ≠ .cancelled := by
    intro t n hq
    rcases status_of_queued hq with h | ⟨h, -⟩ <;> rw [h] <;> decide
  cases h with
  | first t q' n hash hsend => exact ⟨q', n, t, hsend.request, hsend.held, hsend.read, hqueued hsend.queued⟩
  | again t hash hsend =>
    have hsent : t.status ≠ .cancelled := by rw [hsend.sent]; decide
    rcases hsend.request with ⟨q', n, hr, hheld⟩ | ⟨q', b, c, hr⟩
    · exact ⟨q', n, t, hr, hheld, hsend.read, hsent⟩
    · rcases hreq with ⟨_, _, hreq⟩ | ⟨_, hreq⟩ <;> exact absurd (hreq.symm.trans hr) (by simp)
  | bundle t q' n u hr hheld hread hq => exact ⟨q', n, t, hr, hheld, hread, hqueued hq⟩

/-- What is stored is a cancelled record, or stored by the listener or by an attempt that read
another record. -/
theorem Writes.cases_of_cancelRuns (h : Writes l t) (hl : l.Keyed)
    (hreq : (∃ q' n, l.request = .sendJob q' n) ∨ ∃ q', l.request = .cancel q') :
    t.status = .cancelled ∨ l.failedListener = true ∨
      ∃ q' n r, l.request = .sendJob q' n ∧ l.held = true ∧ l.read = some r ∧ r.status ≠ .cancelled := by
  rcases hreq with ⟨q', n, hreq⟩ | ⟨q', hreq⟩
  · cases hlistener : l.failedListener with
    | true => exact Or.inr (Or.inl rfl)
    | false =>
      have hheld : l.held = true := by simpa [Local.failedListener, hreq] using hlistener
      obtain ⟨r, hr⟩ : ∃ r, l.read = some r := by
        rcases h.read with hr | ⟨tx, key, simulate, hins⟩
        · exact hr
        · exact absurd (hreq.symm.trans hins) (by simp)
      have hterm := h.not_terminal hl hr hlistener
      refine Or.inr (Or.inr ⟨q', n, r, hreq, hheld, hr, fun hst => ?_⟩)
      rw [hst] at hterm
      cases hterm
  · exact Or.inl (h.status_of_concludes (by simp [Local.concludes, hreq]))

/-- The attempts of `q` that are running find the record cancelled. -/
theorem Final.cancelled (h : Final q s) (hk : l.Keyed) (hl : process s i = some l) (hq : l.queueId = some q)
    {q' : QueueId} {n : ℕ} (hreq : l.request = .sendJob q' n) (hheld : l.held = true) (hr : l.read = some t) :
    t.status = .cancelled := by
  obtain rfl : q' = q := Option.some.inj ((hk.request q' (by rw [hreq]; rfl)).symm.trans hq)
  exact h.attempts i l n t hl hreq hheld hr

theorem Final.call (h : Final q s) (hr : Reachable listenerSparesCancelled (State.initial w) s) (hw : w.Keyed)
    (st : Called listenerSparesCancelled s s' i l o a r) :
    Final q s' ∧ s'.world.submissions q = s.world.submissions q := by
  have hkeyed := keyed hw hr
  have hk := hkeyed.2 i l st.caller
  have hreq := request_of_cancelRuns hr st.caller
  have hstep := localStep (i := i) st.allowed st.performed
  obtain ⟨t₀, ht₀, hst₀⟩ := h.record
  have hsubmits : ∀ x, submits ⟨i, o, a, r⟩ = some x → x.queueId ≠ some q := by
    intro x hx hq
    have hs := (hstep.of_submits hx hq).2
    obtain ⟨q', n, t, hreq', hheld, ht, hst⟩ := hs.attempt hreq
    obtain ⟨t', ht', hxt⟩ := hs.read
    exact hst (h.cancelled hk st.caller ((hk.read t' ht').trans (hxt.symm.trans hq)) hreq' hheld ht)
  refine ⟨⟨?_, fun j l' n t hl' hreq' hheld ht => ?_⟩, ?_⟩
  · rw [world_after_call st]
    cases hs : stores ⟨i, o, a, r⟩ with
    | none => exact ⟨t₀, ht₀, hst₀⟩
    | some t =>
      by_cases hq : q = t.queueId
      · subst hq
        obtain rfl : o = .setTransaction t := op_of_stores hs
        have hwrites : Writes l t := st.allowed.writes
        have hid := hk.of_writes hwrites
        refine ⟨t, by simp, ?_⟩
        rcases hwrites.cases_of_cancelRuns hk hreq with hst | hlistener | ⟨q', n, t', hreq', hheld, ht', hst⟩
        · exact hst
        · have hg : listenerSparesCancelled.call s i (.setTransaction t) a = true := st.granted
          have hcaller : process s i = some l := st.caller
          simp [listenerSparesCancelled, ht₀, hst₀, hcaller, hlistener] at hg
        · exact absurd (h.cancelled hk st.caller hid hreq' hheld ht') hst
      · exact ⟨t₀, by simpa [update_of_ne hq] using ht₀, hst₀⟩
  · rcases process_after_call st hl' with ⟨-, rfl⟩ | ⟨-, hj⟩
    · have hk' := hk.step hkeyed.1 hstep
      rcases hstep.read_cases ht with ht' | ⟨q', hstored⟩
      · exact h.attempts i l n t st.caller (hstep.request.symm.trans hreq') (hstep.held hheld) ht'
      · have hid := (hk'.request q (by rw [hreq']; rfl)).symm.trans (hk'.read t ht)
        have hq : q' = q := (hkeyed.1 q' t hstored).symm.trans (Option.some.inj hid).symm
        subst hq
        rw [ht₀] at hstored
        cases hstored
        exact hst₀
    · exact h.attempts j l' n t hj hreq' hheld ht
  · rw [submissions_after_call st]
    cases hx : submits ⟨i, o, a, r⟩ with
    | none => rfl
    | some x => simp [hsubmits x hx]

/-- Once the record of a cancelled transaction is stored and no running send attempt has read
it before, nothing more is accepted for it, and it stays cancelled. -/
theorem cancel_final (hw : w.Keyed) (h : Reachable listenerSparesCancelled (State.initial w) s)
    (hstored : CancelStored q s) (hnone : NoneHasRead q s) (h' : Reachable listenerSparesCancelled s s') :
    s'.world.submissions q = s.world.submissions q ∧
      ∃ t, s'.world.transactions q = some t ∧ t.status = .cancelled := by
  obtain ⟨i, r, block, tr, htrace, hq, -⟩ := hstored
  have hrecord := stored_of_trace h htrace rfl
  have hfinal : Final q s := by
    refine ⟨⟨cancelledQueued r block, ?_, rfl⟩, fun j l n t hl hreq hheld ht => ?_⟩
    · rw [← hq]
      exact hrecord
    · rw [hnone j l n hl hreq hheld] at ht
      cases ht
  have hinv := h.invariant_from recordContract h'
    (fun s' => Final q s' ∧ s'.world.submissions q = s.world.submissions q) ⟨hfinal, rfl⟩
    (fun s₁ s₂ n k _ ih st => ?_) (fun s₁ s₂ j l o a x hs ih st => ?_)
  · exact ⟨hinv.2, hinv.1.record⟩
  · obtain ⟨ht, ha, -⟩ := transactions_after_start st
    refine ⟨⟨by rw [ht]; exact ih.1.record, fun j l m t hl hreq hheld hread => ?_⟩, ?_⟩
    · rcases process_after_start st hl with ⟨-, rfl⟩ | ⟨-, hl⟩
      · cases hread
      · exact ih.1.attempts j l m t hl hreq hheld hread
    · rw [World.submissions, ha]
      exact ih.2
  · obtain ⟨hf, hsubs⟩ := ih.1.call hs hw st
    exact ⟨hf, hsubs.trans ih.2⟩

end

/-- The job is not removed, since no retries are configured; its attempt finds the record cancelled. -/
def cancelledThenAttempted : List (Move engine) × List (Move engine) :=
  (starts (.cancel transferId) :: answered 0 [usual, fun | .getConfig => .ok ⟨12, 0⟩ | o => usual o] ++ proceeds 0 3,
    starts (.sendJob transferId 0) :: proceeds 1 2)

theorem cancel_final_attempted : ∃ s s' : State engine, CancelStored transferId s ∧
    s'.trace.length = s.trace.length + 2 ∧
    s'.world.submissions transferId = s.world.submissions transferId ∧
      ∃ t, s'.world.transactions transferId = some t ∧ t.status = .cancelled := by
  obtain ⟨s, s', hs, hs', hr⟩ := exists_reachable_of_runs listenerSparesCancelled transferQueued
    cancelledThenAttempted.1 cancelledThenAttempted.2
    (fun s s' => (s.trace.head?.any fun e => (stores e).any fun t =>
        t == cancelledQueued (queuedTransaction transfer transferId) 0) &&
      s.threads.length == 1 && ((process s 0).any fun l => l.request == .cancel transferId) &&
      s'.trace.length == s.trace.length + 2) (by decide +kernel)
  simp only [Bool.and_eq_true, beq_iff_eq] at hr
  obtain ⟨⟨⟨hstored, hlength⟩, hcancel⟩, hsteps⟩ := hr
  have hlast : CancelStored transferId s := by
    obtain ⟨e, he, ht⟩ := (Option.any_eq_true _ _).mp hstored
    obtain ⟨tr, htrace⟩ := List.head?_eq_some_iff.mp he
    obtain ⟨t, ht, hcancelled⟩ := (Option.any_eq_true _ _).mp ht
    rw [beq_iff_eq] at hcancelled
    subst hcancelled
    obtain ⟨i, rfl⟩ := event_of_stores ht
    exact ⟨i, queuedTransaction transfer transferId, 0, tr, htrace, rfl, rfl⟩
  have hnone : NoneHasRead transferId s := by
    intro i l n hl hreq hheld
    obtain ⟨t, ht, -⟩ := Option.map_eq_some_iff.mp hl
    have hi := (List.getElem?_eq_some_iff.mp ht).1
    obtain rfl : i = 0 := by omega
    rw [hl] at hcancel
    simp [hreq] at hcancel
  exact ⟨s, s', hlast, hsteps, cancel_final transferQueued_queued.wellKept.keyed hs hlast hnone hs'⟩

/-- An attempt has read the queued record when the request comes; its job is locked, and it
sends the transaction after the request returned. -/
def cancelledWhileSending : List (Move engine) × List (Move engine) :=
  (starts (.sendJob transferId 0) :: proceeds 0 1 ++ starts (.cancel transferId) :: proceeds 1 10, proceeds 0 7)

theorem not_cancel_final : ¬ ∀ (w : World) (q : QueueId) (s s' : State engine) (i : ℕ) (l : Local) (r : Transaction),
    w.Queued q → Reachable cancelRuns (State.initial w) s → s.returned i = some (.cancel q, ()) →
    process s i = some l → l.read = some r → r.status = .queued → r.isUserOp = false → Reachable cancelRuns s s' →
    s'.world.submissions q = s.world.submissions q ∧
      ∃ t, s'.world.transactions q = some t ∧ t.status = .cancelled := by
  intro hgeneral
  obtain ⟨s, s', hs, hs', hr⟩ := exists_reachable_of_runs cancelRuns transferQueued
    cancelledWhileSending.1 cancelledWhileSending.2
    (fun s s' => s.returned 1 == some (.cancel transferId, ()) &&
      ((process s 1).any fun l => l.read == some (queuedTransaction transfer transferId)) &&
      s.world.submissions transferId == [] && s'.world.submissions transferId != []) (by decide +kernel)
  simp only [Bool.and_eq_true, beq_iff_eq, bne_iff_ne] at hr
  obtain ⟨⟨⟨hreturned, hread⟩, hnone⟩, hsome⟩ := hr
  obtain ⟨l, hl, hread⟩ := (Option.any_eq_true _ _).mp hread
  have hfinal := hgeneral transferQueued transferId s s' 1 l (queuedTransaction transfer transferId)
    transferQueued_queued hs hreturned hl (by simpa using hread) rfl rfl hs'
  exact hsome (hfinal.1.trans hnone)

end Engine
