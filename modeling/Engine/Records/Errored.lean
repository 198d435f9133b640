import Engine.Records.Windows

/-! The send worker stores a transaction as errored: whether anything of it was accepted
since it was last queued. -/
namespace Engine
open Concurrent Program

/-- The transaction is queued: a queued record is stored, or its first send is asked for again. -/
def queues (q : QueueId) (e : Event Calls) : Bool :=
  (stores e).any (fun t => t.queueId == q && t.status == .queued) ||
    match e with
    | ⟨_, .sendQueueAdd q' 0, _, .ok _⟩ => q' == q
    | _ => false

/-- The calls since the transaction was last queued. -/
def sinceQueued (q : QueueId) (tr : List (Event Calls)) : List (Event Calls) := tr.takeWhile fun e => !queues q e

def submitsFor (q : QueueId) (e : Event Calls) : Bool := (submits e).any fun x => x.queueId == some q

/-- The mine worker gives up on the transaction. -/
def timesOut (q : QueueId) (e : Event Calls) : Bool :=
  (stores e).any fun t =>
    t.queueId == q && t.status == .errored && t.errorMessage == some "Transaction timed out."

/-- A call of the send worker that stores an errored record of `q`. -/
def storesErrored (q : QueueId) (l : Local) (o : Op) : Bool :=
  match o, l.request with
  | .setTransaction t, .sendJob _ _ => t.queueId == q && t.status == .errored
  | _, _ => false

/-- Nothing of `q` is out: its record is queued or errored, it has not timed out since it
was queued, and no process has a submission to record. -/
def notOut (q : QueueId) (s : State engine) : Bool :=
  (s.world.transactions q).all (fun t => t.status == .queued || t.status == .errored) &&
    !(sinceQueued q s.trace).any (timesOut q) && !unrecorded s q

/-- No process fails between an accepted submission of `q` and its record; and when the send
worker stores an errored record of `q`, nothing of `q` is out. A submission whose call throws
is not accepted (`World.effect`). -/
def errorsWhatIsNotOut (q : QueueId) : Guard engine where
  start _ _ := true
  call s i o a := recordsSubmissions q s i o a &&
    (process s i).all fun l => !storesErrored q l o || notOut q s

/-- If the last call of the run stored an errored record of `q` for the send worker, then
nothing of `q` was accepted since it was last queued. -/
def ErrorsWhatIsNotOut (q : QueueId) (s : State engine) : Prop :=
  ∀ e tr l, s.trace = e :: tr → process s e.thread = some l → storesErrored q l e.op = true →
    (sinceQueued q tr).any (submitsFor q) = false

section
variable {G : Guard engine} {s s' : State engine} {w : World} {i : ℕ} {l : Local} {o : Op}
  {a : Except Err o.Choice} {r : Except Err o.Reply} {t : Transaction} {q : QueueId} {e : Event Calls}
  {tr : List (Event Calls)}

theorem sinceQueued_of_queues (h : queues q e = true) : sinceQueued q (e :: tr) = [] := by
  simp [sinceQueued, h]

theorem sinceQueued_cons (h : queues q e = false) : sinceQueued q (e :: tr) = e :: sinceQueued q tr := by
  simp [sinceQueued, h]

/-- Where a submission that was accepted since the transaction was queued shows. -/
inductive Shown (q : QueueId) (s : State engine) : Prop
  | record (t : Transaction) (ht : s.world.transactions q = some t) (hq : t.status ≠ .queued)
      (he : t.status ≠ .errored)
  | timedOut (h : (sinceQueued q s.trace).any (timesOut q) = true)
  | process (h : unrecorded s q = true)

/-- Whatever was accepted since the transaction was last queued shows. -/
def ShowsSubmissions (q : QueueId) (s : State engine) : Prop :=
  (sinceQueued q s.trace).any (submitsFor q) = true → Shown q s

/-- Nothing shows of what is not out. -/
theorem not_shown_of_notOut (h : notOut q s = true) : ¬ Shown q s := by
  simp only [notOut, Bool.and_eq_true, Bool.not_eq_true'] at h
  obtain ⟨⟨hrecord, htimedOut⟩, hprocess⟩ := h
  intro hshown
  cases hshown with
  | record t ht hq he =>
    rw [ht] at hrecord
    simp [hq, he] at hrecord
  | timedOut h => simp [h] at htimedOut
  | process h => simp [h] at hprocess

/-- The status of what is stored: the send worker and a time-out store errored records. -/
theorem Writes.status_cases (h : Writes l t) :
    (t.status ≠ .queued ∧ t.status ≠ .errored) ∨ t.status = .queued ∨
      (t.status = .errored ∧ ∃ q n, l.request = .sendJob q n) ∨
      (t.status = .errored ∧ t.errorMessage = some "Transaction timed out.") := by
  cases h with
  | queued => exact Or.inr (Or.inl rfl)
  | unpopulated r q n m hreq => exact Or.inr (Or.inr (Or.inl ⟨rfl, q, n, hreq⟩))
  | failed r q n m hreq => exact Or.inr (Or.inr (Or.inl ⟨rfl, q, n, hreq⟩))
  | timedOut => exact Or.inr (Or.inr (Or.inr ⟨rfl, rfl⟩))
  | sent | sentUserOp =>
    exact Or.inl ⟨by simp [sentTransaction, Engine.sentUserOp], by simp [sentTransaction, Engine.sentUserOp]⟩
  | resent r q n hashes hash block hreq hphase hsend =>
    exact Or.inl (by simp [resentTransaction, hsend.sent])
  | syncRetried r q b c hashes hash block hreq hphase hsend =>
    exact Or.inl (by simp [syncRetriedTransaction, hsend.sent])
  | mined => exact Or.inl (by simp [minedTransaction])
  | minedUserOp => exact Or.inl (by simp [Engine.minedUserOp])
  | cancelledQueued => exact Or.inl (by simp [Engine.cancelledQueued])
  | cancelledSent => exact Or.inl (by simp [Engine.cancelledSent])
  | retried r q b c fee priority hreq hread hidle hsent => exact Or.inl (by simp [retriedTransaction, hsent])

/-- What the guard says about a call. -/
theorem errorsWhatIsNotOut_granted (st : Called (errorsWhatIsNotOut q) s s' i l o a r) :
    (l.unrecorded q = true → fails o a = false) ∧ (storesErrored q l o = true → notOut q s = true) := by
  have hg : (recordsSubmissions q s i o a && (process s i).all fun l => !storesErrored q l o || notOut q s) = true :=
    st.granted
  have hl : process s i = some l := st.caller
  rw [Bool.and_eq_true] at hg
  constructor
  · exact fails_of_records hg.1 hl
  · intro he
    have hout := hg.2
    simp only [hl, Option.all_some, he, Bool.not_true, Bool.false_or] at hout
    exact hout

/-- A call keeps what shows, unless it queues the transaction. -/
theorem Shown.call (h : Shown q s) (st : Called (errorsWhatIsNotOut q) s s' i l o a r) (hl : l.Keyed)
    (hc : ∀ r, l.read = some r → r.Complete) (hqueues : queues q ⟨i, o, a, r⟩ = false) : Shown q s' := by
  obtain ⟨hfails, herrored⟩ := errorsWhatIsNotOut_granted st
  have hsince : sinceQueued q s'.trace = ⟨i, o, a, r⟩ :: sinceQueued q s.trace := by
    rw [st.traced]
    exact sinceQueued_cons hqueues
  by_cases hstores : ∃ t, stores ⟨i, o, a, r⟩ = some t ∧ t.queueId = q
  · obtain ⟨t, ht, hq⟩ := hstores
    have hstored : s'.world.transactions q = some t := by
      rw [world_after_call st, ht, ← hq]
      simp
    obtain rfl : o = .setTransaction t := op_of_stores ht
    rcases st.allowed.writes.status_cases with ⟨h1, h2⟩ | hst | ⟨hst, q', n, hreq⟩ | ⟨hst, hm⟩
    · exact .record t hstored h1 h2
    · simp [queues, ht, hq, hst] at hqueues
    · have hout : notOut q s = true := herrored (by simp [storesErrored, hreq, hq, hst])
      exact absurd h (not_shown_of_notOut hout)
    · refine .timedOut ?_
      rw [hsince]
      simp [timesOut, ht, hq, hst, hm]
  · have hkeep : s'.world.transactions q = s.world.transactions q := by
      rw [world_after_call st]
      cases ht : stores ⟨i, o, a, r⟩ with
      | none => rfl
      | some t =>
        have hne : q ≠ t.queueId := fun hq => hstores ⟨t, ht, hq.symm⟩
        simp [Function.update_of_ne hne]
    cases h with
    | record t ht h1 h2 => exact .record t (hkeep.trans ht) h1 h2
    | timedOut h =>
      refine .timedOut ?_
      rw [hsince, List.any_cons, h, Bool.or_true]
    | process h =>
      rcases unrecorded_after_call st hl hc hfails h with hu | ⟨t, ht, hq, -⟩
      · exact .process hu
      · exact absurd ⟨t, ht, hq⟩ hstores

theorem ShowsSubmissions.call (h : ShowsSubmissions q s) (st : Called (errorsWhatIsNotOut q) s s' i l o a r)
    (hl : l.Keyed) (hc : ∀ r, l.read = some r → r.Complete) : ShowsSubmissions q s' := by
  intro hsub
  rw [st.traced] at hsub
  cases hqueues : queues q ⟨i, o, a, r⟩ with
  | true => simp [sinceQueued_of_queues hqueues] at hsub
  | false =>
    rw [sinceQueued_cons hqueues, List.any_cons, Bool.or_eq_true] at hsub
    rcases hsub with hnew | hold
    · obtain ⟨x, hx, hq⟩ := (Option.any_eq_true _ _).mp hnew
      have hstep := localStep (i := i) st.allowed st.performed
      have hsubmits := (hstep.of_submits hx (by simpa using hq)).2
      exact .process (unrecorded_iff.mpr ⟨i, _, st.self, hsubmits.unrecorded hl (by simpa using hq)⟩)
    · exact (h hold).call st hl hc hqueues

private theorem showsSubmissions (hw : w.WellKept) (h : Reachable (errorsWhatIsNotOut q) (State.initial w) s) :
    ShowsSubmissions q s := by
  refine h.invariant recordContract (ShowsSubmissions q) ?_ ?_ ?_
  · intro hsub
    simp [State.initial, sinceQueued] at hsub
  · intro s s' n k _ ih st hsub
    rw [st.traced] at hsub
    obtain ⟨t, ht, h1, h2⟩ | h | h := ih hsub
    · refine .record t ?_ h1 h2
      rw [(transactions_after_start st).1]
      exact ht
    · exact .timedOut (by rw [st.traced]; exact h)
    · exact .process (unrecorded_after_start st h)
  · intro s s' i l o a r hs ih st
    exact ih.call st ((keyed hw.keyed hs).2 i l st.caller) fun r hr => (complete hw hs).2 i l r st.caller hr

/-- When the send worker stores an errored record, nothing of the transaction was accepted
since it was last queued. -/
theorem errored_not_out (hw : w.WellKept) (h : Reachable (errorsWhatIsNotOut q) (State.initial w) s) :
    ErrorsWhatIsNotOut q s := by
  induction h with
  | refl =>
    intro e tr l he
    cases he
  | @step s s' m hr hs ih =>
    intro e tr l he hl herrored
    obtain ⟨n, k, st⟩ | ⟨i, l', o, a, r, st⟩ := (hr.conforms recordContract).step recordContract hs
    · have htrace := st.traced.symm.trans he
      rcases process_after_start st hl with ⟨hn, -⟩ | ⟨-, hj⟩
      · have hmem : e ∈ s.trace := by
          rw [htrace]
          exact List.mem_cons_self
        exact absurd hn (st.silent e hmem)
      · exact ih e tr l htrace hj herrored
    · have htrace := st.traced.symm.trans he
      obtain ⟨rfl, rfl⟩ := List.cons.inj htrace
      have hreq : l.request = l'.request := by
        obtain rfl := Option.some.inj (hl.symm.trans st.self)
        exact (localStep (i := i) st.allowed st.performed).request
      have hout : notOut q s = true := by
        refine (errorsWhatIsNotOut_granted st).2 ?_
        simpa [storesErrored, hreq] using herrored
      cases hany : (sinceQueued q s.trace).any (submitsFor q) with
      | false => rfl
      | true => exact absurd (showsSubmissions hw hr hany) (not_shown_of_notOut hout)

end

/-- The transaction cannot be populated; its record is errored before anything is sent. -/
def populateFails : List (Move engine) :=
  starts (.insertTransaction transfer none false) :: proceeds 0 4 ++
    starts (.sendJob transferId 0) :: proceeds 1 2 ++ answered 1 [throwing connectionClosed, usual]

theorem errored_not_out_populateFails : ∃ (s : State engine) (e : Event Calls) (tr : List (Event Calls)) (l : Local),
    s.trace = e :: tr ∧ process s e.thread = some l ∧ storesErrored transferId l e.op = true ∧
      (sinceQueued transferId tr).any (submitsFor transferId) = false := by
  obtain ⟨s, hs, hr⟩ := exists_reachable_of_run (errorsWhatIsNotOut transferId) World.empty populateFails
    (fun s => s.trace.head?.any fun e => (process s e.thread).any fun l => storesErrored transferId l e.op)
    (by decide +kernel)
  obtain ⟨e, he, hl⟩ := (Option.any_eq_true _ _).mp hr
  obtain ⟨l, hl, herrored⟩ := (Option.any_eq_true _ _).mp hl
  obtain ⟨tr, htr⟩ := List.head?_eq_some_iff.mp he
  exact ⟨s, e, tr, l, htr, hl, herrored, errored_not_out World.empty_wellKept hs e tr l htr hl herrored⟩

/-- A resend was asked for. All five attempts of its job fail to read the record, and the
`failed` listener stores the sent record as errored. -/
def resendJobErrors : List (Move engine) :=
  insertedAndSent ++ starts (.retry transferId none none) :: proceeds 2 3 ++ cannotRead 3 1 ++ cannotRead 4 1 ++
    cannotRead 5 1 ++ cannotRead 6 1 ++ cannotRead 7 1 ++ proceeds 7 2

theorem not_errored_not_out : ¬ ∀ (w : World) (q : QueueId) (s : State engine), w.WellKept →
    Reachable anyRun (State.initial w) s → ErrorsWhatIsNotOut q s := by
  intro hgeneral
  obtain ⟨s, hs, hr⟩ := exists_reachable_of_run anyRun World.empty resendJobErrors
    (fun s => s.trace.head?.any fun e => ((process s e.thread).any fun l => storesErrored transferId l e.op) &&
      (sinceQueued transferId s.trace.tail).any (submitsFor transferId)) (by decide +kernel)
  obtain ⟨e, he, hr⟩ := (Option.any_eq_true _ _).mp hr
  rw [Bool.and_eq_true] at hr
  obtain ⟨l, hl, herrored⟩ := (Option.any_eq_true _ _).mp hr.1
  obtain ⟨tr, htr⟩ := List.head?_eq_some_iff.mp he
  have hnone := hgeneral World.empty transferId s World.empty_wellKept hs e tr l htr hl herrored
  have hsome := hr.2
  rw [htr, List.tail_cons, hnone] at hsome
  cases hsome

end Engine
