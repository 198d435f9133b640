import Engine.Records.Announcing
import Engine.Records.Resends

/-! Every status change is announced, unless the webhook fails to be enqueued. -/
namespace Engine
open Concurrent Program Function

/-- The status that the event stored for `q`. -/
def statusStored (q : QueueId) (e : Event Calls) : Option Status :=
  (stores e).bind fun t => if t.queueId = q then some t.status else none

/-- The status that was stored last for `q`. -/
def lastStored (q : QueueId) (tr : List (Event Calls)) : Option Status := tr.findSome? (statusStored q)

/-- `enqueueTransactionWebhook` completed for `q` and the status. -/
def announces (q : QueueId) (status : Status) (e : Event Calls) : Bool :=
  match e with
  | ⟨_, .enqueueWebhook type q', _, .ok _⟩ => decide (q' = q ∧ status.webhookType = some type)
  | _ => false

/-- It completed after the status was stored, and no other status was stored since. -/
def announced (q : QueueId) (status : Status) : List (Event Calls) → Bool
  | [] => false
  | e :: tr => (statusStored q e).all (· = status) &&
      (announces q status e && lastStored q tr = some status || announced q status tr)

/-- The call stores a record of `q`. -/
def storesRecord (q : QueueId) : Op → Bool
  | .setTransaction t => t.queueId = q
  | _ => false

/-- The call does not keep the stored status of `q` from being announced. -/
def Owing.harmless (q : QueueId) (s : State engine) (o : Op) (a : Except Err o.Choice) : Owing → Bool
  -- a record is stored with the status that is stored
  | .silent status => !storesRecord q o || status = .queued || (s.world.transactions q).any (·.status = status)
  | .nothing => true
  -- a call between storing a status and announcing it throws, but the status is not stored any more
  -- or was announced before
  | .owes q' status => a.isOk || q' ≠ q || (s.world.transactions q).all (·.status ≠ status) ||
      announced q status s.trace

/-- Every run in which
 - no call throws between the storing of a status of `q` and the end of `enqueueTransactionWebhook`,
   while the status is the stored one and not announced yet;
 - a retry request stores its record of `q` only while the stored one is sent, too. -/
def announcesStatuses (q : QueueId) : Guard engine where
  start _ _ := true
  call s i o a := (s.localOf owingContract i).all fun l : Owing => l.harmless q s o a

section
variable {G : Guard engine} {s s' : State engine} {w w' : World} {i : ℕ} {l : Owing} {o : Op} {a : Except Err o.Choice}
  {r : Except Err o.Reply} {t : Transaction} {q : QueueId} {status : Status} {e : Event Calls} {tr : List (Event Calls)}

theorem announced_cons (h : announced q status tr = true)
    (he : statusStored q e = none ∨ statusStored q e = some status) :
    announced q status (e :: tr) = true := by
  unfold announced
  rcases he with he | he <;> simp [he, h]

/-- The status that is stored for `q` was stored by the last call that stored one. -/
theorem stored_of_effect (h : w.effect o a = some (r, w')) (ht : w'.transactions q = some t) :
    statusStored q ⟨i, o, a, r⟩ = some t.status ∨
      statusStored q ⟨i, o, a, r⟩ = none ∧ w.transactions q = some t := by
  rw [World.transactions_of_effect (i := i) h] at ht
  unfold statusStored
  cases hs : stores ⟨i, o, a, r⟩ with
  | none =>
    rw [hs] at ht
    exact Or.inr ⟨rfl, ht⟩
  | some t' =>
    rw [hs] at ht
    by_cases hq : t'.queueId = q
    · subst hq
      obtain rfl : t' = t := by simpa using ht
      exact Or.inl (if_pos rfl)
    · have hsame : update w.transactions t'.queueId (some t') q = w.transactions q :=
        update_of_ne (Ne.symm hq) _ _
      exact Or.inr ⟨if_neg hq, hsame.symm.trans ht⟩

theorem op_of_statusStored (h : statusStored q ⟨i, o, a, r⟩ = some status) :
    ∃ t, o = .setTransaction t ∧ t.queueId = q ∧ t.status = status ∧ ∃ u, r = .ok u := by
  obtain ⟨t, ht, hstatus⟩ := Option.bind_eq_some_iff.mp h
  split_ifs at hstatus with hq
  obtain ⟨j, he⟩ := event_of_stores ht
  cases he
  exact ⟨t, rfl, hq, Option.some.inj hstatus, (), rfl⟩

/-- A call that cannot be refused throws because the outside says so. -/
theorem isOk_of_error {e : Err} (h : w.effect o a = some (.error e, w')) (ho : w.locked o = false) :
    a.isOk = false := by
  cases a with
  | error e => rfl
  | ok c =>
    obtain ⟨e', -, -, -, hcase⟩ | ⟨c', x, -, hx, -⟩ := World.effect_cases h
    · rcases hcase with hcase | hcase
      · cases hcase
      · rw [ho] at hcase
        cases hcase
    · cases hx

/-! ### The invariant -/

/-- The stored status was announced, or a process is about to announce it. -/
structure StatusAnnounced (q : QueueId) (s : State engine) : Prop where
  stored : ∀ t, s.world.transactions q = some t → lastStored q s.trace = some t.status
  pending : ∀ t, s.world.transactions q = some t → t.status ≠ .queued → announced q t.status s.trace = true ∨
    ∃ i, s.localOf owingContract i = some (Owing.owes q t.status)

abbrev Announcing (q : QueueId) (s s' : State engine) (i : ℕ) (l : Owing) (o : Op) (a : Except Err o.Choice)
    (r : Except Err o.Reply) : Prop := Stepped owingContract (announcesStatuses q) s s' i l o a r

theorem Announcing.harmless (st : Announcing q s s' i l o a r) : l.harmless q s o a = true := by
  have hgranted : (announcesStatuses q).call s i o a = true := st.granted
  have hcaller : s.localOf owingContract i = some l := st.caller
  simpa [announcesStatuses, hcaller] using hgranted

theorem StatusAnnounced.start {n : ℕ} {k : Request} (h : StatusAnnounced q s)
    (st : Started owingContract G s s' n k) : StatusAnnounced q s' := by
  have hsame : s'.world.transactions = s.world.transactions := by
    obtain ⟨p, hp⟩ := st.started
    cases k with
    | sendJob q m =>
      obtain ⟨j, -, he⟩ := Option.map_eq_some_iff.mp hp
      rw [← (Prod.mk.inj he).2]
      rfl
    | mineJob q =>
      obtain ⟨j, -, he⟩ := Option.map_eq_some_iff.mp hp
      rw [← (Prod.mk.inj he).2]
      rfl
    | _ => rw [← (Prod.mk.inj (Option.some.inj hp)).2]
  constructor
  · intro t ht
    rw [hsame] at ht
    rw [st.traced]
    exact h.stored t ht
  · intro t ht hstatus
    rw [hsame] at ht
    rw [st.traced]
    rcases h.pending t ht hstatus with hannounced | ⟨i, hi⟩
    · exact Or.inl hannounced
    · refine Or.inr ⟨i, ?_⟩
      have hne : i ≠ n := by
        intro hin
        rw [hin, st.unused] at hi
        cases hi
      rw [st.others i hne]
      exact hi

/-- A record that is stored is announced next, or its status was stored before. -/
theorem StatusAnnounced.stored_call (h : StatusAnnounced q s) (st : Announcing q s s' i l o a r)
    (hs : statusStored q ⟨i, o, a, r⟩ = some status) (hqueued : status ≠ .queued) :
    announced q status s'.trace = true ∨ ∃ j, s'.localOf owingContract j = some (Owing.owes q status) := by
  obtain ⟨t, rfl, rfl, rfl, u, rfl⟩ := op_of_statusStored hs
  have hself : s'.localOf owingContract i = some (l.next (.setTransaction t) (.ok u)) := st.self
  have hallowed : l.Allowed (.setTransaction t) := st.allowed
  cases l with
  | nothing =>
    refine Or.inr ⟨i, ?_⟩
    rw [hself]
    exact congrArg some (if_neg hqueued)
  | silent status =>
    have hstatus : t.status = status := hallowed
    subst hstatus
    have hharmless := st.harmless
    simp only [Owing.harmless, storesRecord, decide_true, Bool.not_true, Bool.false_or, Bool.or_eq_true,
      decide_eq_true_eq, hqueued, false_or, Option.any_eq_true] at hharmless
    obtain ⟨t', ht', hsame⟩ := hharmless
    rcases h.pending t' ht' (hsame ▸ hqueued) with hannounced | ⟨j, hj⟩
    · rw [hsame] at hannounced
      rw [st.traced]
      exact Or.inl (announced_cons hannounced (Or.inr hs))
    · have hne : j ≠ i := by
        intro hji
        rw [hji, st.caller] at hj
        cases hj
      rw [hsame] at hj
      exact Or.inr ⟨j, (st.others j hne).trans hj⟩
  | owes q' status => cases hallowed

/-- A call that stores nothing for `q` keeps its status announced, or about to be. -/
theorem StatusAnnounced.other_call (h : StatusAnnounced q s) (st : Announcing q s s' i l o a r)
    (hs : statusStored q ⟨i, o, a, r⟩ = none) (ht : s.world.transactions q = some t) (hqueued : t.status ≠ .queued) :
    announced q t.status s'.trace = true ∨ ∃ j, s'.localOf owingContract j = some (Owing.owes q t.status) := by
  rw [st.traced]
  rcases h.pending t ht hqueued with hannounced | ⟨j, hj⟩
  · exact Or.inl (announced_cons hannounced (Or.inl hs))
  · by_cases hji : j = i
    · subst hji
      obtain rfl : Owing.owes q t.status = l := Option.some.inj (hj.symm.trans st.caller)
      have hself : s'.localOf owingContract j = some ((Owing.owes q t.status).next o r) := st.self
      have hallowed : (Owing.owes q t.status).Allowed o := st.allowed
      have hperformed : s.world.effect o a = some (r, s'.world) := st.performed
      have hharmless := st.harmless
      simp only [Owing.harmless, ne_eq, not_true_eq_false, decide_false, Bool.or_false, ht, Option.all_some,
        Bool.or_eq_true] at hharmless
      have hthrew : a.isOk = false → announced q t.status (⟨j, o, a, r⟩ :: s.trace) = true := by
        intro hnot
        rcases hharmless with hok | hannounced
        · exact absurd (hok.symm.trans hnot) (by decide)
        · exact announced_cons hannounced (Or.inl hs)
      cases o with
      | enqueueWebhook type q' =>
        cases r with
        | error e => exact Or.inl (hthrew (isOk_of_error hperformed rfl))
        | ok u =>
          -- the webhook is enqueued while the status is stored
          have hannounces : announces q t.status ⟨j, .enqueueWebhook type q', a, .ok u⟩ = true :=
            decide_eq_true hallowed
          refine Or.inl ?_
          unfold announced
          simp [hs, hannounces, h.stored t ht]
      | mineQueueAdd q' =>
        cases r with
        | error e => exact Or.inl (hthrew (isOk_of_error hperformed rfl))
        | ok u => exact Or.inr ⟨j, hself⟩
      | _ => cases hallowed
    · exact Or.inr ⟨j, (st.others j hji).trans hj⟩

theorem StatusAnnounced.call (h : StatusAnnounced q s) (st : Announcing q s s' i l o a r) : StatusAnnounced q s' := by
  have hperformed : s.world.effect o a = some (r, s'.world) := st.performed
  constructor
  · intro t ht
    rw [st.traced]
    unfold lastStored
    rcases stored_of_effect (i := i) hperformed ht with hs | ⟨hs, ht⟩
    · rw [List.findSome?_cons, hs]
    · rw [List.findSome?_cons, hs]
      exact h.stored t ht
  · intro t ht hqueued
    rcases stored_of_effect (i := i) hperformed ht with hs | ⟨hs, ht⟩
    · exact h.stored_call st hs hqueued
    · exact h.other_call st hs ht hqueued

/-! ### Whose status a process announces -/

/-- Records and what is to be announced, at once. -/
def announcements : Contract engine := recordContract.prod owingContract

/-- A process announces the status of the record that its request is about. -/
structure OwesOwn (l : Local × Owing) : Prop where
  request : ∀ q status, l.2 = .owes q status → l.1.request.queueId = some q
  inserts : ∀ tx key simulate, l.1.request = .insertTransaction tx key simulate → l.2 = .silent .queued

/-- Who stores records has a request about one, or inserts one. -/
theorem Writes.request {l : Local} (h : Writes l t) : (∃ q, l.request.queueId = some q) ∨
    ∃ tx key simulate, l.request = .insertTransaction tx key simulate := by
  cases h with
  | queued tx key simulate q hreq => exact Or.inr ⟨tx, key, simulate, hreq⟩
  | sent r q n hash block hphase hsend => exact Or.inl ⟨q, by rw [hsend.request]; rfl⟩
  | resent r q n hashes hash block hreq => exact Or.inl ⟨q, by rw [hreq]; rfl⟩
  | unpopulated r q n message hreq => exact Or.inl ⟨q, by rw [hreq]; rfl⟩
  | sentUserOp r q n hash block hreq => exact Or.inl ⟨q, by rw [hreq]; rfl⟩
  | failed r q n message hreq => exact Or.inl ⟨q, by rw [hreq]; rfl⟩
  | mined r q hashes receipt hreq => exact Or.inl ⟨q, by rw [hreq]; rfl⟩
  | minedUserOp r q raw receipt message hreq => exact Or.inl ⟨q, by rw [hreq]; rfl⟩
  | timedOut r q hreq => exact Or.inl ⟨q, by rw [hreq]; rfl⟩
  | cancelledQueued r q block hreq => exact Or.inl ⟨q, by rw [hreq]; rfl⟩
  | cancelledSent r q hash hreq => exact Or.inl ⟨q, by rw [hreq]; rfl⟩
  | retried r q fee priority _ _ hreq => exact Or.inl ⟨q, by rw [hreq]; rfl⟩
  | syncRetried r q _ _ hashes hash block hreq => exact Or.inl ⟨q, by rw [hreq]; rfl⟩

theorem Owing.owes_next {l : Owing} (h : l.next o r = .owes q status) :
    l = .owes q status ∨ l = .nothing ∧ ∃ t, o = .setTransaction t ∧ t.queueId = q := by
  cases l with
  | silent status => cases h
  | nothing =>
    cases o with
    | setTransaction t =>
      cases r with
      | error e => cases h
      | ok u =>
        have h : Owing.stored t = .owes q status := h
        unfold Owing.stored at h
        split_ifs at h
        exact Or.inr ⟨rfl, t, rfl, (Owing.owes.inj h).1⟩
    | _ => cases h
  | owes q' status' =>
    cases r with
    | error e => cases o <;> cases h
    | ok x => cases o <;> first | exact Or.inl h | cases h

theorem owesOwn (hw : w.Keyed) (h : Reachable G (State.initial w) s) {x : Local × Owing}
    (hx : s.localOf announcements i = some x) : OwesOwn x := by
  refine h.each (C := announcements) (J := fun _ x => OwesOwn x) ?_ ?_ hx
  · intro s s' n k _ _
    refine ⟨⟨fun q status howes => ?_, fun tx key simulate hreq => ?_⟩, fun _ hl => hl⟩
    · cases k <;> cases howes
    · have hreq : k = .insertTransaction tx key simulate := hreq
      subst hreq
      rfl
  · intro s s' j x o a r hr st
    refine ⟨fun hown => ⟨fun q status howes => ?_, fun tx key simulate hreq => ?_⟩, fun _ hl => hl⟩
    · have hrequest : (x.1.next o r).request = x.1.request := next_request
      have howes : x.2.next o r = .owes q status := howes
      rcases Owing.owes_next howes with hold | ⟨hnothing, t, rfl, rfl⟩
      · exact (congrArg Request.queueId hrequest).trans (hown.request q status hold)
      · have hallowed : Allowed x.1 (.setTransaction t) := st.allowed.1
        have hkeyed : x.1.Keyed := (keyed hw hr).2 j x.1 (localOf_prod st.caller).1
        have hqueue := hkeyed.of_writes hallowed.writes
        rcases hallowed.writes.request with ⟨q', hq'⟩ | ⟨tx, key, simulate, hreq⟩
        · have hsame := (hkeyed.request q' hq').symm.trans hqueue
          exact (congrArg Request.queueId hrequest).trans (hq'.trans hsame)
        · rw [hown.inserts tx key simulate hreq] at hnothing
          cases hnothing
    · have hrequest : (x.1.next o r).request = x.1.request := next_request
      have hsilent := hown.inserts tx key simulate (hrequest.symm.trans hreq)
      have hnext : (announcements.next x o r).2 = x.2.next o r := rfl
      rw [hnext, hsilent]
      rfl

/-- No send or mine job of `q` runs, and no request about it is in flight. -/
def SettledFor (q : QueueId) (s : State engine) : Prop :=
  ∀ (i : ℕ) (k : Request) (p : Prog Unit), s.threads[i]? = some (k, p) → k.queueId = some q → p.isFinished = true

private theorem statusAnnounced (hq : w.transactions q = none)
    (h : Reachable (announcesStatuses q) (State.initial w) s) :
    StatusAnnounced q s := by
  refine h.invariant owingContract (StatusAnnounced q) ?_ (fun _ _ _ _ _ ih st => ih.start st)
    (fun _ _ _ _ _ _ _ _ ih st => ih.call st)
  have hnone : ∀ t, (State.initial w : State engine).world.transactions q ≠ some t := by
    intro t ht
    cases hq.symm.trans ht
  constructor
  · intro t ht
    exact absurd ht (hnone t)
  · intro t ht
    exact absurd ht (hnone t)

/-- When nothing is going on about a transaction, the status of its record was announced. -/
theorem status_announced (hw : w.Keyed) (hq : w.transactions q = none)
    (h : Reachable (announcesStatuses q) (State.initial w) s) (hsettled : SettledFor q s)
    (ht : s.world.transactions q = some t) (hqueued : t.status ≠ .queued) : announced q t.status s.trace = true := by
  rcases (statusAnnounced hq h).pending t ht hqueued with hannounced | ⟨i, hi⟩
  · exact hannounced
  · -- a process that is over has nothing to announce
    obtain ⟨⟨k, p⟩, hthread, hlocal⟩ := Option.map_eq_some_iff.mp hi
    obtain ⟨l, hl, hrequest⟩ := request_of_thread hthread
    have hboth := localOf_eq announcements hthread
    obtain ⟨hrecord, howing⟩ := localOf_prod hboth
    have hsame := Option.some.inj (hrecord.symm.trans hl)
    have hqueue := (owesOwn hw h hboth).request q t.status (Option.some.inj (howing.symm.trans hi))
    rw [hsame, hrequest] at hqueue
    obtain ⟨x, hends⟩ := (h.conforms owingContract).ends_of_finished owingContract hthread
      (hsettled i k p hthread hqueue)
    rw [hlocal] at hends
    exact absurd hends id

theorem settledFor_of_quiescent (h : s.quiescent = true) : SettledFor q s := by
  intro i k p hi _
  exact List.all_eq_true.mp h (k, p) (List.mem_of_getElem? hi)

end

/-! ### Runs -/

/-- No send job of `q` that was added is left, and no mine job. -/
def noJobLeft (q : QueueId) (s : State engine) : Bool :=
  (s.trace.all fun e => match e.op with
    | .sendQueueAdd q' n => q' ≠ q || !isRunnable (s.world.sendJobs q n)
    | _ => true) && !isRunnable (s.world.mineJobs q)

theorem status_announced_sentAndMined : ∃ s : State engine, ∃ t, s.world.transactions transferId = some t ∧
    t.status = .mined ∧ announced transferId t.status s.trace = true := by
  obtain ⟨s, hs, hr⟩ := exists_reachable_of_run (announcesStatuses transferId) .empty sentAndMined
    (fun s => s.quiescent && (s.world.transactions transferId).any fun t => t.status = .mined) (by decide +kernel)
  rw [Bool.and_eq_true, Option.any_eq_true] at hr
  obtain ⟨hover, t, ht, hmined⟩ := hr
  have hmined : t.status = .mined := of_decide_eq_true hmined
  refine ⟨s, t, ht, hmined, ?_⟩
  apply status_announced (fun q t ht => by cases ht) rfl hs (settledFor_of_quiescent hover) ht
  rw [hmined]
  decide

/-- The transfer is cancelled before it is sent, and its webhook cannot be enqueued. -/
def cancelledUnannounced : List (Move engine) :=
  starts (.insertTransaction transfer none false) :: proceeds 0 4 ++ starts (.cancel transferId) :: proceeds 1 8 ++
    answered 1 [throwing connectionClosed]

theorem not_status_announced : ¬ ∀ (w : World) (q : QueueId) (s : State engine) (t : Transaction), w.Keyed →
    w.transactions q = none → Reachable anyRun (State.initial w) s → SettledFor q s → noJobLeft q s = true →
    s.world.transactions q = some t → t.status ≠ .queued → announced q t.status s.trace = true := by
  intro hgeneral
  obtain ⟨s, hs, hr⟩ := exists_reachable_of_run anyRun .empty cancelledUnannounced
    (fun s => s.quiescent && noJobLeft transferId s && (s.world.transactions transferId).any fun t =>
      t.status = .cancelled && !announced transferId t.status s.trace) (by decide +kernel)
  simp only [Bool.and_eq_true, Option.any_eq_true, decide_eq_true_eq, Bool.not_eq_true'] at hr
  obtain ⟨⟨hover, hjobs⟩, t, ht, hcancelled, hnot⟩ := hr
  have hannounced := hgeneral .empty transferId s t (fun q t ht => by cases ht) rfl hs (settledFor_of_quiescent hover)
    hjobs ht (by rw [hcancelled]; decide)
  cases hannounced.symm.trans hnot

end Engine
