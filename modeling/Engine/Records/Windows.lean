import Engine.Records.Invariants

/-! Between an accepted submission and the record that shows it: how a process gets
into this window, and how it leaves it when nothing fails. -/
namespace Engine
open Concurrent Program Function

/-- A sent or mined EOA record has a nonce and a list of hashes. -/
def Transaction.Complete (t : Transaction) : Prop :=
  t.isUserOp = false → t.status = .sent ∨ t.status = .mined →
    (∃ n, t.nonce = some n) ∧ ∃ hashes, t.sentTransactionHashes = some hashes

/-- The records of a world are stored under their own ids, and are complete. -/
structure World.WellKept (w : World) : Prop where
  keyed : w.Keyed
  complete : ∀ q t, w.transactions q = some t → t.Complete

/-- The call throws, or it is a pipeline whose commands are dropped. -/
def fails (o : Op) (a : Except Err o.Choice) : Bool :=
  throws o a || match o, a with
    | .setTransaction _, .ok false => true
    | _, _ => false

/-- The process has a submission of `q` accepted that it has not recorded yet. -/
def Local.unrecorded (l : Local) (q : QueueId) : Bool := l.queueId == some q && l.phase.submitted

/-- Some process has a submission of `q` accepted that it has not recorded yet. -/
def unrecorded (s : State engine) (q : QueueId) : Bool :=
  (List.range s.threads.length).any fun i => (process s i).any fun l => l.unrecorded q

/-- No call of a process fails while it has a submission of `q` to record. -/
def recordsSubmissions (q : QueueId) (s : State engine) (i : ℕ) (o : Op) (a : Except Err o.Choice) : Bool :=
  (process s i).all fun l => !l.unrecorded q || !fails o a

/-- What was accepted for the transaction, the last submission first. -/
def World.submissions (w : World) (q : QueueId) : List Submission := w.accepted.filter fun x => x.queueId == some q

/-- A transaction whose first send is asked for, and that nothing else was done with. -/
structure World.Queued (w : World) (q : QueueId) : Prop where
  wellKept : w.WellKept
  record : ∃ t, w.transactions q = some t ∧ t.status = .queued
  jobs : ∀ n, n ≠ 0 → w.sendJobs q n = none
  submissions : w.submissions q = []

section
variable {G : Guard engine} {s s' : State engine} {w w' : World} {i : ℕ} {l l' : Local} {o : Op}
  {a : Except Err o.Choice} {r : Except Err o.Reply} {t : Transaction} {q : QueueId} {x : Submission}

theorem World.empty_wellKept : World.empty.WellKept := by
  constructor <;> intro q t ht <;> cases ht

theorem unrecorded_iff : unrecorded s q = true ↔ ∃ i l, process s i = some l ∧ l.unrecorded q = true := by
  simp only [unrecorded, List.any_eq_true, List.mem_range, Option.any_eq_true]
  constructor
  · intro h
    obtain ⟨i, -, l, hl, hu⟩ := h
    exact ⟨i, l, hl, hu⟩
  · intro h
    obtain ⟨i, l, hl, hu⟩ := h
    obtain ⟨p, hp, -⟩ := Option.map_eq_some_iff.mp hl
    exact ⟨i, (List.getElem?_eq_some_iff.mp hp).1, l, hl, hu⟩

theorem Local.unrecorded_iff : l.unrecorded q = true ↔ l.queueId = some q ∧ l.phase.submitted = true := by
  simp [Local.unrecorded]

theorem fails_of_records (h : recordsSubmissions q s i o a = true) (hl : process s i = some l)
    (hu : l.unrecorded q = true) : fails o a = false := by
  simp only [recordsSubmissions, hl, Option.all_some, Bool.or_eq_true, Bool.not_eq_true'] at h
  simpa [hu] using h

theorem Writes.complete (h : Writes l t) (hr : ∀ r, l.read = some r → r.Complete) : t.Complete := by
  intro heoa hst
  cases h with
  | queued tx key simulate q hreq => simp [queuedTransaction] at hst
  | unpopulated r q n m hreq => simp [erroredTransaction] at hst
  | sent r q n hash block hphase hsend => exact ⟨⟨_, rfl⟩, _, rfl⟩
  | sentUserOp r q n hash block hreq => cases heoa
  | resent r q n hashes hash block hreq hphase hsend =>
    exact ⟨(hr r hsend.read hsend.eoa (Or.inl hsend.sent)).1, _, rfl⟩
  | syncRetried r q b c hashes hash block hreq hphase hsend =>
    exact ⟨(hr r hsend.read hsend.eoa (Or.inl hsend.sent)).1, _, rfl⟩
  | failed r q n m hreq => simp [erroredTransaction] at hst
  | mined r q hashes receipt hreq hheld hread hphase hsent heoa' hhashes =>
    exact ⟨(hr r hread heoa' (Or.inl hsent)).1, hashes, hhashes⟩
  | minedUserOp r q raw receipt m hreq hheld hread hidle hsent huser => exact absurd (huser.symm.trans heoa) (by decide)
  | timedOut r q hreq => simp [timedOutTransaction] at hst
  | cancelledQueued r q block hreq => simp [Engine.cancelledQueued] at hst
  | cancelledSent r q hash hreq => simp [Engine.cancelledSent] at hst
  | retried r q b c fee priority hreq hread hidle hsent => exact hr r hread heoa (Or.inl hsent)

theorem complete (hw : w.WellKept) (h : Reachable G (State.initial w) s) :
    (∀ q t, s.world.transactions q = some t → t.Complete) ∧
      ∀ i l r, process s i = some l → l.read = some r → r.Complete :=
  each_record (P := fun _ t => t.Complete) h (fun _ _ _ _ ht => ht) hw.complete
    fun _ _ _ _ _ _ hwrites hr => hwrites.complete hr

/-- With complete records, a process that is settled has nothing unfinished. -/
theorem Local.Settled.finished (h : l.Settled) (hc : ∀ r, l.read = some r → r.Complete) :
    l.phase.unfinished = false := by
  rcases h with h | ⟨r, hr, heoa, hsent, hm⟩
  · exact h
  · obtain ⟨⟨n, hn⟩, hashes, hh⟩ := hc r hr heoa (Or.inl hsent)
    rcases hm with ⟨hnone, -⟩ | ⟨hnone, -⟩
    · rw [hh] at hnone
      cases hnone
    · rw [hn] at hnone
      cases hnone

theorem Phase.unfinished_of_submitted {p : Phase} (h : p.submitted = true) : p.unfinished = true := by
  cases p <;> first | rfl | cases h

/-- How a process gets something accepted for a transaction. -/
inductive Submits (l : Local) : Submission → Local → Prop
  | first (r : Transaction) (q : QueueId) (n : ℕ) (hash : TransactionHash) (h : FirstSend l r q n hash) :
      Submits l (.broadcast (.transaction r.queueId) hash) (l.at (.accepted hash))
  | again (r : Transaction) (hash : TransactionHash) (h : SendAgain l r hash) :
      Submits l (.broadcast (.transaction r.queueId) hash) (l.at (.accepted hash))
  | bundle (r : Transaction) (q : QueueId) (n : ℕ) (u : UserOperation) (hreq : l.request = .sendJob q n)
      (hheld : l.held = true) (hread : l.read = some r) (hqueued : (manuallyRetried r n).status = .queued)
      (huser : r.isUserOp = true) : Submits l (.userOp r.queueId ⟨u⟩) (l.at (.bundled ⟨u⟩))

theorem LocalStep.of_submits (h : LocalStep w i l o a r l') (hx : submits ⟨i, o, a, r⟩ = some x)
    (hq : x.queueId = some q) : l.phase = .idle ∧ Submits l x l' := by
  have hsilent : ¬ Silent ⟨i, o, a, r⟩ := by
    intro hs
    rw [hs.submits x hx] at hq
    cases hq
  cases h with
  | same _ _ _ hs => exact absurd hs hsilent
  | lost _ _ _ hs => exact absurd hs hsilent
  | named _ _ _ hs => exact absurd hs hsilent
  | attempted _ _ _ hs => exact absurd hs hsilent
  | acceptedFirst t q' n hash hidle hs =>
    cases hx
    exact ⟨hidle, .first t q' n hash hs⟩
  | acceptedAgain t hash hidle hs =>
    cases hx
    exact ⟨hidle, .again t hash hs⟩
  | bundled t q' n u hreq hheld hread hidle hqueued huser =>
    cases hx
    exact ⟨hidle, .bundle t q' n u hreq hheld hread hqueued huser⟩
  | _ => cases hx

theorem Submits.submitted (h : Submits l x l') : l'.phase.submitted = true := by
  cases h <;> rfl

theorem Submits.queueId (h : Submits l x l') : l'.queueId = l.queueId := by
  cases h <;> rfl

/-- A submission is for the record that its process read. -/
theorem Submits.read (h : Submits l x l') : ∃ t, l.read = some t ∧ x.queueId = some t.queueId := by
  cases h with
  | first t q' n hash hs => exact ⟨t, hs.read, rfl⟩
  | again t hash hs => exact ⟨t, hs.read, rfl⟩
  | bundle t q' n u hreq hheld hread => exact ⟨t, hread, rfl⟩

theorem Submits.unrecorded (h : Submits l x l') (hl : l.Keyed) (hq : x.queueId = some q) : l'.unrecorded q = true := by
  obtain ⟨t, ht, hx⟩ := h.read
  rw [hx] at hq
  have hid : l'.queueId = some q := by
    rw [h.queueId, hl.read t ht]
    exact hq
  exact Local.unrecorded_iff.mpr ⟨hid, h.submitted⟩

theorem submissions_after_call (st : Called G s s' i l o a r) :
    s'.world.submissions q = match submits ⟨i, o, a, r⟩ with
      | some x => if x.queueId = some q then x :: s.world.submissions q else s.world.submissions q
      | none => s.world.submissions q := by
  unfold World.submissions
  rw [World.accepted_of_effect (i := i) st.performed]
  cases submits ⟨i, o, a, r⟩ with
  | none => rfl
  | some x =>
    by_cases hq : x.queueId = some q
    · simp [hq]
    · simp [hq]

/-- A call that is not about `q` changes nothing of it. -/
theorem world_unchanged (st : Called G s s' i l o a r) (q : QueueId)
    (ht : ∀ t, stores ⟨i, o, a, r⟩ = some t → t.queueId ≠ q)
    (hx : ∀ x, submits ⟨i, o, a, r⟩ = some x → x.queueId ≠ some q) :
    s'.world.transactions q = s.world.transactions q ∧ s'.world.submissions q = s.world.submissions q := by
  constructor
  · rw [world_after_call st]
    cases hs : stores ⟨i, o, a, r⟩ with
    | none => rfl
    | some t => simp [Function.update_of_ne (ht t hs).symm]
  · rw [submissions_after_call st]
    cases hs : submits ⟨i, o, a, r⟩ with
    | none => rfl
    | some x => simp [hx x hs]

theorem world_of_silent (st : Called G s s' i l o a r) (q : QueueId) (hs : Silent ⟨i, o, a, r⟩) :
    s'.world.transactions q = s.world.transactions q ∧ s'.world.submissions q = s.world.submissions q := by
  refine world_unchanged st q (fun t ht => ?_) (fun x hx hq => ?_)
  · rw [hs.stores] at ht
    cases ht
  · rw [hs.submits x hx] at hq
    cases hq

/-- The calls of a process in the window: it stays in it, or it stores the sent record. -/
theorem LocalStep.of_submitted (h : LocalStep w i l o a r l') (hphase : l.phase.submitted = true)
    (hfails : fails o a = false) (hc : ∀ r, l.read = some r → r.Complete) :
    (l'.phase.submitted = true ∧ stores ⟨i, o, a, r⟩ = none ∧ l'.read = l.read ∧ l'.queueId = l.queueId ∧
        l'.held = l.held) ∨
      ∃ t, stores ⟨i, o, a, r⟩ = some t ∧ Writes l t ∧ t.status = .sent := by
  have hidle : l.phase ≠ .idle := by
    intro hp
    rw [hp] at hphase
    cases hphase
  have hthrows : throws o a ≠ true := by
    intro ht
    simp [fails, ht] at hfails
  cases h with
  | same _ _ _ hs => exact Or.inl ⟨hphase, hs.stores, rfl, rfl, rfl⟩
  | lost _ _ _ hs hu ha => exact absurd ha hthrows
  | receipt => exact Or.inl ⟨hphase, rfl, rfl, rfl, rfl⟩
  | named _ _ _ _ _ _ _ _ _ hp => exact absurd hp hidle
  | read _ _ _ hp => exact absurd hp hidle
  | acceptedFirst _ _ _ _ hp => exact absurd hp hidle
  | acceptedAgain _ _ hp => exact absurd hp hidle
  | bundled _ _ _ _ _ _ _ hp => exact absurd hp hidle
  | marked => exact Or.inl ⟨rfl, rfl, rfl, rfl, rfl⟩
  | unmarked _ _ _ _ _ _ _ hp => exact absurd hp hidle
  | released _ _ _ _ _ _ _ hp => simp [hp, Phase.submitted] at hphase
  | timedOut _ _ _ _ _ _ hp => exact absurd hp hidle
  | attempted _ _ _ _ _ _ hsettled =>
    have hfinished := hsettled.finished hc
    rw [Phase.unfinished_of_submitted hphase] at hfinished
    cases hfinished
  | stored t applied hw =>
    cases applied with
    | false => cases hfails
    | true =>
      refine Or.inr ⟨t, rfl, hw, ?_⟩
      cases hw with
      | sent => rfl
      | sentUserOp => rfl
      | resent _ _ _ _ _ _ _ _ hsend => exact hsend.sent
      | syncRetried _ _ _ _ _ _ _ _ _ hsend => exact hsend.sent
      | mined _ _ _ _ _ _ _ hp => simp [hp, Phase.submitted] at hphase
      | queued _ _ _ _ _ _ hp => exact absurd hp hidle
      | unpopulated _ _ _ _ _ _ _ hp => exact absurd hp hidle
      | failed _ _ _ _ _ _ _ _ hp => exact absurd hp hidle
      | minedUserOp _ _ _ _ _ _ _ _ hp => exact absurd hp hidle
      | timedOut _ _ _ _ _ _ hp => exact absurd hp hidle
      | cancelledQueued _ _ _ _ _ hp => exact absurd hp hidle
      | cancelledSent _ _ _ _ _ hp => exact absurd hp hidle
      | retried _ _ _ _ _ _ _ _ hp => exact absurd hp hidle

/-- A process that has something to record still has, or it stores a sent record. -/
theorem unrecorded_after_call (st : Called G s s' i l o a r) (hl : l.Keyed)
    (hc : ∀ r, l.read = some r → r.Complete) (hfails : l.unrecorded q = true → fails o a = false)
    (hu : unrecorded s q = true) :
    unrecorded s' q = true ∨ ∃ t, stores ⟨i, o, a, r⟩ = some t ∧ t.queueId = q ∧ t.status = .sent := by
  obtain ⟨j, m, hm, hmu⟩ := unrecorded_iff.mp hu
  by_cases hj : j = i
  · subst hj
    obtain rfl : l = m := Option.some.inj (st.caller.symm.trans hm)
    obtain ⟨hid, hphase⟩ := Local.unrecorded_iff.mp hmu
    have hstep := localStep (i := j) st.allowed st.performed
    rcases hstep.of_submitted hphase (hfails hmu) hc with ⟨hphase', -, -, hid', -⟩ | ⟨t, ht, hw, hsent⟩
    · refine Or.inl (unrecorded_iff.mpr ⟨j, _, st.self, Local.unrecorded_iff.mpr ⟨?_, hphase'⟩⟩)
      exact hid'.trans hid
    · have hq : t.queueId = q := by
        have := hl.of_writes hw
        rw [hid] at this
        exact (Option.some.inj this).symm
      exact Or.inr ⟨t, ht, hq, hsent⟩
  · exact Or.inl (unrecorded_iff.mpr ⟨j, m, (st.others j hj).trans hm, hmu⟩)

theorem unrecorded_after_start {n : ℕ} {k : Request} (st : Started recordContract G s s' n k)
    (hu : unrecorded s q = true) : unrecorded s' q = true := by
  obtain ⟨j, m, hm, hmu⟩ := unrecorded_iff.mp hu
  exact unrecorded_iff.mpr ⟨j, m, process_kept st hm, hmu⟩

/-- What is stored is computed from the record that was read, or inserted. -/
theorem Writes.read (h : Writes l t) :
    (∃ r, l.read = some r) ∨ ∃ tx key simulate, l.request = .insertTransaction tx key simulate := by
  cases h with
  | queued tx key simulate q hreq => exact Or.inr ⟨tx, key, simulate, hreq⟩
  | unpopulated r q n m hreq hheld hread => exact Or.inl ⟨r, hread⟩
  | sent r q n hash block hphase hsend => exact Or.inl ⟨r, hsend.read⟩
  | sentUserOp r q n hash block hreq hheld hread => exact Or.inl ⟨r, hread⟩
  | resent r q n hashes hash block hreq hphase hsend => exact Or.inl ⟨r, hsend.read⟩
  | syncRetried r q b c hashes hash block hreq hphase hsend => exact Or.inl ⟨r, hsend.read⟩
  | failed r q n m hreq hheld hexhausted hread => exact Or.inl ⟨r, hread⟩
  | mined r q hashes receipt hreq hheld hread => exact Or.inl ⟨r, hread⟩
  | minedUserOp r q raw receipt m hreq hheld hread => exact Or.inl ⟨r, hread⟩
  | timedOut r q hreq hheld hexhausted hread => exact Or.inl ⟨r, hread⟩
  | cancelledQueued r q block hreq hread => exact Or.inl ⟨r, hread⟩
  | cancelledSent r q hash hreq hread => exact Or.inl ⟨r, hread⟩
  | retried r q b c fee priority hreq hread => exact Or.inl ⟨r, hread⟩

/-- Only an insertion stores a queued record. -/
theorem Writes.inserting (h : Writes l t) (hst : t.status = .queued) :
    ∃ tx key simulate, l.request = .insertTransaction tx key simulate := by
  cases h with
  | queued tx key simulate q hreq => exact ⟨tx, key, simulate, hreq⟩
  | resent r q n hashes hash block hreq hphase hsend => exact absurd (hst.symm.trans hsend.sent) (by decide)
  | syncRetried r q b c hashes hash block hreq hphase hsend => exact absurd (hst.symm.trans hsend.sent) (by decide)
  | retried r q b c fee priority hreq hread hidle hsent => exact absurd (hst.symm.trans hsent) (by decide)
  | _ => cases hst

end

/-- The transfer waits for its first send; its wallet has used nonce 5. -/
def transferQueued : World :=
  { World.empty with
    nonce := fun _ => some 5
    transactions := update World.empty.transactions transferId (some (queuedTransaction transfer transferId))
    sendJobs := update World.empty.sendJobs transferId (update (fun _ => none) 0 (some ⟨.waiting, 0⟩)) }

theorem transferQueued_queued : transferQueued.Queued transferId := by
  have hrecord : ∀ q t, transferQueued.transactions q = some t →
      q = transferId ∧ t = queuedTransaction transfer transferId := by
    intro q t ht
    by_cases hq : q = transferId
    · subst hq
      have ht : some (queuedTransaction transfer transferId) = some t := by simpa [transferQueued] using ht
      exact ⟨rfl, (Option.some.inj ht).symm⟩
    · have ht : World.empty.transactions q = some t := by simpa [transferQueued, update_of_ne hq] using ht
      cases ht
  refine ⟨⟨fun q t ht => ?_, fun q t ht => ?_⟩, ⟨queuedTransaction transfer transferId, ?_, rfl⟩, fun n hn => ?_, rfl⟩
  · obtain ⟨rfl, rfl⟩ := hrecord q t ht
    rfl
  · obtain ⟨rfl, rfl⟩ := hrecord q t ht
    intro _ hst
    rcases hst with hst | hst <;> cases hst
  · simp [transferQueued]
  · simp [transferQueued, update_of_ne hn]

end Engine
