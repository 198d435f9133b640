import Engine.Records.Windows

/-! The attempts of one send job submit its transaction at most once, as long as none of
them fails between an accepted submission and the record that shows it. -/
namespace Engine
open Concurrent Program Function

/-- At most one of the two submissions can be executed: they use the same nonce. -/
def Replaces : Submission → Submission → Prop
  | .broadcast _ h, .broadcast _ h' => h.wallet = h'.wallet ∧ h.nonce = h'.nonce
  | _, _ => False

/-- The submissions are broadcasts of one wallet with one nonce. -/
def AllUnder (k : Wallet) (n : ℤ) (xs : List Submission) : Prop :=
  ∀ x ∈ xs, ∃ c h, x = .broadcast c h ∧ h.wallet = k ∧ h.nonce = n

/-- The record shows what was submitted. -/
inductive Recorded (t : Transaction) (xs : List Submission) : Prop
  | nothing (h : xs = [])
  | sent (n : ℤ) (hst : t.status = .sent) (heoa : t.isUserOp = false) (hn : t.nonce = some n)
      (h : AllUnder t.wallet n xs)
  | userOp (x : Submission) (hst : t.status = .sent) (huser : t.isUserOp = true) (h : xs = [x])

def World.Recorded (w : World) (q : QueueId) : Prop :=
  ∃ t, w.transactions q = some t ∧ Engine.Recorded t (w.submissions q)

/-- The process knows what was submitted, and is about to record it. -/
def Local.Pending (l : Local) (xs : List Submission) : Prop :=
  match l.phase with
  | .accepted hash | .marked hash => ∃ r, l.read = some r ∧ AllUnder r.wallet hash.nonce xs
  | .bundled _ => ∃ x, xs = [x]
  | _ => True

/-- Only the send worker runs, with any failures. -/
def onlySendJobs : Guard engine where
  start _
    | .sendJob _ _ => true
    | _ => false
  call _ _ _ _ := true

/-- And no attempt fails between an accepted submission of `q` and its record. A submission whose call throws is not
accepted (`World.effect`). -/
def sendAttemptsRecord (q : QueueId) : Guard engine where
  start := onlySendJobs.start
  call s i o a := recordsSubmissions q s i o a

section
variable {G : Guard engine} {s s' : State engine} {w w' : World} {i : ℕ} {l l' : Local} {o : Op}
  {a : Except Err o.Choice} {r : Except Err o.Reply} {t : Transaction} {q : QueueId} {x : Submission}
  {k : Wallet} {n : ℤ} {xs : List Submission}

/-! ### Submissions -/

theorem replaces_of_allUnder (h : AllUnder k n xs) : xs.Pairwise Replaces := by
  refine List.pairwise_of_forall_mem_list fun x hx y hy => ?_
  obtain ⟨c, hash, rfl, hw, hn⟩ := h x hx
  obtain ⟨c', hash', rfl, hw', hn'⟩ := h y hy
  exact ⟨hw.trans hw'.symm, hn.trans hn'.symm⟩

theorem Recorded.replaces (h : Recorded t xs) : xs.Pairwise Replaces := by
  cases h with
  | nothing h => simp [h]
  | sent n _ _ _ h => exact replaces_of_allUnder h
  | userOp x _ _ h => simp [h]

theorem Local.Pending.replaces (h : l.Pending xs) (hphase : l.phase.submitted = true) : xs.Pairwise Replaces := by
  unfold Local.Pending at h
  split at h
  · obtain ⟨r, -, h⟩ := h
    exact replaces_of_allUnder h
  · obtain ⟨r, -, h⟩ := h
    exact replaces_of_allUnder h
  · obtain ⟨x, rfl⟩ := h
    simp
  · rename_i hphase' _ _
    cases hp : l.phase <;> simp_all [Phase.submitted]

/-- A record that is not sent shows that nothing was submitted. -/
theorem Recorded.nothing_of_status (h : Recorded t xs) (hst : t.status ≠ .sent) : xs = [] := by
  cases h with
  | nothing h => exact h
  | sent _ hs => exact absurd hs hst
  | userOp _ hs => exact absurd hs hst

theorem ne_sent_of_queued {n : ℕ} (h : (manuallyRetried t n).status = .queued) : t.status ≠ .sent := by
  rcases status_of_queued h with h | ⟨h, -⟩ <;> rw [h] <;> decide

/-- What the attempt that holds the job knows about its record. -/
structure OnRecord (q : QueueId) (w : World) (l : Local) : Prop where
  read : l.phase = .stored ∨ l.read = none ∨ l.read = w.transactions q
  pending : l.phase.submitted = true → l.Pending (w.submissions q)
  recorded : l.phase.submitted = false → w.Recorded q

theorem stored_of_read (h : OnRecord q w l) (hidle : l.phase = .idle) (hr : l.read = some t) :
    w.transactions q = some t ∧ Recorded t (w.submissions q) := by
  have hread : l.read = w.transactions q := by
    rcases h.read with hp | hnone | hread
    · rw [hidle] at hp
      cases hp
    · rw [hr] at hnone
      cases hnone
    · exact hread
  have hstored := hread.symm.trans hr
  obtain ⟨t', ht', hrec⟩ := h.recorded (by rw [hidle]; rfl)
  obtain rfl := Option.some.inj (hstored.symm.trans ht')
  exact ⟨hstored, hrec⟩

/-- A submission by the attempt: nothing was submitted before, or it is the same nonce again. -/
theorem OnRecord.pending_of_submits (h : OnRecord q w l) (hidle : l.phase = .idle) (hs : Submits l x l')
    (hc : ∀ r, l.read = some r → r.Complete) : l'.Pending (x :: w.submissions q) := by
  cases hs with
  | first t q' n hash hsend =>
    obtain ⟨hstored, hrec⟩ := stored_of_read h hidle hsend.read
    have hnone := hrec.nothing_of_status (ne_sent_of_queued hsend.queued)
    refine ⟨t, hsend.read, fun x hx => ?_⟩
    rw [hnone, List.mem_singleton] at hx
    refine ⟨_, hash, hx, ?_, rfl⟩
    simp [TransactionHash.wallet, Transaction.wallet, hsend.carries.signer, hsend.carries.chainId]
  | again t hash hsend =>
    obtain ⟨hstored, hrec⟩ := stored_of_read h hidle hsend.read
    obtain ⟨⟨m, hm⟩, -⟩ := hc t hsend.read hsend.eoa (Or.inl hsend.sent)
    have hnonce := hsend.nonce m hm
    refine ⟨t, hsend.read, fun x hx => ?_⟩
    rcases List.mem_cons.mp hx with rfl | hx
    · refine ⟨_, hash, rfl, ?_, rfl⟩
      simp [TransactionHash.wallet, Transaction.wallet, hsend.carries.signer, hsend.carries.chainId]
    · cases hrec with
      | nothing h => simp [h] at hx
      | sent m' _ _ hm' hall =>
        obtain rfl := Option.some.inj (hm.symm.trans hm')
        rw [hnonce]
        exact hall x hx
      | userOp _ _ huser => exact absurd (huser.symm.trans hsend.eoa) (by decide)
  | bundle t q' n u hreq hheld hread hqueued huser =>
    obtain ⟨hstored, hrec⟩ := stored_of_read h hidle hread
    have hnone := hrec.nothing_of_status (ne_sent_of_queued hqueued)
    exact ⟨_, by rw [hnone]⟩

/-- What the attempt stores shows what was submitted. -/
theorem OnRecord.recorded_of_writes {n : ℕ} (h : OnRecord q w l) (hw : Writes l t) (hreq : l.request = .sendJob q n)
    (hheld : l.held = true)
    (hc : ∀ r, l.read = some r → r.Complete) : Recorded t (w.submissions q) := by
  cases hw with
  | unpopulated r q' n' m hreq' hheld' hread hidle hqueued =>
    obtain ⟨-, hrec⟩ := stored_of_read h hidle hread
    exact .nothing (hrec.nothing_of_status (ne_sent_of_queued hqueued))
  | sent r q' n' hash block hphase hsend =>
    have hp := h.pending (by rw [hphase]; rfl)
    simp only [Local.Pending, hphase] at hp
    obtain ⟨r', hr', hall⟩ := hp
    obtain rfl := Option.some.inj (hsend.read.symm.trans hr')
    refine .sent hash.nonce rfl rfl rfl ?_
    have hwallet : (sentTransaction (manuallyRetried r n') hash.transaction hash block).wallet = r.wallet := by
      simp [sentTransaction, Transaction.wallet]
    rw [hwallet]
    exact hall
  | sentUserOp r q' n' hash block hreq' hheld' hread hphase hqueued huser =>
    have hp := h.pending (by rw [hphase]; rfl)
    simp only [Local.Pending, hphase] at hp
    obtain ⟨x, hx⟩ := hp
    exact .userOp x rfl rfl hx
  | resent r q' n' hashes hash block hreq' hphase hsend hhashes =>
    have hp := h.pending (by rw [hphase]; rfl)
    simp only [Local.Pending, hphase] at hp
    obtain ⟨r', hr', hall⟩ := hp
    obtain rfl := Option.some.inj (hsend.read.symm.trans hr')
    obtain ⟨⟨m, hm⟩, -⟩ := hc r hsend.read hsend.eoa (Or.inl hsend.sent)
    rw [hsend.nonce m hm] at hall
    exact .sent m hsend.sent hsend.eoa hm hall
  | failed r q' n' m hreq' hheld' => exact absurd (hheld.symm.trans hheld') (by decide)
  | queued tx key simulate q' hreq' => exact absurd (hreq.symm.trans hreq') (by simp)
  | mined r q' hashes receipt hreq' => exact absurd (hreq.symm.trans hreq') (by simp)
  | minedUserOp r q' raw receipt m hreq' => exact absurd (hreq.symm.trans hreq') (by simp)
  | timedOut r q' hreq' => exact absurd (hreq.symm.trans hreq') (by simp)
  | cancelledQueued r q' block hreq' => exact absurd (hreq.symm.trans hreq') (by simp)
  | cancelledSent r q' hash hreq' => exact absurd (hreq.symm.trans hreq') (by simp)
  | retried r q' b c fee priority hreq' => exact absurd (hreq.symm.trans hreq') (by simp)
  | syncRetried r q' b c hashes hash block hreq' => exact absurd (hreq.symm.trans hreq') (by simp)

theorem recorded_of_world (h : w.Recorded q)
    (hw : w'.transactions q = w.transactions q ∧ w'.submissions q = w.submissions q) : w'.Recorded q := by
  unfold World.Recorded
  rw [hw.1, hw.2]
  exact h

theorem OnRecord.of_world (h : OnRecord q w l)
    (hw : w'.transactions q = w.transactions q ∧ w'.submissions q = w.submissions q) : OnRecord q w' l := by
  refine ⟨?_, fun hp => ?_, fun hp => recorded_of_world (h.recorded hp) hw⟩
  · rw [hw.1]
    exact h.read
  · rw [hw.2]
    exact h.pending hp

/-- What a send attempt has not finished yet is a submission. -/
theorem Local.Explained.submitted {n : ℕ} (h : l.Explained) (hreq : l.request = .sendJob q n)
    (hu : l.phase.unfinished = true) : l.phase.submitted = true := by
  unfold Local.Explained at h
  split at h
  · simp [*, Phase.submitted]
  · simp [*, Phase.submitted]
  · simp [*, Phase.submitted]
  · obtain ⟨r, q', m, hreq', -⟩ := h
    exact absurd (hreq.symm.trans hreq') (by simp)
  · obtain ⟨r, q', hreq', -⟩ := h
    exact absurd (hreq.symm.trans hreq') (by simp)
  · cases hp : l.phase <;> simp_all [Phase.unfinished]

theorem OnRecord.after_submission (h : OnRecord q s.world l) (st : Called G s s' i l o a r)
    (hx : submits ⟨i, o, a, r⟩ = some x) (hq : x.queueId = some q) (hs : Submits l x l') (hidle : l.phase = .idle)
    (ht : stores ⟨i, o, a, r⟩ = none) (hc : ∀ r, l.read = some r → r.Complete) : OnRecord q s'.world l' := by
  have hpending := h.pending_of_submits hidle hs hc
  have hsubs : s'.world.submissions q = x :: s.world.submissions q := by
    rw [submissions_after_call st, hx]
    simp [hq]
  have hread : l'.read = l.read := by cases hs <;> rfl
  have hstored : s'.world.transactions = s.world.transactions := by rw [world_after_call st, ht]
  refine ⟨?_, fun _ => hsubs ▸ hpending, fun hp => ?_⟩
  · rw [hread, hstored]
    rcases h.read with hp | hr
    · rw [hidle] at hp
      cases hp
    · exact Or.inr hr
  · rw [hs.submitted] at hp
    cases hp

/-- One call of the attempt that holds the job. -/
theorem OnRecord.step {n : ℕ} (h : OnRecord q s.world l) (st : Called G s s' i l o a r)
    (hstep : LocalStep s.world i l o a r l') (hl : l.Keyed) (hreq : l.request = .sendJob q n) (hheld : l.held = true)
    (hc : ∀ r, l.read = some r → r.Complete) (he : l.Explained)
    (hfails : l.unrecorded q = true → fails o a = false) : OnRecord q s'.world l' := by
  have hid : l.queueId = some q := hl.request q (by rw [hreq]; rfl)
  have hread : ∀ t, l.read = some t → t.queueId = q := by
    intro t ht
    have := hl.read t ht
    rw [hid] at this
    exact (Option.some.inj this).symm
  cases hstep with
  | same _ _ _ hs => exact h.of_world (world_of_silent st q hs)
  | receipt =>
    have hworld := h.of_world (world_unchanged st q (by rintro t ⟨⟩) (by rintro x ⟨⟩))
    exact ⟨hworld.read, hworld.pending, hworld.recorded⟩
  | lost _ _ _ hs hu ha =>
    have hnot := hfails (Local.unrecorded_iff.mpr ⟨hid, he.submitted hreq hu⟩)
    simp [fails, ha] at hnot
  | named _ _ _ _ _ _ _ _ hreq' => exact absurd (hreq.symm.trans hreq') (by simp)
  | read q' _ hq hidle =>
    have hworld := world_unchanged st q (by rintro t ⟨⟩) (by rintro x ⟨⟩)
    obtain rfl : q = q' := by
      rw [hreq] at hq
      exact Option.some.inj hq
    have hrecorded := recorded_of_world (h.recorded (by rw [hidle]; rfl)) hworld
    exact ⟨Or.inr (Or.inr (by rw [hworld.1])), by rintro ⟨⟩, fun _ => hrecorded⟩
  | acceptedFirst t q' n' hash hidle hsend =>
    exact h.after_submission st rfl (by simp [Submission.queueId, hread t hsend.read]) (.first t q' n' hash hsend)
      hidle rfl hc
  | acceptedAgain t hash hidle hsend =>
    exact h.after_submission st rfl (by simp [Submission.queueId, hread t hsend.read])
      (.again t hash hsend) hidle rfl hc
  | bundled t q' n' u hreq' hheld' hr hidle hqueued huser =>
    exact h.after_submission st rfl (by simp [Submission.queueId, hread t hr])
      (.bundle t q' n' u hreq' hheld' hr hqueued huser) hidle rfl hc
  | marked t q' n' hash hphase hsend =>
    have hworld := h.of_world (world_unchanged st q (by rintro t ⟨⟩) (by rintro x ⟨⟩))
    have hpending := hworld.pending (by rw [hphase]; rfl)
    simp only [Local.Pending, hphase] at hpending
    refine ⟨?_, fun _ => hpending, by rintro ⟨⟩⟩
    rcases hworld.read with hp | hr
    · rw [hphase] at hp
      cases hp
    · exact Or.inr hr
  | unmarked _ _ _ _ hreq' => exact absurd (hreq.symm.trans hreq') (by simp)
  | released _ _ _ _ hreq' => exact absurd (hreq.symm.trans hreq') (by simp)
  | timedOut _ _ _ hreq' => exact absurd (hreq.symm.trans hreq') (by simp)
  | stored t applied hw =>
    refine ⟨Or.inl rfl, by rintro ⟨⟩, fun _ => ?_⟩
    cases applied with
    | true =>
      have hq : t.queueId = q := by
        have := hl.of_writes hw
        rw [hid] at this
        exact (Option.some.inj this).symm
      have hsubs : s'.world.submissions q = s.world.submissions q := by
        rw [submissions_after_call st]
        rfl
      refine ⟨t, ?_, ?_⟩
      · rw [world_after_call st, ← hq]
        simp [stores]
      · rw [hsubs]
        exact h.recorded_of_writes hw hreq hheld hc
    | false =>
      -- a dropped pipeline: nothing was submitted that it would record
      have hp : l.phase.submitted = false := by
        cases hp : l.phase.submitted with
        | false => rfl
        | true => cases hfails (Local.unrecorded_iff.mpr ⟨hid, hp⟩)
      exact recorded_of_world (h.recorded hp) (world_unchanged st q (by rintro t ⟨⟩) (by rintro x ⟨⟩))
  | attempted _ _ _ hs _ _ hsettled =>
    have hworld := world_of_silent st q hs
    have hp : l.phase.submitted = false := by
      cases hp : l.phase.submitted with
      | false => rfl
      | true =>
        have hfinished := hsettled.finished hc
        rw [Phase.unfinished_of_submitted hp] at hfinished
        cases hfinished
    exact ⟨Or.inr (Or.inl rfl), by rintro ⟨⟩, fun _ => recorded_of_world (h.recorded hp) hworld⟩

/-! ### All attempts -/

/-- The first send job failed for the last time. -/
def World.JobFailed (w : World) (q : QueueId) : Prop := ∃ n, w.sendJobs q 0 = some ⟨.failed, n⟩

/-- The attempt holds the first send job of `q`. -/
def Local.Holds (l : Local) (q : QueueId) : Prop := l.request = .sendJob q 0 ∧ l.held = true

structure Attempts (q : QueueId) (s : State engine) : Prop where
  jobs : ∀ n, n ≠ 0 → s.world.sendJobs q n = none
  first : ∀ i l n, process s i = some l → l.request = .sendJob q n → n = 0
  replaces : (s.world.submissions q).Pairwise Replaces
  exhausted : ∀ i l, process s i = some l → l.request = .sendJob q 0 → l.exhausted = true → s.world.JobFailed q
  holder : ∀ i l, process s i = some l → l.Holds q → OnRecord q s.world l
  free : s.world.JobFailed q ∨ (∃ i l, process s i = some l ∧ l.Holds q) ∨ s.world.Recorded q

/-- Only send jobs run. -/
theorem sendJob_of_granted (h : Reachable (sendAttemptsRecord q) (State.initial w) s) (hl : process s i = some l) :
    ∃ q' n, l.request = .sendJob q' n := by
  obtain ⟨s₀, hg⟩ := granted h hl
  cases hreq : l.request with
  | sendJob q' n => exact ⟨q', n, rfl⟩
  | _ =>
    rw [hreq] at hg
    cases hg

/-- Send jobs neither add nor remove send jobs. -/
theorem sendJobs_kept {q' : QueueId} {n n' : ℕ} (st : Called G s s' i l o a r) (hreq : l.request = .sendJob q' n')
    (ho : o.endsJob ≠ some (.sendJob q n)) : s'.world.sendJobs q n = s.world.sendJobs q n := by
  have hallowed : Allowed l o := st.allowed
  rcases job_cases st.performed (.sendJob q n) with h | ⟨hadd, -⟩ | ⟨hremove, -⟩ | h
  · exact h
  · cases hallowed with
    | ignore _ hi => cases o <;> first | (cases hadd; done) | cases hi
    | addSend q'' n'' h =>
      cases h with
      | inserted _ _ _ hreq' => exact absurd (hreq.symm.trans hreq') (by simp)
      | resend _ _ _ _ hreq' =>
        rcases hreq' with ⟨_, hreq'⟩ | ⟨_, _, _, hreq'⟩ <;> exact absurd (hreq.symm.trans hreq') (by simp)
      | retryFailed _ _ _ _ _ hreq' =>
        obtain ⟨_, hreq'⟩ := hreq'
        exact absurd (hreq.symm.trans hreq') (by simp)
    | _ => cases hadd
  · cases hallowed with
    | ignore _ hi => cases o <;> first | (cases hremove; done) | cases hi
    | removeSend q'' n'' h =>
      obtain ⟨_, h | h⟩ := h <;> exact absurd (hreq.symm.trans h) (by simp)
    | _ => cases hremove
  · exact absurd h ho

/-- A submission of `q` by a send job comes from the attempt that holds it. -/
theorem Submits.held {q' : QueueId} {n : ℕ} (h : Submits l x l') (hreq : l.request = .sendJob q' n) :
    l.held = true := by
  cases h with
  | first t q'' n' hash hsend => exact hsend.held
  | again t hash hsend =>
    rcases hsend.request with ⟨_, _, _, hheld⟩ | ⟨_, _, _, hreq'⟩
    · exact hheld
    · exact absurd (hreq.symm.trans hreq') (by simp)
  | bundle t q'' n' u hreq' hheld => exact hheld

/-- A send attempt that does not hold its job stores only as the `failed` listener. -/
theorem Writes.exhausted {q' : QueueId} {n : ℕ} (h : Writes l t) (hreq : l.request = .sendJob q' n)
    (hheld : l.held = false) : l.exhausted = true := by
  have hnot : l.held = true → l.exhausted = true := by
    intro hh
    rw [hheld] at hh
    cases hh
  cases h with
  | failed r q'' n' m hreq' hheld' hexhausted => exact hexhausted
  | unpopulated r q'' n' m hreq' hheld' => exact hnot hheld'
  | sent r q'' n' hash block hphase hsend => exact hnot hsend.held
  | sentUserOp r q'' n' hash block hreq' hheld' => exact hnot hheld'
  | resent r q'' n' hashes hash block hreq' hphase hsend =>
    rcases hsend.request with ⟨_, _, _, hh⟩ | ⟨_, _, _, hreq''⟩
    · exact hnot hh
    · exact absurd (hreq.symm.trans hreq'') (by simp)
  | queued tx key simulate q' hreq' => exact absurd (hreq.symm.trans hreq') (by simp)
  | mined r q' hashes receipt hreq' => exact absurd (hreq.symm.trans hreq') (by simp)
  | minedUserOp r q' raw receipt m hreq' => exact absurd (hreq.symm.trans hreq') (by simp)
  | timedOut r q' hreq' => exact absurd (hreq.symm.trans hreq') (by simp)
  | cancelledQueued r q' block hreq' => exact absurd (hreq.symm.trans hreq') (by simp)
  | cancelledSent r q' hash hreq' => exact absurd (hreq.symm.trans hreq') (by simp)
  | retried r q' b c fee priority hreq' => exact absurd (hreq.symm.trans hreq') (by simp)
  | syncRetried r q' b c hashes hash block hreq' => exact absurd (hreq.symm.trans hreq') (by simp)

private theorem failJob_of_last {j : Option Job} {attempts : ℕ} (h : attemptsMade j + 1 = attempts)
    (h1 : 1 < attempts) :
    ∃ n, failJob attempts j = some ⟨.failed, n⟩ := by
  cases j with
  | none =>
    have : 0 + 1 = attempts := h
    omega
  | some j =>
    have hlast : ¬ j.attemptsMade + 1 < attempts := by
      have : j.attemptsMade + 1 = attempts := h
      omega
    exact ⟨j.attemptsMade + 1, by simp [failJob, hlast]⟩

/-- The attempt that fails for the last time fails its job. -/
theorem jobFailed_of_exhausted (st : Called G s s' i l o a r) (hreq : l.request = .sendJob q 0)
    (hl' : (l.next o r).exhausted = true) : l.exhausted = true ∨ s'.world.JobFailed q := by
  cases ho : o.endsJob with
  | none =>
    rw [next_exhausted ho] at hl'
    exact Or.inl hl'
  | some k =>
    obtain ⟨rfl, -⟩ := Allowed.endsJob st.allowed ho
    rw [hreq] at ho
    obtain ⟨e, -, -, hn, -⟩ | ⟨c, x, -, rfl, -, hx⟩ := World.effect_cases st.performed
    · cases o <;> first | (cases ho; done) | cases hn
    · cases o with
      | sendJobFailed q' n' =>
        cases ho
        obtain ⟨hx, hw⟩ := Prod.mk.inj (Option.some.inj hx)
        have hattempts : x = sendAttempts := by simpa [Local.next, Local.attempted] using hl'
        rw [hattempts] at hx
        obtain ⟨n, hn⟩ := failJob_of_last hx (by decide)
        refine Or.inr ⟨n, ?_⟩
        have hjob := job_setSendJob s.world q 0 (failJob sendAttempts (s.world.sendJobs q 0)) (.sendJob q 0)
        rw [if_pos rfl, hw, hn] at hjob
        exact hjob
      | sendJobCompleted q' n' =>
        cases ho
        simp [Local.next, Local.attempted] at hl'
      | _ => cases ho

theorem not_jobFailed_of_holds (hlocked : Locked s) (hl : process s i = some l) (hh : l.Holds q) :
    ¬ s.world.JobFailed q := by
  rintro ⟨n, hn⟩
  have hactive := hlocked.active i l hl hh.2
  rw [hh.1, World.job, hn] at hactive
  cases hactive

theorem Attempts.start {n : ℕ} {k : Request} (h : Attempts q s) (hlocked : Locked s)
    (st : Started recordContract (sendAttemptsRecord q) s s' n k) : Attempts q s' := by
  obtain ⟨ht, ha, -⟩ := transactions_after_start st
  have hsubs : s'.world.submissions q = s.world.submissions q := by
    unfold World.submissions
    rw [ha]
  have hjob : ∀ m, s'.world.sendJobs q m = s.world.sendJobs q m ∨
      (k = .sendJob q m ∧ isActive (s.world.sendJobs q m) = false ∧ isActive (s'.world.sendJobs q m) = true) := by
    intro m
    rcases job_after_start st (.sendJob q m) with hj | ⟨hk, hj⟩
    · exact Or.inl hj
    · exact Or.inr ⟨hk.symm, hj⟩
  have htaken : ∀ m, k = .sendJob q m → ∃ j, takeJob (s.world.sendJobs q m) = some j := by
    rintro m rfl
    exact takeJob_of_started st
  have hfirst : ∀ m, k = .sendJob q m → m = 0 := by
    intro m hk
    by_contra hm
    obtain ⟨j, hj⟩ := htaken m hk
    rw [h.jobs m hm] at hj
    cases hj
  have hfailed : s.world.JobFailed q → s'.world.JobFailed q ∧ k ≠ .sendJob q 0 := by
    rintro ⟨m, hm⟩
    have hk : k ≠ .sendJob q 0 := by
      intro hk
      obtain ⟨j, hj⟩ := htaken 0 hk
      rw [hm] at hj
      cases hj
    rcases hjob 0 with hj | ⟨hk', -⟩
    · exact ⟨⟨m, hj.trans hm⟩, hk⟩
    · exact absurd hk' hk
  refine ⟨fun m hm => ?_, fun i l m hl hreq => ?_, by rw [hsubs]; exact h.replaces, fun i l hl hreq hex => ?_,
    fun i l hl hh => ?_, ?_⟩
  · rcases hjob m with hj | ⟨hk, -⟩
    · rw [hj]
      exact h.jobs m hm
    · exact absurd (hfirst m hk) hm
  · rcases process_after_start st hl with ⟨-, rfl⟩ | ⟨-, hl⟩
    · exact hfirst m hreq
    · exact h.first i l m hl hreq
  · rcases process_after_start st hl with ⟨-, rfl⟩ | ⟨-, hl⟩
    · cases hex
    · exact (hfailed (h.exhausted i l hl hreq hex)).1
  · rcases process_after_start st hl with ⟨-, rfl⟩ | ⟨-, hl⟩
    · -- the job was free, so the record shows what was submitted
      have hk : k = .sendJob q 0 := hh.1
      have hrecorded : s.world.Recorded q := by
        rcases h.free with hf | ⟨j, m, hm, hmh⟩ | hrec
        · exact absurd hk (hfailed hf).2
        · have hactive := hlocked.active j m hm hmh.2
          obtain ⟨j', hj'⟩ := htaken 0 hk
          have hfree := (takeJob_not_active hj').1
          rw [hmh.1] at hactive
          exact absurd (hactive.symm.trans hfree) (by decide)
        · exact hrec
      exact ⟨Or.inr (Or.inl rfl), by rintro ⟨⟩, fun _ => recorded_of_world hrecorded ⟨by rw [ht], hsubs⟩⟩
    · exact (h.holder i l hl hh).of_world ⟨by rw [ht], hsubs⟩
  · rcases h.free with hf | ⟨i, l, hl, hh⟩ | hrec
    · exact Or.inl (hfailed hf).1
    · exact Or.inr (Or.inl ⟨i, l, process_kept st hl, hh⟩)
    · exact Or.inr (Or.inr (recorded_of_world hrec ⟨by rw [ht], hsubs⟩))

/-- The fields of the invariant that are about requests and jobs. -/
theorem Attempts.first_after_call (h : Attempts q s) (st : Called G s s' i l o a r) {j n : ℕ}
    (hl' : process s' j = some l') (hreq : l'.request = .sendJob q n) : n = 0 := by
  rcases process_after_call st hl' with ⟨-, rfl⟩ | ⟨-, hj⟩
  · rw [(localStep (i := i) st.allowed st.performed).request] at hreq
    exact h.first i l n st.caller hreq
  · exact h.first j l' n hj hreq

/-- A process that is about to record holds its job. -/
theorem Local.Explained.held {q' : QueueId} {n : ℕ} (h : l.Explained) (hreq : l.request = .sendJob q' n)
    (hp : l.phase.submitted = true) : l.held = true := by
  unfold Local.Explained at h
  split at h
  · rcases h with ⟨_, _, _, hs⟩ | ⟨_, hs⟩
    · exact hs.held
    · rcases hs.request with ⟨_, _, _, hheld⟩ | ⟨_, _, _, hreq'⟩
      · exact hheld
      · exact absurd (hreq.symm.trans hreq') (by simp)
  · obtain ⟨_, _, _, hs⟩ := h
    exact hs.held
  · obtain ⟨_, _, _, _, hheld, -⟩ := h
    exact hheld
  · simp_all [Phase.submitted]
  · simp_all [Phase.submitted]
  · cases hphase : l.phase <;> simp_all [Phase.submitted]

/-- A call of the attempt that holds the job. -/
theorem Attempts.holderCall (h : Attempts q s) (hlocked : Locked s) (st : Called G s s' i l o a r) (hh : l.Holds q)
    (hl : l.Keyed) (hc : ∀ r, l.read = some r → r.Complete) (he : l.Explained)
    (hfails : l.unrecorded q = true → fails o a = false) : Attempts q s' := by
  have hstep := localStep (i := i) st.allowed st.performed
  have hself := (h.holder i l st.caller hh).step st hstep hl hh.1 hh.2 hc he hfails
  have he' : (l.next o r).Explained := he.step hstep
  have hreq' : (l.next o r).request = .sendJob q 0 := hstep.request.trans hh.1
  have hreplaces : (s'.world.submissions q).Pairwise Replaces := by
    cases hp : (l.next o r).phase.submitted with
    | true => exact (hself.pending hp).replaces hp
    | false =>
      obtain ⟨t, -, hrec⟩ := hself.recorded hp
      exact hrec.replaces
  refine ⟨fun n hn => ?_, fun j l' n hl' hreq => h.first_after_call st hl' hreq, hreplaces,
    fun j l' hl' hreq hex => ?_, fun j l' hl' hh' => ?_, ?_⟩
  · rw [sendJobs_kept st hh.1 fun ho => ?_]
    · exact h.jobs n hn
    · have := (Allowed.endsJob st.allowed ho).1
      rw [hh.1] at this
      cases this
      exact hn rfl
  · rcases process_after_call st hl' with ⟨-, rfl⟩ | ⟨-, hj⟩
    · rcases jobFailed_of_exhausted st hh.1 hex with hex | hf
      · exact absurd (h.exhausted i l st.caller hh.1 hex) (not_jobFailed_of_holds hlocked st.caller hh)
      · exact hf
    · exact absurd (h.exhausted j l' hj hreq hex) (not_jobFailed_of_holds hlocked st.caller hh)
  · rcases process_after_call st hl' with ⟨-, rfl⟩ | ⟨hne, hj⟩
    · exact hself
    · exact absurd (hlocked.unique j i l' l hj st.caller hh'.2 hh.2 (hh'.1.trans hh.1.symm)) hne
  · cases hheld : (l.next o r).held with
    | true => exact Or.inr (Or.inl ⟨i, _, st.self, hreq', hheld⟩)
    | false =>
      refine Or.inr (Or.inr (hself.recorded ?_))
      cases hp : (l.next o r).phase.submitted with
      | false => rfl
      | true =>
        rw [he'.held hreq' hp] at hheld
        cases hheld

/-- A call of a process that does not hold the job: of another transaction's job, or of the listener. -/
theorem Attempts.bystanderCall {q' : QueueId} {n' : ℕ} (h : Attempts q s) (hlocked : Locked s)
    (st : Called G s s' i l o a r) (hh : ¬ l.Holds q) (hreq : l.request = .sendJob q' n') (hl : l.Keyed) :
    Attempts q s' := by
  have hstep := localStep (i := i) st.allowed st.performed
  have hid : l.queueId = some q' := hl.request q' (by rw [hreq]; rfl)
  have hfirst : l.queueId = some q → l.request = .sendJob q 0 ∧ l.held = false := by
    intro hq
    obtain rfl : q' = q := Option.some.inj (hid.symm.trans hq)
    obtain rfl := h.first i l n' st.caller hreq
    refine ⟨hreq, ?_⟩
    cases hheld : l.held with
    | false => rfl
    | true => exact absurd ⟨hreq, hheld⟩ hh
  have hsubmits : ∀ x, submits ⟨i, o, a, r⟩ = some x → x.queueId ≠ some q := by
    intro x hx hq
    have hs := (hstep.of_submits hx hq).2
    obtain ⟨t, ht, hxt⟩ := hs.read
    have hheld := (hfirst ((hl.read t ht).trans (hxt.symm.trans hq))).2
    rw [hs.held hreq] at hheld
    cases hheld
  -- only the listener stores the record, and then the job failed
  have hstores : ∀ t, stores ⟨i, o, a, r⟩ = some t → t.queueId = q → s.world.JobFailed q := by
    intro t ht hq
    obtain rfl : o = .setTransaction t := op_of_stores ht
    have hw : Writes l t := st.allowed.writes
    obtain ⟨hreq', hheld⟩ := hfirst ((hl.of_writes hw).trans (by rw [hq]))
    exact h.exhausted i l st.caller hreq' (hw.exhausted hreq hheld)
  have hsubs : s'.world.submissions q = s.world.submissions q := by
    rw [submissions_after_call st]
    cases hx : submits ⟨i, o, a, r⟩ with
    | none => rfl
    | some x => simp [hsubmits x hx]
  have hjobs : ∀ n, s'.world.sendJobs q n = s.world.sendJobs q n := by
    intro n
    refine sendJobs_kept st hreq fun ho => ?_
    obtain ⟨hreq', hheld⟩ := Allowed.endsJob st.allowed ho
    obtain rfl := h.first i l n st.caller hreq'
    exact hh ⟨hreq', hheld⟩
  have hfailed : s.world.JobFailed q → s'.world.JobFailed q := by
    rintro ⟨m, hm⟩
    exact ⟨m, (hjobs 0).trans hm⟩
  have hkept : ¬ s.world.JobFailed q →
      s'.world.transactions q = s.world.transactions q ∧ s'.world.submissions q = s.world.submissions q :=
    fun hnot => world_unchanged st q (fun t ht hq => hnot (hstores t ht hq)) hsubmits
  refine ⟨fun n hn => by rw [hjobs n]; exact h.jobs n hn, fun j l' n hl' hreq => h.first_after_call st hl' hreq,
    by rw [hsubs]; exact h.replaces, fun j l' hl' hreq' hex => ?_, fun j l' hl' hh' => ?_, ?_⟩
  · rcases process_after_call st hl' with ⟨-, rfl⟩ | ⟨-, hj⟩
    · have hreq'' := hstep.request.symm.trans hreq'
      rcases jobFailed_of_exhausted st hreq'' hex with hex | hf
      · exact hfailed (h.exhausted i l st.caller hreq'' hex)
      · exact hf
    · exact hfailed (h.exhausted j l' hj hreq' hex)
  · rcases process_after_call st hl' with ⟨-, rfl⟩ | ⟨-, hj⟩
    · exact absurd ⟨hstep.request.symm.trans hh'.1, hstep.held hh'.2⟩ hh
    · exact (h.holder j l' hj hh').of_world (hkept (not_jobFailed_of_holds hlocked hj hh'))
  · by_cases hf : s.world.JobFailed q
    · exact Or.inl (hfailed hf)
    · rcases h.free with hf' | ⟨j, m, hm, hmh⟩ | hrec
      · exact absurd hf' hf
      · refine Or.inr (Or.inl ⟨j, m, ?_, hmh⟩)
        have hj : j ≠ i := by
          rintro rfl
          obtain rfl := Option.some.inj (st.caller.symm.trans hm)
          exact hh hmh
        exact (st.others j hj).trans hm
      · exact Or.inr (Or.inr (recorded_of_world hrec (hkept hf)))

theorem attempts (hw : w.Queued q) (h : Reachable (sendAttemptsRecord q) (State.initial w) s) : Attempts q s := by
  refine h.invariant recordContract (Attempts q) ?_ (fun s s' n k hs ih st => ih.start (locked hs) st) ?_
  · obtain ⟨t, ht, -⟩ := hw.record
    have hprocess : ∀ i l, process (State.initial w : State engine) i ≠ some l := by
      intro i l hl
      cases hl
    refine ⟨hw.jobs, fun i l n hl => absurd hl (hprocess i l), ?_, fun i l hl => absurd hl (hprocess i l),
      fun i l hl => absurd hl (hprocess i l), Or.inr (Or.inr ⟨t, ht, .nothing hw.submissions⟩)⟩
    have hnone : (State.initial w : State engine).world.submissions q = [] := hw.submissions
    simp [hnone]
  · intro s s' i l o a r hs ih st
    have hl := (keyed hw.wellKept.keyed hs).2 i l st.caller
    obtain ⟨q', n', hreq⟩ := sendJob_of_granted hs st.caller
    by_cases hh : l.Holds q
    · have hg : recordsSubmissions q s i o a = true := st.granted
      exact ih.holderCall (locked hs) st hh hl (fun r hr => (complete hw.wellKept hs).2 i l r st.caller hr)
        (explained hs st.caller) (fails_of_records hg st.caller)
    · exact ih.bystanderCall (locked hs) st hh hreq hl

/-- No two submissions of the transaction have different nonces, and a user operation is the only one. -/
theorem submitted_at_most_once (hw : w.Queued q) (h : Reachable (sendAttemptsRecord q) (State.initial w) s) :
    (s.world.submissions q).Pairwise Replaces := (attempts hw h).replaces

end

/-- The webhook of the first attempt fails after the record is stored; the second attempt
broadcasts the same nonce again. -/
def webhookFails : List (Move engine) :=
  starts (.sendJob transferId 0) :: proceeds 0 12 ++ answered 0 [throwing connectionClosed, usual] ++
    starts (.sendJob transferId 0) :: proceeds 1 11

theorem submitted_at_most_once_webhookFails : ∃ s : State engine,
    (s.world.submissions transferId).length = 2 ∧ (s.world.submissions transferId).Pairwise Replaces := by
  obtain ⟨s, hs, hr⟩ := exists_reachable_of_run (sendAttemptsRecord transferId) transferQueued webhookFails
    (fun s => (s.world.submissions transferId).length == 2) (by decide +kernel)
  exact ⟨s, by simpa using hr, submitted_at_most_once transferQueued_queued hs⟩

/-- The nonce of the first attempt's accepted broadcast cannot be noted; the second attempt
broadcasts with a new nonce. -/
def addSentNonceFails : List (Move engine) :=
  starts (.sendJob transferId 0) :: proceeds 0 8 ++ answered 0 [throwing connectionClosed, usual] ++
    starts (.sendJob transferId 0) :: proceeds 1 8

theorem not_submitted_at_most_once : ¬ ∀ (w : World) (q : QueueId) (s : State engine), w.Queued q →
    Reachable onlySendJobs (State.initial w) s → (s.world.submissions q).Pairwise Replaces := by
  intro hgeneral
  obtain ⟨s, hs, hr⟩ := exists_reachable_of_run onlySendJobs transferQueued addSentNonceFails
    (fun s => s.world.submissions transferId ==
      [.broadcast (.transaction transferId) (transferHash 7), .broadcast (.transaction transferId) (transferHash 6)])
    (by decide +kernel)
  have hsubs := beq_iff_eq.mp hr
  have hpair := hgeneral transferQueued transferId s transferQueued_queued hs
  rw [hsubs, List.pairwise_cons] at hpair
  have hnonce := (hpair.1 _ List.mem_cons_self).2
  exact absurd hnonce (by decide)

end Engine
