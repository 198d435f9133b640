import Engine.Records.Invariants

/-! A resend that the mine worker decides on is sent: its job is new, as long as no resend job
is over that the record does not count. -/
namespace Engine
open Concurrent Program Function

def JobState.isFinished : JobState → Bool
  | .completed | .failed => true
  | _ => false

/-- The job is kept although it is over. -/
def isFinished (j : Option Job) : Bool := j.any fun j => j.state.isFinished

/-- The job is waiting, delayed or active. -/
def isRunnable (j : Option Job) : Bool := j.any fun j => !j.state.isFinished

/-- The event ends an attempt of a send job of `q`. -/
def endsAttempt (q : QueueId) (e : Event Calls) : Option ℕ :=
  match e.op with
  | .sendJobCompleted q' n | .sendJobFailed q' n => if q' = q then some n else none
  | _ => none

/-- A sent record counts `n` resends or more. -/
def World.counts (w : World) (q : QueueId) (n : ℕ) : Bool :=
  (w.transactions q).all fun t => t.status ≠ .sent || decide (n ≤ t.resendCount)

/-- Every run in which
 - a send job `<q>.<n>` that completes, or fails for the last time, does so when no record of `q`
   is stored as sent with a lower resend count: a resend does not end without a result;
 - a record of `q` is stored as sent only with a resend count that no send job of `q` which is
   over exceeds: it is not sent anew, and an old copy of it is not stored, after a resend;
 - the mine worker adds a resend only while the record it read counts as many resends as the
   stored one, which is sent. -/
def countsResends (q : QueueId) : Guard engine where
  start _ _ := true
  call s i o _ :=
    match o with
    | .sendJobCompleted q' n => decide (q' ≠ q) || s.world.counts q n
    | .sendJobFailed q' n => decide (q' ≠ q ∨ attemptsMade (s.world.sendJobs q n) + 1 < sendAttempts) ||
        s.world.counts q n
    | .setTransaction t => decide (t.queueId ≠ q ∨ t.status ≠ .sent) ||
        (s.trace.filterMap (endsAttempt q)).all fun n =>
          !isFinished (s.world.sendJobs q n) || decide (n ≤ t.resendCount)
    | .sendQueueAdd q' _ => decide (q' ≠ q) || (process s i).all fun l =>
        match l.request with
        | .mineJob _ => l.read.all fun r => (s.world.transactions q).any fun t =>
            t.status == .sent && t.resendCount == r.resendCount
        | _ => true
    | _ => true

section
variable {G : Guard engine} {s s' : State engine} {w w' : World} {i : ℕ} {l : Local} {o : Op}
  {a : Except Err o.Choice} {r : Except Err o.Reply} {t : Transaction} {q : QueueId} {n : ℕ} {j : Option Job}

/-! ### Jobs -/

theorem isRunnable_of_not_finished (hj : j.isSome = true) (h : isFinished j = false) : isRunnable j = true := by
  cases j with
  | none => cases hj
  | some j =>
    have hj : j.state.isFinished = false := h
    simp [isRunnable, hj]

/-- Adding a job whose id is not taken by a finished one makes it runnable. -/
theorem isRunnable_addJob (h : isFinished j = false) : isRunnable (addJob j) = true := by
  refine isRunnable_of_not_finished ?_ ?_
  · cases j <;> rfl
  · cases j with
    | none => rfl
    | some j => exact h

private theorem isFinished_addJob (h : isFinished (addJob j) = true) : isFinished j = true := by
  cases j with
  | none => cases h
  | some j => exact h

/-- A send job is over when an attempt completed, or failed for the last time. -/
theorem finished_after_effect (h : w.effect o a = some (r, w')) (hf : isFinished (w'.sendJobs q n) = true) :
    isFinished (w.sendJobs q n) = true ∨ o = .sendJobCompleted q n ∨
      (o = .sendJobFailed q n ∧ ¬ attemptsMade (w.sendJobs q n) + 1 < sendAttempts) := by
  obtain hsame | ⟨-, hadd⟩ | ⟨-, -, hnone⟩ | hends := job_cases h (.sendJob q n)
  · have hsame : w'.sendJobs q n = w.sendJobs q n := hsame
    rw [hsame] at hf
    exact Or.inl hf
  · have hadd : w'.sendJobs q n = addJob (w.sendJobs q n) := hadd
    rw [hadd] at hf
    exact Or.inl (isFinished_addJob hf)
  · have hnone : w'.sendJobs q n = none := hnone
    rw [hnone] at hf
    cases hf
  · cases o with
    | sendJobCompleted q' n' =>
      cases hends
      exact Or.inr (Or.inl rfl)
    | sendJobFailed q' n' =>
      cases hends
      refine Or.inr (Or.inr ⟨rfl, fun hlt => ?_⟩)
      obtain ⟨e, -, -, hnever, -⟩ | ⟨c, x, -, -, -, hx⟩ := World.effect_cases h
      · cases hnever
      · obtain ⟨-, rfl⟩ := Prod.mk.inj (Option.some.inj hx)
        have hjob := job_setSendJob w q n (failJob sendAttempts (w.sendJobs q n)) (.sendJob q n)
        rw [if_pos rfl] at hjob
        have hjob : (w.setSendJob q n (failJob sendAttempts (w.sendJobs q n))).sendJobs q n = _ := hjob
        rw [hjob] at hf
        cases hold : w.sendJobs q n with
        | none =>
          rw [hold] at hf
          cases hf
        | some j =>
          rw [hold] at hf hlt
          have hlt : j.attemptsMade + 1 < sendAttempts := hlt
          simp [isFinished, failJob, hlt, JobState.isFinished] at hf
    | _ => cases hends

private theorem finished_after_start {m : ℕ} {k : Request} (st : Started recordContract G s s' m k)
    (hf : isFinished (s'.world.sendJobs q n) = true) : isFinished (s.world.sendJobs q n) = true := by
  rcases job_after_start st (.sendJob q n) with h | ⟨-, -, hactive⟩
  · have h : s'.world.sendJobs q n = s.world.sendJobs q n := h
    rwa [← h]
  · have hactive : isActive (s'.world.sendJobs q n) = true := hactive
    cases hj : s'.world.sendJobs q n with
    | none =>
      rw [hj] at hf
      cases hf
    | some j =>
      obtain ⟨state, made⟩ := j
      rw [hj] at hactive hf
      cases state <;> first | (cases hf; done) | cases hactive

/-! ### The invariant -/

/-- A sent record counts every resend whose job is over. -/
structure ResendsCounted (q : QueueId) (s : State engine) : Prop where
  counted : ∀ n, isFinished (s.world.sendJobs q n) = true → s.world.counts q n = true
  ended : ∀ n, isFinished (s.world.sendJobs q n) = true → n ∈ s.trace.filterMap (endsAttempt q)

theorem ResendsCounted.start {m : ℕ} {k : Request} (h : ResendsCounted q s) (st : Started recordContract G s s' m k) :
    ResendsCounted q s' := by
  refine ⟨fun n hf => ?_, fun n hf => ?_⟩
  · have hold := h.counted n (finished_after_start st hf)
    unfold World.counts at hold ⊢
    rwa [(transactions_after_start st).1]
  · rw [st.traced]
    exact h.ended n (finished_after_start st hf)

theorem ResendsCounted.call (h : ResendsCounted q s) (st : Called (countsResends q) s s' i l o a r) :
    ResendsCounted q s' := by
  have htraced : s'.trace = ⟨i, o, a, r⟩ :: s.trace := st.traced
  have hgranted : (countsResends q).call s i o a = true := st.granted
  -- the record that a call stores counts the jobs that were over
  have hstored : ∀ n, isFinished (s.world.sendJobs q n) = true → s.world.counts q n = true →
      s'.world.counts q n = true := by
    intro n hf hcounts
    unfold World.counts at hcounts ⊢
    rw [world_after_call st]
    cases hs : stores ⟨i, o, a, r⟩ with
    | none => exact hcounts
    | some t =>
      by_cases hq : q = t.queueId
      · obtain rfl : o = .setTransaction t := op_of_stores hs
        simp only [countsResends, hq, ne_eq, not_true_eq_false, false_or, Bool.or_eq_true, List.all_eq_true] at hgranted
        simp only [hq, update_self, Option.all_some, Bool.or_eq_true]
        rcases hgranted with hst | hall
        · exact Or.inl hst
        · have hle := hall n (hq ▸ h.ended n hf)
          rw [hq] at hf
          rw [hf] at hle
          exact Or.inr (hle.resolve_left Bool.false_ne_true)
      · simpa [update_of_ne hq] using hcounts
  refine ⟨fun n hf => ?_, fun n hf => ?_⟩
  · rcases finished_after_effect st.performed hf with hf | rfl | ⟨rfl, hlast⟩
    · exact hstored n hf (h.counted n hf)
    · have hcounts : s.world.counts q n = true := by simpa [countsResends] using hgranted
      unfold World.counts at hcounts ⊢
      rwa [world_after_call st]
    · have hcounts : s.world.counts q n = true := by simpa [countsResends, hlast] using hgranted
      have hnone : stores ⟨i, .sendJobFailed q n, a, r⟩ = none := rfl
      unfold World.counts at hcounts ⊢
      rwa [world_after_call st, hnone]
  · rw [htraced]
    rcases finished_after_effect st.performed hf with hf | rfl | ⟨rfl, -⟩
    · exact List.mem_filterMap.mpr <| (List.mem_filterMap.mp (h.ended n hf)).imp fun e he =>
        ⟨List.mem_cons_of_mem _ he.1, he.2⟩
    · simp [endsAttempt]
    · simp [endsAttempt]

theorem resendsCounted (hw : ∀ n, isFinished (w.sendJobs q n) = false)
    (h : Reachable (countsResends q) (State.initial w) s) : ResendsCounted q s := by
  refine h.invariant recordContract (ResendsCounted q) ?_ (fun _ _ _ _ _ ih st => ih.start st)
    (fun _ _ _ _ _ _ _ _ ih st => ih.call st)
  have hnone : ∀ n, isFinished ((State.initial w : State engine).world.sendJobs q n) ≠ true := by
    intro n hf
    cases (hw n).symm.trans hf
  exact ⟨fun n hf => absurd hf (hnone n), fun n hf => absurd hf (hnone n)⟩

/-! ### Decided resends -/

/-- A send job of `q` could run before the call, or the call made the job `<q>.<n>` and it can. -/
def AddRuns (s s' : State engine) (q : QueueId) (n : ℕ) : Prop :=
  (∃ m, isRunnable (s.world.sendJobs q m) = true) ∨
    s.world.sendJobs q n = none ∧ isRunnable (s'.world.sendJobs q n) = true

/-- The send job `<q>.<n>` is added. -/
def addsSendJob (q : QueueId) (n : ℕ) : Event Calls → Bool
  | ⟨_, .sendQueueAdd q' n', _, .ok _⟩ => q' == q && n' == n
  | _ => false

/-- Whenever a mine attempt adds a send job of `q`, there is a send job of `q` that can run. -/
def ResendsRun (G : Guard engine) (w : World) (q : QueueId) : Prop :=
  ∀ (s s' : State engine) (m : Move engine) (e : Event Calls) (q' : QueueId) (p : Prog Unit) (n : ℕ),
    Reachable G (State.initial w) s → s.step G m = some s' → s'.trace = e :: s.trace →
      s.threads[e.thread]? = some (.mineJob q', p) → addsSendJob q n e = true → AddRuns s s' q n

private theorem op_of_addsSendJob (h : addsSendJob q n ⟨i, o, a, r⟩ = true) :
    o = .sendQueueAdd q n ∧ ∃ x, r = .ok x := by
  unfold addsSendJob at h
  split at h
  · rename_i heq
    cases heq
    simp only [Bool.and_eq_true, beq_iff_eq] at h
    obtain ⟨rfl, rfl⟩ := h
    exact ⟨rfl, _, rfl⟩
  · cases h

theorem resends_run (hw : ∀ n, isFinished (w.sendJobs q n) = false) : ResendsRun (countsResends q) w q := by
  intro s s' m e q' p n hs hstep htr hi hadds
  have hinv := resendsCounted hw hs
  obtain ⟨k, k', st⟩ | ⟨j, l, o, a', r, st⟩ := (hs.conforms recordContract).step recordContract hstep
  · have hlength := congrArg List.length (st.traced.symm.trans htr)
    simp at hlength
  · have hevent := st.traced.symm.trans htr
    obtain ⟨rfl, -⟩ := List.cons.inj hevent
    obtain ⟨l', hl', hreq⟩ := request_of_thread hi
    obtain rfl : l' = l := Option.some.inj (hl'.symm.trans st.caller)
    obtain ⟨rfl, x, rfl⟩ := op_of_addsSendJob hadds
    have hallowed : Allowed l' (.sendQueueAdd q n) := st.allowed
    cases hallowed with
    | ignore _ hignored => cases hignored
    | addSend _ _ hadds =>
      cases hadds with
      | inserted tx key simulate hreq' => cases hreq.symm.trans hreq'
      | retryFailed r hread hq herrored heoa hreq' =>
        obtain ⟨q'', hreq'⟩ := hreq'
        cases hreq.symm.trans hreq'
      | resend r hread hq hsent =>
        have hgranted : (countsResends q).call s j (.sendQueueAdd q (r.resendCount + 1)) a' = true := st.granted
        simp only [countsResends, hl', hreq, hread, Option.all_some, ne_eq, not_true_eq_false, decide_false,
          Bool.false_or, Option.any_eq_true, Bool.and_eq_true, beq_iff_eq] at hgranted
        obtain ⟨t, ht, hst, hcount⟩ := hgranted
        -- a finished job `<q>.<n>` would be counted by the stored record already
        have hfree : isFinished (s.world.sendJobs q (r.resendCount + 1)) = false := by
          cases hf : isFinished (s.world.sendJobs q (r.resendCount + 1)) with
          | false => rfl
          | true =>
            have hcounts := hinv.counted _ hf
            simp only [World.counts, ht, hst, hcount, Option.all_some, ne_eq, not_true_eq_false, decide_false,
              Bool.false_or, decide_eq_true_eq] at hcounts
            omega
        cases hjob : s.world.sendJobs q (r.resendCount + 1) with
        | some j =>
          refine Or.inl ⟨r.resendCount + 1, ?_⟩
          rw [hjob] at hfree ⊢
          exact isRunnable_of_not_finished rfl hfree
        | none =>
          refine Or.inr ⟨hjob, ?_⟩
          obtain ⟨e, he, -⟩ | ⟨c, x, -, -, -, hx⟩ := World.effect_cases st.performed
          · cases he
          · obtain ⟨-, hworld⟩ := Prod.mk.inj (Option.some.inj hx)
            have hafter := job_setSendJob s.world q (r.resendCount + 1)
              (addJob (s.world.sendJobs q (r.resendCount + 1))) (.sendJob q (r.resendCount + 1))
            rw [if_pos rfl] at hafter
            have hafter : s'.world.sendJobs q (r.resendCount + 1) =
                addJob (s.world.sendJobs q (r.resendCount + 1)) := hworld ▸ hafter
            rw [hafter]
            exact isRunnable_addJob hfree

/-- A job that is there was added. -/
theorem added_of_job (h : Reachable G (State.initial .empty) s) (hj : s.world.sendJobs q n ≠ none) :
    ∃ e ∈ s.trace, e.op = .sendQueueAdd q n := by
  induction h with
  | refl => exact absurd rfl hj
  | @step s s' m hs hstep ih =>
    obtain ⟨j, k, st⟩ | ⟨i, l, o, a, r, st⟩ := (hs.conforms recordContract).step recordContract hstep
    · rw [st.traced]
      refine ih fun hnone => hj ?_
      rcases world_after_start st with hw | ⟨q', n', j', -, htake, hw⟩ | ⟨q', j', -, -, hw⟩
      · rw [hw]
        exact hnone
      · have hafter := job_setSendJob s.world q' n' (some j') (.sendJob q n)
        rw [← hw] at hafter
        have hafter : s'.world.sendJobs q n = _ := hafter
        rw [hafter, if_neg]
        · exact hnone
        · intro heq
          cases heq
          rw [hnone] at htake
          cases htake
      · rw [hw]
        exact hnone
    · rw [st.traced]
      by_cases hold : s.world.sendJobs q n = none
      · refine ⟨_, List.mem_cons_self, ?_⟩
        obtain hsame | ⟨hadd, -⟩ | ⟨-, -, hnone⟩ | hends := job_cases st.performed (.sendJob q n)
        · exact absurd (hsame.trans hold) hj
        · cases o with
          | sendQueueAdd q' n' =>
            cases hadd
            rfl
          | _ => cases hadd
        · exact absurd hnone hj
        · -- ending an attempt does not make a job
          obtain ⟨e, -, hw, -⟩ | ⟨c, x, -, -, -, hx⟩ := World.effect_cases st.performed
          · rw [hw] at hj
            exact absurd hold hj
          · cases o with
            | sendJobCompleted q' n' | sendJobFailed q' n' =>
              cases hends
              obtain ⟨-, hw⟩ := Prod.mk.inj (Option.some.inj hx)
              rw [← hw] at hj
              simp [World.setSendJob, hold, completeJob, failJob] at hj
            | _ => cases hends
      · obtain ⟨e, he, heo⟩ := ih hold
        exact ⟨e, List.mem_cons_of_mem _ he, heo⟩

end

/-- No receipt is found, in the given block. -/
def notMined (block : ℤ) : Answers
  | .ethGetTransactionReceipt _ _ => .error (.new "Transaction receipt not found.")
  | .ethBlockNumber _ => .ok block
  | o => usual o

/-- Process `i` polls the transfer in vain; its next `n` calls. -/
def pollsInVain (i n : ℕ) (block : ℤ) : List (Move engine) :=
  starts (.mineJob transferId) :: answered i (List.replicate n (notMined block))

/-- The thread `i` is a mine attempt, and its next call adds the send job `<transferId>.<n>`. -/
def decidesResend (G : Guard engine) (i n : ℕ) (x : Answers) (s : State engine) : Bool :=
  (s.threads[i]?.any fun t => t.1 == .mineJob transferId) &&
    (s.step G (.call i x)).any fun s' => s'.trace.head?.any (addsSendJob transferId n)

theorem step_of_decidesResend {G : Guard engine} {i n : ℕ} {x : Answers} {s : State engine}
    (h : decidesResend G i n x s = true) : ∃ s' e p, s.step G (.call i x) = some s' ∧ s'.trace = e :: s.trace ∧
      s.threads[e.thread]? = some (.mineJob transferId, p) ∧ addsSendJob transferId n e = true := by
  simp only [decidesResend, Bool.and_eq_true] at h
  obtain ⟨⟨k, p⟩, hi, hk⟩ := (Option.any_eq_true _ _).mp h.1
  obtain ⟨s', hs', hadds⟩ := (Option.any_eq_true _ _).mp h.2
  obtain ⟨e, rfl, htr⟩ := trace_after_call hs'
  obtain rfl : k = .mineJob transferId := by simpa using hk
  exact ⟨s', e, p, hs', htr, hi, by simpa [htr] using hadds⟩

/-- The first resend was stored; the next poll decides on a second one. -/
theorem resends_run_second : ∃ s s' : State engine, isFinished (s.world.sendJobs transferId 1) = true ∧
    AddRuns s s' transferId 2 := by
  obtain ⟨s, hs, hr⟩ := exists_reachable_of_run (countsResends transferId) World.empty
    (insertedAndSent ++ pollsInVain 2 8 100 ++ starts (.sendJob transferId 1) :: proceeds 3 11 ++ pollsInVain 4 7 200)
    (fun s => isFinished (s.world.sendJobs transferId 1) &&
      decidesResend (countsResends transferId) 4 2 (notMined 200) s) (by decide +kernel)
  simp only [Bool.and_eq_true] at hr
  obtain ⟨s', e, p, hstep, htr, hi, hadds⟩ := step_of_decidesResend hr.2
  exact ⟨s, s', hr.1, resends_run (w := World.empty) (fun n => rfl) s s' _ e transferId p 2 hs hstep htr hi hadds⟩

/-- The resend is rejected because its nonce is used, so its job completes without a result.
The next poll in vain adds the same job. -/
def resendHasNoResult : List (Move engine) :=
  insertedAndSent ++ pollsInVain 2 8 100 ++ starts (.sendJob transferId 1) :: proceeds 3 4 ++
    answered 3 [throwing (.new "nonce too low"), usual] ++ pollsInVain 4 6 200

/-- None of the send jobs of `q` that were added can run. -/
def addedInVain (q : QueueId) (s : State engine) : Bool :=
  s.trace.all fun e => match e.op with
    | .sendQueueAdd q' n => decide (q' ≠ q) || !isRunnable (s.world.sendJobs q n)
    | _ => true

theorem not_resends_run : ¬ ∀ (w : World) (q : QueueId), (∀ n, isFinished (w.sendJobs q n) = false) →
    ResendsRun anyRun w q := by
  intro hgeneral
  obtain ⟨s, hs, hr⟩ := exists_reachable_of_run anyRun World.empty resendHasNoResult
    (fun s => decidesResend anyRun 4 1 (notMined 200) s && ((s.world.sendJobs transferId 1).isSome &&
      addedInVain transferId s)) (by decide +kernel)
  simp only [Bool.and_eq_true] at hr
  obtain ⟨hdecides, hjob, hadded⟩ := hr
  obtain ⟨s', e, p, hstep, htr, hi, hadds⟩ := step_of_decidesResend hdecides
  rcases hgeneral World.empty transferId (fun n => rfl) s s' _ e transferId p 1 hs hstep htr hi hadds with
    ⟨m, hm⟩ | ⟨hnone, -⟩
  · have hne : s.world.sendJobs transferId m ≠ none := by
      intro hnone
      rw [hnone] at hm
      cases hm
    obtain ⟨e', he', ho⟩ := added_of_job hs hne
    have hnot := List.all_eq_true.mp hadded e' he'
    simp [ho, hm] at hnot
  · rw [hnone] at hjob
    cases hjob

end Engine
