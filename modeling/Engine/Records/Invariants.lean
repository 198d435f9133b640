import Engine.Records.Steps

/-! What holds in every run: a process keeps its request, works on one record and
holds its job alone; and how a property of records spreads from write to write. -/
namespace Engine
open Concurrent Program Function

section
variable {G : Guard engine} {s s' : State engine} {w w' : World} {i : ℕ} {l l' : Local} {o : Op}
  {a : Except Err o.Choice} {r : Except Err o.Reply} {t : Transaction} {q : QueueId}

/-! ### Requests -/

theorem LocalStep.request (h : LocalStep w i l o a r l') : l'.request = l.request := by
  cases h <;> rfl

theorem next_request : (l.next o r).request = l.request := by
  cases r with
  | error e =>
    rw [Local.next_error]
    split
    · rfl
    · unfold Local.threw
      split_ifs <;> rfl
  | ok x =>
    cases o with
    | accountSendTransaction c address tx => cases c <;> rfl
    | existsTransaction q => cases x <;> rfl
    | getLatestBlock c =>
      cases x with
      | none =>
        simp only [Local.next, Local.threw]
        split_ifs <;> rfl
      | some b => rfl
    | saddSent k n =>
      simp only [Local.next]
      split <;> rfl
    | setTransaction t =>
      simp only [Local.next]
      split <;> rfl
    | _ => rfl

/-- A process works on what its thread was started for. -/
theorem request_of_thread {k : Request} {p : Prog Unit} (hi : s.threads[i]? = some (k, p)) :
    ∃ l, process s i = some l ∧ l.request = k := by
  refine ⟨_, localOf_eq recordContract hi, ?_⟩
  exact recordContract.after_keeps (J := fun l => Local.request l = k) rfl
    (fun _ _ _ h => next_request.trans h) i s.trace

/-- Submissions stay accepted, and what consumed a nonce stays. -/
structure World.Grows (w w' : World) : Prop where
  accepted : ∀ x ∈ w.accepted, x ∈ w'.accepted
  chain : ∀ k n x, w.chain k n = some x → w'.chain k n = some x

theorem grows_after_start {n : ℕ} {k : Request} (st : Started recordContract G s s' n k) : s.world.Grows s'.world := by
  obtain ⟨-, ha, hc, -⟩ := transactions_after_start st
  exact ⟨fun x hx => ha ▸ hx, fun k n x hx => hc ▸ hx⟩

theorem grows_after_call (st : Called G s s' i l o a r) : s.world.Grows s'.world := by
  refine ⟨fun x hx => ?_, fun k n x hx => World.chain_mono st.performed hx⟩
  rw [World.accepted_of_effect (i := i) st.performed]
  exact List.mem_append_right _ hx

/-- What holds of a process when it starts, is kept when the world grows and is kept
by each of its calls holds of every process. -/
theorem each_process {P : World → Local → Prop} (h : Reachable G (State.initial w) s)
    (hgrows : ∀ w w' l, w.Grows w' → P w l → P w' l)
    (hinit : ∀ (s : State engine) k, G.start s k = true → P s.world (recordContract.init k))
    (hcall : ∀ s s' i l o a r, Reachable G (State.initial w) s → Called G s s' i l o a r → P s.world l →
      P s'.world (l.next o r)) (hl : process s i = some l) : P s.world l := by
  refine h.invariant recordContract (fun s => ∀ i l, process s i = some l → P s.world l) ?_ ?_ ?_ i l hl
  · simp [process, State.initial, State.localOf]
  · intro s s' n k _ ih st j l' hl'
    refine hgrows s.world s'.world l' (grows_after_start st) ?_
    rcases process_after_start st hl' with ⟨-, rfl⟩ | ⟨-, hj⟩
    · exact hinit s k st.granted
    · exact ih j l' hj
  · intro s s' i l o a r hr ih st j l' hl'
    rcases process_after_call st hl' with ⟨-, rfl⟩ | ⟨-, hj⟩
    · exact hcall s s' i l o a r hr st (ih i l st.caller)
    · exact hgrows s.world s'.world l' (grows_after_call st) (ih j l' hj)

/-- Every process was let in by the guard. -/
theorem granted (h : Reachable G (State.initial w) s) (hl : process s i = some l) :
    ∃ s₀ : State engine, G.start s₀ l.request = true := by
  refine each_process (P := fun _ l => ∃ s₀ : State engine, G.start s₀ l.request = true) h (fun _ _ _ _ hl => hl)
    (fun s k hk => ⟨s, hk⟩) (fun s s' i l o a r _ st ih => ?_) hl
  rwa [(localStep (i := i) st.allowed st.performed).request]

/-! ### Whose record a process works on -/

def World.Keyed (w : World) : Prop := ∀ q t, w.transactions q = some t → t.queueId = q

/-- A process works on one record, the one of its request or the one it inserts. -/
structure Local.Keyed (l : Local) : Prop where
  request : ∀ q, l.request.queueId = some q → l.queueId = some q
  read : ∀ r, l.read = some r → l.queueId = some r.queueId
  inserting : ∀ tx key simulate, l.request = .insertTransaction tx key simulate → l.read = none

theorem Local.Keyed.step (hl : l.Keyed) (hw : w.Keyed) (h : LocalStep w i l o a r l') : l'.Keyed := by
  cases h with
  | same => exact hl
  | named _ _ _ _ q tx key simulate hreq =>
    refine ⟨fun q' hq' => ?_, fun r hr => ?_, hl.inserting⟩
    · rw [hreq] at hq'
      cases hq'
    · rw [hl.inserting tx key simulate hreq] at hr
      cases hr
  | read q _ hq =>
    refine ⟨hl.request, fun r hr => ?_, fun tx key simulate hreq => ?_⟩
    · rw [hw q r hr]
      exact hl.request q hq
    · rw [hreq] at hq
      cases hq
  | attempted => exact ⟨hl.request, by rintro r ⟨⟩, fun _ _ _ _ => rfl⟩
  | _ => exact ⟨hl.request, hl.read, hl.inserting⟩

theorem keyed (hw : w.Keyed) (h : Reachable G (State.initial w) s) :
    s.world.Keyed ∧ ∀ i l, process s i = some l → l.Keyed := by
  refine h.invariant recordContract (fun s => s.world.Keyed ∧ ∀ i l, process s i = some l → l.Keyed) ?_ ?_ ?_
  · exact ⟨hw, by simp [process, State.initial, State.localOf]⟩
  · intro s s' n k _ ih st
    refine ⟨fun q t ht => ih.1 q t ((transactions_after_start st).1 ▸ ht), fun j l' hl' => ?_⟩
    rcases process_after_start st hl' with ⟨-, rfl⟩ | ⟨-, hj⟩
    · exact ⟨fun q hq => hq, by rintro r ⟨⟩, fun _ _ _ _ => rfl⟩
    · exact ih.2 j l' hj
  · intro s s' i l o a r _ ih st
    refine ⟨fun q t ht => ?_, fun j l' hl' => ?_⟩
    · rcases stored_after_call st ht with ht | ⟨-, hq, -⟩
      · exact ih.1 q t ht
      · exact hq
    · rcases process_after_call st hl' with ⟨-, rfl⟩ | ⟨-, hj⟩
      · exact (ih.2 i l st.caller).step ih.1 (localStep (i := i) st.allowed st.performed)
      · exact ih.2 j l' hj

theorem Local.Keyed.of_writes (hl : l.Keyed) (h : Writes l t) : l.queueId = some t.queueId := by
  cases h with
  | queued tx key simulate q hreq hq => exact hq
  | unpopulated r q n m hreq hheld hread => exact (hl.read r hread).trans (by simp [erroredTransaction])
  | sent r q n hash block hphase hsend => exact (hl.read r hsend.read).trans (by simp [sentTransaction])
  | sentUserOp r q n hash block hreq hheld hread => exact (hl.read r hread).trans (by simp [sentUserOp])
  | resent r q n hashes hash block hreq hphase hsend => exact hl.read r hsend.read
  | syncRetried r q b c hashes hash block hreq hphase hsend => exact hl.read r hsend.read
  | failed r q n m hreq hheld hexhausted hread => exact hl.read r hread
  | mined r q hashes receipt hreq hheld hread => exact hl.read r hread
  | minedUserOp r q raw receipt m hreq hheld hread => exact hl.read r hread
  | timedOut r q hreq hheld hexhausted hread => exact hl.read r hread
  | cancelledQueued r q block hreq hread => exact hl.read r hread
  | cancelledSent r q hash hreq hread => exact hl.read r hread
  | retried r q b c fee priority hreq hread => exact hl.read r hread

/-! ### Jobs -/

/-- The job that an attempt is an attempt of. -/
def World.job (w : World) : Request → Option Job
  | .sendJob q n => w.sendJobs q n
  | .mineJob q => w.mineJobs q
  | _ => none

def Op.endsJob : Op → Option Request
  | .sendJobCompleted q n | .sendJobFailed q n => some (.sendJob q n)
  | .mineJobCompleted q | .mineJobFailed q => some (.mineJob q)
  | _ => none

theorem job_setSendJob (w : World) (q : QueueId) (n : ℕ) (j : Option Job) (k : Request) :
    (w.setSendJob q n j).job k = if k = .sendJob q n then j else w.job k := by
  cases k with
  | sendJob q' n' =>
    simp only [World.job, World.setSendJob, Request.sendJob.injEq]
    by_cases hq : q' = q
    · subst hq
      by_cases hn : n' = n
      · subst hn
        simp
      · simp [hn]
    · simp [hq]
  | _ => simp [World.job, World.setSendJob]

theorem job_setMineJob (w : World) (q : QueueId) (j : Option Job) (k : Request) :
    (w.setMineJob q j).job k = if k = .mineJob q then j else w.job k := by
  cases k with
  | mineJob q' =>
    simp only [World.job, World.setMineJob, Request.mineJob.injEq]
    by_cases hq : q' = q
    · subst hq
      simp
    · simp [hq]
  | _ => simp [World.job, World.setMineJob]

theorem addJob_of_active {j : Option Job} (h : isActive j = true) : addJob j = j := by
  cases j with
  | none => cases h
  | some j => rfl

def Op.addsJob : Op → Option Request
  | .sendQueueAdd q n => some (.sendJob q n)
  | .mineQueueAdd q => some (.mineJob q)
  | _ => none

def Op.removesJob : Op → Option Request
  | .sendQueueRemove q n => some (.sendJob q n)
  | .mineQueueRemove q => some (.mineJob q)
  | _ => none

/-- What a call can do to a job. -/
theorem job_cases (h : w.effect o a = some (r, w')) (k : Request) :
    w'.job k = w.job k ∨ (o.addsJob = some k ∧ w'.job k = addJob (w.job k)) ∨
      (o.removesJob = some k ∧ isActive (w.job k) = false ∧ w'.job k = none) ∨ o.endsJob = some k := by
  obtain ⟨e, -, rfl, -⟩ | ⟨c, x, -, -, hl, hx⟩ := World.effect_cases h
  · exact Or.inl rfl
  · have hsame : o.changes ≠ some .sendJobs → o.changes ≠ some .mineJobs → w'.job k = w.job k := by
      intro h1 h2
      have hs := World.sameExcept_of_apply hx
      cases k <;> simp [World.job, hs.sendJobs h1, hs.mineJobs h2]
    cases o with
    | sendQueueAdd q n | sendQueueRemove q n | sendJobCompleted q n | sendJobFailed q n =>
      obtain ⟨-, rfl⟩ := Prod.mk.inj (Option.some.inj hx)
      rw [job_setSendJob]
      split_ifs with he
      · subst he
        first
          | exact Or.inr (Or.inl ⟨rfl, rfl⟩)
          | exact Or.inr (Or.inr (Or.inl ⟨rfl, hl, rfl⟩))
          | exact Or.inr (Or.inr (Or.inr rfl))
      · exact Or.inl rfl
    | mineQueueAdd q | mineQueueRemove q | mineJobCompleted q | mineJobFailed q =>
      obtain ⟨-, rfl⟩ := Prod.mk.inj (Option.some.inj hx)
      rw [job_setMineJob]
      split_ifs with he
      · subst he
        first
          | exact Or.inr (Or.inl ⟨rfl, rfl⟩)
          | exact Or.inr (Or.inr (Or.inl ⟨rfl, hl, rfl⟩))
          | exact Or.inr (Or.inr (Or.inr rfl))
      · exact Or.inl rfl
    | _ => exact Or.inl (hsame (by rintro ⟨⟩) (by rintro ⟨⟩))

/-- A job that a worker holds stays as it is until the attempt ends. -/
theorem job_of_effect (h : w.effect o a = some (r, w')) {k : Request} (hk : isActive (w.job k) = true)
    (ho : o.endsJob ≠ some k) : w'.job k = w.job k := by
  rcases job_cases h k with h | ⟨-, h⟩ | ⟨-, hinactive, -⟩ | h
  · exact h
  · rw [h]
    exact addJob_of_active hk
  · rw [hk] at hinactive
    cases hinactive
  · exact absurd h ho

/-- A process that holds its job holds it alone, and BullMQ knows that it is held. -/
structure Locked (s : State engine) : Prop where
  active : ∀ i l, process s i = some l → l.held = true → isActive (s.world.job l.request) = true
  unique : ∀ i j l l', process s i = some l → process s j = some l' → l.held = true → l'.held = true →
    l.request = l'.request → i = j

theorem LocalStep.held (h : LocalStep w i l o a r l') (hl : l'.held = true) : l.held = true := by
  cases h with
  | attempted => cases hl
  | _ => exact hl

theorem Allowed.endsJob (h : Allowed l o) {k : Request} (hk : o.endsJob = some k) :
    l.request = k ∧ l.held = true := by
  cases h with
  | ignore _ hi => cases o <;> first | (cases hk; done) | cases hi
  | sendCompleted q n hreq hheld | sendFailed q n hreq hheld | mineCompleted q hreq hheld
  | mineFailed q hreq hheld =>
    cases hk
    exact ⟨hreq, hheld⟩
  | _ => cases hk

theorem held_of_endsJob (h : w.effect o a = some (r, w')) {k : Request} (hk : o.endsJob = some k) :
    (l.next o r).held = false := by
  obtain ⟨e, rfl, -, hn, -⟩ | ⟨c, x, rfl, rfl, -, -⟩ := World.effect_cases h
  · cases o <;> first | (cases hk; done) | cases hn
  · cases o <;> first | (cases hk; done) | rfl

theorem next_exhausted (ho : o.endsJob = none) : (l.next o r).exhausted = l.exhausted := by
  cases r with
  | error e =>
    rw [Local.next_error]
    split
    · rfl
    · unfold Local.threw
      split_ifs <;> rfl
  | ok x =>
    cases o with
    | accountSendTransaction c address tx => cases c <;> rfl
    | existsTransaction q => cases x <;> rfl
    | getLatestBlock c =>
      cases x with
      | none =>
        simp only [Local.next, Local.threw]
        split_ifs <;> rfl
      | some b => rfl
    | saddSent k n =>
      simp only [Local.next]
      split <;> rfl
    | setTransaction t =>
      simp only [Local.next]
      split <;> rfl
    | _ => first | rfl | cases ho

theorem takeJob_not_active {j : Option Job} {j' : Job} (h : takeJob j = some j') :
    isActive j = false ∧ isActive (some j') = true := by
  unfold takeJob at h
  split at h <;> cases h <;> exact ⟨rfl, rfl⟩

/-- An attempt starts only when there is a job to take. -/
theorem takeJob_of_started {q : QueueId} {m n : ℕ} (st : Started recordContract G s s' n (.sendJob q m)) :
    ∃ j, takeJob (s.world.sendJobs q m) = some j := by
  obtain ⟨p, hp⟩ := st.started
  obtain ⟨j, hj, -⟩ := Option.map_eq_some_iff.mp hp
  exact ⟨j, hj⟩

/-- Taking a job: no worker held it, and it is held now; other jobs are as they were. -/
theorem job_after_start {n : ℕ} {k : Request} (st : Started recordContract G s s' n k) (k' : Request) :
    s'.world.job k' = s.world.job k' ∨
      (k' = k ∧ isActive (s.world.job k') = false ∧ isActive (s'.world.job k') = true) := by
  obtain h | ⟨q, m, j, rfl, hj, h⟩ | ⟨q, j, rfl, hj, h⟩ := world_after_start st
  · exact Or.inl (by rw [h])
  · rw [h, job_setSendJob]
    split_ifs with he
    · subst he
      exact Or.inr ⟨rfl, takeJob_not_active hj⟩
    · exact Or.inl rfl
  · rw [h, job_setMineJob]
    split_ifs with he
    · subst he
      exact Or.inr ⟨rfl, takeJob_not_active hj⟩
    · exact Or.inl rfl

private theorem active_after_start {n : ℕ} {k : Request} (st : Started recordContract G s s' n k)
    (hheld : (recordContract.init k).held = true) :
    isActive (s.world.job k) = false ∧ isActive (s'.world.job k) = true := by
  obtain ⟨p, hp⟩ := st.started
  cases k with
  | sendJob q m =>
    obtain ⟨j, hj, he⟩ := Option.map_eq_some_iff.mp hp
    rw [← (Prod.mk.inj he).2, job_setSendJob, if_pos rfl]
    exact takeJob_not_active hj
  | mineJob q =>
    obtain ⟨j, hj, he⟩ := Option.map_eq_some_iff.mp hp
    rw [← (Prod.mk.inj he).2, job_setMineJob, if_pos rfl]
    exact takeJob_not_active hj
  | _ => cases hheld

theorem Locked.start {n : ℕ} {k : Request} (h : Locked s) (st : Started recordContract G s s' n k) :
    Locked s' := by
  have hfree : ∀ j l, process s j = some l → l.held = true → (recordContract.init k).held = true → l.request ≠ k := by
    rintro j l hl hheld hk rfl
    exact absurd (h.active j l hl hheld) (by simp [(active_after_start st hk).1])
  refine ⟨fun j l hl hheld => ?_, fun i j l l' hl hl' hheld hheld' hreq => ?_⟩
  · rcases process_after_start st hl with ⟨-, rfl⟩ | ⟨-, hj⟩
    · exact (active_after_start st hheld).2
    · rcases job_after_start st l.request with he | ⟨-, -, he⟩
      · rw [he]
        exact h.active j l hj hheld
      · exact he
  · rcases process_after_start st hl with ⟨rfl, rfl⟩ | ⟨-, hi⟩ <;>
      rcases process_after_start st hl' with ⟨rfl, rfl⟩ | ⟨-, hj⟩
    · rfl
    · exact absurd hreq.symm (hfree j l' hj hheld' hheld)
    · exact absurd hreq (hfree i l hi hheld hheld')
    · exact h.unique i j l l' hi hj hheld hheld' hreq

theorem Locked.call (h : Locked s) (st : Called G s s' i l o a r) : Locked s' := by
  have hstep := localStep (i := i) st.allowed st.performed
  refine ⟨fun j l' hl' hheld => ?_, fun j j' m m' hm hm' hheld hheld' hreq => ?_⟩
  · rcases process_after_call st hl' with ⟨rfl, rfl⟩ | ⟨hne, hj⟩
    · rw [hstep.request]
      have ha := h.active j l st.caller (hstep.held hheld)
      rw [job_of_effect st.performed ha fun he => ?_]
      · exact ha
      · rw [held_of_endsJob st.performed he] at hheld
        cases hheld
    · have ha := h.active j l' hj hheld
      rw [job_of_effect st.performed ha fun he => ?_]
      · exact ha
      · obtain ⟨hreq, hl⟩ := Allowed.endsJob st.allowed he
        exact hne (h.unique j i l' l hj st.caller hheld hl hreq.symm)
  · rcases process_after_call st hm with ⟨rfl, rfl⟩ | ⟨hne, hj⟩ <;>
      rcases process_after_call st hm' with ⟨rfl, rfl⟩ | ⟨hne', hj'⟩
    · rfl
    · exact h.unique _ _ l m' st.caller hj' (hstep.held hheld) hheld' (hstep.request ▸ hreq)
    · exact h.unique _ _ m l hj st.caller hheld (hstep.held hheld') (hreq.trans hstep.request)
    · exact h.unique _ _ m m' hj hj' hheld hheld' hreq

theorem locked (h : Reachable G (State.initial w) s) : Locked s := by
  refine h.invariant recordContract Locked ?_ (fun _ _ _ _ _ ih st => ih.start st)
    (fun _ _ _ _ _ _ _ _ ih st => ih.call st)
  exact ⟨by simp [process, State.initial, State.localOf], by simp [process, State.initial, State.localOf]⟩

/-! ### What the phases say -/

theorem FirstSend.congr {r : Transaction} {n : ℕ} {hash : TransactionHash} (h : FirstSend l r q n hash)
    (hreq : l'.request = l.request) (hheld : l'.held = l.held) (hread : l'.read = l.read) :
    FirstSend l' r q n hash :=
  ⟨hreq.trans h.request, hheld.trans h.held, hread.trans h.read, h.queued, h.eoa, h.carries⟩

theorem SendAgain.congr {r : Transaction} {hash : TransactionHash} (h : SendAgain l r hash)
    (hreq : l'.request = l.request) (hheld : l'.held = l.held) (hread : l'.read = l.read) :
    SendAgain l' r hash :=
  ⟨by rw [hreq, hheld]; exact h.request, hread.trans h.read, h.sent, h.eoa, h.carries, h.nonce⟩

/-- What a process has done in its phase. -/
def Local.Explained (l : Local) : Prop :=
  match l.phase with
  | .accepted hash => (∃ r q n, FirstSend l r q n hash) ∨ ∃ r, SendAgain l r hash
  | .marked hash => ∃ r q n, FirstSend l r q n hash
  | .bundled _ => ∃ r q n, l.request = .sendJob q n ∧ l.held = true ∧ l.read = some r ∧
      (manuallyRetried r n).status = .queued ∧ r.isUserOp = true
  | .unmarked => ∃ r q m, l.request = .mineJob q ∧ l.held = true ∧ l.read = some r ∧ r.status = .sent ∧
      r.isUserOp = false ∧ r.nonce = some m
  | .timedOut => ∃ r q, l.request = .mineJob q ∧ l.held = false ∧ l.read = some r ∧ r.status = .sent ∧
      r.isUserOp = false
  | _ => True

theorem Local.Explained.step (hl : l.Explained) (h : LocalStep w i l o a r l') : l'.Explained := by
  cases h with
  | same => exact hl
  | receipt _ _ _ receipt =>
    simp only [Local.Explained] at hl ⊢
    split at hl <;> simp_all only
    · rename_i hash hphase
      rcases hl with ⟨r, q, n, hs⟩ | ⟨r, hs⟩
      · exact Or.inl ⟨r, q, n, hs.congr rfl rfl rfl⟩
      · exact Or.inr ⟨r, hs.congr rfl rfl rfl⟩
    · obtain ⟨r, q, n, hs⟩ := hl
      exact ⟨r, q, n, hs.congr rfl rfl rfl⟩
  | named _ _ _ _ _ _ _ _ _ hidle => simp [Local.Explained, hidle]
  | acceptedFirst r q n hash hidle hs => exact Or.inl ⟨r, q, n, hs.congr rfl rfl rfl⟩
  | acceptedAgain r hash hidle hs => exact Or.inr ⟨r, hs.congr rfl rfl rfl⟩
  | bundled r q n u hreq hheld hread hidle hqueued huser => exact ⟨r, q, n, hreq, hheld, hread, hqueued, huser⟩
  | marked r q n hash hphase hs => exact ⟨r, q, n, hs.congr rfl rfl rfl⟩
  | unmarked r q m found hreq hheld hread hidle hsent heoa hnonce =>
    exact ⟨r, q, m, hreq, hheld, hread, hsent, heoa, hnonce⟩
  | timedOut r q applied hreq hheld hread hidle hsent heoa => exact ⟨r, q, hreq, hheld, hread, hsent, heoa⟩
  | _ => trivial

theorem explained (h : Reachable G (State.initial w) s) (hl : process s i = some l) : l.Explained :=
  each_process (P := fun _ l => l.Explained) h (fun _ _ _ _ hl => hl) (fun _ _ _ => trivial)
    (fun _ _ i _ _ _ _ _ st ih => ih.step (localStep (i := i) st.allowed st.performed)) hl

/-- What a process submitted was accepted, and what it found was executed. -/
structure Local.Sound (w : World) (l : Local) : Prop where
  accepted : ∀ hash, l.phase = .accepted hash ∨ l.phase = .marked hash → ∃ r, l.read = some r ∧
    .broadcast (.transaction r.queueId) hash ∈ w.accepted
  receipts : ∀ receipt ∈ l.receipts, w.chain receipt.transactionHash.wallet receipt.transactionHash.nonce =
    some (.broadcast receipt.transactionHash)

theorem Local.Sound.submitted (hl : l.Sound w) (ht : l.read = some t) {hash : TransactionHash}
    (hp : l.phase = .accepted hash ∨ l.phase = .marked hash) :
    .broadcast (.transaction t.queueId) hash ∈ w.accepted := by
  obtain ⟨t', ht', hx⟩ := hl.accepted hash hp
  obtain rfl := Option.some.inj (ht.symm.trans ht')
  exact hx

theorem Local.Sound.step (hl : l.Sound w) (h : LocalStep w i l o a r l') (he : w.effect o a = some (r, w')) :
    l'.Sound w' := by
  have hacc := World.accepted_of_effect (i := i) he
  have hkeep : ∀ x ∈ w.accepted, x ∈ w'.accepted := fun x hx => by rw [hacc]; exact List.mem_append_right _ hx
  have hreceipts : ∀ receipt ∈ l.receipts, w'.chain receipt.transactionHash.wallet receipt.transactionHash.nonce =
      some (.broadcast receipt.transactionHash) := fun receipt hr => World.chain_mono he (hl.receipts receipt hr)
  cases h with
  | same =>
    refine ⟨fun hash hp => ?_, hreceipts⟩
    obtain ⟨r, hr, hx⟩ := hl.accepted hash hp
    exact ⟨r, hr, hkeep _ hx⟩
  | receipt _ _ _ receipt hexec =>
    refine ⟨fun hash hp => ?_, fun receipt' hr => ?_⟩
    · obtain ⟨r, hr, hx⟩ := hl.accepted hash hp
      exact ⟨r, hr, hkeep _ hx⟩
    · rcases List.mem_cons.mp hr with rfl | hr
      · exact World.chain_mono he hexec
      · exact hreceipts receipt' hr
  | named _ _ _ _ _ _ _ _ _ hidle =>
    refine ⟨fun hash hp => ?_, hreceipts⟩
    rw [hidle] at hp
    simp at hp
  | read => exact ⟨by simp, by simp⟩
  | attempted => exact ⟨by simp [Local.attempted], by simp [Local.attempted]⟩
  | acceptedFirst r q n hash hidle hs =>
    refine ⟨fun hash' hp => ⟨r, hs.read, ?_⟩, hreceipts⟩
    obtain rfl : hash = hash' := by simpa using hp
    rw [hacc]
    exact List.mem_cons_self
  | acceptedAgain r hash hidle hs =>
    refine ⟨fun hash' hp => ⟨r, hs.read, ?_⟩, hreceipts⟩
    obtain rfl : hash = hash' := by simpa using hp
    rw [hacc]
    exact List.mem_cons_self
  | marked r q n hash hphase hs =>
    refine ⟨fun hash' hp => ?_, hreceipts⟩
    obtain rfl : hash = hash' := by simpa using hp
    obtain ⟨r', hr', hx⟩ := hl.accepted hash (Or.inl hphase)
    exact ⟨r', hr', hkeep _ hx⟩
  | _ => exact ⟨fun hash hp => by simp at hp, hreceipts⟩

theorem Local.Sound.grows (hl : l.Sound w) (h : w.Grows w') : l.Sound w' := by
  refine ⟨fun hash hp => ?_, fun receipt hr => h.chain _ _ _ (hl.receipts receipt hr)⟩
  obtain ⟨r, hr, hx⟩ := hl.accepted hash hp
  exact ⟨r, hr, h.accepted _ hx⟩

theorem sound (h : Reachable G (State.initial w) s) (hl : process s i = some l) : l.Sound s.world :=
  each_process (P := fun w l => l.Sound w) h (fun _ _ _ hg hl => hl.grows hg)
    (fun _ _ _ => ⟨by simp [recordContract], by simp [recordContract]⟩)
    (fun _ _ i _ _ _ _ _ st ih => ih.step (localStep (i := i) st.allowed st.performed) st.performed) hl

/-! ### Properties of records -/

theorem LocalStep.read_cases (h : LocalStep w i l o a r l') (ht : l'.read = some t) :
    l.read = some t ∨ ∃ q, w.transactions q = some t := by
  cases h with
  | read q => exact Or.inr ⟨q, ht⟩
  | attempted => cases ht
  | _ => exact Or.inl ht

/-- What every write makes of the record it was computed from holds of all records,
stored or read. -/
theorem each_record {P : World → Transaction → Prop} (h : Reachable G (State.initial w) s)
    (hgrows : ∀ w w' t, w.Grows w' → P w t → P w' t) (h0 : ∀ q t, w.transactions q = some t → P w t)
    (hwrite : ∀ s i l t, Reachable G (State.initial w) s → process s i = some l → Writes l t →
      (∀ r, l.read = some r → P s.world r) → P s.world t) :
    (∀ q t, s.world.transactions q = some t → P s.world t) ∧
      ∀ i l r, process s i = some l → l.read = some r → P s.world r := by
  refine h.invariant recordContract (fun s => (∀ q t, s.world.transactions q = some t → P s.world t) ∧
    ∀ i l r, process s i = some l → l.read = some r → P s.world r) ?_ ?_ ?_
  · exact ⟨h0, by simp [process, State.initial, State.localOf]⟩
  · intro s s' n k _ ih st
    refine ⟨fun q t ht => ?_, fun j l' r hl' hr => ?_⟩
    · rw [(transactions_after_start st).1] at ht
      exact hgrows _ _ _ (grows_after_start st) (ih.1 q t ht)
    · rcases process_after_start st hl' with ⟨-, rfl⟩ | ⟨-, hj⟩
      · cases hr
      · exact hgrows _ _ _ (grows_after_start st) (ih.2 j l' r hj hr)
  · intro s s' i l o a r hr ih st
    refine ⟨fun q t ht => ?_, fun j l' t hl' ht => ?_⟩
    · rcases stored_after_call st ht with ht | ⟨-, -, hw⟩
      · exact hgrows _ _ _ (grows_after_call st) (ih.1 q t ht)
      · exact hgrows _ _ _ (grows_after_call st) (hwrite s i l t hr st.caller hw fun r => ih.2 i l r st.caller)
    · refine hgrows _ _ _ (grows_after_call st) ?_
      rcases process_after_call st hl' with ⟨-, rfl⟩ | ⟨-, hj⟩
      · rcases (localStep (i := i) st.allowed st.performed).read_cases ht with ht | ⟨q, ht⟩
        · exact ih.2 i l t st.caller ht
        · exact ih.1 q t ht
      · exact ih.2 j l' t hj ht

end
end Engine
