import Engine.Watch.Jobs

/-! A sent record is watched: it has a mine job that can run, or somebody is going to add one or
to error the record, as long as nobody gives that up while no one else does it. -/
namespace Engine
open Concurrent Program Function

namespace Watching

/-- The process will add the mine job of `q`, or error the record. -/
def owes (q : QueueId) (l : Watching) : Bool :=
  match l.duty with
  | .nothing => false
  | .add q' => q' == q
  | .resend | .error => l.request.queueId == some q

/-- After the call the process is rid of its duty, although it has not done it:
 - a request, a migration or a `failed` listener throws;
 - a resend is rejected because its nonce is used;
 - the pipeline of a `failed` listener is not applied;
 - the record of a failed send cannot be simulated. -/
def givesUp (l : Watching) : (o : Op) → Except Err o.Choice → Bool
  | .getAccount _ _, .error e | .accountSendTransaction _ _ _, .error e => !l.held || saysUsed e
  | .simulateTransaction _, .error _ => false
  | _, .error _ => !l.held
  | .setTransaction _, .ok false => l.duty == .error
  | .getConfig, .ok _ => l.stranded
  | _, .ok _ => false

end Watching

/-- A send job of `q` that was added waits. -/
def sendJobWaits (q : QueueId) (s : State watchers) : Bool :=
  s.trace.any fun e => match e.op with
    | .sendQueueAdd q' n => q' == q && isWaiting (s.world.sendJobs q n)
    | _ => false

def othersOwe (q : QueueId) (s : State watchers) (i : ℕ) : Bool :=
  (List.range s.threads.length).any fun j => j != i && (s.localOf watchContract j).any (·.owes q)

/-- Process `i` need not watch `q`. -/
def excused (q : QueueId) (s : State watchers) (i : ℕ) : Bool :=
  (s.world.transactions q).all (·.status != .sent) || sendJobWaits q s || othersOwe q s i

/-- Any interleaving, with any failures. -/
def anyWatch : Guard watchers where
  start _ _ := true
  call _ _ _ _ := true

/-- Every run in which, while the record of `q` is stored as sent, no send job of `q` waits and no
other process is going to add the mine job or to error the record,
 - no process gives up what it owes to `q`, unless the mine job can run;
 - the mine job is not added while a finished one has its id;
 - the mine job does not complete. -/
def keepsWatch (q : QueueId) : Guard watchers where
  start _ _ := true
  call s i o a :=
    (match o, a with
    | .mineQueueAdd q', .ok _ => decide (q' ≠ q) || !isFinished (s.world.mineJobs q)
    | .mineJobCompleted q', _ => decide (q' ≠ q)
    | o, a => isRunnable (s.world.mineJobs q) ||
        !(s.localOf watchContract i).any fun l => l.owes q && l.givesUp o a) || excused q s i

/-- No send job of `q` can run, and no process works on `q`. -/
structure QuiescentFor (q : QueueId) (s : State watchers) : Prop where
  jobs : ∀ n, isRunnable (s.world.sendJobs q n) = false
  threads : ∀ t ∈ s.threads, t.1.worksOn q = true → t.2.isFinished = true

/-- Where runs start. -/
structure World.Watched (w : World) (q : QueueId) : Prop where
  keyed : w.Keyed
  attempts : w.AttemptsLeft
  watched : ∀ t, w.transactions q = some t → t.status = .sent → isRunnable (w.mineJobs q) = true

/-- At every quiescent point a sent record has a mine job that can run. -/
def AlwaysWatched (G : Guard watchers) (w : World) (q : QueueId) : Prop :=
  ∀ s t, Reachable G (State.initial w) s → QuiescentFor q s → s.world.transactions q = some t → t.status = .sent →
    isRunnable (s.world.mineJobs q) = true

section
variable {G : Guard watchers} {s s' : State watchers} {w w' : World} {i : ℕ} {l : Watching} {o : Op}
  {a : Except Err o.Choice} {r : Except Err o.Reply} {t : Transaction} {q : QueueId} {k k' : Request} {j : Option Job}
  {x : Job}

/-! ### Duties -/

namespace Watching

/-- A process owes only what its request is about. -/
structure Dutiful (l : Watching) : Prop where
  held : l.held = true → l.request.job ≠ none
  resend : l.duty = .resend → l.held = true
  add : ∀ q, l.duty = .add q → l.request.worksOn q = true
  error : l.duty = .error → l.held = false ∧ l.request.job ≠ none
  read : ∀ r, l.read = some r → l.request.queueId = some r.queueId

/-- An attempt works on the record of its job only. -/
theorem queueId_of_worksOn {x : Watcher} (h : x.job ≠ none) (hq : x.worksOn q = true) : x.queueId = some q := by
  cases x <;> first | exact absurd rfl h | exact eq_of_beq hq

theorem worksOn_of_queueId {x : Watcher} (h : x.queueId = some q) : x.worksOn q = true := by
  cases x <;> first | (cases h; done) | exact beq_iff_eq.mpr h

theorem Dutiful.worksOn (h : l.Dutiful) (ho : l.owes q = true) : l.request.worksOn q = true := by
  unfold owes at ho
  split at ho
  · cases ho
  · rename_i q' hduty
    obtain rfl := eq_of_beq ho
    exact h.add q' hduty
  · exact worksOn_of_queueId (eq_of_beq ho)
  · exact worksOn_of_queueId (eq_of_beq ho)

theorem dutiful_init (x : Watcher) : x.init.Dutiful := by
  cases x <;> constructor <;> simp [Watcher.init, Watcher.job]

theorem Dutiful.nothing (h : l.Dutiful) : Dutiful { l with duty := .nothing } :=
  ⟨h.held, nofun, nofun, nofun, h.read⟩

private theorem thrown_cases (d : Duty) (held : Bool) : d.thrown held = .nothing ∨
    (d.thrown held = .resend ∧ (d = .resend ∨ held = true)) := by
  cases d with
  | resend => exact Or.inr ⟨rfl, Or.inl rfl⟩
  | add q =>
    cases held
    · exact Or.inl rfl
    · exact Or.inr ⟨rfl, Or.inr rfl⟩
  | _ => exact Or.inl rfl

theorem Dutiful.threw (h : l.Dutiful) : l.threw.Dutiful := by
  rcases thrown_cases l.duty l.held with hthrown | ⟨hthrown, hheld⟩
  · have hthrew : l.threw = { l with duty := .nothing } := by rw [← hthrown]; rfl
    rw [hthrew]
    exact h.nothing
  · have hthrew : l.threw = { l with duty := .resend } := by rw [← hthrown]; rfl
    rw [hthrew]
    refine ⟨h.held, fun _ => ?_, by simp, by simp, h.read⟩
    rcases hheld with hduty | hheld
    · exact h.resend hduty
    · exact hheld

private theorem dutiful_attempted (hjob : l.request.job ≠ none) (last : Bool) : (l.attempted last).Dutiful := by
  cases last
  · constructor <;> simp [Watching.attempted]
  · constructor <;> simp [Watching.attempted, hjob]

theorem Writes.worksOn (hwrites : l.Writes t) (h : l.Dutiful) (hsent : t.status = .sent) :
    l.request.worksOn t.queueId = true := by
  cases hwrites with
  | computed r hread hq =>
    rw [hq]
    exact worksOn_of_queueId (h.read r hread)
  | row rows row hreq hrow ht =>
    rw [hreq]
    exact List.any_eq_true.mpr ⟨row, hrow, by simp [ht, Except.toOption]⟩
  | queued hst => exact absurd hsent hst

theorem Dutiful.next (h : l.Dutiful) (hw : w.Keyed) (ho : l.Allowed o) (he : w.effect o a = some (r, w')) :
    (l.next o r).Dutiful := by
  obtain ⟨e, rfl, -⟩ | ⟨c, x, -, rfl, -, hx⟩ := World.effect_cases he
  · rw [next_error]
    split_ifs
    · exact h
    · exact h.nothing
    · exact h.threw
  · have hends : ∀ {k}, o.endsJob = some k → l.request.job ≠ none := by
      intro k hk
      rw [(Allowed.endsJob ho hk).1]
      intro h
      cases h
    cases ho with
    | other o ho =>
      cases o with
      | getConfig =>
        simp only [Watching.next]
        split_ifs
        · exact h.nothing
        · exact h
      | _ => first | exact h | cases ho
    | get q hq hadd =>
      obtain ⟨rfl, -⟩ := Prod.mk.inj (Option.some.inj hx)
      have hread : ∀ r, w.transactions q = some r → l.request.queueId = some r.queueId := by
        intro r hr
        rw [hw q r hr]
        exact hq
      simp only [Watching.next]
      split_ifs
      · exact ⟨h.held, h.resend, h.add, h.error, hread⟩
      · exact ⟨h.held, (fun h => by cases h), (fun _ h => by cases h), (fun h => by cases h), hread⟩
    | set t hwrites =>
      simp only [Watching.next]
      split_ifs with hsent
      · refine ⟨h.held, (fun h => by cases h), fun q hduty => ?_, (fun h => by cases h), h.read⟩
        cases hduty
        exact hwrites.worksOn h hsent
      · exact h.nothing
    | addMine q hduty => exact h.nothing
    | sendCompleted q n | sendFailed q n | mineCompleted q | mineFailed q => exact dutiful_attempted (hends rfl) _

end Watching

theorem records_after_start {n : ℕ} {x : Watcher} (st : Started watchContract G s s' n x) :
    s'.world.transactions = s.world.transactions := by
  rcases takes_cases st with ⟨-, hsame⟩ | ⟨k, j, -, htakes⟩
  · rw [hsame]
  · exact htakes.transactions

/-- Records are stored under their ids, and no process owes anything else than its own. -/
theorem dutiful (hw : w.Keyed) (h : Reachable G (State.initial w) s) :
    s.world.Keyed ∧ ∀ i l, s.localOf watchContract i = some l → Watching.Dutiful l := by
  refine h.invariant watchContract
    (fun s => s.world.Keyed ∧ ∀ i l, s.localOf watchContract i = some l → Watching.Dutiful l) ?_ ?_ ?_
  · exact ⟨hw, by simp [State.initial, State.localOf]⟩
  · intro s s' n x _ ih st
    refine ⟨fun q t ht => ih.1 q t (records_after_start st ▸ ht), fun j l hl => ?_⟩
    rcases st.localOf hl with ⟨-, rfl⟩ | ⟨-, hj⟩
    · exact Watching.dutiful_init x
    · exact ih.2 j l hj
  · intro s s' i l o a r _ ih st
    refine ⟨fun q t ht => ?_, fun j l' hl' => ?_⟩
    · rw [World.transactions_of_effect (i := i) st.performed] at ht
      split at ht
      · rename_i t' hstores
        by_cases hq : q = t'.queueId
        · rw [hq, update_self] at ht
          rw [← Option.some.inj ht]
          exact hq.symm
        · rw [update_of_ne hq] at ht
          exact ih.1 q t ht
      · exact ih.1 q t ht
    · rcases st.localOf hl' with ⟨-, rfl⟩ | ⟨-, hj⟩
      · exact (ih.2 i l st.caller).next ih.1 st.allowed st.performed
      · exact ih.2 j l' hj

theorem Watching.givesUp_error (l : Watching) (o : Op) (e : Err) :
    l.givesUp o (.error e) = if o.isSimulation then false else !l.held || (o.submits && saysUsed e) := by
  cases o <;> simp [Watching.givesUp, Op.isSimulation, Op.submits]

/-- A process that throws and does not give up owes what it owed. -/
theorem Watching.Dutiful.owes_next_error (h : l.Dutiful) (howes : l.owes q = true) {e : Err}
    (hgives : l.givesUp o (.error e) = false) : (l.next o (.error e)).owes q = true := by
  rw [givesUp_error] at hgives
  rw [next_error]
  cases hsimulation : o.isSimulation with
  | true =>
    rw [if_pos rfl]
    exact howes
  | false =>
    rw [hsimulation] at hgives
    simp only [Bool.false_eq_true, ↓reduceIte, Bool.or_eq_false_iff, Bool.not_eq_false'] at hgives ⊢
    obtain ⟨hheld, hused⟩ := hgives
    rw [hused]
    simp only [Bool.false_eq_true, ↓reduceIte]
    unfold owes at howes ⊢
    cases hduty : l.duty with
    | nothing => simp [hduty] at howes
    | add q' =>
      simp only [hduty] at howes
      have hq := queueId_of_worksOn (h.held hheld) (h.add q' hduty)
      simpa [Watching.threw, hduty, Duty.thrown, hheld, hq] using howes
    | resend =>
      simp only [hduty] at howes
      simpa [Watching.threw, hduty, Duty.thrown] using howes
    | error =>
      rw [(h.error hduty).1] at hheld
      cases hheld

/-! ### Who watches -/

/-- The record is not sent, or somebody takes care of it. -/
inductive Covered (q : QueueId) (s : State watchers) : Prop
  | unsent (h : ∀ t, s.world.transactions q = some t → t.status ≠ .sent)
  | polled (h : isRunnable (s.world.mineJobs q) = true)
  | retried (n : ℕ) (h : isWaiting (s.world.sendJobs q n) = true)
  | owed (i : ℕ) (l : Watching) (hl : s.localOf watchContract i = some l) (h : l.owes q = true)

/-- What an excused process relies on. -/
inductive Excused (q : QueueId) (s : State watchers) (i : ℕ) : Prop
  | unsent (h : ∀ t, s.world.transactions q = some t → t.status ≠ .sent)
  | retried (n : ℕ) (h : isWaiting (s.world.sendJobs q n) = true)
  | owed (j : ℕ) (l : Watching) (hj : j ≠ i) (hl : s.localOf watchContract j = some l) (h : l.owes q = true)

theorem excused_of_eq (h : excused q s i = true) : Excused q s i := by
  simp only [excused, Bool.or_eq_true] at h
  rcases h with (h | h) | h
  · refine .unsent fun t ht hst => ?_
    simp [ht, hst] at h
  · obtain ⟨e, -, he⟩ := List.any_eq_true.mp h
    split at he
    · rename_i q' n _
      simp only [Bool.and_eq_true, beq_iff_eq] at he
      exact .retried n he.2
    · cases he
  · obtain ⟨j, -, hj⟩ := List.any_eq_true.mp h
    simp only [Bool.and_eq_true, bne_iff_ne, ne_eq] at hj
    obtain ⟨l, hl, howes⟩ := (Option.any_eq_true _ _).mp hj.2
    exact .owed j l hj.1 hl howes

/-- A call that leaves the record and the waiting send jobs as they are. -/
structure Frames (q : QueueId) (s s' : State watchers) : Prop where
  transactions : s'.world.transactions q = s.world.transactions q
  sendJobs : ∀ n, isWaiting (s.world.sendJobs q n) = true → isWaiting (s'.world.sendJobs q n) = true

theorem Excused.covered (h : Excused q s i) (st : Moved G s s' i l o a r) (hf : Frames q s s') : Covered q s' := by
  cases h with
  | unsent h => exact .unsent (by rwa [hf.transactions])
  | retried n h => exact .retried n (hf.sendJobs n h)
  | owed j l' hj hl' h => exact .owed j l' ((st.others j hj).trans hl') h

theorem Covered.kept (h : Covered q s) (st : Moved G s s' i l o a r) (hf : Frames q s s')
    (hmine : isRunnable (s.world.mineJobs q) = true → Covered q s') (howes : l.owes q = true → Covered q s') :
    Covered q s' := by
  cases h with
  | unsent h => exact .unsent (by rwa [hf.transactions])
  | polled h => exact hmine h
  | retried n h => exact .retried n (hf.sendJobs n h)
  | owed j l' hl' h =>
    by_cases hj : j = i
    · subst hj
      obtain rfl := Option.some.inj (st.caller.symm.trans hl')
      exact howes h
    · exact .owed j l' ((st.others j hj).trans hl') h

theorem Covered.start {n : ℕ} {x : Watcher} (h : Covered q s) (st : Started watchContract G s s' n x) :
    Covered q s' := by
  cases h with
  | unsent h => exact .unsent (by rwa [records_after_start st])
  | polled h =>
    rcases takes_cases st with ⟨-, hsame⟩ | ⟨k, j, -, htakes⟩
    · exact .polled (by rwa [hsame])
    · exact .polled (htakes.isRunnable (m := .mineJob q) h)
  | retried m h =>
    rcases takes_cases st with ⟨-, hsame⟩ | ⟨k, j, hjob, htakes⟩
    · exact .retried m (by rwa [hsame])
    · by_cases hk : Request.sendJob q m = k
      · -- the attempt that took the job reads the record
        subst hk
        obtain rfl : x = .sendJob q m := by
          cases x <;> first | (cases hjob; done) | (cases hjob; rfl)
        exact .owed n _ st.self (by simp [watchContract, Watcher.init, Watching.owes, Watcher.queueId])
      · exact .retried m (htakes.isWaiting (m := .sendJob q m) h hk)
  | owed j l hl h =>
    have hj : j ≠ n := by
      rintro rfl
      rw [st.unused] at hl
      cases hl
    exact .owed j l ((st.others j hj).trans hl) h

theorem frames_of_stores (st : Moved G s s' i l o a r) (hstores : ∀ t, stores ⟨i, o, a, r⟩ = some t → t.queueId ≠ q)
    (hends : ∀ n, o.endsJob ≠ some (.sendJob q n)) : Frames q s s' := by
  refine ⟨?_, fun n h => isWaiting_stays (k := .sendJob q n) st (hends n) h⟩
  rw [World.transactions_of_effect (i := i) st.performed]
  cases hs : stores ⟨i, o, a, r⟩ with
  | none => rfl
  | some t => simp [update_of_ne (hstores t hs).symm]

/-- What the guard says of a call that is no end of a poll and no addition of a mine job. -/
def Minds (q : QueueId) (s : State watchers) (i : ℕ) (l : Watching) (o : Op) (a : Except Err o.Choice) : Prop :=
  l.owes q = true → l.givesUp o a = true → isRunnable (s.world.mineJobs q) = true ∨ Excused q s i

theorem minds_of_granted (hl : s.localOf watchContract i = some l) (h : ((isRunnable (s.world.mineJobs q) ||
    !(s.localOf watchContract i).any fun l => Watching.owes q l && Watching.givesUp l o a) || excused q s i) = true) :
    Minds q s i l o a := by
  intro howes hgives
  simp only [hl, Option.any_some, Bool.or_eq_true] at h
  rcases h with (h | h) | h
  · exact Or.inl h
  · rw [howes, hgives] at h
    cases h
  · exact Or.inr (excused_of_eq h)

/-- A process that owes nothing more was excused, or the mine job can run. -/
theorem Covered.given (hf : Frames q s s') (st : Moved G s s' i l o a r)
    (hmine : isRunnable (s.world.mineJobs q) = true → isRunnable (s'.world.mineJobs q) = true)
    (h : isRunnable (s.world.mineJobs q) = true ∨ Excused q s i) : Covered q s' := by
  rcases h with h | h
  · exact .polled (hmine h)
  · exact h.covered st hf

/-- A call that throws. -/
theorem Covered.error {e : Err} (h : Covered q s) (hl : l.Dutiful) (st : Moved (keepsWatch q) s s' i l o a (.error e))
    (hw : s'.world = s.world) (hm : Minds q s i l o (.error e)) : Covered q s' := by
  have hf : Frames q s s' := ⟨by rw [hw], fun n hn => by rwa [hw]⟩
  have hmine : isRunnable (s.world.mineJobs q) = true → isRunnable (s'.world.mineJobs q) = true := fun h => by rwa [hw]
  refine h.kept st hf (fun h => .polled (hmine h)) fun howes => ?_
  have hself : s'.localOf watchContract i = some (l.next o (.error e)) := st.self
  by_cases hgives : l.givesUp o (.error e) = true
  · exact Covered.given hf st hmine (hm howes hgives)
  · have hkeeps := hl.owes_next_error howes (e := e) (by simpa using hgives)
    exact .owed i _ hself hkeeps

theorem granted_error {e : Err} (h : (keepsWatch q).call s i o (.error e) = true) (ho : o.neverThrows = false)
    (hl : s.localOf watchContract i = some l) : Minds q s i l o (.error e) := by
  apply minds_of_granted hl
  cases o <;> first | exact h | cases ho

theorem not_locked (ho : l.Allowed o) : w.locked o = false := by
  have hremoves := removesNone ho
  cases o <;> first | rfl | cases hremoves

/-- A call that neither touches a record nor a job that exists. -/
theorem next_ok_unwatched (ho : o.unwatched = true) (c : o.Choice) (x : o.Reply) :
    l.next o (.ok x) = l ∨ l.givesUp o (.ok c) = true := by
  cases o with
  | getConfig =>
    cases hstranded : l.stranded with
    | true => exact Or.inr hstranded
    | false => exact Or.inl (by simp [Watching.next, hstranded])
  | _ => first | exact Or.inl rfl | cases ho

theorem Covered.other (h : Covered q s) {c : o.Choice} {x : o.Reply} (ho : o.unwatched = true)
    (st : Moved (keepsWatch q) s s' i l o (.ok c) (.ok x)) : Covered q s' := by
  have hends : o.endsJob = none := by cases o <;> first | rfl | cases ho
  have hf : Frames q s s' := by
    refine frames_of_stores st (fun t ht => ?_) (fun n => by rw [hends]; nofun)
    obtain rfl : o = .setTransaction t := op_of_stores ht
    cases ho
  have hmine : isRunnable (s.world.mineJobs q) = true → isRunnable (s'.world.mineJobs q) = true :=
    isRunnable_stays (k := .mineJob q) st (by rw [hends]; nofun)
  refine h.kept st hf (fun h => .polled (hmine h)) fun howes => ?_
  rcases next_ok_unwatched ho c x with hsame | hgives
  · have hself : s'.localOf watchContract i = some (l.next o (.ok x)) := st.self
    rw [hsame] at hself
    exact .owed i l hself howes
  · have hg : (keepsWatch q).call s i o (.ok c) = true := st.granted
    have hm : Minds q s i l o (.ok c) := by
      apply minds_of_granted st.caller
      cases o <;> first | exact hg | cases ho
    exact Covered.given hf st hmine (hm howes hgives)

theorem Covered.get (h : Covered q s) {q' : QueueId} (hq : l.request.queueId = some q') (hadd : ∀ q, l.duty ≠ .add q)
    {c : Unit}
    (st : Moved (keepsWatch q) s s' i l (.getTransaction q') (.ok c) (.ok (s.world.transactions q'))) :
    Covered q s' := by
  have hf : Frames q s s' := frames_of_stores st (fun t ht => by cases op_of_stores ht) (fun n => nofun)
  have hmine : isRunnable (s.world.mineJobs q) = true → isRunnable (s'.world.mineJobs q) = true :=
    isRunnable_stays (k := .mineJob q) st nofun
  refine h.kept st hf (fun h => .polled (hmine h)) fun howes => ?_
  have hself : s'.localOf watchContract i = some (l.next (.getTransaction q') (.ok (s.world.transactions q'))) :=
    st.self
  by_cases hsent : (s.world.transactions q').any (·.status == .sent) = true
  · have hsame : (l.next (.getTransaction q') (.ok (s.world.transactions q'))).owes q = l.owes q := by
      simp [Watching.next, Watching.owes, hsent]
    exact .owed i _ hself (hsame.trans howes)
  · refine .unsent fun t ht hst => hsent ?_
    have hq' : q' = q := by
      unfold Watching.owes at howes
      cases hduty : l.duty with
      | nothing => simp [hduty] at howes
      | add q'' => exact absurd hduty (hadd q'')
      | resend | error => simpa [hduty, hq] using howes
    rw [hf.transactions] at ht
    rw [hq', ht]
    simpa using hst

theorem Covered.set (h : Covered q s) (hl : l.Dutiful) {c : Bool} (hw : l.Writes t)
    (st : Moved (keepsWatch q) s s' i l (.setTransaction t) (.ok c) (.ok ())) : Covered q s' := by
  have hmine : isRunnable (s.world.mineJobs q) = true → isRunnable (s'.world.mineJobs q) = true :=
    isRunnable_stays (k := .mineJob q) st fun h => by cases h
  have hself : s'.localOf watchContract i = some (l.next (.setTransaction t) (.ok ())) := st.self
  -- who owes the watch of `q` stores the record of `q`
  have hid : l.owes q = true → (l.duty = .resend ∨ l.duty = .error) ∧ t.queueId = q := by
    intro howes
    unfold Watching.owes at howes
    cases hw with
    | computed r hread hq hresend herror hadd =>
      have hreq := hl.read r hread
      cases hduty : l.duty with
      | nothing => simp [hduty] at howes
      | add q'' => exact absurd hduty (hadd q'')
      | resend | error => exact ⟨by simp, hq.trans (by simpa [hduty, hreq] using howes)⟩
    | row rows row hreq hrow ht hduty => simp [hduty] at howes
    | queued hst hduty => simp [hduty] at howes
  have howed : t.status = .sent → t.queueId = q → Covered q s' := by
    intro hsent hq
    refine .owed i _ hself ?_
    simp [Watching.next, Watching.owes, hsent, hq]
  cases c with
  | true =>
    by_cases hq : t.queueId = q
    · by_cases hsent : t.status = .sent
      · exact howed hsent hq
      · refine .unsent fun t' ht' => ?_
        have hperformed : s.world.effect (.setTransaction t) (.ok true) = some (.ok (), s'.world) := st.performed
        have hafter : s'.world.transactions = update s.world.transactions t.queueId (some t) :=
          World.transactions_of_effect (i := i) hperformed
        rw [hafter, hq, update_self] at ht'
        rwa [← Option.some.inj ht']
    · have hf : Frames q s s' := by
        refine frames_of_stores st (fun t' ht' => ?_) (fun n h => by cases h)
        cases op_of_stores ht'
        exact hq
      exact h.kept st hf (fun h => .polled (hmine h)) fun howes => absurd (hid howes).2 hq
  | false =>
    have hf : Frames q s s' := frames_of_stores st (fun t' ht' => by cases ht') (fun n h => by cases h)
    refine h.kept st hf (fun h => .polled (hmine h)) fun howes => ?_
    obtain ⟨hduty, hq⟩ := hid howes
    rcases hduty with hduty | hduty
    · have hsent : t.status = .sent := by
        cases hw with
        | computed r hread hq hresend => exact hresend hduty
        | row rows row hreq hrow ht hnothing => cases hduty.symm.trans hnothing
        | queued hst hnothing => cases hduty.symm.trans hnothing
      exact howed hsent hq
    · have hg : (keepsWatch q).call s i (.setTransaction t) (.ok false) = true := st.granted
      have hm : Minds q s i l (.setTransaction t) (.ok false) := minds_of_granted st.caller hg
      exact Covered.given hf st hmine (hm howes (by simp [Watching.givesUp, hduty]))

theorem Covered.addMine (h : Covered q s) {q' : QueueId} {c : Unit} {x : Unit} (hduty : l.duty = .add q')
    (st : Moved (keepsWatch q) s s' i l (.mineQueueAdd q') (.ok c) (.ok x)) : Covered q s' := by
  have hf : Frames q s s' := frames_of_stores st (fun t ht => by cases op_of_stores ht) (fun n => nofun)
  have hmine : isRunnable (s.world.mineJobs q) = true → isRunnable (s'.world.mineJobs q) = true :=
    isRunnable_stays (k := .mineJob q) st nofun
  by_cases hq : q' = q
  · subst hq
    have hg : (keepsWatch q').call s i (.mineQueueAdd q') (.ok c) = true := st.granted
    simp only [keepsWatch, ne_eq, not_true_eq_false, decide_false, Bool.false_or, Bool.or_eq_true,
      Bool.not_eq_true'] at hg
    rcases hg with hfinished | hexcused
    · have hjob : s'.world.mineJobs q' = addJob (s.world.mineJobs q') := by
        have hperformed : s.world.effect (.mineQueueAdd q') (.ok c) = some (.ok x, s'.world) := st.performed
        obtain ⟨e, he, -⟩ | ⟨c, x, -, -, -, hx⟩ := World.effect_cases hperformed
        · cases he
        · obtain ⟨-, hw⟩ := Prod.mk.inj (Option.some.inj hx)
          rw [← hw]
          exact (job_setMineJob _ _ _ (.mineJob q')).trans (if_pos rfl)
      exact .polled (by rw [hjob]; exact isRunnable_addJob hfinished)
    · exact (excused_of_eq hexcused).covered st hf
  · refine h.kept st hf (fun h => .polled (hmine h)) fun howes => ?_
    simp [Watching.owes, hduty, hq] at howes

/-- An attempt that ends leaves the jobs and the debts of other records as they are. -/
theorem Covered.ended (h : Covered q s) (hs : Reachable (keepsWatch q) (State.initial w) s)
    (st : Moved (keepsWatch q) s s' i l o a r) (hk : o.endsJob = some k) (hstores : stores ⟨i, o, a, r⟩ = none)
    (howes : l.owes q = false) (hmine : k ≠ .mineJob q) : Covered q s' := by
  have hactive := active_of_endsJob hs st hk
  have hf : Frames q s s' := by
    refine ⟨?_, fun n hn => ?_⟩
    · rw [World.transactions_of_effect (i := i) st.performed, hstores]
    · by_cases hkn : k = .sendJob q n
      · -- the job of the attempt does not wait
        subst hkn
        have hactive : isActive (s.world.sendJobs q n) = true := hactive
        unfold isActive at hactive
        split at hactive
        · rename_i hjob
          rw [hjob] at hn
          cases hn
        · cases hactive
      · exact isWaiting_stays (k := .sendJob q n) st (by rw [hk]; exact fun he => hkn (Option.some.inj he)) hn
  have hkept : isRunnable (s.world.mineJobs q) = true → isRunnable (s'.world.mineJobs q) = true :=
    isRunnable_stays (k := .mineJob q) st (by rw [hk]; exact fun he => hmine (Option.some.inj he))
  refine h.kept st hf (fun h => .polled (hkept h)) fun ho => ?_
  rw [howes] at ho
  cases ho

/-- A failed attempt is followed by another, or by its listener. -/
theorem Covered.failed (hs : Reachable (keepsWatch q) (State.initial w) s) (hatt : s.world.AttemptsLeft)
    (st : Moved (keepsWatch q) s s' i l o a r) (hk : o.endsJob = some k) (hkq : k = .mineJob q ∨ ∃ n, k = .sendJob q n)
    (hjob : s'.world.job k = failJob k.attempts (s.world.job k))
    (hlast : attemptsMade (s.world.job k) + 1 = k.attempts → (Watching.next l o r).owes q = true) : Covered q s' := by
  have hactive := active_of_endsJob hs st hk
  have hthere : ∃ x, s.world.job k = some x ∧ x.state.isFinished = false := by
    unfold isActive at hactive
    split at hactive
    · exact ⟨_, ‹_›, rfl⟩
    · cases hactive
  obtain ⟨x, hx, hxfinished⟩ := hthere
  rcases failJob_cases hx k.attempts with ⟨hwaiting, -⟩ | ⟨-, hmade⟩
  · rw [← hjob] at hwaiting
    rcases hkq with rfl | ⟨n, rfl⟩
    · exact .polled (isRunnable_of_isWaiting hwaiting)
    · exact .retried n hwaiting
  · have hleft := hatt k x hx hxfinished
    have hself : s'.localOf watchContract i = some (Watching.next l o r) := st.self
    refine .owed i _ hself (hlast ?_)
    have hattempts : attemptsMade (s.world.job k) = x.attemptsMade := by simp [attemptsMade, hx]
    omega

theorem Covered.call (hw : w.Keyed) (hatt : w.AttemptsLeft) (hs : Reachable (keepsWatch q) (State.initial w) s)
    (h : Covered q s) (st : Moved (keepsWatch q) s s' i l o a r) : Covered q s' := by
  obtain ⟨-, hduties⟩ := dutiful hw hs
  have hl := hduties i l st.caller
  have hleft := attemptsLeft hatt hs
  have hallowed : Watching.Allowed l o := st.allowed
  obtain ⟨e, rfl, hsame, hnever, ha⟩ | ⟨c, x, rfl, rfl, -, hx⟩ := World.effect_cases st.performed
  · rcases ha with rfl | hlocked
    · exact h.error hl st hsame (granted_error st.granted hnever st.caller)
    · rw [not_locked hallowed] at hlocked
      cases hlocked
  · cases hallowed with
    | other o ho => exact h.other ho st
    | get q' hq hadd =>
      obtain ⟨rfl, -⟩ := Prod.mk.inj (Option.some.inj hx)
      exact h.get hq hadd st
    | set t hwrites =>
      exact h.set hl hwrites st
    | addMine q' hduty => exact h.addMine hduty st
    | sendCompleted q' n hreq hheld hduty =>
      exact h.ended hs st rfl rfl (by simp [Watching.owes, hduty]) nofun
    | sendFailed q' n hreq hheld hduty =>
      have howes : l.owes q = true → q' = q := by
        intro howes
        rcases hduty with hduty | hduty
        · simp [Watching.owes, hduty] at howes
        · simpa [Watching.owes, hduty, hreq, Watcher.queueId] using howes
      by_cases hq : q' = q
      · subst hq
        obtain ⟨hreply, hworld⟩ := Prod.mk.inj (Option.some.inj hx)
        refine Covered.failed hs hleft st rfl (Or.inr ⟨n, rfl⟩) ?_ fun hlast => ?_
        · rw [← hworld]
          exact (job_setSendJob _ _ _ _ (.sendJob q' n)).trans (if_pos rfl)
        · have hlast : x = sendAttempts := hreply ▸ hlast
          simp [Watching.next, Watching.attempted, Watching.owes, hlast, hreq, Watcher.queueId]
      · exact h.ended hs st rfl rfl (Bool.eq_false_iff.mpr fun ho => hq (howes ho)) nofun
    | mineCompleted q' hreq hheld hduty =>
      by_cases hq : q' = q
      · subst hq
        have hg : (keepsWatch q').call s i (.mineJobCompleted q') (.ok c) = true := st.granted
        simp only [keepsWatch, ne_eq, not_true_eq_false, decide_false, Bool.false_or] at hg
        have hf : Frames q' s s' := frames_of_stores st (fun t ht => by cases op_of_stores ht)
          (fun n => by simp [Op.endsJob])
        exact (excused_of_eq hg).covered st hf
      · exact h.ended hs st rfl rfl (by simp [Watching.owes, hduty]) fun he => hq (Request.mineJob.inj he)
    | mineFailed q' hreq hheld hduty =>
      by_cases hq : q' = q
      · subst hq
        obtain ⟨hreply, hworld⟩ := Prod.mk.inj (Option.some.inj hx)
        refine Covered.failed hs hleft st rfl (Or.inl rfl) ?_ fun hlast => ?_
        · rw [← hworld]
          exact (job_setMineJob _ _ _ (.mineJob q')).trans (if_pos rfl)
        · have hlast : x = mineAttempts := hreply ▸ hlast
          simp [Watching.next, Watching.attempted, Watching.owes, hlast, hreq, Watcher.queueId]
      · exact h.ended hs st rfl rfl (by simp [Watching.owes, hduty]) fun he => hq (Request.mineJob.inj he)

theorem covered (hw : w.Watched q) (h : Reachable (keepsWatch q) (State.initial w) s) : Covered q s := by
  refine h.invariant watchContract (Covered q) ?_ (fun _ _ _ _ _ ih st => ih.start st)
    (fun _ _ _ _ _ _ _ hr ih st => ih.call hw.keyed hw.attempts hr st)
  by_cases hrunnable : isRunnable (w.mineJobs q) = true
  · exact .polled hrunnable
  · exact .unsent fun t ht hst => hrunnable (hw.watched t ht hst)

/-- A process works on what its thread was started for. -/
theorem request_of_watcher {x : Watcher} {p : Prog Unit} (hi : s.threads[i]? = some (x, p)) :
    ∃ l, s.localOf watchContract i = some l ∧ Watching.request l = x := by
  refine ⟨_, localOf_eq watchContract hi, ?_⟩
  apply watchContract.after_keeps (J := fun l => Watching.request l = x)
  · cases x <;> rfl
  · intro l o r h
    exact (Watching.next_request l o r).trans h

/-- A sent transaction is always being watched. -/
theorem always_watched (hw : w.Watched q) : AlwaysWatched (keepsWatch q) w q := by
  intro s t h hq ht hsent
  cases covered hw h with
  | unsent hunsent => exact absurd hsent (hunsent t ht)
  | polled hpolled => exact hpolled
  | retried n hwaiting =>
    have hidle := hq.jobs n
    rw [isRunnable_of_isWaiting hwaiting] at hidle
    cases hidle
  | owed i l hl howes =>
    obtain ⟨⟨x, p⟩, hi, hafter⟩ := Option.map_eq_some_iff.mp hl
    obtain ⟨l', hl', hreq⟩ := request_of_watcher hi
    obtain rfl := Option.some.inj (hl.symm.trans hl')
    have hworks := ((dutiful hw.keyed h).2 i l hl).worksOn howes
    rw [hreq] at hworks
    have hfinished := hq.threads _ (List.mem_of_getElem? hi) hworks
    obtain ⟨y, hends⟩ := (h.conforms watchContract).ends_of_finished watchContract hi hfinished
    have hnothing : Watching.duty l = .nothing := by
      rw [← hafter]
      exact hends
    simp [Watching.owes, hnothing] at howes

/-- A send job that is there was added. -/
theorem added_of_sendJob (h : Reachable G (State.initial .empty) s) {n : ℕ} :
    s.world.sendJobs q n ≠ none → ∃ e ∈ s.trace, e.op = .sendQueueAdd q n := by
  refine h.invariant watchContract
    (fun s => s.world.sendJobs q n ≠ none → ∃ e ∈ s.trace, e.op = .sendQueueAdd q n) (fun hj => absurd rfl hj) ?_ ?_
  · intro s s' m x _ ih st hj
    rw [st.traced]
    refine ih fun hnone => hj ?_
    have hnone : s.world.job (.sendJob q n) = none := hnone
    rcases takes_cases st with ⟨-, hsame⟩ | ⟨k, j, -, htakes⟩
    · rwa [hsame]
    · refine (htakes.job (.sendJob q n)).trans ?_
      rw [if_neg]
      · exact hnone
      · rintro rfl
        have htaken := htakes.taken
        rw [hnone] at htaken
        cases htaken
  · intro s s' i l o a r _ ih st hj
    rw [st.traced]
    by_cases hold : s.world.sendJobs q n = none
    · refine ⟨_, List.mem_cons_self, ?_⟩
      have hold : s.world.job (.sendJob q n) = none := hold
      obtain hsame | ⟨hadd, -⟩ | ⟨-, -, hnone⟩ | hends := job_cases st.performed (.sendJob q n)
      · exact absurd (hsame.trans hold) hj
      · cases o with
        | sendQueueAdd q' n' =>
          cases hadd
          rfl
        | _ => cases hadd
      · exact absurd hnone hj
      · -- ending an attempt does not make a job
        rcases job_ended st.performed hends with h | h <;> rw [hold] at h <;> exact absurd h hj
    · obtain ⟨e, he, heo⟩ := ih hold
      exact ⟨e, List.mem_cons_of_mem _ he, heo⟩

end

/-- No send job of `q` that was added can run, and no process works on `q`. -/
def settledFor (q : QueueId) (s : State watchers) : Bool :=
  (s.trace.all fun e => match e.op with
    | .sendQueueAdd q' n => q' != q || !isRunnable (s.world.sendJobs q n)
    | _ => true) && s.threads.all fun t => !t.1.worksOn q || t.2.isFinished

theorem quiescentFor_of_settled {G : Guard watchers} {s : State watchers} {q : QueueId}
    (h : Reachable G (State.initial .empty) s) (hs : settledFor q s = true) : QuiescentFor q s := by
  simp only [settledFor, Bool.and_eq_true] at hs
  obtain ⟨hjobs, hthreads⟩ := hs
  refine ⟨fun n => ?_, fun t ht hworks => ?_⟩
  · by_cases hnone : s.world.sendJobs q n = none
    · rw [hnone]
      rfl
    · obtain ⟨e, he, ho⟩ := added_of_sendJob h hnone
      have hidle := List.all_eq_true.mp hjobs e he
      simpa [ho] using hidle
  · have hfinished := List.all_eq_true.mp hthreads t ht
    simpa [hworks] using hfinished

theorem watched_empty (q : QueueId) : World.empty.Watched q := by
  refine ⟨?_, ?_, ?_⟩
  · intro q t ht
    cases ht
  · intro k j hj
    cases k <;> cases hj
  · intro t ht
    cases ht

def startsWatcher (k : Watcher) : Move watchers := .start k

/-- The transfer is inserted by process 0, and sent by process 1 with nonce 0; then the webhook
queue cannot be reached. -/
def sentWithoutWebhook : List (Move watchers) :=
  startsWatcher (.insertTransaction transfer none false) :: proceeds 0 4 ++
    startsWatcher (.sendJob transferId 0) :: proceeds 1 16 ++
    answered 1 [throwing connectionClosed, usual]

/-- The next attempt broadcasts again. -/
theorem always_watched_retried : ∃ (s : State watchers) (t : Transaction), s.world.transactions transferId = some t ∧
    t.status = .sent ∧ t.resendCount = 0 ∧ isRunnable (s.world.mineJobs transferId) = true := by
  obtain ⟨s, hs, hr⟩ := exists_reachable_of_run (keepsWatch transferId) World.empty
    (sentWithoutWebhook ++ startsWatcher (.sendJob transferId 0) :: proceeds 2 11)
    (fun s => settledFor transferId s && (s.world.transactions transferId).any
      fun t => t.status == .sent && t.resendCount == 0)
    (by decide +kernel)
  simp only [Bool.and_eq_true] at hr
  obtain ⟨t, ht, hst⟩ := (Option.any_eq_true _ _).mp hr.2
  obtain ⟨hsent, hcount⟩ : t.status = .sent ∧ t.resendCount = 0 := by simpa using hst
  exact ⟨s, t, ht, hsent, hcount,
    always_watched (watched_empty transferId) s t hs (quiescentFor_of_settled hs hr.1) ht hsent⟩

/-- The next attempt is told that the nonce is used, and completes without a result. -/
theorem not_always_watched : ¬ ∀ (w : World) (q : QueueId), w.Watched q → AlwaysWatched anyWatch w q := by
  intro hgeneral
  obtain ⟨s, hs, hr⟩ := exists_reachable_of_run anyWatch World.empty
    (sentWithoutWebhook ++ startsWatcher (.sendJob transferId 0) :: proceeds 2 4 ++
      answered 2 [throwing (.new "nonce too low"), usual])
    (fun s => settledFor transferId s && ((s.world.transactions transferId).any (·.status == .sent) &&
      !isRunnable (s.world.mineJobs transferId))) (by decide +kernel)
  simp only [Bool.and_eq_true] at hr
  obtain ⟨hsettled, hsent, hidle⟩ := hr
  obtain ⟨t, ht, hst⟩ := (Option.any_eq_true _ _).mp hsent
  have hrunnable := hgeneral World.empty transferId (watched_empty transferId) s t hs
    (quiescentFor_of_settled hs hsettled) ht
    (by simpa using hst)
  rw [hrunnable] at hidle
  cases hidle

end Engine
