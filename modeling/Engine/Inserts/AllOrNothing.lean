import Mathlib.Data.Set.Finite.Basic
import Engine.Concurrent.Sequential
import Engine.Model.Schedule
import Engine.Source.Calls

/-! One call of `insertTransaction`, with any of its steps failing: whether it leaves a
record without a job, or a job without a record. -/
namespace Engine
open Concurrent Program Function

/-- Every call is answered as `answers` says, and so fails or not. -/
def answeredBy (answers : Answers) : Effects Calls World := fun w o _ => w.effect o (answers o)

/-- No call throws, and pipelines are applied. -/
def failureFree : Effects Calls World := fun w (o : Op) (a : Except Err o.Choice) =>
  match o, a with
  | .setTransaction _, .ok false => none
  | _, .error _ => none
  | o, .ok c => w.effect o (.ok c)

/-- A send job of `q` exists, or existed: `existed` are the ids that had one before. -/
def HasJob (existed : Set QueueId) (w : World) (q : QueueId) : Prop := q ∈ existed ∨ ∃ n, w.sendJobs q n ≠ none

/-- An id that a call resolved with has its record and its job; and after a call that rejected,
a failure-free call with its key that resolves ends with a job for the key. -/
structure AllOrNothing (existed : Set QueueId) (idempotencyKey : Option String) (r : Except Err QueueId)
    (w' : World) : Prop where
  resolved : ∀ q, r = .ok q → (∃ t, w'.transactions q = some t) ∧ HasJob existed w' q
  rejected : ∀ e k tx simulate q w'', r = .error e → idempotencyKey.filter (· ≠ "") = some k →
    Runs failureFree w' (insertTransaction tx (some k) simulate) (.ok q) w'' → HasJob existed w'' k

/-- The call gets to its pipeline, for the id `q`. -/
structure Reaches (answers : Answers) (w : World) (tx : InsertedTransaction) (idempotencyKey : Option String)
    (simulate : Bool) (q : QueueId) : Prop where
  id : answers .randomUUID = .ok q ∧ idempotencyKey.filter (· ≠ "") = none ∨
    idempotencyKey.filter (· ≠ "") = some q ∧ w.transactions q = none ∧ ∃ u, answers (.existsTransaction q) = .ok u
  simulates : simulate = true →
    Runs (answeredBy answers) w (assertSimulates (queuedTransaction tx q)) (.ok ()) w

/-- The condition on the failures and on what was there before. -/
structure FailsWhole (existed : Set QueueId) (answers : Answers) (w : World) (tx : InsertedTransaction)
    (idempotencyKey : Option String) (simulate : Bool) : Prop where
  /-- If the pipeline's `SET` is dropped, the job is not added either. -/
  dropped : ∀ q, Reaches answers w tx idempotencyKey simulate q →
    answers (.setTransaction (queuedTransaction tx q)) = .ok false → ∃ e, answers (.sendQueueAdd q 0) = .error e
  /-- A key has a job already; or it has no record, and if its record is stored the job is added. -/
  added : ∀ k, idempotencyKey.filter (· ≠ "") = some k → HasJob existed w k ∨ (w.transactions k = none ∧
    (Reaches answers w tx idempotencyKey simulate k →
      answers (.setTransaction (queuedTransaction tx k)) = .ok true → ∃ u, answers (.sendQueueAdd k 0) = .ok u))

section
variable {existed : Set QueueId} {answers : Answers} {w w' : World} {tx : InsertedTransaction}
  {idempotencyKey : Option String} {simulate : Bool} {r : Except Err QueueId} {q k : QueueId} {t : Transaction}

theorem answeredBy_det (w : World) (o : Op) (a a' : Except Err o.Choice) :
    answeredBy answers w o a = answeredBy answers w o a' := rfl

/-- What the calls of a simulation reply does not depend on the world. -/
theorem effect_of_simulates {o : Op} {a : Except Err o.Choice} {x : Except Err o.Reply} (ho : o.simulates = true)
    (h : w.effect o a = some (x, w')) (w₁ : World) : w₁.effect o a = some (x, w₁) := by
  cases a with
  | error e => cases o <;> first | (cases ho; done) | (cases h; rfl)
  | ok c => cases o <;> first | (cases ho; done) | (cases h; rfl)

/-- A simulation leaves the world as it is, and its outcome is the same in every world. -/
theorem runs_assertSimulates {effect : Effects Calls World} {r : Except Err Unit}
    (heffect : ∀ w (o : Op) a x w', o.simulates = true → effect w o a = some (x, w') →
      ∀ w₁, effect w₁ o a = some (x, w₁))
    (h : Runs effect w (assertSimulates t) r w') : w' = w ∧ ∀ w₁, Runs effect w₁ (assertSimulates t) r w₁ := by
  refine ⟨(simulates_assertSimulates t).runs_invariant (J := fun w₁ => w₁ = w) (fun w₁ o a x w₂ ho he hw => ?_) h rfl,
    fun w₁ => (simulates_assertSimulates t).runs_anywhere heffect h⟩
  subst hw
  have hself := heffect w₁ o a x w₂ ho he w₁
  rw [he] at hself
  exact (Prod.mk.inj (Option.some.inj hself)).2

theorem answeredBy_simulates (w : World) (o : Op) (a : Except Err o.Choice) (x : Except Err o.Reply) (w' : World)
    (ho : o.simulates = true) (h : answeredBy answers w o a = some (x, w')) (w₁ : World) :
    answeredBy answers w₁ o a = some (x, w₁) := effect_of_simulates ho h w₁

/-- How the part after the idempotency check can end. -/
inductive Inserted (answers : Answers) (w : World) (tx : InsertedTransaction) (q : QueueId) (simulate : Bool) :
    Except Err QueueId → World → Prop
  | notSimulated (e : Err) (w' : World) (h : ¬ (simulate = true →
      Runs (answeredBy answers) w (assertSimulates (queuedTransaction tx q)) (.ok ()) w))
      (hjobs : w'.sendJobs = w.sendJobs) (ht : w'.transactions = w.transactions) :
      Inserted answers w tx q simulate (.error e) w'
  | notStored (e : Err) (w' : World) (hset : answers (.setTransaction (queuedTransaction tx q)) = .error e)
      (hjobs : w'.sendJobs = w.sendJobs) (ht : w'.transactions = w.transactions) :
      Inserted answers w tx q simulate (.error e) w'
  | notAdded (applied : Bool) (e : Err) (w' : World)
      (hsim : simulate = true → Runs (answeredBy answers) w (assertSimulates (queuedTransaction tx q)) (.ok ()) w)
      (hset : answers (.setTransaction (queuedTransaction tx q)) = .ok applied)
      (hadd : answers (.sendQueueAdd q 0) = .error e) (hjobs : w'.sendJobs = w.sendJobs)
      (ht : w'.transactions = if applied then update w.transactions q
        (some (queuedTransaction tx q)) else w.transactions) :
      Inserted answers w tx q simulate (.error e) w'
  | added (applied : Bool) (u : Unit) (w' : World)
      (hsim : simulate = true → Runs (answeredBy answers) w (assertSimulates (queuedTransaction tx q)) (.ok ()) w)
      (hset : answers (.setTransaction (queuedTransaction tx q)) = .ok applied)
      (hadd : answers (.sendQueueAdd q 0) = .ok u)
      (hjobs : w'.sendJobs = update w.sendJobs q (update (w.sendJobs q) 0 (addJob (w.sendJobs q 0))))
      (ht : w'.transactions = if applied then update w.transactions q
        (some (queuedTransaction tx q)) else w.transactions) :
      Inserted answers w tx q simulate (.ok q) w'

/-- From the pipeline on. -/
theorem runs_setTransaction
    (hsim : simulate = true → Runs (answeredBy answers) w (assertSimulates (queuedTransaction tx q)) (.ok ()) w)
    (h : Runs (answeredBy answers) w ((await (.setTransaction (queuedTransaction tx q))).bind fun _ =>
      (await (.sendQueueAdd q 0)).bind fun _ =>
        (await (.recordMetrics (.transactionQueued tx.chainId tx.from))).bind fun _ => done q) r w') :
    Inserted answers w tx q simulate r w' := by
  rcases runs_bind.mp h with ⟨_, w₂, hset, h⟩ | ⟨e, hset, rfl⟩
  · obtain ⟨_, hset⟩ := runs_perform.mp hset
    obtain ⟨e, he, -⟩ | ⟨applied, x, hanswer, -, -, hx⟩ := World.effect_cases hset
    · cases he
    obtain ⟨-, hw₂⟩ := Prod.mk.inj (Option.some.inj hx)
    have ht : w₂.transactions = if applied then update w.transactions q (some (queuedTransaction tx q))
        else w.transactions := by
      rw [← hw₂]
      cases applied <;> rfl
    have hj : w₂.sendJobs = w.sendJobs := by
      rw [← hw₂]
      cases applied <;> rfl
    rcases runs_bind.mp h with ⟨_, w₃, hadd, h⟩ | ⟨e, hadd, rfl⟩
    · obtain ⟨_, hadd⟩ := runs_perform.mp hadd
      obtain ⟨e, he, -⟩ | ⟨u, x, hadded, -, -, hx⟩ := World.effect_cases hadd
      · cases he
      obtain ⟨-, rfl⟩ := Prod.mk.inj (Option.some.inj hx)
      rcases runs_bind.mp h with ⟨_, w₄, hmetrics, h⟩ | ⟨e, hmetrics, rfl⟩
      · obtain ⟨_, hmetrics⟩ := runs_perform.mp hmetrics
        have hw₄ := World.eq_of_effect hmetrics rfl
        obtain ⟨rfl, rfl⟩ := runs_done.mp h
        refine .added applied u w' hsim hanswer hadded ?_ ?_
        · rw [hw₄, ← hj]
          rfl
        · rw [hw₄, ← ht]
          rfl
      · obtain ⟨_, hmetrics⟩ := runs_perform.mp hmetrics
        obtain ⟨e', -, -, hn, -⟩ | ⟨_, _, -, he, -⟩ := World.effect_cases hmetrics
        · cases hn
        · cases he
    · obtain ⟨_, hadd⟩ := runs_perform.mp hadd
      obtain ⟨e', he, hw, -, hanswer' | hl⟩ | ⟨_, _, -, he, -⟩ := World.effect_cases hadd
      · cases he
        exact .notAdded applied e w' hsim hanswer hanswer' (by rw [hw]; exact hj) (by rw [hw]; exact ht)
      · cases hl
      · cases he
  · obtain ⟨_, hset⟩ := runs_perform.mp hset
    obtain ⟨e', he, rfl, -, hanswer | hl⟩ | ⟨_, _, -, he, -⟩ := World.effect_cases hset
    · cases he
      exact .notStored e _ hanswer rfl rfl
    · cases hl
    · cases he

theorem runs_insertQueued (h : Runs (answeredBy answers) w (insertQueued (queuedTransaction tx q) simulate) r w') :
    Inserted answers w tx q simulate r w' := by
  cases simulate with
  | false => exact runs_setTransaction (by simp) h
  | true =>
    rcases runs_bind.mp h with ⟨_, w₁, hsim, hrest⟩ | ⟨e, hsim, rfl⟩
    · obtain ⟨rfl, hall⟩ := runs_assertSimulates answeredBy_simulates hsim
      exact runs_setTransaction (fun _ => hall w₁) hrest
    · obtain ⟨rfl, hall⟩ := runs_assertSimulates answeredBy_simulates hsim
      refine .notSimulated e w' (fun hok => ?_) rfl rfl
      obtain ⟨he, -⟩ := hsim.det answeredBy_det (hok rfl)
      cases he

theorem runs_assertSimulates_congr {w₁ : World} :
    Runs (answeredBy answers) w₁ (assertSimulates t) (.ok ()) w₁ ↔
      Runs (answeredBy answers) w (assertSimulates t) (.ok ()) w :=
  ⟨fun h => (runs_assertSimulates answeredBy_simulates h).2 w,
    fun h => (runs_assertSimulates answeredBy_simulates h).2 w₁⟩

/-- The drawn id does not matter to what is stored. -/
theorem Inserted.of_uuids {uuids : List QueueId} (h : Inserted answers { w with uuids := uuids } tx q simulate r w') :
    Inserted answers w tx q simulate r w' := by
  cases h with
  | notSimulated e w' h hjobs ht => exact .notSimulated e w' (by rwa [runs_assertSimulates_congr] at h) hjobs ht
  | notStored e w' hset hjobs ht => exact .notStored e w' hset hjobs ht
  | notAdded applied e w' hsim hset hadd hjobs ht =>
    exact .notAdded applied e w' (by rwa [runs_assertSimulates_congr] at hsim) hset hadd hjobs ht
  | added applied u w' hsim hset hadd hjobs ht =>
    exact .added applied u w' (by rwa [runs_assertSimulates_congr] at hsim) hset hadd hjobs ht

/-- How a call can end. -/
inductive InsertCall (answers : Answers) (w : World) (tx : InsertedTransaction) (idempotencyKey : Option String)
    (simulate : Bool) : Except Err QueueId → World → Prop
  | unkeyed (q : QueueId) (r : Except Err QueueId) (w' : World) (huuid : answers .randomUUID = .ok q)
      (hfresh : w.transactions q = none) (hkey : idempotencyKey.filter (· ≠ "") = none)
        (h : Inserted answers w tx q simulate r w') :
      InsertCall answers w tx idempotencyKey simulate r w'
  | unchecked (k : QueueId) (e : Err) (w' : World) (hkey : idempotencyKey.filter (· ≠ "") = some k)
      (hexists : answers (.existsTransaction k) = .error e) (hjobs : w'.sendJobs = w.sendJobs)
      (ht : w'.transactions = w.transactions) : InsertCall answers w tx idempotencyKey simulate (.error e) w'
  | duplicate (k : QueueId) (t : Transaction) (w' : World) (hkey : idempotencyKey.filter (· ≠ "") = some k)
      (hstored : w.transactions k = some t) (hjobs : w'.sendJobs = w.sendJobs)
      (ht : w'.transactions = w.transactions) : InsertCall answers w tx idempotencyKey simulate (.ok k) w'
  | keyed (k : QueueId) (u : Unit) (r : Except Err QueueId) (w' : World)
      (hkey : idempotencyKey.filter (· ≠ "") = some k) (hstored : w.transactions k = none)
      (hexists : answers (.existsTransaction k) = .ok u) (h : Inserted answers w tx k simulate r w') :
      InsertCall answers w tx idempotencyKey simulate r w'

theorem runs_insertTransaction (h : Runs (answeredBy answers) w (insertTransaction tx idempotencyKey simulate) r w') :
    InsertCall answers w tx idempotencyKey simulate r w' := by
  rcases runs_bind.mp h with ⟨q, w₁, huuid, hrest⟩ | ⟨e, huuid, rfl⟩
  · obtain ⟨_, huuid⟩ := runs_perform.mp huuid
    obtain ⟨e, he, -⟩ | ⟨q', x, hanswer, hx, -, happly⟩ := World.effect_cases huuid
    · cases he
    cases hx
    simp only [World.apply] at happly
    split_ifs at happly with hfresh
    obtain ⟨rfl, rfl⟩ := Prod.mk.inj (Option.some.inj happly)
    split at hrest
    · rename_i hkey
      exact .unkeyed q' r w' hanswer hfresh.2 hkey (runs_insertQueued hrest).of_uuids
    · rename_i k hkey
      rcases runs_bind.mp hrest with ⟨found, w₂, hexists, hrest⟩ | ⟨e, hexists, rfl⟩
      · obtain ⟨_, hexists⟩ := runs_perform.mp hexists
        obtain ⟨e, he, -⟩ | ⟨u, x, hanswer', hx, -, happly⟩ := World.effect_cases hexists
        · cases he
        cases hx
        obtain ⟨rfl, rfl⟩ := Prod.mk.inj (Option.some.inj happly)
        cases hstored : w.transactions k with
        | none =>
          simp only [hstored, Option.isSome_none, Bool.false_eq_true, if_false] at hrest
          exact .keyed k u r w' hkey hstored hanswer' (runs_insertQueued hrest).of_uuids
        | some t =>
          simp only [hstored, Option.isSome_some, if_true] at hrest
          obtain ⟨rfl, rfl⟩ := runs_done.mp hrest
          exact .duplicate k t _ hkey hstored rfl rfl
      · obtain ⟨_, hexists⟩ := runs_perform.mp hexists
        obtain ⟨e', he, rfl, -, hanswer' | hl⟩ | ⟨_, _, -, he, -⟩ := World.effect_cases hexists
        · cases he
          exact .unchecked k e _ hkey hanswer' rfl rfl
        · cases hl
        · cases he
  · obtain ⟨_, huuid⟩ := runs_perform.mp huuid
    obtain ⟨e', -, -, hn, -⟩ | ⟨_, _, -, he, -⟩ := World.effect_cases huuid
    · cases hn
    · cases he

/-! ### The later call -/

theorem filter_key (hkey : idempotencyKey.filter (· ≠ "") = some k) :
    (some k : Option String).filter (· ≠ "") = some k := by
  obtain ⟨-, hne⟩ := Option.filter_eq_some_iff.mp hkey
  exact Option.filter_eq_some_iff.mpr ⟨rfl, hne⟩

theorem HasJob.mono (h : HasJob existed w q) (hjobs : ∀ n, w.sendJobs q n ≠ none → w'.sendJobs q n ≠ none) :
    HasJob existed w' q := by
  obtain h | ⟨n, hn⟩ := h
  · exact Or.inl h
  · exact Or.inr ⟨n, hjobs n hn⟩

theorem hasJob_congr (hjobs : w'.sendJobs = w.sendJobs) : HasJob existed w' q ↔ HasJob existed w q := by
  unfold HasJob
  rw [hjobs]

theorem failureFree_effect {o : Op} {a : Except Err o.Choice} {x : Except Err o.Reply}
    (h : failureFree w o a = some (x, w')) : ∃ c, a = .ok c ∧ w.effect o (.ok c) = some (x, w') := by
  unfold failureFree at h
  split at h
  · cases h
  · cases h
  · exact ⟨_, rfl, h⟩

/-- A failure-free call for a key without a record adds the job of the key. -/
theorem job_after_failureFree (hkey : (some k : Option String).filter (· ≠ "") = some k)
    (hnone : w.transactions k = none)
    (h : Runs failureFree w (insertTransaction tx (some k) simulate) (.ok q) w') : w'.sendJobs k 0 ≠ none := by
  obtain ⟨u, w₁, huuid, h⟩ := runs_bind_ok.mp h
  obtain ⟨_, huuid⟩ := runs_perform.mp huuid
  obtain ⟨c, -, huuid⟩ := failureFree_effect huuid
  have ht₁ : w₁.transactions = w.transactions := (World.sameExcept_of_effect huuid).transactions nofun
  simp only [hkey] at h
  obtain ⟨found, w₂, hexists, h⟩ := runs_bind_ok.mp h
  obtain ⟨_, hexists⟩ := runs_perform.mp hexists
  obtain ⟨c, -, hexists⟩ := failureFree_effect hexists
  obtain ⟨hfound, -⟩ := Prod.mk.inj (Option.some.inj hexists)
  obtain rfl : found = false := by
    cases hfound
    rw [ht₁, hnone]
    rfl
  simp only [Bool.false_eq_true, if_false] at h
  have htail : ∃ w₂, Runs failureFree w₂ ((await (.setTransaction (queuedTransaction tx k))).bind fun _ =>
      (await (.sendQueueAdd k 0)).bind fun _ =>
        (await (.recordMetrics (.transactionQueued tx.chainId tx.from))).bind fun _ => done k) (.ok q) w' := by
    cases simulate with
    | false => exact ⟨w₂, h⟩
    | true =>
      obtain ⟨_, w₃, -, h⟩ := runs_bind_ok.mp h
      exact ⟨w₃, h⟩
  obtain ⟨w₃, h⟩ := htail
  obtain ⟨_, w₄, -, h⟩ := runs_bind_ok.mp h
  obtain ⟨_, w₅, hadd, h⟩ := runs_bind_ok.mp h
  obtain ⟨_, w₆, hmetrics, h⟩ := runs_bind_ok.mp h
  obtain ⟨-, rfl⟩ := runs_done.mp h
  obtain ⟨_, hadd⟩ := runs_perform.mp hadd
  obtain ⟨c, -, hadd⟩ := failureFree_effect hadd
  obtain ⟨-, rfl⟩ := Prod.mk.inj (Option.some.inj hadd)
  obtain ⟨_, hmetrics⟩ := runs_perform.mp hmetrics
  obtain ⟨c, -, hmetrics⟩ := failureFree_effect hmetrics
  rw [World.eq_of_effect hmetrics rfl]
  simp only [World.setSendJob, update_self]
  cases w₄.sendJobs k 0 <;> simp [addJob]

/-- The calls of `insertTransaction`, as far as send jobs go: they add them at most. -/
def Op.keepsSendJobs (o : Op) : Prop := o.changes ≠ some .sendJobs ∨ ∃ q n, o = .sendQueueAdd q n

theorem only_insertTransaction : (insertTransaction tx idempotencyKey simulate).Only Op.keepsSendJobs := by
  have hcall : ∀ o : Op, o.changes ≠ some .sendJobs → (await o).Only Op.keepsSendJobs :=
    fun o ho => only_perform (Or.inl ho)
  have hset : ∀ q, ((await (.setTransaction (queuedTransaction tx q))).bind fun _ =>
      (await (.sendQueueAdd q 0)).bind fun _ =>
        (await (.recordMetrics (.transactionQueued tx.chainId tx.from))).bind fun _ => done q).Only
          Op.keepsSendJobs := by
    intro q
    refine (hcall _ (by simp [Op.changes])).bind fun _ => Only.bind (only_perform (Or.inr ⟨q, 0, rfl⟩)) fun _ => ?_
    exact (hcall _ (by simp [Op.changes])).bind fun _ => only_done _
  have hinsert : ∀ q, (insertQueued (queuedTransaction tx q) simulate).Only Op.keepsSendJobs := by
    intro q
    cases simulate with
    | false => exact hset q
    | true =>
      refine Only.bind ((simulates_assertSimulates _).mono fun o ho => Or.inl ?_) fun _ => hset q
      cases o <;> first | (cases ho; done) | simp [Op.changes]
  refine (hcall _ (by simp [Op.changes])).bind fun q => ?_
  split
  · exact hinsert q
  · rename_i k _
    refine (hcall _ (by simp [Op.changes])).bind fun found => ?_
    cases found with
    | true => exact only_done _
    | false => exact hinsert k

private theorem sendJobs_of_keeps {o : Op} {a : Except Err o.Choice} {x : Except Err o.Reply} (ho : o.keepsSendJobs)
    (h : w.effect o a = some (x, w')) {n : ℕ} (hn : w.sendJobs k n ≠ none) : w'.sendJobs k n ≠ none := by
  obtain hc | ⟨q, m, rfl⟩ := ho
  · rwa [(World.sameExcept_of_effect h).sendJobs hc]
  · obtain ⟨e, -, rfl, -⟩ | ⟨c, x, -, -, -, hx⟩ := World.effect_cases h
    · exact hn
    · obtain ⟨-, rfl⟩ := Prod.mk.inj (Option.some.inj hx)
      simp only [World.setSendJob]
      by_cases hq : k = q
      · subst hq
        by_cases hm : n = m
        · subst hm
          cases hj : w.sendJobs k n with
          | none => exact absurd hj hn
          | some j => simp [addJob]
        · simpa [update_of_ne hm] using hn
      · simpa [update_of_ne hq] using hn

theorem HasJob.later (h : HasJob existed w k)
    (hrun : Runs failureFree w (insertTransaction tx (some k) simulate) (.ok q) w') :
    HasJob existed w' k := by
  refine h.mono fun n hn => ?_
  refine only_insertTransaction.runs_invariant (J := fun w => w.sendJobs k n ≠ none)
    (fun w o a x w' ho he hw => ?_) hrun hn
  obtain ⟨c, -, he⟩ := failureFree_effect he
  exact sendJobs_of_keeps ho he hw

/-- A failure-free call for a key with a record is answered as a duplicate. -/
theorem duplicate_failureFree (hfin : {q | w.transactions q ≠ none}.Finite)
    (hkey : (some k : Option String).filter (· ≠ "") = some k) (hstored : w.transactions k = some t) :
    ∃ w', Runs failureFree w (insertTransaction tx (some k) simulate) (.ok k) w' ∧ w'.sendJobs = w.sendJobs := by
  obtain ⟨q, hq⟩ := (hfin.union (List.finite_toSet w.uuids)).exists_notMem
  obtain ⟨hnone, huuid⟩ := not_or.mp hq
  have hfresh : q ∉ w.uuids ∧ w.transactions q = none := ⟨huuid, not_not.mp hnone⟩
  refine ⟨{ w with uuids := q :: w.uuids }, ?_, rfl⟩
  refine runs_bind_ok.mpr ⟨q, { w with uuids := q :: w.uuids }, runs_perform.mpr ⟨.ok q, ?_⟩, ?_⟩
  · simp [failureFree, World.effect, World.locked, World.apply, hfresh]
  · simp only [hkey]
    refine runs_bind_ok.mpr ⟨true, _, runs_perform.mpr ⟨.ok (), ?_⟩, runs_done.mpr ⟨rfl, rfl⟩⟩
    simp [failureFree, World.effect, World.locked, World.apply, hstored]

/-! ### The condition -/

theorem AllOrNothing.dropped (h : AllOrNothing existed idempotencyKey r w')
    (hrun : InsertCall answers w tx idempotencyKey simulate r w')
    (hreaches : Reaches answers w tx idempotencyKey simulate q)
    (hset : answers (.setTransaction (queuedTransaction tx q)) = .ok false) :
    ∃ e, answers (.sendQueueAdd q 0) = .error e := by
  have hinserted : Inserted answers w tx q simulate r w' ∧ w.transactions q = none := by
    cases hrun with
    | unkeyed q' r w' huuid hfresh hkey hi =>
      obtain ⟨hid, -⟩ | ⟨hid, -⟩ := hreaches.id
      · cases huuid.symm.trans hid
        exact ⟨hi, hfresh⟩
      · cases hkey.symm.trans hid
    | unchecked k e w' hkey hexists =>
      obtain ⟨-, hid⟩ | ⟨hid, -, u, hok⟩ := hreaches.id
      · cases hkey.symm.trans hid
      · cases hkey.symm.trans hid
        cases hexists.symm.trans hok
    | duplicate k t w' hkey hstored =>
      obtain ⟨-, hid⟩ | ⟨hid, hnone, -⟩ := hreaches.id
      · cases hkey.symm.trans hid
      · cases hkey.symm.trans hid
        cases hstored.symm.trans hnone
    | keyed k u r w' hkey hstored hexists hi =>
      obtain ⟨-, hid⟩ | ⟨hid, hnone, -⟩ := hreaches.id
      · cases hkey.symm.trans hid
      · cases hkey.symm.trans hid
        exact ⟨hi, hstored⟩
  obtain ⟨hi, hnone⟩ := hinserted
  cases hi with
  | notSimulated e w' hsim => exact absurd hreaches.simulates hsim
  | notStored e w' hset' => cases hset.symm.trans hset'
  | notAdded applied e w' hsim hset' hadd => exact ⟨e, hadd⟩
  | added applied u w' hsim hset' hadd hjobs ht =>
    cases hset.symm.trans hset'
    obtain ⟨⟨t, hrecord⟩, -⟩ := h.resolved q rfl
    rw [ht] at hrecord
    cases hnone.symm.trans hrecord

theorem AllOrNothing.added (h : AllOrNothing existed idempotencyKey r w')
    (hrun : InsertCall answers w tx idempotencyKey simulate r w') (hfin : {q | w.transactions q ≠ none}.Finite)
    (hkey : idempotencyKey.filter (· ≠ "") = some k) : HasJob existed w k ∨ (w.transactions k = none ∧
      (Reaches answers w tx idempotencyKey simulate k →
        answers (.setTransaction (queuedTransaction tx k)) = .ok true → ∃ u, answers (.sendQueueAdd k 0) = .ok u)) := by
  -- a record without a job turns the later call into a duplicate without a job
  have hlater : ∀ e t, r = .error e → w'.sendJobs = w.sendJobs → w'.transactions k = some t →
      {q | w'.transactions q ≠ none}.Finite → HasJob existed w k := by
    intro e t hr hjobs hstored hfin'
    obtain ⟨w'', hlater, hjobs'⟩ : ∃ w'', Runs failureFree w' (insertTransaction tx (some k) false) (.ok k) w'' ∧
        w''.sendJobs = w'.sendJobs := duplicate_failureFree hfin' (filter_key hkey) hstored
    rw [← hasJob_congr hjobs, ← hasJob_congr hjobs']
    exact h.rejected e k tx false k w'' hr hkey hlater
  cases hrun with
  | unkeyed q r w' huuid hfresh hkey' => cases hkey.symm.trans hkey'
  | unchecked k' e w' hkey' hexists hjobs ht =>
    cases hkey.symm.trans hkey'
    cases hstored : w.transactions k with
    | some t => exact Or.inl (hlater e t rfl hjobs (by rw [ht]; exact hstored) (by rwa [ht]))
    | none =>
      refine Or.inr ⟨rfl, fun hreaches _ => ?_⟩
      obtain ⟨-, hid⟩ | ⟨-, -, u, hok⟩ := hreaches.id
      · cases hkey.symm.trans hid
      · cases hexists.symm.trans hok
  | duplicate k' t w' hkey' hstored hjobs =>
    cases hkey.symm.trans hkey'
    exact Or.inl ((hasJob_congr hjobs).mp (h.resolved k rfl).2)
  | keyed k' u r w' hkey' hnone hexists hi =>
    cases hkey.symm.trans hkey'
    by_cases hjob : HasJob existed w k
    · exact Or.inl hjob
    refine Or.inr ⟨hnone, fun hreaches hset => ?_⟩
    cases hi with
    | notSimulated e w' hsim => exact absurd hreaches.simulates hsim
    | notStored e w' hset' => cases hset.symm.trans hset'
    | added applied u w' hsim hset' hadd => exact ⟨u, hadd⟩
    | notAdded applied e w' hsim hset' hadd hjobs ht =>
      cases hset.symm.trans hset'
      refine absurd (hlater e (queuedTransaction tx k) rfl hjobs (by simp [ht]) ?_) hjob
      refine (hfin.insert k).subset fun q hq => ?_
      by_cases hqk : q = k
      · exact Or.inl hqk
      · refine Or.inr ?_
        simpa [ht, update_of_ne hqk] using hq

theorem FailsWhole.resolved (h : FailsWhole existed answers w tx idempotencyKey simulate)
    (hrun : InsertCall answers w tx idempotencyKey simulate (.ok q) w') :
    (∃ t, w'.transactions q = some t) ∧ HasJob existed w' q := by
  have hinserted : ∀ q', Inserted answers w tx q' simulate (.ok q) w' →
      Reaches answers w tx idempotencyKey simulate q' → (∃ t, w'.transactions q = some t) ∧ HasJob existed w' q := by
    intro q' hi hreaches
    cases hi with
    | added applied u w' hsim hset hadd hjobs ht =>
      have hjob : HasJob existed w' q := by
        refine Or.inr ⟨0, ?_⟩
        rw [hjobs]
        simp only [update_self]
        cases w.sendJobs q 0 <;> simp [addJob]
      cases applied with
      | true => exact ⟨⟨queuedTransaction tx q, by simp [ht]⟩, hjob⟩
      | false =>
        obtain ⟨e, he⟩ := h.dropped q hreaches hset
        cases hadd.symm.trans he
  have hsimulated : ∀ q', Inserted answers w tx q' simulate (.ok q) w' → simulate = true →
      Runs (answeredBy answers) w (assertSimulates (queuedTransaction tx q')) (.ok ()) w := by
    intro q' hi
    cases hi with
    | added applied u w' hsim => exact hsim
  cases hrun with
  | unkeyed q' r w' huuid hfresh hkey hi => exact hinserted q' hi ⟨Or.inl ⟨huuid, hkey⟩, hsimulated q' hi⟩
  | duplicate k t w' hkey hstored hjobs ht =>
    refine ⟨⟨t, by rw [ht]; exact hstored⟩, ?_⟩
    obtain hjob | ⟨hnone, -⟩ := h.added q hkey
    · exact (hasJob_congr hjobs).mpr hjob
    · cases hstored.symm.trans hnone
  | keyed k u r w' hkey hnone hexists hi =>
    exact hinserted k hi ⟨Or.inr ⟨hkey, hnone, u, hexists⟩, hsimulated k hi⟩

theorem FailsWhole.rejected (h : FailsWhole existed answers w tx idempotencyKey simulate) {e : Err}
    (hrun : InsertCall answers w tx idempotencyKey simulate (.error e) w')
    (hkey : idempotencyKey.filter (· ≠ "") = some k) :
    HasJob existed w' k ∨ w'.transactions k = none := by
  cases hrun with
  | unkeyed q r w' huuid hfresh hkey' => cases hkey.symm.trans hkey'
  | unchecked k' e w' hkey' hexists hjobs ht =>
    cases hkey.symm.trans hkey'
    obtain hjob | ⟨hnone, -⟩ := h.added k hkey
    · exact Or.inl ((hasJob_congr hjobs).mpr hjob)
    · exact Or.inr (by rw [ht]; exact hnone)
  | keyed k' u r w' hkey' hnone hexists hi =>
    cases hkey.symm.trans hkey'
    cases hi with
    | notSimulated e w' hsim hjobs ht => exact Or.inr (by rw [ht]; exact hnone)
    | notStored e w' hset hjobs ht => exact Or.inr (by rw [ht]; exact hnone)
    | notAdded applied e w' hsim hset hadd hjobs ht =>
      cases applied with
      | false => exact Or.inr (by rw [ht]; exact hnone)
      | true =>
        obtain hjob | ⟨-, hadded⟩ := h.added k hkey
        · exact Or.inl ((hasJob_congr hjobs).mpr hjob)
        · obtain ⟨u', hok⟩ := hadded ⟨Or.inr ⟨hkey, hnone, u, hexists⟩, hsim⟩ hset
          cases hadd.symm.trans hok

/-- A call leaves no half of an insertion exactly when its failures are whole: if its pipeline
is dropped its job is not added, and if its record is stored its job is. -/
theorem insertTransaction_allOrNothing_iff (hfin : {q | w.transactions q ≠ none}.Finite)
    (h : Runs (answeredBy answers) w (insertTransaction tx idempotencyKey simulate) r w') :
    AllOrNothing existed idempotencyKey r w' ↔ FailsWhole existed answers w tx idempotencyKey simulate := by
  have hrun := runs_insertTransaction h
  constructor
  · intro hall
    exact ⟨fun q hreaches hset => hall.dropped hrun hreaches hset, fun k hkey => hall.added hrun hfin hkey⟩
  · intro hwhole
    refine ⟨fun q hr => ?_, fun e k tx' simulate' q w'' hr hkey hlater => ?_⟩
    · subst hr
      exact hwhole.resolved hrun
    · subst hr
      obtain hjob | hnone := hwhole.rejected hrun hkey
      · exact hjob.later hlater
      · exact Or.inr ⟨0, job_after_failureFree (filter_key hkey) hnone hlater⟩

end

def keyedTransfer : InsertedTransaction :=
  { isUserOp := false, chainId := 1, «from» := 7, «to» := some 9, data := some [1], value := some 5 }

/-- The queue does not answer. -/
def addFails : Answers
  | .sendQueueAdd _ _ => .error (.new "Connection is closed.")
  | o => usual o

theorem empty_finite : {q | World.empty.transactions q ≠ none}.Finite := by
  simp [World.empty]

theorem insertTransaction_allOrNothing_usual : ∃ w', AllOrNothing ∅ (some "key") (.ok "key") w' ∧
    w'.transactions "key" = some (queuedTransaction keyedTransfer "key") := by
  have hexec : (((insertTransaction keyedTransfer (some "key") false).exec (answeredBy usual) World.empty
      (List.replicate 5 usual)).any fun r => r.1.toOption == some "key" &&
        r.2.transactions "key" == some (queuedTransaction keyedTransfer "key")) = true := by
    decide +kernel
  obtain ⟨⟨r, w'⟩, hrun, hr⟩ := (Option.any_eq_true _ _).mp hexec
  simp only [Bool.and_eq_true, beq_iff_eq] at hr
  cases r with
  | error e => cases hr.1
  | ok q =>
    obtain rfl : q = "key" := Option.some.inj hr.1
    refine ⟨w', (insertTransaction_allOrNothing_iff empty_finite (runs_of_exec hrun)).mpr ⟨?_, ?_⟩, hr.2⟩
    · intro q _ hset
      cases hset
    · intro k _
      exact Or.inr ⟨rfl, fun _ _ => ⟨(), rfl⟩⟩

/-- The job cannot be added after the record is stored; the client's next request with the key is
answered as a duplicate. -/
theorem not_insertTransaction_allOrNothing : ¬ ∀ (answers : Answers) (w w' : World) (tx : InsertedTransaction)
    (idempotencyKey : Option String) (simulate : Bool) (r : Except Err QueueId),
    (∀ q, w.transactions q = none) → {q | w.transactions q ≠ none}.Finite →
    Runs (answeredBy answers) w (insertTransaction tx idempotencyKey simulate) r w' →
    AllOrNothing ∅ idempotencyKey r w' := by
  intro hgeneral
  have hexec : (((insertTransaction keyedTransfer (some "key") false).exec (answeredBy addFails) World.empty
      (List.replicate 4 addFails)).any fun r => r.1.toOption == none) = true := by
    decide +kernel
  obtain ⟨⟨r, w'⟩, hrun, -⟩ := (Option.any_eq_true _ _).mp hexec
  have hrun := runs_of_exec hrun
  have hall := hgeneral addFails World.empty w' keyedTransfer (some "key") false r (fun _ => rfl) empty_finite hrun
  have hkey : (some "key" : Option String).filter (· ≠ "") = some "key" := by decide
  have hreaches : Reaches addFails World.empty keyedTransfer (some "key") false "key" :=
    ⟨Or.inr ⟨hkey, rfl, (), rfl⟩, by simp⟩
  obtain hjob | ⟨-, hadded⟩ := hall.added (runs_insertTransaction hrun) empty_finite hkey
  · obtain hjob | ⟨n, hn⟩ := hjob
    · cases hjob
    · exact hn rfl
  · obtain ⟨u, hu⟩ := hadded hreaches rfl
    cases hu

end Engine
