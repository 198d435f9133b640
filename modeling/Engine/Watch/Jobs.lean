import Engine.Concurrent.Locks
import Engine.Records.Resends
import Engine.Watch.Handlers

/-! The jobs of the watchers: a worker takes a job, and gives it back when its attempt ends. -/
namespace Engine
open Concurrent Program Function

/-- The job waits for its first or its next attempt. -/
def isWaiting (j : Option Job) : Bool := j.any fun j => j.state == .waiting || j.state == .delayed

/-- How many attempts a job has. -/
def Request.attempts : Request → ℕ
  | .mineJob _ => mineAttempts
  | _ => sendAttempts

/-- A job that is not over has an attempt left. -/
def World.AttemptsLeft (w : World) : Prop :=
  ∀ k j, w.job k = some j → j.state.isFinished = false → j.attemptsMade < k.attempts

section
variable {G : Guard watchers} {s s' : State watchers} {w w' : World} {i : ℕ} {l : Watching} {o : Op}
  {a : Except Err o.Choice} {r : Except Err o.Reply} {t : Transaction} {q : QueueId} {k k' : Request} {j : Option Job}
  {x : Job}

abbrev Moved (G : Guard watchers) (s s' : State watchers) (i : ℕ) (l : Watching) (o : Op) (a : Except Err o.Choice)
    (r : Except Err o.Reply) : Prop := Stepped watchContract G s s' i l o a r

theorem isRunnable_of_isWaiting (h : isWaiting j = true) : isRunnable j = true := by
  cases j with
  | none => cases h
  | some j =>
    obtain ⟨state, made⟩ := j
    cases state <;> first | rfl | cases h

theorem isRunnable_of_isActive (h : isActive j = true) : isRunnable j = true := by
  unfold isActive at h
  split at h
  · rfl
  · cases h

/-- A worker takes a job. -/
structure Takes (w w' : World) (k : Request) (j : Job) : Prop where
  taken : takeJob (w.job k) = some j
  job : ∀ k', w'.job k' = if k' = k then some j else w.job k'
  transactions : w'.transactions = w.transactions

theorem takes_cases {n : ℕ} {x : Watcher} (st : Started watchContract G s s' n x) :
    (x.job = none ∧ s'.world = s.world) ∨ ∃ k j, x.job = some k ∧ Takes s.world s'.world k j := by
  obtain ⟨p, hp⟩ := st.started
  cases x with
  | sendJob q n =>
    obtain ⟨j, hj, he⟩ := Option.map_eq_some_iff.mp hp
    have hworld := (Prod.mk.inj he).2
    exact Or.inr ⟨_, j, rfl, hj, fun k' => hworld ▸ job_setSendJob _ _ _ _ k', hworld ▸ rfl⟩
  | mineJob q =>
    obtain ⟨j, hj, he⟩ := Option.map_eq_some_iff.mp hp
    have hworld := (Prod.mk.inj he).2
    exact Or.inr ⟨_, j, rfl, hj, fun k' => hworld ▸ job_setMineJob _ _ _ k', hworld ▸ rfl⟩
  | migrateSent rows | migrateQueued rows =>
    refine Or.inl ⟨rfl, ?_⟩
    simp only [watchers] at hp
    split at hp
    · exact (Prod.mk.inj (Option.some.inj hp)).2.symm
    · cases hp
  | _ => exact Or.inl ⟨rfl, (Prod.mk.inj (Option.some.inj hp)).2.symm⟩

theorem Takes.isActive (h : Takes w w' k x) : isActive (w'.job k) = true := by
  rw [h.job k, if_pos rfl]
  exact (takeJob_not_active h.taken).2

theorem Takes.isRunnable {m : Request} (h : Takes w w' k x) (hk : isRunnable (w.job m) = true) :
    isRunnable (w'.job m) = true := by
  by_cases he : m = k
  · subst he
    exact isRunnable_of_isActive h.isActive
  · rwa [h.job m, if_neg he]

theorem Takes.isWaiting {m : Request} (h : Takes w w' k x) (hk : isWaiting (w.job m) = true)
    (hne : m ≠ k) : isWaiting (w'.job m) = true := by
  rwa [h.job m, if_neg hne]

theorem takeJob_attempts {x' : Job} (h : takeJob j = some x') : ∃ x, j = some x ∧ x.state.isFinished = false ∧
    x'.attemptsMade = x.attemptsMade := by
  unfold takeJob at h
  split at h <;> cases h <;> exact ⟨_, rfl, rfl, rfl⟩

theorem isRunnable_kept (h : isRunnable j = true) : isRunnable (addJob j) = true := by
  cases j with
  | none => cases h
  | some j => exact h

theorem isWaiting_kept (h : isWaiting j = true) : isWaiting (addJob j) = true := by
  cases j with
  | none => cases h
  | some j => exact h

/-- No process removes a job. -/
theorem removesNone (ho : l.Allowed o) : o.removesJob = none := by
  cases ho with
  | other o ho => cases o <;> first | rfl | cases ho
  | _ => rfl

/-- A job stays or is added, until its attempt ends. -/
theorem job_stays (st : Moved G s s' i l o a r) (ho : o.endsJob ≠ some k) :
    s'.world.job k = s.world.job k ∨ s'.world.job k = addJob (s.world.job k) := by
  rcases job_cases st.performed k with h | ⟨-, h⟩ | ⟨hremoves, -⟩ | h
  · exact Or.inl h
  · exact Or.inr h
  · rw [removesNone st.allowed] at hremoves
    cases hremoves
  · exact absurd h ho

theorem isRunnable_stays (st : Moved G s s' i l o a r) (ho : o.endsJob ≠ some k)
    (h : isRunnable (s.world.job k) = true) : isRunnable (s'.world.job k) = true := by
  rcases job_stays st ho with he | he
  · rwa [he]
  · rw [he]
    exact isRunnable_kept h

theorem isWaiting_stays (st : Moved G s s' i l o a r) (ho : o.endsJob ≠ some k)
    (h : isWaiting (s.world.job k) = true) : isWaiting (s'.world.job k) = true := by
  rcases job_stays st ho with he | he
  · rwa [he]
  · rw [he]
    exact isWaiting_kept h

/-- How an attempt ends. -/
theorem job_ended (h : w.effect o a = some (r, w')) (ho : o.endsJob = some k) :
    w'.job k = completeJob (w.job k) ∨ w'.job k = failJob k.attempts (w.job k) := by
  obtain ⟨e, -, -, hnever, -⟩ | ⟨c, x, -, -, -, hx⟩ := World.effect_cases h
  · cases o <;> first | (cases ho; done) | cases hnever
  · cases o with
    | sendJobCompleted q n =>
      cases ho
      obtain ⟨-, rfl⟩ := Prod.mk.inj (Option.some.inj hx)
      exact Or.inl (by rw [job_setSendJob, if_pos rfl]; rfl)
    | sendJobFailed q n =>
      cases ho
      obtain ⟨-, rfl⟩ := Prod.mk.inj (Option.some.inj hx)
      exact Or.inr (by rw [job_setSendJob, if_pos rfl]; rfl)
    | mineJobCompleted q =>
      cases ho
      obtain ⟨-, rfl⟩ := Prod.mk.inj (Option.some.inj hx)
      exact Or.inl (by rw [job_setMineJob, if_pos rfl]; rfl)
    | mineJobFailed q =>
      cases ho
      obtain ⟨-, rfl⟩ := Prod.mk.inj (Option.some.inj hx)
      exact Or.inr (by rw [job_setMineJob, if_pos rfl]; rfl)
    | _ => cases ho

/-- A failed attempt that was not the last one is followed by another. -/
theorem failJob_cases (hj : j = some x) (n : ℕ) : (isWaiting (failJob n j) = true ∧ x.attemptsMade + 1 < n) ∨
    (isFinished (failJob n j) = true ∧ ¬ x.attemptsMade + 1 < n) := by
  subst hj
  by_cases h : x.attemptsMade + 1 < n
  · exact Or.inl ⟨by simp [isWaiting, failJob, h], h⟩
  · exact Or.inr ⟨by simp [isFinished, JobState.isFinished, failJob, h], h⟩

theorem attemptsLeft_addJob {n : ℕ} (hn : 0 < n)
    (hj : ∀ x, j = some x → x.state.isFinished = false → x.attemptsMade < n)
    (h : addJob j = some x) (hx : x.state.isFinished = false) : x.attemptsMade < n := by
  cases j with
  | none =>
    cases h
    exact hn
  | some y => exact hj x h hx

theorem attemptsLeft_completeJob {n : ℕ} (h : completeJob j = some x) (hx : x.state.isFinished = false) :
    x.attemptsMade < n := by
  obtain ⟨y, -, rfl⟩ := Option.map_eq_some_iff.mp h
  cases hx

private theorem attemptsLeft_failJob {n : ℕ} (h : failJob n j = some x) (hx : x.state.isFinished = false) :
    x.attemptsMade < n := by
  obtain ⟨y, -, rfl⟩ := Option.map_eq_some_iff.mp h
  by_cases hlt : y.attemptsMade + 1 < n
  · exact hlt
  · simp [hlt, JobState.isFinished] at hx

theorem Request.attempts_pos (k : Request) : 0 < k.attempts := by
  cases k <;> simp [Request.attempts, sendAttempts, mineAttempts]

theorem attemptsLeft (hw : w.AttemptsLeft) (h : Reachable G (State.initial w) s) : s.world.AttemptsLeft := by
  refine h.invariant watchContract (fun s => s.world.AttemptsLeft) hw ?_ ?_
  · intro s s' n x _ ih st k j hj hfinished
    rcases takes_cases st with ⟨-, hsame⟩ | ⟨k', j', -, htakes⟩
    · rw [hsame] at hj
      exact ih k j hj hfinished
    · rw [htakes.job k] at hj
      split at hj
      · rename_i hk
        subst hk
        cases hj
        obtain ⟨y, hy, hyfinished, hmade⟩ := takeJob_attempts htakes.taken
        have hleft := ih k y hy hyfinished
        omega
      · exact ih k j hj hfinished
  · intro s s' i l o a r _ ih st k j hj hfinished
    by_cases ho : o.endsJob = some k
    · rcases job_ended st.performed ho with he | he
      · rw [he] at hj
        exact attemptsLeft_completeJob hj hfinished
      · rw [he] at hj
        exact attemptsLeft_failJob hj hfinished
    · rcases job_stays st ho with he | he
      · rw [he] at hj
        exact ih k j hj hfinished
      · rw [he] at hj
        exact attemptsLeft_addJob k.attempts_pos (ih k) hj hfinished

/-! ### Locks -/

namespace Watching

theorem next_request (l : Watching) (o : Op) (r : Except Err o.Reply) : (l.next o r).request = l.request := by
  cases r with
  | error e =>
    rw [next_error]
    split_ifs <;> rfl
  | ok x =>
    cases o with
    | getConfig =>
      simp only [next]
      split_ifs <;> rfl
    | _ => rfl

/-- A job is held until its attempt ends. -/
theorem held_next (hp : o.possible r) (h : (l.next o r).held = true) : l.held = true ∧ o.endsJob = none := by
  cases r with
  | error e =>
    rw [next_error] at h
    refine ⟨?_, ?_⟩
    · split_ifs at h <;> exact h
    · cases o <;> first | rfl | cases hp
  | ok x =>
    cases o with
    | getConfig =>
      simp only [next] at h
      refine ⟨?_, rfl⟩
      split_ifs at h <;> exact h
    | sendJobCompleted q n | sendJobFailed q n | mineJobCompleted q | mineJobFailed q => cases h
    | _ => exact ⟨h, rfl⟩

/-- Only the holder of a job ends its attempt. -/
theorem Allowed.endsJob (ho : l.Allowed o) (hk : o.endsJob = some k) : l.request.job = some k ∧ l.held = true := by
  cases ho with
  | other o ho => cases o <;> first | (cases hk; done) | cases ho
  | sendCompleted q n hreq hheld | sendFailed q n hreq hheld =>
    cases hk
    exact ⟨by rw [hreq]; rfl, hheld⟩
  | mineCompleted q hreq hheld | mineFailed q hreq hheld =>
    cases hk
    exact ⟨by rw [hreq]; rfl, hheld⟩
  | _ => cases hk

/-- The job that the process holds. -/
def holds (l : Watching) : Option Request := if l.held then l.request.job else none

theorem holds_eq_some : l.holds = some k ↔ l.held = true ∧ l.request.job = some k := by
  unfold holds
  split <;> simp_all

end Watching

/-- The jobs are locks that their attempts hold. -/
def watchLocks (G : Guard watchers) : Locking watchContract G Request where
  holds := Watching.holds
  locked w k := isActive (w.job k) = true
  taken s s' n x k st hk := by
    obtain ⟨-, hjob⟩ := Watching.holds_eq_some.mp hk
    have hreq : (watchContract.init x).request = x := by cases x <;> rfl
    rw [hreq] at hjob
    rcases takes_cases st with ⟨hnone, -⟩ | ⟨k', j, hk', htakes⟩
    · rw [hnone] at hjob
      cases hjob
    · obtain rfl := Option.some.inj (hk'.symm.trans hjob)
      exact ⟨by simp [(takeJob_not_active htakes.taken).1], htakes.isActive⟩
  kept s s' n x k st hk := by
    rcases takes_cases st with ⟨-, hsame⟩ | ⟨k', j, -, htakes⟩
    · rwa [hsame]
    · by_cases he : k = k'
      · subst he
        exact htakes.isActive
      · rwa [htakes.job k, if_neg he]
  held s s' i l o a r k st hk := by
    have hk : (Watching.next l o r).holds = some k := hk
    obtain ⟨hheld, hjob⟩ := Watching.holds_eq_some.mp hk
    have hbefore := Watching.held_next st.possible hheld
    have hsame : (Watching.next l o r).request = Watching.request l := Watching.next_request l o r
    have hjob : (Watching.request l).job = some k := hsame ▸ hjob
    refine ⟨Watching.holds_eq_some.mpr ⟨hbefore.1, hjob⟩, fun hactive => ?_⟩
    rw [job_of_effect st.performed hactive (by rw [hbefore.2]; nofun)]
    exact hactive
  others s s' i l o a r k st hactive hother := by
    rw [job_of_effect st.performed hactive fun hk => ?_]
    · exact hactive
    · obtain ⟨hjob, hheld⟩ := Watching.Allowed.endsJob st.allowed hk
      exact hother (Watching.holds_eq_some.mpr ⟨hheld, hjob⟩)

/-- The attempt that ends a job held it. -/
theorem active_of_endsJob (h : Reachable G (State.initial w) s) (st : Moved G s s' i l o a r)
    (hk : o.endsJob = some k) :
    isActive (s.world.job k) = true := by
  obtain ⟨hjob, hheld⟩ := Watching.Allowed.endsJob st.allowed hk
  exact ((watchLocks G).exclusive h).locked i l k st.caller (Watching.holds_eq_some.mpr ⟨hheld, hjob⟩)

end
end Engine
