import Engine.Records.Invariants

/-! Mined and cancelled records stay mined and cancelled, as long as the processes that
store over them have read them. -/
namespace Engine
open Concurrent Program

/-- The process is the `failed` listener of the send worker. -/
def Local.failedListener (l : Local) : Bool :=
  match l.request with
  | .sendJob _ _ => !l.held
  | _ => false

/-- The terminal status that the process works towards. -/
def Local.concludes (l : Local) : Option Status :=
  match l.request with
  | .cancel _ => some .cancelled
  | .mineJob _ => if l.held then some .mined else none
  | _ => none

/-- The record is not the one that the process read last: another process has stored it since. -/
def Local.overlaps (l : Local) (r : Transaction) : Bool := l.read != some r

/-- No process stores over a mined or cancelled record that was stored by another one since its own read, and neither
does the `failed` listener of the send worker; other than a mine attempt over a mined record, and a cancel request over
a cancelled one. -/
def rereadsTerminal : Guard engine where
  start _ _ := true
  call s i o _ :=
    match o with
    | .setTransaction t => (s.world.transactions t.queueId).all fun r => (process s i).all fun l =>
        !(r.status.terminal && (l.overlaps r || l.failedListener)) || l.concludes == some r.status
    | _ => true

section
variable {G : Guard engine} {s s' : State engine} {w : World} {i : ℕ} {l : Local} {t r : Transaction} {q : QueueId}

/-- A process that read a mined or cancelled record stores nothing; only the `failed`
listener does not look at the status. -/
theorem Writes.not_terminal (h : Writes l t) (hl : l.Keyed) (hr : l.read = some r)
    (hlistener : l.failedListener = false) : r.status.terminal = false := by
  have hread : ∀ r', l.read = some r' → r' = r := fun r' hr' => Option.some.inj (hr'.symm.trans hr)
  have hqueued : ∀ n, (manuallyRetried r n).status = .queued → r.status.terminal = false := by
    intro n hq
    rcases status_of_queued hq with h | ⟨h, -⟩ <;> rw [h] <;> rfl
  cases h with
  | queued tx key simulate q hreq =>
    rw [hl.inserting tx key simulate hreq] at hr
    cases hr
  | unpopulated r' q n message hreq hheld hr' hidle hq => exact hqueued n (hread r' hr' ▸ hq)
  | sent r' q n hash block hphase hsend => exact hqueued n (hread r' hsend.read ▸ hsend.queued)
  | sentUserOp r' q n hash block hreq hheld hr' hphase hq => exact hqueued n (hread r' hr' ▸ hq)
  | resent r' q n hashes hash block hreq hphase hsend => rw [← hread r' hsend.read, hsend.sent]; rfl
  | failed r' q n message hreq hheld => simp [Local.failedListener, hreq, hheld] at hlistener
  | mined r' q hashes receipt hreq hheld hr' hphase hsent => rw [← hread r' hr', hsent]; rfl
  | minedUserOp r' q raw receipt message hreq hheld hr' hidle hsent => rw [← hread r' hr', hsent]; rfl
  | timedOut r' q hreq hheld hexhausted hr' hidle hsent => rw [← hread r' hr', hsent]; rfl
  | cancelledQueued r' q block hreq hr' hidle hqueued' => rw [← hread r' hr', hqueued']; rfl
  | cancelledSent r' q hash hreq hr' hidle hsent => rw [← hread r' hr', hsent]; rfl
  | retried r' q a b fee priority hreq hr' hidle hsent => rw [← hread r' hr', hsent]; rfl
  | syncRetried r' q a b hashes hash block hreq hphase hsend => rw [← hread r' hsend.read, hsend.sent]; rfl

/-- A cancel request stores a cancelled record, a mine attempt a mined one. -/
theorem Writes.status_of_concludes (h : Writes l t) {status : Status} (hc : l.concludes = some status) :
    t.status = status := by
  cases h with
  | mined r q hashes receipt hreq hheld =>
    simp only [Local.concludes, hreq, hheld, if_true, Option.some.injEq] at hc
    exact hc
  | minedUserOp r q raw receipt message hreq hheld =>
    simp only [Local.concludes, hreq, hheld, if_true, Option.some.injEq] at hc
    exact hc
  | timedOut r q hreq hheld => simp [Local.concludes, hreq, hheld] at hc
  | cancelledQueued r q block hreq =>
    simp only [Local.concludes, hreq, Option.some.injEq] at hc
    exact hc
  | cancelledSent r q hash hreq =>
    simp only [Local.concludes, hreq, Option.some.injEq] at hc
    exact hc
  | queued tx key simulate q hreq => simp [Local.concludes, hreq] at hc
  | unpopulated r q n message hreq => simp [Local.concludes, hreq] at hc
  | sent r q n hash block hphase hsend => simp [Local.concludes, hsend.request] at hc
  | sentUserOp r q n hash block hreq => simp [Local.concludes, hreq] at hc
  | resent r q n hashes hash block hreq => simp [Local.concludes, hreq] at hc
  | failed r q n message hreq => simp [Local.concludes, hreq] at hc
  | retried r q a b fee priority hreq => simp [Local.concludes, hreq] at hc
  | syncRetried r q a b hashes hash block hreq => simp [Local.concludes, hreq] at hc

/-- One call keeps a terminal status. -/
theorem terminal_after_call {o : Op} {a : Except Err o.Choice} {x : Except Err o.Reply}
    (hl : ∀ i l, process s i = some l → l.Keyed) (st : Called rereadsTerminal s s' i l o a x)
    (hr : s.world.transactions q = some r) (hterm : r.status.terminal = true) :
    ∃ t, s'.world.transactions q = some t ∧ t.status = r.status := by
  rw [world_after_call st]
  cases hs : stores ⟨i, o, a, x⟩ with
  | none => exact ⟨r, hr, rfl⟩
  | some t =>
    by_cases hq : q = t.queueId
    · subst hq
      obtain rfl : o = .setTransaction t := op_of_stores hs
      have hw : Writes l t := st.allowed.writes
      have hcaller : process s i = some l := st.caller
      have hg : rereadsTerminal.call s i (.setTransaction t) a = true := st.granted
      simp only [rereadsTerminal, hr, Option.all_some, hterm, hcaller, Bool.true_and, Local.overlaps, Bool.or_eq_true,
        Bool.not_eq_true', Bool.or_eq_false_iff, bne_eq_false_iff_eq, beq_iff_eq] at hg
      refine ⟨t, by simp, ?_⟩
      rcases hg with ⟨hread, hlistener⟩ | hc
      · -- who has read the record itself does not store, but for the listener
        rw [hw.not_terminal (hl i l st.caller) hread hlistener] at hterm
        cases hterm
      · exact hw.status_of_concludes hc
    · exact ⟨r, by simpa [Function.update_of_ne hq] using hr, rfl⟩

/-- Once a stored record is mined or cancelled, every later one of the queue id has that status. -/
theorem terminal_absorbing (hw : w.Keyed) (h : Reachable rereadsTerminal (State.initial w) s)
    (hr : s.world.transactions q = some r) (hterm : r.status.terminal = true)
    (h' : Reachable rereadsTerminal s s') : ∃ t, s'.world.transactions q = some t ∧ t.status = r.status := by
  refine h.invariant_from recordContract h'
    (fun s' => ∃ t, s'.world.transactions q = some t ∧ t.status = r.status) ⟨r, hr, rfl⟩ ?_ ?_
  · rintro s s' n k - ⟨t, ht, hst⟩ st
    exact ⟨t, by rw [(transactions_after_start st).1]; exact ht, hst⟩
  · rintro s s' i l o a x hs ⟨t, ht, hst⟩ st
    obtain ⟨t', ht', hst'⟩ := terminal_after_call (keyed hw hs).2 st ht (by rw [hst]; exact hterm)
    exact ⟨t', ht', hst'.trans hst⟩

end

theorem terminal_absorbing_cancelRefused : ∃ (s s' : State engine) (r : Transaction),
    s.world.transactions transferId = some r ∧ r.status = .mined ∧ s'.trace.length = s.trace.length + 1 ∧
      ∃ t, s'.world.transactions transferId = some t ∧ t.status = r.status := by
  obtain ⟨s, s', hs, hs', hr⟩ := exists_reachable_of_runs rereadsTerminal World.empty sentAndMined
    (starts (.cancel transferId) :: proceeds 4 1)
    (fun s s' => (s.world.transactions transferId).any (·.status == .mined) && s'.trace.length == s.trace.length + 1)
    (by decide +kernel)
  simp only [Bool.and_eq_true, beq_iff_eq] at hr
  obtain ⟨r, hr', hst⟩ := (Option.any_eq_true _ _).mp hr.1
  have hst : r.status = .mined := by simpa using hst
  refine ⟨s, s', r, hr', hst, hr.2, terminal_absorbing (fun q t ht => ?_) hs hr' (by rw [hst]; rfl) hs'⟩
  cases ht

/-- A resend was asked for before the transaction was mined. All five attempts of its job
fail to read the record, and the `failed` listener stores it as errored. -/
def resendJobFails : List (Move engine) :=
  cannotRead 5 1 ++ cannotRead 6 1 ++ cannotRead 7 1 ++ cannotRead 8 1 ++ cannotRead 9 1 ++ proceeds 9 3

theorem not_terminal_absorbing : ¬ ∀ (w : World) (s s' : State engine) (q : QueueId) (r : Transaction),
    w.Keyed → Reachable anyRun (State.initial w) s → s.world.transactions q = some r →
    r.status.terminal = true → Reachable anyRun s s' →
    ∃ t, s'.world.transactions q = some t ∧ t.status = r.status := by
  intro hgeneral
  obtain ⟨s, s', hs, hs', hr⟩ := exists_reachable_of_runs anyRun World.empty
    (insertedAndSent ++ starts (.retry transferId none none) :: proceeds 2 3 ++
      starts (.chainExecutes (.transaction transferId) (transferHash 0)) :: proceeds 3 1 ++
      starts (.mineJob transferId) :: proceeds 4 9) resendJobFails
    (fun s s' => (s.world.transactions transferId).any (·.status == .mined) &&
      (s'.world.transactions transferId).all (·.status == .errored)) (by decide +kernel)
  simp only [Bool.and_eq_true] at hr
  obtain ⟨r, hr', hst⟩ := (Option.any_eq_true _ _).mp hr.1
  have hst : r.status = .mined := by simpa using hst
  obtain ⟨t, ht, hts⟩ := hgeneral World.empty s s' transferId r (by rintro q t ⟨⟩) hs hr' (by rw [hst]; rfl) hs'
  have herrored : t.status = .errored := by simpa [ht] using hr.2
  rw [herrored, hst] at hts
  cases hts

end Engine
