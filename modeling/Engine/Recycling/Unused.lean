import Engine.Recycling.Marked
import Engine.Records.Idempotent

/-! The resync worker and nonces in use. -/
namespace Engine
open Concurrent Program Function

/-- A send attempt has the nonce, or the network has an unmined transaction or cancellation with it. -/
def InUse (s : State resyncers) (k : Wallet) (n : ℤ) : Prop :=
  (∃ i l, worker s i = some l ∧ l.2.Has k n) ∨
    ∃ c hash, .broadcast c hash ∈ s.world.accepted ∧ hash.wallet = k ∧ hash.nonce = n ∧ s.world.chain k n = none

/-- The nonce is added to `nonce-recycled`. -/
def recycles (k : Wallet) (n : ℤ) : Event Calls → Bool
  | ⟨_, .zaddRecycled k' n', _, .ok _⟩ => k' == k && n' == n
  | _ => false

/-- Whenever a resync worker recycles a nonce, it is not in use. -/
def FreesNothingInUse (G : Guard resyncers) (w : World) : Prop :=
  ∀ (s s' : State resyncers) (m : Move resyncers) (e : Event Calls) (p : Prog Unit) (k : Wallet) (n : ℤ),
    Reachable G (State.initial w) s → s.step G m = some s' → s'.trace = e :: s.trace →
      s.threads[e.thread]? = some (.nonceResync, p) → recycles k n e = true → ¬ InUse s k n

section
variable {G : Guard resyncers} {s s' : State resyncers} {w w' : World} {i : ℕ} {l : Local × Hand} {o : Op}
  {a : Except Err o.Choice} {r : Except Err o.Reply} {k : Wallet} {n : ℤ}

/-! ### Checked nonces -/

/-- Nobody has the nonce; and it is mined, or it is neither marked nor was it ever broadcast. -/
structure Spared (s : State resyncers) (k : Wallet) (n : ℤ) : Prop where
  free : ∀ i l, worker s i = some l → ¬ l.2.Has k n
  unused : s.world.chain k n ≠ none ∨ (n ∉ s.world.sent k ∧
    ∀ c hash, .broadcast c hash ∈ s.world.accepted → ¬ (hash.wallet = k ∧ hash.nonce = n))

theorem Spared.not_inUse (h : Spared s k n) : ¬ InUse s k n := by
  intro huse
  rcases huse with ⟨i, l, hl, hhas⟩ | ⟨c, hash, hacc, hk, hn, hchain⟩
  · exact h.free i l hl hhas
  · rcases h.unused with hmined | ⟨-, hnone⟩
    · exact hmined hchain
    · exact hnone c hash hacc ⟨hk, hn⟩

/-- Every nonce that a resync worker is about to recycle is spared. -/
def Checking (s : State resyncers) : Prop :=
  ∀ i l k n, worker s i = some l → l.2 = .resync (some (k, n)) → Spared s k n

/-- A nonce is checked when it is found not marked. -/
theorem checked_cases {h : Hand} (he : w.effect o a = some (r, w')) (hn : h.next o r = .resync (some (k, n))) :
    h = .resync (some (k, n)) ∨ (o = .sismemberSent k n ∧ n ∉ w.sent k ∧ w' = w) := by
  have hended : ∀ h' : Hand, (∀ c, h' ≠ .resync c) → h'.ended o r ≠ .resync (some (k, n)) := by
    intro h' hne
    unfold Hand.ended
    split
    · simp
    · simp
    · exact hne _
  cases h with
  | free => cases hn
  | reading m =>
    exfalso
    have hn : Hand.nextReading m o r = .resync (some (k, n)) := hn
    unfold Hand.nextReading at hn
    split at hn
    · split at hn <;> cases hn
    · exact hended _ (by simp) hn
  | attempt x => exact absurd hn (hended _ (by simp))
  | passed => exact absurd hn (hended _ (by simp))
  | resync checked =>
    have hn : Hand.nextResync checked o r = .resync (some (k, n)) := hn
    unfold Hand.nextResync at hn
    split at hn
    · cases hn
      obtain ⟨e, hx, -⟩ | ⟨c, x, -, hr, -, hx⟩ := World.effect_cases he
      · cases hx
      · cases hr
        obtain ⟨hfound, hw⟩ := Prod.mk.inj (Option.some.inj hx)
        exact Or.inr ⟨rfl, by simpa using hfound, hw.symm⟩
    · cases hn
    · exact Or.inl hn

/-- What a resync worker finds not marked, and not in use otherwise, is spared. -/
theorem spared_of_unmarked (h : Marking s) (hsent : n ∉ s.world.sent k) (hused : usedUnmarked s k n = false) :
    Spared s k n := by
  simp only [usedUnmarked, Bool.or_eq_false_iff, Bool.not_eq_false', Bool.and_eq_false_iff] at hused
  obtain ⟨hfree, hunused⟩ := hused
  constructor
  · intro i l hl
    simpa using of_everyWorker hfree hl
  · rcases hunused with hmined | ⟨hunderway, hcancelled⟩
    · refine Or.inl fun hchain => ?_
      rw [hchain] at hmined
      cases hmined
    · by_cases hchain : s.world.chain k n = none
      · refine Or.inr ⟨hsent, fun c hash hacc hkn => ?_⟩
        obtain ⟨rfl, rfl⟩ := hkn
        cases c with
        | cancellation =>
          have hnot := List.any_eq_false.mp hcancelled _ hacc
          simp at hnot
        | transaction q =>
          rcases h.accepted q hash hacc with (hm | hm) | ⟨i, l, hl, hsub⟩
          · exact hsent hm
          · exact hm hchain
          · have hnot := of_everyWorker hunderway hl
            simp [Submitting.underway hsub] at hnot
      · exact Or.inl hchain

/-- A first send has its nonce. -/
theorem has_of_firstSend {q : QueueId} {m : ℕ} {t : Transaction} {b : Address} {tx : SerializableTransaction}
    {c : Caller}
    (hl : Linked l.1 l.2) (hallowed : l.2.Allowed (.accountSendTransaction c b tx)) (hidle : l.1.phase = .idle)
    (hsend : FirstSend l.1 t q m ⟨b, tx⟩) : l.2.Has ⟨tx.chainId, b⟩ tx.nonce := by
  have hasks : asksFirstSend m (some t) = true := by
    simp [asksFirstSend, hsend.queued, hsend.eoa]
  obtain ⟨x, hx⟩ := hl.first q m t hsend.request hsend.held hidle hsend.read hasks
  have htrying := hallowed.broadcast c b tx x rfl hx
  rw [hx, htrying]
  exact Or.inr (Or.inl rfl)

private theorem broadcast_of_submits {c : Caller} {hash : TransactionHash} (hp : o.possible r)
    (h : submits ⟨i, o, a, r⟩ = some (.broadcast c hash)) :
    o = .accountSendTransaction c hash.signer hash.transaction := by
  unfold submits at h
  split at h
  · rename_i heq
    cases heq
    cases h
    have hhash : hash = _ := hp
    rw [hhash]
  · cases h
  · cases h

/-- Who adds a nonce to `nonce-sent` got it accepted. -/
theorem not_sent_after_work (hs : Reachable G (State.initial w) s) (st : Worked G s s' i l o a r)
    (hsent : n ∉ s.world.sent k)
    (hnone : ∀ c hash, .broadcast c hash ∈ s.world.accepted → ¬ (hash.wallet = k ∧ hash.nonce = n)) :
    n ∉ s'.world.sent k := by
  have hperformed : s.world.effect o a = some (r, s'.world) := st.performed
  have hrecord : Allowed l.1 o := st.allowed.1
  have hsound := sound_worker hs st.caller
  by_cases hc : o.changes = some .sent
  · obtain ⟨e, -, hw, -⟩ | ⟨c, x, -, -, -, hx⟩ := World.effect_cases hperformed
    · rwa [hw]
    · cases hrecord with
      | mark t q m hash hphase hsend =>
        obtain ⟨-, hw⟩ := Prod.mk.inj (Option.some.inj hx)
        obtain ⟨t', -, hacc⟩ := hsound.accepted hash (Or.inl hphase)
        have hne := hnone _ hash hacc
        rw [hsend.carries.wallet] at hne
        rw [← hw]
        by_cases hk : k = t.wallet
        · subst hk
          have hn : n ≠ hash.nonce := fun hn => hne ⟨rfl, hn.symm⟩
          simp [hsent, hn]
        · simpa [update_of_ne hk] using hsent
      | unmark t q m | release t q m =>
        obtain ⟨-, hw⟩ := Prod.mk.inj (Option.some.inj hx)
        rw [← hw]
        by_cases hk : k = t.wallet
        · subst hk
          simp [hsent]
        · simpa [update_of_ne hk] using hsent
      | ignore _ hi => cases o <;> first | (cases hc; done) | cases hi
      | _ => cases hc
  · rwa [(World.sameExcept_of_effect hperformed).sent hc]

/-- While a nonce is checked it stays spared. -/
theorem Spared.call (h : Spared s k n) (hs : Reachable recyclesChecked (State.initial w) s) (hm : Marking s)
    (hchecked : ∃ j l, worker s j = some l ∧ l.2 = .resync (some (k, n)))
    (st : Worked recyclesChecked s s' i l o a r) : Spared s' k n := by
  have hperformed : s.world.effect o a = some (r, s'.world) := st.performed
  have hrecord : Allowed l.1 o := st.allowed.1
  have hhand : l.2.Allowed o := st.allowed.2
  obtain ⟨hspares, -, -⟩ := granted_work st
  obtain ⟨j, lj, hlj, hj⟩ := hchecked
  simp only [sparesChecked, Bool.and_eq_true] at hspares
  obtain ⟨htakes, hcancels⟩ := hspares
  constructor
  · intro i' l' hl'
    rcases st.localOf hl' with ⟨-, rfl⟩ | ⟨-, hi'⟩
    · have htaken := of_everyWorker htakes hlj
      simp only [hj, Bool.or_eq_true, decide_eq_true_eq, Bool.not_eq_true', decide_eq_false_iff_not] at htaken
      exact htaken.resolve_left (h.free i l st.caller)
    · exact h.free i' l' hi'
  · by_cases hmined : s.world.chain k n = none
    · obtain ⟨hsent, hnone⟩ := h.unused.resolve_left (by simp [hmined])
      refine Or.inr ⟨not_sent_after_work hs st hsent hnone, fun c hash hacc hkn => ?_⟩
      rw [World.accepted_of_effect (i := i) hperformed, List.mem_append, Option.mem_toList] at hacc
      rcases hacc with hnew | hold
      · obtain ⟨rfl, rfl⟩ := hkn
        have hpossible : o.possible r := st.possible.1
        obtain rfl := broadcast_of_submits hpossible hnew
        cases hrecord with
        | ignore _ hi =>
          cases c with
          | transaction q => cases hi
          | cancellation =>
            have hchecked : isChecked s hash.wallet hash.nonce = true := by
              cases hc : isChecked s hash.wallet hash.nonce with
              | true => rfl
              | false =>
                have hall := of_everyWorker ((Bool.not_eq_false' _).mp hc) hlj
                simp [hj] at hall
            have hmined' : (!isChecked s hash.wallet hash.nonce ||
                (s.world.chain hash.wallet hash.nonce).isSome) = true := hcancels
            rw [hchecked, hmined] at hmined'
            cases hmined'
        | sendFirst t q m _ _ hidle hsend =>
          exact h.free i l st.caller (has_of_firstSend (linked hs st.caller) hhand hidle hsend)
        | sendAgain t _ _ hidle hagain =>
          rcases hagain.marks (hm.read i l t st.caller hagain.read) with hin | hc
          · exact hsent hin
          · exact hc hmined
      · exact hnone c hash hold hkn
    · obtain ⟨x, hx⟩ := Option.ne_none_iff_exists'.mp hmined
      refine Or.inl ?_
      rw [World.chain_mono hperformed hx]
      simp

theorem checking (hw : w.Marked) (h : Reachable recyclesChecked (State.initial w) s) : Checking s := by
  refine h.invariant resyncContract Checking ?_ ?_ ?_
  · intro i l k n hl
    cases hl
  · intro s s' m x _ ih st j l k n hl hj
    obtain ⟨-, ha, hc, hsent⟩ := same_after_start st
    rcases st.localOf hl with ⟨-, rfl⟩ | ⟨-, hl⟩
    · cases x with
      | nonceResync => cases hj
      | request x => cases x <;> cases hj
    · have hspared := ih j l k n hl hj
      constructor
      · intro i' l' hl'
        rcases st.localOf hl' with ⟨-, rfl⟩ | ⟨-, hl'⟩
        · cases x with
          | nonceResync => exact id
          | request x => cases x <;> exact id
        · exact hspared.free i' l' hl'
      · rw [hc, hsent, ha]
        exact hspared.unused
  · intro s s' i l o a r hs ih st j l' k n hl hj
    have hm := marking hw hs
    rcases st.localOf hl with ⟨-, rfl⟩ | ⟨-, hl⟩
    · rcases checked_cases st.performed hj with hold | ⟨rfl, hsent, hworld⟩
      · exact (ih i l k n st.caller hold).call hs hm ⟨i, l, st.caller, hold⟩ st
      · have hunused : usedUnmarked s k n = false := (granted_work st).2.2.resolve_left hsent
        have hspared := spared_of_unmarked hm hsent hunused
        constructor
        · intro i' l' hl'
          rcases st.localOf hl' with ⟨-, rfl⟩ | ⟨-, hl'⟩
          · intro hhas
            rw [hj] at hhas
            exact hhas
          · exact hspared.free i' l' hl'
        · rw [hworld]
          exact hspared.unused
    · exact (ih j l' k n hl hj).call hs hm ⟨j, l', hl, hj⟩ st

/-- A resync worker is known by its hand. -/
theorem hand_of_thread {p : Prog Unit} (hi : s.threads[i]? = some (.nonceResync, p)) :
    ∃ l checked, worker s i = some l ∧ l.2 = .resync checked := by
  have hresync : ∀ tr : List (Event Calls), ∃ checked,
      (resyncContract.after (resyncContract.init .nonceResync) i tr).2 = .resync checked := by
    apply resyncContract.after_keeps (J := fun l => ∃ checked, l.2 = .resync checked)
    · exact ⟨none, rfl⟩
    · intro l o r h
      obtain ⟨checked, hc⟩ := h
      have hn : (resyncContract.next l o r).2 = Hand.next (.resync checked) o r := by
        rw [← hc]
        rfl
      rw [hn]
      unfold Hand.next Hand.nextResync
      dsimp only
      split <;> exact ⟨_, rfl⟩
  obtain ⟨checked, hc⟩ := hresync s.trace
  exact ⟨_, checked, localOf_eq resyncContract hi, hc⟩

private theorem op_of_recycles (h : recycles k n ⟨i, o, a, r⟩ = true) : o = .zaddRecycled k n := by
  unfold recycles at h
  split at h
  · rename_i heq
    cases heq
    simp only [Bool.and_eq_true, beq_iff_eq] at h
    obtain ⟨rfl, rfl⟩ := h
    rfl
  · cases h

theorem frees_nothing_in_use (hw : w.Marked) : FreesNothingInUse recyclesChecked w := by
  intro s s' m e p k n hs hstep htr hi hrecycles
  obtain ⟨j, x, st⟩ | ⟨j, l, o, a, r, st⟩ := (hs.conforms resyncContract).step resyncContract hstep
  · have hlength := congrArg List.length (st.traced.symm.trans htr)
    simp at hlength
  · obtain ⟨rfl, -⟩ := List.cons.inj (st.traced.symm.trans htr)
    obtain ⟨l', checked, hl', hc⟩ := hand_of_thread hi
    obtain rfl : l' = l := Option.some.inj (hl'.symm.trans st.caller)
    obtain rfl := op_of_recycles hrecycles
    have hhand : l'.2.Allowed (.zaddRecycled k n) := st.allowed.2
    obtain rfl := hhand.recycle k n checked rfl hc
    exact (checking hw hs j l' k n hl' hc).not_inUse

end

/-- Every run of the requests, the jobs and the resync worker, the retries of a single transaction apart. -/
def anyResync : Guard resyncers where
  start _
    | .request (.retry _ _ _) | .request (.retryFailed _) => false
    | _ => true
  call _ _ _ _ := true

def resyncStarts (k : Request) : Move resyncers := .start (.request k)

/-- The transfer is inserted as `q` by process `i`. -/
def inserted (i : ℕ) (q : QueueId) : List (Move resyncers) :=
  resyncStarts (.insertTransaction transfer none false) :: answered i (List.replicate 4 (withUUID q))

/-- The wallet has sent 5 transactions elsewhere, and has marked nonces. -/
def fifthNonce : Answers
  | .ethGetTransactionCount _ => .ok 5
  | .ethGetTransactionCountOrNaN _ => .ok (some 5)
  | .keysSent => .ok [⟨1, 7⟩]
  | o => usual o

/-- The transfer is sent with nonce 5. Another attempt takes nonce 6, and a third one sends with nonce 7. -/
def heldBetween (noted : Answers) : List (Move resyncers) :=
  inserted 0 "a" ++ inserted 1 "b" ++ inserted 2 "c" ++
    resyncStarts (.sendJob "a" 0) :: answered 3 (List.replicate 21 fifthNonce) ++
    resyncStarts (.sendJob "b" 0) :: proceeds 4 5 ++ answered 4 [noted] ++
    resyncStarts (.sendJob "c" 0) :: proceeds 5 9 ++
    (Move.start (M := resyncers) .nonceResync) :: answered 6 (List.replicate 6 fifthNonce)

/-- Thread 6 is a resync worker, and its next call recycles nonce 6. -/
def recyclesNext (G : Guard resyncers) (s : State resyncers) : Bool :=
  (s.threads[6]?.any fun t => t.1 == .nonceResync) &&
    (s.step G (.call 6 usual)).any fun s' => s'.trace.head?.any (recycles ⟨1, 7⟩ 6)

theorem step_of_recyclesNext {G : Guard resyncers} {s : State resyncers} (h : recyclesNext G s = true) :
    ∃ s' e p, s.step G (.call 6 usual) = some s' ∧ s'.trace = e :: s.trace ∧
      s.threads[e.thread]? = some (.nonceResync, p) ∧ recycles ⟨1, 7⟩ 6 e = true := by
  simp only [recyclesNext, Bool.and_eq_true] at h
  obtain ⟨⟨x, p⟩, hi, hx⟩ := (Option.any_eq_true _ _).mp h.1
  obtain ⟨s', hs', hrecycles⟩ := (Option.any_eq_true _ _).mp h.2
  obtain ⟨e, hthread, htr⟩ := trace_after_call hs'
  obtain rfl : x = .nonceResync := by simpa using hx
  exact ⟨s', e, p, hs', htr, hthread ▸ hi, by simpa [htr] using hrecycles⟩

theorem marked_empty : World.empty.Marked := by
  constructor
  · intro q t ht
    cases ht
  · intro q hash hacc
    cases hacc

/-- The attempt with nonce 6 is lost, and the resync worker recycles the nonce. -/
theorem frees_nothing_in_use_lost : ∃ (s s' : State resyncers) (e : Event Calls),
    s'.trace = e :: s.trace ∧ recycles ⟨1, 7⟩ 6 e = true ∧ ¬ InUse s ⟨1, 7⟩ 6 := by
  obtain ⟨s, hs, hr⟩ := exists_reachable_of_run recyclesChecked World.empty
    (heldBetween (throwing connectionClosed)) (recyclesNext recyclesChecked) (by decide +kernel)
  obtain ⟨s', e, p, hstep, htr, hi, hrecycles⟩ := step_of_recyclesNext hr
  exact ⟨s, s', e, htr, hrecycles,
    frees_nothing_in_use marked_empty s s' _ e p ⟨1, 7⟩ 6 hs hstep htr hi hrecycles⟩

/-- The attempt with nonce 6 goes on when the resync worker recycles the nonce. -/
theorem not_frees_nothing_in_use : ¬ ∀ w : World, w.Marked → FreesNothingInUse anyResync w := by
  intro hgeneral
  obtain ⟨s, hs, hr⟩ := exists_reachable_of_run anyResync World.empty (heldBetween usual)
    (fun s => recyclesNext anyResync s && (worker s 4).any fun l => l.2 == .attempt (.trying ⟨1, 7⟩ 6))
    (by decide +kernel)
  simp only [Bool.and_eq_true] at hr
  obtain ⟨s', e, p, hstep, htr, hi, hrecycles⟩ := step_of_recyclesNext hr.1
  obtain ⟨l, hl, hheld⟩ := (Option.any_eq_true _ _).mp hr.2
  refine hgeneral World.empty marked_empty s s' _ e p ⟨1, 7⟩ 6 hs hstep htr hi hrecycles (Or.inl ⟨4, l, hl, ?_⟩)
  obtain ⟨m, h⟩ := l
  obtain rfl : h = .attempt (.trying ⟨1, 7⟩ 6) := by simpa using hheld
  exact Or.inr (Or.inl rfl)

end Engine
