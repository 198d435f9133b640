import Engine.Recycling.Contract

/-! Which nonces `nonce-sent` tells of: the unmined nonces of all accepted transactions, short of
those that are about to be added. -/
namespace Engine
open Concurrent Program Function

/-- What a process did so far, with records and with nonces. -/
abbrev worker (s : State resyncers) (i : ℕ) : Option (Local × Hand) := s.localOf resyncContract i

/-- The nonce is in `nonce-sent`, or it is mined. -/
def World.Marks (w : World) (k : Wallet) (n : ℤ) : Prop := n ∈ w.sent k ∨ w.chain k n ≠ none

/-- The nonce of a sent transaction is marked. -/
def Transaction.Marked (t : Transaction) (w : World) : Prop :=
  t.status = .sent → t.isUserOp = false → ∃ n, t.nonce = some n ∧ w.Marks t.wallet n

/-- A first send was accepted, and its nonce is not marked yet. -/
def Local.underway (l : Local) : Option TransactionHash :=
  match l.phase, l.read with
  | .accepted hash, some r => if r.status = .sent then none else some hash
  | _, _ => none

def everyWorker (s : State resyncers) (test : Local × Hand → Bool) : Bool :=
  (List.range s.threads.length).all fun i => (worker s i).all test

/-- A send attempt has the nonce, or it is that of an unmined transaction about to be marked, or of
an unmined cancellation. -/
def usedUnmarked (s : State resyncers) (k : Wallet) (n : ℤ) : Bool :=
  !everyWorker s (fun l => !decide (l.2.Has k n)) || (s.world.chain k n).isNone &&
    (!everyWorker s (fun l => !l.1.underway.any fun hash => hash.wallet == k && hash.nonce == n) ||
      s.world.accepted.any fun x => match x with
        | .broadcast .cancellation hash => hash.wallet == k && hash.nonce == n
        | _ => false)

/-- A resync worker found the nonce not marked, and is about to recycle it. -/
def isChecked (s : State resyncers) (k : Wallet) (n : ℤ) : Bool :=
  !everyWorker s fun l => l.2 != .resync (some (k, n))

/-- Neither does the process take a nonce that a resync worker checked, nor is one cancelled. -/
def sparesChecked (s : State resyncers) (h : Hand) (o : Op) (r : Except Err o.Reply) : Bool :=
  everyWorker s (fun l => match l.2 with
    | .resync (some (k, n)) => decide (h.Has k n) || !decide ((h.next o r).Has k n)
    | _ => true) &&
  match o with
  | .accountSendTransaction .cancellation a tx =>
    !isChecked s ⟨tx.chainId, a⟩ tx.nonce || (s.world.chain ⟨tx.chainId, a⟩ tx.nonce).isSome
  | _ => true

/-- A nonce that the resync worker finds not marked is not in use; until it is recycled, no send
attempt takes it and no cancellation uses it. Nothing throws between the acceptance of a first
send and the mark of its nonce, and only mined nonces lose their mark. A submission or a command
that throws did nothing (`World.effect`). -/
def recyclesChecked : Guard resyncers where
  start _ _ := true
  call s i o a := (worker s i).all fun l =>
    (s.world.effect o a).all (fun x => sparesChecked s l.2 o x.1) && !(throws o a && l.1.underway.isSome) &&
    match o with
    | .sismemberSent k n => decide (n ∈ s.world.sent k) || !usedUnmarked s k n
    | .sremSent k n => (s.world.chain k n).isSome
    | _ => true

section
variable {G : Guard resyncers} {s s' : State resyncers} {w w' : World} {i : ℕ} {l : Local × Hand} {o : Op}
  {a : Except Err o.Choice} {r : Except Err o.Reply} {k : Wallet} {n : ℤ} {t : Transaction} {q : QueueId}

abbrev Worked (G : Guard resyncers) (s s' : State resyncers) (i : ℕ) (l : Local × Hand) (o : Op)
    (a : Except Err o.Choice) (r : Except Err o.Reply) : Prop := Stepped resyncContract G s s' i l o a r

theorem of_everyWorker {test : Local × Hand → Bool} (h : everyWorker s test = true) (hl : worker s i = some l) :
    test l = true := by
  have hi : i < s.threads.length := by
    by_contra hge
    have hnone : s.threads[i]? = none := List.getElem?_eq_none (by omega)
    simp [worker, State.localOf, hnone] at hl
  have hall := List.all_eq_true.mp h i (List.mem_range.mpr hi)
  rw [hl] at hall
  simpa using hall

/-! ### Starting and calling -/

theorem same_after_start {m : ℕ} {x : Resyncing} (st : Started resyncContract G s s' m x) :
    s'.world.transactions = s.world.transactions ∧ s'.world.accepted = s.world.accepted ∧
      s'.world.chain = s.world.chain ∧ s'.world.sent = s.world.sent := by
  obtain ⟨p, hp⟩ := st.started
  cases x with
  | nonceResync =>
    obtain ⟨-, hw⟩ := Prod.mk.inj (Option.some.inj hp)
    rw [← hw]
    exact ⟨rfl, rfl, rfl, rfl⟩
  | request x =>
    cases x with
    | sendJob q m =>
      obtain ⟨j, -, he⟩ := Option.map_eq_some_iff.mp hp
      rw [← (Prod.mk.inj he).2]
      exact ⟨rfl, rfl, rfl, rfl⟩
    | mineJob q =>
      obtain ⟨j, -, he⟩ := Option.map_eq_some_iff.mp hp
      rw [← (Prod.mk.inj he).2]
      exact ⟨rfl, rfl, rfl, rfl⟩
    | _ =>
      obtain ⟨-, hw⟩ := Prod.mk.inj (Option.some.inj hp)
      rw [← hw]
      exact ⟨rfl, rfl, rfl, rfl⟩

theorem grows_after_work (st : Worked G s s' i l o a r) : s.world.Grows s'.world := by
  have hperformed : s.world.effect o a = some (r, s'.world) := st.performed
  constructor
  · intro x hx
    rw [World.accepted_of_effect (i := i) hperformed]
    exact List.mem_append_right _ hx
  · intro k n x hx
    exact World.chain_mono hperformed hx

theorem local_step (st : Worked G s s' i l o a r) : LocalStep s.world i l.1 o a r (l.1.next o r) := by
  have hallowed : Allowed l.1 o := st.allowed.1
  exact localStep hallowed st.performed

/-- What is stored after a call was stored before it, or the call stored it. -/
theorem stored_after_work (st : Worked G s s' i l o a r) (h : s'.world.transactions q = some t) :
    s.world.transactions q = some t ∨ o = .setTransaction t ∧ Writes l.1 t := by
  have hallowed : Allowed l.1 o := st.allowed.1
  have hperformed : s.world.effect o a = some (r, s'.world) := st.performed
  rw [World.transactions_of_effect (i := i) hperformed] at h
  cases hs : stores ⟨i, o, a, r⟩ with
  | none => exact Or.inl (by simpa [hs] using h)
  | some t' =>
    rw [hs] at h
    by_cases hq : q = t'.queueId
    · subst hq
      obtain rfl : t' = t := by simpa using h
      obtain rfl : o = .setTransaction t' := op_of_stores hs
      exact Or.inr ⟨rfl, hallowed.writes⟩
    · exact Or.inl (by simpa [update_of_ne hq] using h)

/-- What the guard says of a call. -/
theorem granted_work (st : Worked recyclesChecked s s' i l o a r) :
    sparesChecked s l.2 o r = true ∧ (throws o a = true → l.1.underway = none) ∧
      match o with
      | .sismemberSent k n => n ∈ s.world.sent k ∨ usedUnmarked s k n = false
      | .sremSent k n => (s.world.chain k n).isSome = true
      | _ => True := by
  have hgranted : recyclesChecked.call s i o a = true := st.granted
  have hcaller : worker s i = some l := st.caller
  have hperformed : s.world.effect o a = some (r, s'.world) := st.performed
  simp only [recyclesChecked, hcaller, hperformed, Option.all_some, Bool.and_eq_true] at hgranted
  obtain ⟨⟨hspares, hthrows⟩, hop⟩ := hgranted
  refine ⟨hspares, fun ht => ?_, ?_⟩
  · simpa [ht] using hthrows
  · cases o with
    | sismemberSent k n => simpa using hop
    | sremSent k n => exact hop
    | _ => trivial

/-! ### What each worker did -/

/-- A send attempt whose record asks for a first send is one with its record in hand. -/
structure Linked (l : Local) (h : Hand) : Prop where
  reading : ∀ q n, l.request = .sendJob q n → l.held = true → h = .reading n ∨ h.isBusy = true
  first : ∀ q n r, l.request = .sendJob q n → l.held = true → l.phase = .idle → l.read = some r →
    asksFirstSend n (some r) = true → ∃ x, h = .attempt x

theorem linked_init (x : Resyncing) : Linked (resyncRecords.init x) x.hand := by
  constructor
  · intro q n hreq hheld
    cases x with
    | nonceResync => cases hheld
    | request x =>
      cases x with
      | sendJob q' n' =>
        cases hreq
        exact Or.inl rfl
      | mineJob q' => cases hreq
      | _ => cases hheld
  · intro q n r hreq hheld hidle hread
    cases hread

/-- A send attempt goes on, short of reading its record and of its end. -/
theorem hand_kept {h : Hand} (ho : o.isInner = true ∨ ∃ e, r = .error e) :
    (∀ n, h = .reading n → h.next o r = .reading n) ∧ (h.isBusy = true → (h.next o r).isBusy = true) ∧
      ∀ x, h = .attempt x → ∃ y, h.next o r = .attempt y := by
  have hended : ∀ h' : Hand, h'.ended o r = h' := by
    intro h'
    rcases ho with ho | ⟨e, rfl⟩
    · cases o <;> first | rfl | cases ho
    · cases o <;> rfl
  have hreading : ∀ n, Hand.nextReading n o r = Hand.ended (.reading n) o r := by
    intro n
    rcases ho with ho | ⟨e, rfl⟩
    · cases o <;> first | rfl | cases ho
    · cases o <;> rfl
  refine ⟨fun n hn => ?_, fun hb => ?_, fun x hx => ?_⟩
  · subst hn
    exact (hreading n).trans (hended _)
  · cases h with
    | attempt x =>
      have hn : Hand.next (.attempt x) o r = .attempt (x.next o r) := hended _
      rw [hn]
      rfl
    | passed =>
      have hn : Hand.next .passed o r = .passed := hended _
      rw [hn]
      rfl
    | _ => cases hb
  · subst hx
    exact ⟨x.next o r, hended _⟩

/-- A held process that is idle after a call was idle before it. -/
theorem local_kept {m m' : Local} (hm : LocalStep w i m o a r m') (ho : o.isInner = true ∨ ∃ e, r = .error e)
    (hheld : m'.held = true) (hidle : m'.phase = .idle) (hread : m'.read = some t) :
    m.phase = .idle ∧ m.read = some t := by
  cases hm with
  | same | receipt | named => exact ⟨hidle, hread⟩
  | read =>
    rcases ho with ho | ⟨e, he⟩
    · cases ho
    · cases he
  | attempted => cases hheld
  | _ => cases hidle

theorem Linked.next {h : Hand} {m : Local} (hl : Linked m h) (hh : h.Allowed o)
    (hm : LocalStep w i m o a r (m.next o r)) : Linked (m.next o r) (h.next o r) := by
  by_cases ho : o.isInner = true ∨ ∃ e, r = .error e
  · obtain ⟨hreading, hbusy, hattempt⟩ := hand_kept (h := h) ho
    refine ⟨fun q n hreq hheld => ?_, fun q n t hreq hheld hidle hread hasks => ?_⟩
    · rcases hl.reading q n (hm.request ▸ hreq) (hm.held hheld) with hn | hb
      · exact Or.inl (hreading n hn)
      · exact Or.inr (hbusy hb)
    · obtain ⟨hidle, hread⟩ := local_kept hm ho hheld hidle hread
      obtain ⟨x, hx⟩ := hl.first q n t (hm.request ▸ hreq) (hm.held hheld) hidle hread hasks
      exact hattempt x hx
  · simp only [not_or, Bool.not_eq_true] at ho
    cases r with
    | error e => exact absurd ⟨e, rfl⟩ ho.2
    | ok x =>
      cases o with
      | getTransaction q' =>
        -- a send attempt reads its record here, for the first time
        have hnew : ∀ q n, m.request = .sendJob q n → m.held = true →
            h.next (.getTransaction q') (.ok x) = if asksFirstSend n x then .attempt .start else .passed := by
          intro q n hreq hheld
          have hnot := hh.read q' rfl
          rcases hl.reading q n hreq hheld with rfl | hb
          · rfl
          · cases h with
            | attempt y => exact absurd rfl (hnot.2 y)
            | passed => exact absurd rfl hnot.1
            | _ => cases hb
        refine ⟨fun q n hreq hheld => ?_, fun q n t hreq hheld hidle hread hasks => ?_⟩
        · rw [hnew q n hreq hheld]
          split_ifs <;> exact Or.inr rfl
        · obtain rfl : x = some t := hread
          rw [hnew q n hreq hheld, if_pos hasks]
          exact ⟨.start, rfl⟩
      | sendJobCompleted q' n' =>
        constructor
        · intro q n hreq hheld
          cases hheld
        · intro q n t hreq hheld
          cases hheld
      | sendJobFailed q' n' =>
        constructor
        · intro q n hreq hheld
          cases hheld
        · intro q n t hreq hheld
          cases hheld
      | _ => cases ho.1

theorem linked (h : Reachable G (State.initial w) s) (hl : worker s i = some l) : Linked l.1 l.2 := by
  refine h.each (C := resyncContract) (J := fun _ (l : Local × Hand) => Linked l.1 l.2) (fun s s' n x _ _ => ?_)
    (fun s s' i l o a r _ st => ?_) hl
  · exact ⟨linked_init x, fun l hl => hl⟩
  · exact ⟨fun hl => hl.next st.allowed.2 (local_step st), fun l hl => hl⟩

theorem sound_worker (h : Reachable G (State.initial w) s) (hl : worker s i = some l) : l.1.Sound s.world := by
  refine h.each (C := resyncContract) (J := fun (w : World) (l : Local × Hand) => l.1.Sound w) (fun s s' n x _ st => ?_)
    (fun s s' i l o a r _ st => ?_) hl
  · obtain ⟨-, ha, hc, -⟩ := same_after_start st
    have hgrows : s.world.Grows s'.world := ⟨fun x hx => ha ▸ hx, fun k n x hx => hc ▸ hx⟩
    refine ⟨⟨?_, ?_⟩, fun l hl => hl.grows hgrows⟩
    · intro hash hp
      rcases hp with hp | hp <;> cases hp
    · intro receipt hr
      cases hr
  · exact ⟨fun hl => hl.step (local_step st) st.performed, fun l hl => hl.grows (grows_after_work st)⟩

/-! ### Marks -/

theorem Marks.call (h : s.world.Marks k n) (st : Worked recyclesChecked s s' i l o a r) : s'.world.Marks k n := by
  have hperformed : s.world.effect o a = some (r, s'.world) := st.performed
  have hchain : s.world.chain k n ≠ none → s'.world.chain k n ≠ none := by
    intro hc
    obtain ⟨x, hx⟩ := Option.ne_none_iff_exists'.mp hc
    rw [World.chain_mono hperformed hx]
    simp
  rcases h with h | h
  · by_cases hc : o.changes = some .sent
    · obtain ⟨e, -, hw, -⟩ | ⟨c, x, -, -, -, hx⟩ := World.effect_cases hperformed
      · exact Or.inl (by rwa [hw])
      · cases o with
        | saddSent k' m =>
          obtain ⟨-, hw⟩ := Prod.mk.inj (Option.some.inj hx)
          refine Or.inl ?_
          rw [← hw]
          by_cases hk : k = k'
          · subst hk
            simp [h]
          · simpa [update_of_ne hk] using h
        | sremSent k' m =>
          by_cases heq : k = k' ∧ n = m
          · obtain ⟨rfl, rfl⟩ := heq
            have hmined : (s.world.chain k n).isSome = true := (granted_work st).2.2
            exact Or.inr (hchain (by simpa using Option.isSome_iff_ne_none.mp hmined))
          · obtain ⟨-, hw⟩ := Prod.mk.inj (Option.some.inj hx)
            refine Or.inl ?_
            rw [← hw]
            by_cases hk : k = k'
            · subst hk
              have hm : n ≠ m := fun hm => heq ⟨rfl, hm⟩
              simpa [hm] using h
            · simpa [update_of_ne hk] using h
        | _ => cases hc
    · refine Or.inl ?_
      rwa [(World.sameExcept_of_effect hperformed).sent hc]
  · exact Or.inr (hchain h)

/-- What a process stores is marked if what it read is. -/
theorem marked_of_writes {m : Local} (hw : Writes m t) (hread : ∀ t, m.read = some t → t.Marked w)
    (hphase : ∀ hash, m.phase = .marked hash → w.Marks hash.wallet hash.nonce) : t.Marked w := by
  intro hsent heoa
  cases hw with
  | sent r q n hash block hp hsend =>
    have hmarks := hphase hash hp
    rw [hsend.carries.wallet] at hmarks
    have hwallet : (sentTransaction (manuallyRetried r n) hash.transaction hash block).wallet = r.wallet := by
      unfold Transaction.wallet sentTransaction
      simp
    rw [hwallet]
    exact ⟨hash.nonce, rfl, hmarks⟩
  | resent r q n hashes hash block hreq hp hsend => exact hread r hsend.read hsend.sent hsend.eoa
  | syncRetried r q x y hashes hash block hreq hp hsend => exact hread r hsend.read hsend.sent hsend.eoa
  | retried r q x y fee priority hreq hr hidle hst => exact hread r hr hst heoa
  | sentUserOp => cases heoa
  | minedUserOp r q raw receipt message => cases hsent
  | _ => cases hsent

/-- The process got a first send accepted, and has not marked its nonce. -/
def Local.Submitting (l : Local) (hash : TransactionHash) : Prop :=
  l.phase = .accepted hash ∧ ∃ r q n, FirstSend l r q n hash

theorem not_sent_of_queued {n : ℕ} (h : (manuallyRetried t n).status = .queued) : t.status ≠ .sent := by
  rcases status_of_queued h with hst | ⟨hst, -⟩ <;> simp [hst]

theorem Submitting.underway {m : Local} {hash : TransactionHash} (h : m.Submitting hash) : m.underway = some hash := by
  obtain ⟨hphase, r, q, n, hsend⟩ := h
  simp [Local.underway, hphase, hsend.read, not_sent_of_queued hsend.queued]

/-- Who got a first send accepted marks its nonce next, if nothing throws. -/
theorem Submitting.step {m m' : Local} {hash : TransactionHash} (h : m.Submitting hash) (hm : LocalStep w i m o a r m')
    (hthrows : throws o a = true → m.underway = none) :
    m'.Submitting hash ∨ (o = .saddSent hash.wallet hash.nonce ∧ ∃ x, r = .ok x) := by
  obtain ⟨hphase, t, q, n, hsend⟩ := h
  have hst := not_sent_of_queued hsend.queued
  have hnot : ∀ p, m.phase = p → p = .accepted hash := fun p hp => hp.symm.trans hphase
  cases hm with
  | same => exact Or.inl ⟨hphase, t, q, n, hsend⟩
  | receipt => exact Or.inl ⟨hphase, t, q, n, hsend.congr rfl rfl rfl⟩
  | lost _ _ _ _ _ ht =>
    have hnone := hthrows ht
    rw [Submitting.underway ⟨hphase, t, q, n, hsend⟩] at hnone
    cases hnone
  | marked r' q' n' hash' hp hsend' =>
    obtain rfl : hash' = hash := by simpa using hp.symm.trans hphase
    rw [hsend'.carries.wallet]
    exact Or.inr ⟨rfl, _, rfl⟩
  | stored t' applied hw hreq =>
    cases hw with
    | resent r' q' n' hashes hash' block hreq' hp hagain =>
      obtain rfl : t = r' := Option.some.inj (hsend.read.symm.trans hagain.read)
      exact absurd hagain.sent hst
    | syncRetried r' q' x y hashes hash' block hreq' hp hagain =>
      obtain rfl : t = r' := Option.some.inj (hsend.read.symm.trans hagain.read)
      exact absurd hagain.sent hst
    | sent r' q' n' hash' block hp => cases hnot _ hp
    | sentUserOp r' q' n' hash' block hreq' hheld hread hp => cases hnot _ hp
    | mined r' q' hashes receipt hreq' hheld hread hp => cases hnot _ hp
    | queued _ _ _ _ _ _ hidle | unpopulated _ _ _ _ _ _ _ hidle | failed _ _ _ _ _ _ _ _ hidle
    | minedUserOp _ _ _ _ _ _ _ _ hidle | timedOut _ _ _ _ _ _ hidle | cancelledQueued _ _ _ _ _ hidle
    | cancelledSent _ _ _ _ _ hidle | retried _ _ _ _ _ _ _ _ hidle => cases hnot _ hidle
  | attempted _ _ _ _ _ hheld hsettled =>
    rcases hsettled with hu | ⟨t', hread, heoa, hsent', -⟩
    · rw [hphase] at hu
      cases hu
    · obtain rfl : t = t' := Option.some.inj (hsend.read.symm.trans hread)
      exact absurd hsent' hst
  | named _ _ _ _ _ _ _ _ _ hidle => cases hnot _ hidle
  | read _ _ _ hidle => cases hnot _ hidle
  | acceptedFirst _ _ _ _ hidle => cases hnot _ hidle
  | acceptedAgain _ _ hidle => cases hnot _ hidle
  | bundled _ _ _ _ _ _ _ hidle => cases hnot _ hidle
  | unmarked _ _ _ _ _ _ _ hidle => cases hnot _ hidle
  | timedOut _ _ _ _ _ _ hidle => cases hnot _ hidle
  | released _ _ _ _ _ _ _ hp => cases hnot _ hp

/-- Records and accepted transactions are marked, short of what is about to be marked. -/
structure Marking (s : State resyncers) : Prop where
  records : ∀ q t, s.world.transactions q = some t → t.Marked s.world
  read : ∀ i l t, worker s i = some l → l.1.read = some t → t.Marked s.world
  phase : ∀ i l hash, worker s i = some l → l.1.phase = .marked hash → s.world.Marks hash.wallet hash.nonce
  accepted : ∀ q hash, .broadcast (.transaction q) hash ∈ s.world.accepted →
    s.world.Marks hash.wallet hash.nonce ∨ ∃ i l, worker s i = some l ∧ l.1.Submitting hash

theorem Transaction.Marked.call (h : t.Marked s.world) (st : Worked recyclesChecked s s' i l o a r) :
    t.Marked s'.world := by
  intro hsent heoa
  obtain ⟨n, hn, hmarks⟩ := h hsent heoa
  exact ⟨n, hn, Marks.call hmarks st⟩

/-- A process that was there before a start is there after it. -/
theorem worker_kept {m j : ℕ} {x : Resyncing} (st : Started resyncContract G s s' m x) (hl : worker s j = some l) :
    worker s' j = some l := by
  have hj : j ≠ m := by
    intro hj
    subst hj
    cases st.unused.symm.trans hl
  exact (st.others j hj).trans hl

theorem Marking.start {m : ℕ} {x : Resyncing} (h : Marking s) (st : Started resyncContract G s s' m x) :
    Marking s' := by
  obtain ⟨ht, ha, hc, hsent⟩ := same_after_start st
  have hmarks : ∀ k n, s.world.Marks k n → s'.world.Marks k n := by
    intro k n hm
    unfold World.Marks at hm ⊢
    rwa [hc, hsent]
  have hrecord : ∀ t : Transaction, t.Marked s.world → t.Marked s'.world := by
    intro t hm hst heoa
    obtain ⟨n, hn, hmarks'⟩ := hm hst heoa
    exact ⟨n, hn, hmarks _ _ hmarks'⟩
  constructor
  · intro q t htq
    rw [ht] at htq
    exact hrecord t (h.records q t htq)
  · intro j l t hl hread
    rcases st.localOf hl with ⟨-, rfl⟩ | ⟨-, hj⟩
    · cases hread
    · exact hrecord t (h.read j l t hj hread)
  · intro j l hash hl hphase
    rcases st.localOf hl with ⟨-, rfl⟩ | ⟨-, hj⟩
    · cases hphase
    · exact hmarks _ _ (h.phase j l hash hj hphase)
  · intro q hash hacc
    rw [ha] at hacc
    rcases h.accepted q hash hacc with hm | ⟨j, l, hl, hsub⟩
    · exact Or.inl (hmarks _ _ hm)
    · exact Or.inr ⟨j, l, worker_kept st hl, hsub⟩

/-- The call that marks a nonce. -/
theorem marks_of_sadd (he : w.effect o a = some (r, w')) (ho : o = .saddSent k n) (hr : ∃ x, r = .ok x) :
    w'.Marks k n := by
  subst ho
  obtain ⟨x, rfl⟩ := hr
  obtain ⟨e, hx, -⟩ | ⟨c, x, -, -, -, hx⟩ := World.effect_cases he
  · cases hx
  · obtain ⟨-, hw⟩ := Prod.mk.inj (Option.some.inj hx)
    refine Or.inl ?_
    rw [← hw]
    simp

theorem marked_of_step {m m' : Local} {hash : TransactionHash} (hm : LocalStep w i m o a r m')
    (hp : m'.phase = .marked hash) :
    m.phase = .marked hash ∨ (o = .saddSent hash.wallet hash.nonce ∧ ∃ x, r = .ok x) := by
  cases hm with
  | same | receipt | named => exact Or.inl hp
  | marked t q n hash' hphase hsend =>
    cases hp
    rw [hsend.carries.wallet]
    exact Or.inr ⟨rfl, _, rfl⟩
  | _ => cases hp

private theorem submitted_of_step {m m' : Local} {hash : TransactionHash} (hm : LocalStep w i m o a r m')
    (hs : submits ⟨i, o, a, r⟩ = some (.broadcast (.transaction q) hash)) :
    m'.Submitting hash ∨ ∃ t, SendAgain m t hash := by
  cases hm with
  | acceptedFirst t q' n hash' hidle hsend =>
    cases hs
    exact Or.inl ⟨rfl, t, q', n, hsend.congr rfl rfl rfl⟩
  | acceptedAgain t hash' hidle hsend =>
    cases hs
    exact Or.inr ⟨t, hsend⟩
  | same _ _ _ hsilent | lost _ _ _ hsilent | named _ _ _ hsilent | attempted _ _ _ hsilent =>
    cases hsilent.submits _ hs
  | _ => cases hs

/-- A broadcast again has a marked nonce. -/
theorem SendAgain.marks {m : Local} {hash : TransactionHash} (h : SendAgain m t hash) (ht : t.Marked w) :
    w.Marks hash.wallet hash.nonce := by
  obtain ⟨n, hn, hmarks⟩ := ht h.sent h.eoa
  rwa [h.carries.wallet, h.nonce n hn]

theorem Marking.call (h : Marking s) (st : Worked recyclesChecked s s' i l o a r) : Marking s' := by
  have hstep := local_step st
  have hperformed : s.world.effect o a = some (r, s'.world) := st.performed
  have hself : worker s' i = some (l.1.next o r, l.2.next o r) := st.self
  have hread : ∀ t, l.1.read = some t → t.Marked s.world := fun t => h.read i l t st.caller
  have hkept : ∀ q t, s.world.transactions q = some t → t.Marked s'.world := fun q t ht => (h.records q t ht).call st
  constructor
  · intro q t ht
    rcases stored_after_work st ht with ht | ⟨-, hw⟩
    · exact hkept q t ht
    · have hmarked : t.Marked s.world := marked_of_writes hw hread fun hash => h.phase i l hash st.caller
      exact hmarked.call st
  · intro j l' t hl ht
    rcases st.localOf hl with ⟨-, rfl⟩ | ⟨-, hj⟩
    · rcases hstep.read_cases ht with ht | ⟨q, ht⟩
      · exact (hread t ht).call st
      · exact hkept q t ht
    · exact (h.read j l' t hj ht).call st
  · intro j l' hash hl hphase
    rcases st.localOf hl with ⟨-, rfl⟩ | ⟨-, hj⟩
    · rcases marked_of_step hstep hphase with hp | ⟨ho, hr⟩
      · exact Marks.call (h.phase i l hash st.caller hp) st
      · exact marks_of_sadd hperformed ho hr
    · exact Marks.call (h.phase j l' hash hj hphase) st
  · intro q hash hacc
    rw [World.accepted_of_effect (i := i) hperformed, List.mem_append, Option.mem_toList] at hacc
    rcases hacc with hnew | hold
    · rcases submitted_of_step hstep hnew with hsub | ⟨t, hagain⟩
      · exact Or.inr ⟨i, _, hself, hsub⟩
      · exact Or.inl (Marks.call (hagain.marks (hread t hagain.read)) st)
    · rcases h.accepted q hash hold with hm | ⟨j, l', hl, hsub⟩
      · exact Or.inl (Marks.call hm st)
      · by_cases hj : j = i
        · subst hj
          obtain rfl : l' = l := Option.some.inj (hl.symm.trans st.caller)
          rcases Submitting.step hsub hstep (granted_work st).2.1 with hsub | ⟨ho, hr⟩
          · exact Or.inr ⟨j, _, hself, hsub⟩
          · exact Or.inl (marks_of_sadd hperformed ho hr)
        · exact Or.inr ⟨j, l', (st.others j hj).trans hl, hsub⟩

/-- Every sent record and every accepted transaction has a marked nonce. -/
structure World.Marked (w : World) : Prop where
  records : ∀ q t, w.transactions q = some t → t.Marked w
  accepted : ∀ q hash, .broadcast (.transaction q) hash ∈ w.accepted → w.Marks hash.wallet hash.nonce

theorem marking (hw : w.Marked) (h : Reachable recyclesChecked (State.initial w) s) : Marking s := by
  refine h.invariant resyncContract Marking ?_ (fun _ _ _ _ _ ih st => ih.start st)
    (fun _ _ _ _ _ _ _ _ ih st => ih.call st)
  constructor
  · exact hw.records
  · intro i l t hl
    cases hl
  · intro i l hash hl
    cases hl
  · exact fun q hash hacc => Or.inl (hw.accepted q hash hacc)

end
end Engine
