import Engine.Records.Windows

/-! A transaction that is retried after it was errored is executed under one nonce, as long
as every earlier broadcast of it can no longer be mined when the retry begins. -/
namespace Engine
open Concurrent Program

/-- The accepted broadcasts of the transaction. -/
def World.broadcasts (w : World) (q : QueueId) : List TransactionHash :=
  w.accepted.filterMap fun
    | .broadcast (.transaction q') hash => if q' = q then some hash else none
    | _ => none

/-- The chain executed the broadcast. -/
def World.executed (w : World) (hash : TransactionHash) : Prop :=
  w.chain hash.wallet hash.nonce = some (.broadcast hash)

/-- The nonce of the hash was consumed by something else than a broadcast of the transaction. -/
def World.replaced (w : World) (q : QueueId) (hash : TransactionHash) : Bool :=
  match w.chain hash.wallet hash.nonce with
  | none => false
  | some .external => true
  | some (.broadcast hash') =>
    !(decide (hash' ∈ w.broadcasts q) && decide (hash'.wallet = hash.wallet) && decide (hash'.nonce = hash.nonce))

def World.allReplaced (w : World) (q : QueueId) : Bool := (w.broadcasts q).all (w.replaced q)

/-- The chain never executes two broadcasts of the transaction with different nonces. -/
def ExecutedOnce (q : QueueId) (s : State engine) : Prop :=
  ∀ hash ∈ s.world.broadcasts q, ∀ hash' ∈ s.world.broadcasts q, s.world.executed hash → s.world.executed hash' →
    hash.nonce = hash'.nonce

/-- The process is an attempt of the first send job of `q`. -/
def Local.sendsFirst (l : Local) (q : QueueId) : Bool := l.request == .sendJob q 0 && l.held

/-- Send jobs, mine jobs and manual retries run, with any failures. -/
def retryRuns : Guard engine where
  start _
    | .sendJob _ _ | .mineJob _ | .retryFailed _ | .cancelRecycledNonces => true
    | .chainExecutes _ _ | .chainConsumes _ _ => true
    | _ => false
  call _ _ _ _ := true

/-- And no attempt fails between an accepted submission
of `q` and its record; the network accepts no broadcast whose nonce is consumed; and when the
first send job reads the errored record of `q`, every earlier broadcast of it was replaced. A
submission whose call throws is not accepted (`World.effect`). -/
def retriesReplaced (q : QueueId) : Guard engine where
  start := retryRuns.start
  call s i o a := recordsSubmissions q s i o a &&
    match o, a with
    | .accountSendTransaction (.transaction _) signer tx, .ok _ =>
      (s.world.chain (TransactionHash.mk signer tx).wallet tx.nonce).isNone
    | .getTransaction q', .ok _ =>
      !(q' == q && (process s i).any (fun l => l.sendsFirst q) &&
        (s.world.transactions q).any fun t => t.status == .errored) || s.world.allReplaced q
    | _, _ => true

section
variable {G : Guard engine} {s s' : State engine} {w w' : World} {i : ℕ} {l l' : Local} {o : Op}
  {a : Except Err o.Choice} {r : Except Err o.Reply} {t : Transaction} {q : QueueId} {hash hash' : TransactionHash}

/-! ### Replaced broadcasts -/

theorem mem_broadcasts : hash ∈ w.broadcasts q ↔ .broadcast (.transaction q) hash ∈ w.accepted := by
  unfold World.broadcasts
  rw [List.mem_filterMap]
  constructor
  · intro h
    obtain ⟨x, hx, he⟩ := h
    split at he
    · split_ifs at he with hq
      subst hq
      cases he
      exact hx
    · cases he
  · intro h
    exact ⟨_, h, by simp⟩

/-- Two hashes use one nonce of one wallet. -/
def SameNonce (hash hash' : TransactionHash) : Prop := hash.wallet = hash'.wallet ∧ hash.nonce = hash'.nonce

theorem replaced_eq_true : w.replaced q hash = true ↔ ∃ x, w.chain hash.wallet hash.nonce = some x ∧
    ∀ hash', x = .broadcast hash' → hash' ∈ w.broadcasts q → ¬ SameNonce hash' hash := by
  unfold World.replaced
  split
  · rename_i hc
    simp [hc]
  · rename_i hc
    simp [hc]
  · rename_i hash' hc
    simp only [hc, Option.some.injEq, Bool.not_eq_true', Bool.and_eq_false_iff, decide_eq_false_iff_not, SameNonce]
    constructor
    · intro h
      refine ⟨_, rfl, fun hash'' he hm hs => ?_⟩
      cases he
      rcases h with (h | h) | h
      · exact h hm
      · exact h hs.1
      · exact h hs.2
    · intro h
      obtain ⟨x, rfl, h⟩ := h
      by_contra hn
      push Not at hn
      exact h hash' rfl hn.1.1 ⟨hn.1.2, hn.2⟩

theorem consumed_of_replaced (h : w.replaced q hash = true) : w.chain hash.wallet hash.nonce ≠ none := by
  obtain ⟨x, hx, -⟩ := replaced_eq_true.mp h
  rw [hx]
  exact Option.some_ne_none x

theorem replaced_congr (h : SameNonce hash hash') : w.replaced q hash = w.replaced q hash' := by
  unfold World.replaced
  rw [h.1, h.2]

/-- An executed broadcast of the transaction was not replaced. -/
theorem not_replaced_of_executed (h : hash ∈ w.broadcasts q) (hx : w.executed hash) : w.replaced q hash = false := by
  cases hr : w.replaced q hash with
  | false => rfl
  | true =>
    obtain ⟨x, hx', hnot⟩ := replaced_eq_true.mp hr
    exact absurd ⟨rfl, rfl⟩ (hnot hash (Option.some.inj (hx'.symm.trans hx)) h)

/-! ### What a call does to the broadcasts -/

theorem broadcasts_after_call (st : Called G s s' i l o a r) : hash ∈ s'.world.broadcasts q ↔
    hash ∈ s.world.broadcasts q ∨ submits ⟨i, o, a, r⟩ = some (.broadcast (.transaction q) hash) := by
  rw [mem_broadcasts, mem_broadcasts, World.accepted_of_effect (i := i) st.performed, List.mem_append,
    Option.mem_toList,
    or_comm]

/-- A new broadcast of `q`: its nonce is free, and its process was idle. -/
structure Broadcasting (q : QueueId) (s : State engine) (l l' : Local) (hash : TransactionHash) : Prop where
  free : s.world.chain hash.wallet hash.nonce = none
  idle : l.phase = .idle
  submits : Submits l (.broadcast (.transaction q) hash) l'

theorem broadcasting (st : Called (retriesReplaced q) s s' i l o a r)
    (hx : submits ⟨i, o, a, r⟩ = some (.broadcast (.transaction q) hash)) : Broadcasting q s l (l.next o r) hash := by
  have hstep := localStep (i := i) st.allowed st.performed
  obtain ⟨hidle, hs⟩ := hstep.of_submits hx rfl
  refine ⟨?_, hidle, hs⟩
  have hg : (retriesReplaced q).call s i o a = true := st.granted
  cases o with
  | accountSendTransaction c signer tx =>
    obtain ⟨e, rfl, -⟩ | ⟨c', x, rfl, rfl, -, hx'⟩ := World.effect_cases st.performed
    · cases hx
    · cases hx
      obtain ⟨rfl, -⟩ := Prod.mk.inj (Option.some.inj hx')
      have hfree := ((Bool.and_eq_true _ _).mp hg).2
      exact Option.isNone_iff_eq_none.mp hfree
  | bundleUserOp q' u =>
    cases r <;> cases hx
  | _ => cases hx

theorem replaced_after_call (st : Called (retriesReplaced q) s s' i l o a r) (h : s.world.replaced q hash = true) :
    s'.world.replaced q hash = true := by
  obtain ⟨x, hx, hnot⟩ := replaced_eq_true.mp h
  refine replaced_eq_true.mpr ⟨x, World.chain_mono st.performed hx, fun hash' he hm hsame => ?_⟩
  rcases (broadcasts_after_call st).mp hm with hm | hnew
  · exact hnot hash' he hm hsame
  · have hfree := (broadcasting st hnew).free
    rw [hsame.1, hsame.2, hx] at hfree
    cases hfree

theorem allReplaced_iff : w.allReplaced q = true ↔ ∀ hash ∈ w.broadcasts q, w.replaced q hash = true := by
  simp [World.allReplaced]

/-! ### Backed records -/

/-- A sent EOA record of `q` has the nonce of a broadcast of `q`. -/
def Backed (q : QueueId) (w : World) (t : Transaction) : Prop :=
  t.queueId = q → t.isUserOp = false → t.status = .sent →
    ∃ hash ∈ w.broadcasts q, hash.wallet = t.wallet ∧ t.nonce = some hash.nonce

theorem Backed.of_eq (h : Backed q w t) {t' : Transaction} (hid : t'.queueId = t.queueId)
    (huser : t'.isUserOp = t.isUserOp) (hwallet : t'.wallet = t.wallet) (hnonce : t'.nonce = t.nonce)
    (hst : t.status = .sent) : Backed q w t' := by
  intro hq heoa _
  obtain ⟨hash, hm, hw, hn⟩ := h (hid ▸ hq) (huser ▸ heoa) hst
  exact ⟨hash, hm, hw.trans hwallet.symm, hnonce.trans hn⟩

theorem backed_of_status (hst : t.status ≠ .sent) : Backed q w t := fun _ _ h => absurd h hst

private theorem backed_of_writes (h : Writes l t) (hsound : l.Sound w) (hr : ∀ r, l.read = some r → Backed q w r) :
    Backed q w t := by
  cases h with
  | sent r q' n hash block hphase hsend =>
    intro hq _ _
    have hid : r.queueId = q := by simpa [sentTransaction] using hq
    have hm := hsound.submitted hsend.read (Or.inr hphase)
    rw [hid] at hm
    refine ⟨hash, mem_broadcasts.mpr hm, ?_, rfl⟩
    rw [hsend.carries.wallet]
    simp [sentTransaction, Transaction.wallet]
  | resent r q' n hashes hash block hreq hphase hsend => exact (hr r hsend.read).of_eq rfl rfl rfl rfl hsend.sent
  | syncRetried r q' b c hashes hash block hreq hphase hsend =>
    exact (hr r hsend.read).of_eq rfl rfl rfl rfl hsend.sent
  | retried r q' b c fee priority hreq hread hidle hsent => exact (hr r hread).of_eq rfl rfl rfl rfl hsent
  | sentUserOp => exact fun _ heoa _ => by cases heoa
  | queued => exact backed_of_status (by simp [queuedTransaction])
  | unpopulated => exact backed_of_status (by simp [erroredTransaction])
  | failed => exact backed_of_status (by simp [erroredTransaction])
  | mined => exact backed_of_status (by simp [minedTransaction])
  | minedUserOp => exact backed_of_status (by simp [minedUserOp])
  | timedOut => exact backed_of_status (by simp [timedOutTransaction])
  | cancelledQueued => exact backed_of_status (by simp [cancelledQueued])
  | cancelledSent => exact backed_of_status (by simp [cancelledSent])

theorem Backed.grows (h : Backed q w t) (hg : w.Grows w') : Backed q w' t := by
  intro hq heoa hst
  obtain ⟨hash, hm, hw⟩ := h hq heoa hst
  exact ⟨hash, mem_broadcasts.mpr (hg.accepted _ (mem_broadcasts.mp hm)), hw⟩

theorem backed (h0 : ∀ q' t, w.transactions q' = some t → Backed q w t) (h : Reachable G (State.initial w) s) :
    (∀ q' t, s.world.transactions q' = some t → Backed q s.world t) ∧
      ∀ i l r, process s i = some l → l.read = some r → Backed q s.world r :=
  each_record (P := Backed q) h (fun _ _ _ hg ht => ht.grows hg) h0
    fun _ _ _ _ hs hl hw hr => backed_of_writes hw (sound hs hl) hr

/-! ### The invariant -/

/-- A send attempt of `q` that is about to send it for the first time, or again as a new one. -/
structure Ready (q : QueueId) (l : Local) (n : ℕ) (r : Transaction) : Prop where
  request : l.request = .sendJob q n
  held : l.held = true
  idle : l.phase = .idle
  read : l.read = some r
  queued : (manuallyRetried r n).status = .queued

structure Retries (q : QueueId) (s : State engine) : Prop where
  viable : ∀ h ∈ s.world.broadcasts q, ∀ h' ∈ s.world.broadcasts q, s.world.replaced q h = false →
    s.world.replaced q h' = false → SameNonce h h'
  ready : ∀ i l n r, process s i = some l → Ready q l n r → s.world.allReplaced q = true
  queued : ∀ t, s.world.transactions q = some t → t.status = .queued →
    s.world.broadcasts q = [] ∨ unrecorded s q = true
  reads : ∀ t, s.world.transactions q = some t → t.status = .queued →
    ∀ i l r, process s i = some l → l.read = some r → r.queueId = q → r.status = .queued
  jobs : ∀ t, s.world.transactions q = some t → t.status = .queued →
    ∀ n, n ≠ 0 → s.world.sendJobs q n = none ∧ ∀ i l, process s i = some l → l.request ≠ .sendJob q n
  first : ∀ i l n r, process s i = some l → l.request = .sendJob q n → n ≠ 0 → l.read = some r → r.status ≠ .queued

/-- Only the first send job is ever ready. -/
theorem Retries.ready_first {n : ℕ} {t : Transaction} (h : Retries q s) (hl : process s i = some l)
    (hr : Ready q l n t) : n = 0 := by
  rcases status_of_queued hr.queued with hst | ⟨-, hn⟩
  · by_contra hn
    exact h.first i l n t hl hr.request hn hr.read hst
  · exact hn

/-- A hash that is broadcast again has the nonce of an earlier one. -/
theorem Backed.again (h : Backed q w t) (hq : t.queueId = q) (hsend : SendAgain l t hash) :
    ∃ hash' ∈ w.broadcasts q, SameNonce hash' hash := by
  obtain ⟨hash', hm, hw, hn⟩ := h hq hsend.eoa hsend.sent
  exact ⟨hash', hm, hw.trans hsend.carries.wallet.symm, (hsend.nonce _ hn).symm⟩

/-- How a broadcast of `q` comes about. -/
theorem Broadcasting.cases (h : Broadcasting q s l l' hash) (hl : l.Keyed) :
    (∃ n t, Ready q l n t) ∨ ∃ t, l.read = some t ∧ t.queueId = q ∧ SendAgain l t hash := by
  have hs := h.submits
  generalize hx : Submission.broadcast (.transaction q) hash = x at hs
  cases hs with
  | first r q' n' hash' hsend =>
    cases hx
    have hid := hl.request q' (by rw [hsend.request]; rfl)
    have hq : q' = r.queueId := Option.some.inj (hid.symm.trans (hl.read r hsend.read))
    subst hq
    exact Or.inl ⟨n', r, hsend.request, hsend.held, h.idle, hsend.read, hsend.queued⟩
  | again r hash' hsend =>
    cases hx
    exact Or.inr ⟨r, hsend.read, rfl, hsend⟩
  | bundle => cases hx

/-- While an attempt is ready, no other process broadcasts `q`. -/
theorem Retries.not_broadcasting {n : ℕ} {j : ℕ} {m : Local} (h : Retries q s) (hlocked : Locked s)
    (hb : ∀ r, l.read = some r → Backed q s.world r) (hl : process s i = some l) (hk : l.Keyed)
    (hm : process s j = some m) (hr : Ready q m n t) (hne : j ≠ i) : ¬ Broadcasting q s l l' hash := by
  intro hbr
  have hn := h.ready_first hm hr
  rcases hbr.cases hk with ⟨n', t', hr'⟩ | ⟨t', ht', hq, hsend⟩
  · have hn' := h.ready_first hl hr'
    have hreq : m.request = l.request := by rw [hr.request, hr'.request, hn, hn']
    exact hne (hlocked.unique j i m l hm hl hr.held hr'.held hreq)
  · obtain ⟨hash', hmem, hsame⟩ := (hb t' ht').again hq hsend
    have hreplaced := allReplaced_iff.mp (h.ready j m n t hm hr) hash' hmem
    rw [replaced_congr hsame] at hreplaced
    exact consumed_of_replaced hreplaced hbr.free

/-! ### Every step keeps the invariant -/

/-- What the caller is, and what is known of it. -/
structure Acting (q : QueueId) (s : State engine) (i : ℕ) (l : Local) : Prop where
  process : process s i = some l
  keyed : l.Keyed
  explained : l.Explained
  complete : ∀ r, l.read = some r → r.Complete
  backed : ∀ r, l.read = some r → Backed q s.world r
  inserts : ∀ tx key simulate, l.request ≠ .insertTransaction tx key simulate
  syncs : ∀ q' a b, l.request ≠ .syncRetry q' a b

theorem Retries.viable_after_call (h : Retries q s) (st : Called (retriesReplaced q) s s' i l o a r)
    (hc : Acting q s i l) : ∀ h ∈ s'.world.broadcasts q, ∀ h' ∈ s'.world.broadcasts q,
      s'.world.replaced q h = false → s'.world.replaced q h' = false → SameNonce h h' := by
  have hold : ∀ hash, s'.world.replaced q hash = false → s.world.replaced q hash = false := by
    intro hash hr
    cases hb : s.world.replaced q hash with
    | false => rfl
    | true =>
      rw [replaced_after_call st hb] at hr
      cases hr
  -- a new broadcast has the nonce of every one that is not replaced
  have hnew : ∀ hash, submits ⟨i, o, a, r⟩ = some (.broadcast (.transaction q) hash) →
      ∀ h' ∈ s.world.broadcasts q, s.world.replaced q h' = false → SameNonce hash h' := by
    intro hash hx h' hm' hr'
    have hbr := broadcasting st hx
    rcases hbr.cases hc.keyed with ⟨n, t, hready⟩ | ⟨t, ht, hq, hsend⟩
    · rw [allReplaced_iff.mp (h.ready i l n t hc.process hready) h' hm'] at hr'
      cases hr'
    · obtain ⟨hash', hmem, hsame⟩ := (hc.backed t ht).again hq hsend
      have hviable : s.world.replaced q hash' = false := by
        cases hb : s.world.replaced q hash' with
        | false => rfl
        | true =>
          rw [replaced_congr hsame] at hb
          exact absurd hbr.free (consumed_of_replaced hb)
      obtain ⟨hw, hn⟩ := h.viable hash' hmem h' hm' hviable hr'
      exact ⟨hsame.1.symm.trans hw, hsame.2.symm.trans hn⟩
  intro hash hm hash' hm' hr hr'
  rcases (broadcasts_after_call st).mp hm with hm | hx <;> rcases (broadcasts_after_call st).mp hm' with hm' | hx'
  · exact h.viable hash hm hash' hm' (hold hash hr) (hold hash' hr')
  · obtain ⟨hw, hn⟩ := hnew hash' hx' hash hm (hold hash hr)
    exact ⟨hw.symm, hn.symm⟩
  · exact hnew hash hx hash' hm' (hold hash' hr')
  · rw [hx] at hx'
    cases hx'
    exact ⟨rfl, rfl⟩

/-- A record that is queued after a call was queued before it. -/
theorem queued_before (st : Called G s s' i l o a r) (hc : Acting q s i l)
    (ht : s'.world.transactions q = some t) (hst : t.status = .queued) : s.world.transactions q = some t := by
  rcases stored_after_call st ht with ht | ⟨-, -, hw⟩
  · exact ht
  · obtain ⟨tx, key, simulate, hreq⟩ := hw.inserting hst
    exact absurd hreq (hc.inserts tx key simulate)

theorem Retries.queued_after_call (h : Retries q s) (st : Called (retriesReplaced q) s s' i l o a r)
    (hc : Acting q s i l) (ht : s'.world.transactions q = some t) (hst : t.status = .queued) :
    s'.world.broadcasts q = [] ∨ unrecorded s' q = true := by
  have hfails : l.unrecorded q = true → fails o a = false :=
    fails_of_records ((Bool.and_eq_true _ _).mp st.granted).1 hc.process
  by_cases hnew : ∃ hash, submits ⟨i, o, a, r⟩ = some (.broadcast (.transaction q) hash)
  · obtain ⟨hash, hx⟩ := hnew
    have hu := (broadcasting st hx).submits.unrecorded hc.keyed rfl
    exact Or.inr (unrecorded_iff.mpr ⟨i, _, st.self, hu⟩)
  · rcases h.queued t (queued_before st hc ht hst) hst with hnone | hu
    · refine Or.inl (List.eq_nil_iff_forall_not_mem.mpr fun hash hm => ?_)
      rcases (broadcasts_after_call st).mp hm with hm | hx
      · rw [hnone] at hm
        cases hm
      · exact hnew ⟨hash, hx⟩
    · rcases unrecorded_after_call st hc.keyed hc.complete hfails hu with hu | ⟨t', ht', hq, hsent⟩
      · exact Or.inr hu
      · have hstored : s'.world.transactions q = some t' := by
          rw [world_after_call st, ht', ← hq]
          simp
        rw [ht] at hstored
        cases hstored
        rw [hst] at hsent
        cases hsent

theorem Retries.reads_after_call (h : Retries q s) (st : Called G s s' i l o a r) (hc : Acting q s i l)
    (hkeyed : s.world.Keyed) (ht : s'.world.transactions q = some t) (hst : t.status = .queued) {j : ℕ}
    {t' : Transaction}
    (hl' : process s' j = some l') (ht' : l'.read = some t') (hq : t'.queueId = q) : t'.status = .queued := by
  have hbefore := queued_before st hc ht hst
  rcases process_after_call st hl' with ⟨-, rfl⟩ | ⟨-, hj⟩
  · rcases (localStep (i := i) st.allowed st.performed).read_cases ht' with ht' | ⟨q', ht'⟩
    · exact h.reads t hbefore hst i l t' hc.process ht' hq
    · have hq' : q' = q := (hkeyed q' t' ht').symm.trans hq
      subst hq'
      rw [hbefore] at ht'
      cases ht'
      exact hst
  · exact h.reads t hbefore hst j l' t' hj ht' hq

theorem Retries.jobs_after_call {n : ℕ} (h : Retries q s) (st : Called G s s' i l o a r) (hc : Acting q s i l)
    (ht : s'.world.transactions q = some t) (hst : t.status = .queued) (hn : n ≠ 0) :
    s'.world.sendJobs q n = none ∧ ∀ j l', process s' j = some l' → l'.request ≠ .sendJob q n := by
  have hbefore := queued_before st hc ht hst
  obtain ⟨hnone, hrequest⟩ := h.jobs t hbefore hst n hn
  have hallowed : Allowed l o := st.allowed
  constructor
  · rcases job_cases st.performed (.sendJob q n) with hj | ⟨hadd, -⟩ | ⟨-, -, hj⟩ | hends
    · exact hj.trans hnone
    · cases hallowed with
      | ignore _ hi => cases o <;> first | (cases hadd; done) | cases hi
      | addSend q' n' hadds =>
        cases hadd
        cases hadds with
        | inserted tx key simulate hreq => exact absurd hreq (hc.inserts tx key simulate)
        | resend t' ht' hq hsent =>
          rw [h.reads t hbefore hst i l t' hc.process ht' hq] at hsent
          cases hsent
        | retryFailed => exact absurd rfl hn
      | _ => cases hadd
    · exact hj
    · exact absurd (Allowed.endsJob hallowed hends).1 (hrequest i l hc.process)
  · intro j l' hl'
    rcases process_after_call st hl' with ⟨-, rfl⟩ | ⟨-, hj⟩
    · rw [(localStep (i := i) st.allowed st.performed).request]
      exact hrequest i l hc.process
    · exact hrequest j l' hj

theorem Retries.first_after_call {n j : ℕ} {t' : Transaction} (h : Retries q s) (st : Called G s s' i l o a r)
    (hc : Acting q s i l) (hkeyed : s.world.Keyed) (hl' : process s' j = some l') (hreq : l'.request = .sendJob q n)
    (hn : n ≠ 0) (ht' : l'.read = some t') : t'.status ≠ .queued := by
  rcases process_after_call st hl' with ⟨-, rfl⟩ | ⟨-, hj⟩
  · have hstep := localStep (i := i) st.allowed st.performed
    have hreq' := hstep.request.symm.trans hreq
    rcases hstep.read_cases ht' with ht' | ⟨q', hstored⟩
    · exact h.first i l n t' hc.process hreq' hn ht'
    · intro hst
      have hk := hc.keyed.step hkeyed hstep
      have hid := (hk.request q (by rw [hreq]; rfl)).symm.trans (hk.read t' ht')
      have hq : q' = q := (hkeyed q' t' hstored).symm.trans (Option.some.inj hid).symm
      subst hq
      exact (h.jobs t' hstored hst n hn).2 i l hc.process hreq'
  · exact h.first j l' n t' hj hreq hn ht'

/-- A process that has a submission of `q` to record is an attempt of a send job of `q`. -/
theorem Acting.sending (hc : Acting q s i l) (hu : l.unrecorded q = true) :
    ∃ n, l.request = .sendJob q n ∧ l.held = true := by
  obtain ⟨hid, hphase⟩ := Local.unrecorded_iff.mp hu
  have hreq : ∃ q' n, l.request = .sendJob q' n ∧ l.held = true := by
    have he := hc.explained
    unfold Local.Explained at he
    split at he
    · rcases he with ⟨_, q', n, hs⟩ | ⟨_, hs⟩
      · exact ⟨q', n, hs.request, hs.held⟩
      · rcases hs.request with h | ⟨q', a, b, hsync⟩
        · exact h
        · exact absurd hsync (hc.syncs q' a b)
    · obtain ⟨_, q', n, hs⟩ := he
      exact ⟨q', n, hs.request, hs.held⟩
    · obtain ⟨_, q', n, hreq, hheld, -⟩ := he
      exact ⟨q', n, hreq, hheld⟩
    · simp_all [Phase.submitted]
    · simp_all [Phase.submitted]
    · cases hp : l.phase <;> simp_all [Phase.submitted]
  obtain ⟨q', n, hreq, hheld⟩ := hreq
  have hid' := hc.keyed.request q' (by rw [hreq]; rfl)
  obtain rfl : q = q' := Option.some.inj (hid.symm.trans hid')
  exact ⟨n, hreq, hheld⟩

/-- An attempt gets ready by reading the record. -/
theorem LocalStep.ready {n : ℕ} (h : LocalStep w i l o a r l') (hr : Ready q l' n t) :
    Ready q l n t ∨ (o = .getTransaction q ∧ (∃ x, r = .ok x) ∧ w.transactions q = some t ∧ l.phase = .idle) := by
  cases h with
  | same => exact Or.inl hr
  | receipt => exact Or.inl ⟨hr.request, hr.held, hr.idle, hr.read, hr.queued⟩
  | named _ _ _ _ _ _ _ _ _ hidle => exact Or.inl ⟨hr.request, hr.held, hidle, hr.read, hr.queued⟩
  | read q' _ hq hidle =>
    obtain rfl : q = q' := by
      have hreq : l.request = .sendJob q n := hr.request
      rw [hreq] at hq
      exact Option.some.inj hq
    exact Or.inr ⟨rfl, ⟨_, rfl⟩, hr.read, hidle⟩
  | attempted => cases hr.read
  | _ => cases hr.idle

private theorem allReplaced_after_call (st : Called (retriesReplaced q) s s' i l o a r)
    (h : s.world.allReplaced q = true)
    (hnew : ∀ hash, submits ⟨i, o, a, r⟩ ≠ some (.broadcast (.transaction q) hash)) :
    s'.world.allReplaced q = true := by
  refine allReplaced_iff.mpr fun hash hm => ?_
  rcases (broadcasts_after_call st).mp hm with hm | hx
  · exact replaced_after_call st (allReplaced_iff.mp h hash hm)
  · exact absurd hx (hnew hash)

/-- When an attempt reads a record that it will send, every earlier broadcast was replaced. -/
theorem Retries.allReplaced_of_read {n : ℕ} {a : Except Err Unit} {r : Except Err (Option Transaction)}
    (h : Retries q s) (hlocked : Locked s)
    (hall : ∀ i l, process s i = some l → Acting q s i l) (st : Called (retriesReplaced q) s s' i l
    (.getTransaction q) a r)
    (hr : Ready q (l.next (.getTransaction q) r) n t) (hok : ∃ x, r = .ok x) (ht : s.world.transactions q = some t)
    (hidle : l.phase = .idle) : s.world.allReplaced q = true := by
  have hc := hall i l st.caller
  have hstep := localStep (i := i) st.allowed st.performed
  have hreq : l.request = .sendJob q n := hstep.request.symm.trans hr.request
  have hheld : l.held = true := hstep.held hr.held
  rcases status_of_queued hr.queued with hst | ⟨hst, hn⟩
  · rcases h.queued t ht hst with hnone | hu
    · rw [World.allReplaced, hnone]
      rfl
    · -- another attempt of the same job would have to be about to record
      obtain ⟨j, m, hm, hmu⟩ := unrecorded_iff.mp hu
      obtain ⟨n', hreq', hheld'⟩ := (hall j m hm).sending hmu
      have hn : n = 0 := by
        by_contra hn
        exact (h.jobs t ht hst n hn).2 i l hc.process hreq
      have hn' : n' = 0 := by
        by_contra hn'
        exact (h.jobs t ht hst n' hn').2 j m hm hreq'
      have hij := hlocked.unique i j l m hc.process hm hheld hheld' (by rw [hreq, hreq', hn, hn'])
      subst hij
      obtain rfl := Option.some.inj (hc.process.symm.trans hm)
      have hphase := (Local.unrecorded_iff.mp hmu).2
      rw [hidle] at hphase
      cases hphase
  · -- the guard lets the first send job read an errored record only then
    have hg := ((Bool.and_eq_true _ _).mp st.granted).2
    obtain ⟨e, he, -⟩ | ⟨c, x, rfl, -⟩ := World.effect_cases st.performed
    · obtain ⟨x, rfl⟩ := hok
      cases he
    · have hprocess : process s i = some l := hc.process
      have hfirst : l.sendsFirst q = true := by simp [Local.sendsFirst, hreq, hn, hheld]
      simpa [hprocess, ht, hst, hfirst] using hg

theorem Retries.ready_after_call {n j : ℕ} (h : Retries q s) (hlocked : Locked s)
    (hall : ∀ i l, process s i = some l → Acting q s i l) (st : Called (retriesReplaced q) s s' i l o a r)
    (hl' : process s' j = some l') (hr : Ready q l' n t) : s'.world.allReplaced q = true := by
  have hc := hall i l st.caller
  rcases process_after_call st hl' with ⟨-, rfl⟩ | ⟨hne, hj⟩
  · have hnew : ∀ hash, submits ⟨i, o, a, r⟩ ≠ some (.broadcast (.transaction q) hash) := by
      intro hash hx
      have hphase := (broadcasting st hx).submits.submitted
      rw [hr.idle] at hphase
      cases hphase
    refine allReplaced_after_call st ?_ hnew
    have hstep := localStep (i := i) st.allowed st.performed
    rcases hstep.ready hr with hready | ⟨rfl, hok, ht, hidle⟩
    · exact h.ready i l n t hc.process hready
    · exact h.allReplaced_of_read hlocked hall st hr hok ht hidle
  · refine allReplaced_after_call st (h.ready j l' n t hj hr) fun hash hx => ?_
    exact h.not_broadcasting hlocked hc.backed hc.process hc.keyed hj hr hne (broadcasting st hx)

theorem Retries.call (h : Retries q s) (hlocked : Locked s) (hkeyed : s.world.Keyed)
    (hall : ∀ i l, process s i = some l → Acting q s i l) (st : Called (retriesReplaced q) s s' i l o a r) :
    Retries q s' where
  viable := h.viable_after_call st (hall i l st.caller)
  ready _ _ _ _ hl' hr := h.ready_after_call hlocked hall st hl' hr
  queued _ ht hst := h.queued_after_call st (hall i l st.caller) ht hst
  reads _ ht hst _ _ _ hl' ht' hq := h.reads_after_call st (hall i l st.caller) hkeyed ht hst hl' ht' hq
  jobs _ ht hst _ hn := h.jobs_after_call st (hall i l st.caller) ht hst hn
  first _ _ _ _ hl' hreq hn ht' := h.first_after_call st (hall i l st.caller) hkeyed hl' hreq hn ht'

theorem Retries.start {n : ℕ} {k : Request} (h : Retries q s) (st : Started recordContract G s s' n k) :
    Retries q s' := by
  obtain ⟨ht, ha, hc, -⟩ := transactions_after_start st
  have hb : s'.world.broadcasts q = s.world.broadcasts q := by rw [World.broadcasts, World.broadcasts, ha]
  have hr : ∀ hash, s'.world.replaced q hash = s.world.replaced q hash := by
    intro hash
    rw [World.replaced, World.replaced, hc, hb]
  have hall : s'.world.allReplaced q = s.world.allReplaced q := by
    rw [World.allReplaced, World.allReplaced, hb]
    exact List.all_congr rfl fun hash => hr hash
  have hread : ∀ i l r, process s' i = some l → l.read = some r → process s i = some l := by
    intro i l r hl hlr
    rcases process_after_start st hl with ⟨-, rfl⟩ | ⟨-, hl⟩
    · cases hlr
    · exact hl
  have hqueued : ∀ t, s'.world.transactions q = some t → s.world.transactions q = some t := fun t h => ht ▸ h
  refine ⟨?_, fun i l m r hl hready => ?_, fun t hst hq => ?_, fun t hst hq i l r hl hlr => ?_,
    fun t hst hq m hm => ⟨?_, fun i l hl hreq => ?_⟩, fun i l m r hl hreq hm hlr => ?_⟩
  · intro hash hm hash' hm' h1 h2
    rw [hb] at hm hm'
    rw [hr] at h1 h2
    exact h.viable hash hm hash' hm' h1 h2
  · rw [hall]
    exact h.ready i l m r (hread i l r hl hready.read) hready
  · rw [hb]
    exact (h.queued t (hqueued t hst) hq).imp id (unrecorded_after_start st)
  · exact h.reads t (hqueued t hst) hq i l r (hread i l r hl hlr) hlr
  · have hnone := (h.jobs t (hqueued t hst) hq m hm).1
    rcases job_after_start st (.sendJob q m) with hj | ⟨rfl, -⟩
    · exact hj.trans hnone
    · obtain ⟨j, hj⟩ := takeJob_of_started st
      rw [hnone] at hj
      cases hj
  · have hjobs := h.jobs t (hqueued t hst) hq m hm
    rcases process_after_start st hl with ⟨-, rfl⟩ | ⟨-, hl⟩
    · obtain rfl : k = .sendJob q m := hreq
      obtain ⟨j, hj⟩ := takeJob_of_started st
      rw [hjobs.1] at hj
      cases hj
    · exact hjobs.2 i l hl hreq
  · exact h.first i l m r (hread i l r hl hlr) hreq hm hlr

private theorem acting (hw : w.WellKept) (h0 : ∀ q' t, w.transactions q' = some t → Backed q w t)
    (h : Reachable (retriesReplaced q) (State.initial w) s) (hl : process s i = some l) : Acting q s i l := by
  obtain ⟨s₀, hg⟩ := granted h hl
  refine ⟨hl, (keyed hw.keyed h).2 i l hl, explained h hl, fun r => (complete hw h).2 i l r hl,
    fun r => (backed h0 h).2 i l r hl, fun tx key simulate hreq => ?_, fun q' b c hreq => ?_⟩
  · rw [hreq] at hg
    cases hg
  · rw [hreq] at hg
    cases hg

/-- A queued record, and nothing else, is known of the transaction. -/
theorem World.Queued.backed (hw : w.Queued q) : ∀ q' t, w.transactions q' = some t → Backed q w t := by
  obtain ⟨t₀, ht₀, hst₀⟩ := hw.record
  intro q' t ht hq _ hst
  have hq' := hw.wellKept.keyed q' t ht
  rw [← hq', hq, ht₀] at ht
  cases ht
  rw [hst₀] at hst
  cases hst

theorem retries (hw : w.Queued q) (h : Reachable (retriesReplaced q) (State.initial w) s) : Retries q s := by
  refine h.invariant recordContract (Retries q) ?_ (fun _ _ _ _ _ ih st => ih.start st)
    fun s s' i l o a r hs ih st => ?_
  · have hnone : w.broadcasts q = [] := by
      refine List.eq_nil_iff_forall_not_mem.mpr fun hash hm => ?_
      have hmem : Submission.broadcast (.transaction q) hash ∈ w.submissions q :=
        List.mem_filter.mpr ⟨mem_broadcasts.mp hm, by simp [Submission.queueId]⟩
      rw [hw.submissions] at hmem
      cases hmem
    have hprocess : ∀ i l, process (State.initial w : State engine) i ≠ some l := by
      intro i l hl
      cases hl
    refine ⟨fun hash hm => ?_, fun i l n r hl => absurd hl (hprocess i l), fun t ht hst => Or.inl hnone,
      fun t ht hst i l r hl => absurd hl (hprocess i l), fun t ht hst n hn => ⟨hw.jobs n hn,
        fun i l hl => absurd hl (hprocess i l)⟩,
      fun i l n r hl => absurd hl (hprocess i l)⟩
    have hm' : hash ∈ w.broadcasts q := hm
    rw [hnone] at hm'
    cases hm'
  · exact ih.call (locked hs) (keyed hw.wellKept.keyed hs).1 (fun i l => acting hw.wellKept hw.backed hs) st

theorem executed_once (hw : w.Queued q) (h : Reachable (retriesReplaced q) (State.initial w) s) :
    ExecutedOnce q s := by
  intro hash hm hash' hm' hx hx'
  have hviable := (retries hw h).viable hash hm hash' hm'
  exact (hviable (not_replaced_of_executed hm hx) (not_replaced_of_executed hm' hx')).2

end

/-- The transfer is sent with nonce 6, but the webhook fails, and then all resends; it is errored. -/
def sentButErrored : List (Move engine) :=
  starts (.sendJob transferId 0) :: proceeds 0 12 ++ answered 0 [throwing connectionClosed, usual] ++
    cannotRead 1 0 ++ cannotRead 2 0 ++ cannotRead 3 0 ++ cannotRead 4 0 ++ proceeds 4 3

/-- It is retried: no receipt is found, and it is sent with nonce 7. -/
def retriedAndSent (i : ℕ) : List (Move engine) :=
  starts (.retryFailed transferId) :: proceeds i 2 ++ answered i [throwing connectionClosed] ++ proceeds i 4 ++
    starts (.sendJob transferId 0) :: proceeds (i + 1) 17

/-- Nonce 6 is used up elsewhere before the retry. -/
def replacedThenRetried : List (Move engine) :=
  sentButErrored ++ starts (.chainConsumes ⟨1, 7⟩ 6) :: proceeds 5 1 ++ retriedAndSent 6 ++
    starts (.chainExecutes (.transaction transferId) (transferHash 7)) :: proceeds 8 1

theorem executed_once_replaced : ∃ s : State engine, s.world.broadcasts transferId = [transferHash 7, transferHash 6] ∧
    s.world.chain ⟨1, 7⟩ 7 = some (.broadcast (transferHash 7)) ∧ ExecutedOnce transferId s := by
  obtain ⟨s, hs, hr⟩ := exists_reachable_of_run (retriesReplaced transferId) transferQueued replacedThenRetried
    (fun s => s.world.broadcasts transferId == [transferHash 7, transferHash 6] &&
      s.world.chain ⟨1, 7⟩ 7 == some (.broadcast (transferHash 7))) (by decide +kernel)
  simp only [Bool.and_eq_true, beq_iff_eq] at hr
  exact ⟨s, hr.1, hr.2, executed_once transferQueued_queued hs⟩

/-- Both broadcasts are executed. -/
def retriedAndExecutedTwice : List (Move engine) :=
  sentButErrored ++ retriedAndSent 5 ++
    starts (.chainExecutes (.transaction transferId) (transferHash 6)) :: proceeds 7 1 ++
    starts (.chainExecutes (.transaction transferId) (transferHash 7)) :: proceeds 8 1

theorem not_executed_once : ¬ ∀ (w : World) (q : QueueId) (s : State engine), w.Queued q →
    Reachable retryRuns (State.initial w) s → ExecutedOnce q s := by
  intro hgeneral
  obtain ⟨s, hs, hr⟩ := exists_reachable_of_run retryRuns transferQueued retriedAndExecutedTwice
    (fun s => s.world.broadcasts transferId == [transferHash 7, transferHash 6] &&
      s.world.chain ⟨1, 7⟩ 6 == some (.broadcast (transferHash 6)) &&
      s.world.chain ⟨1, 7⟩ 7 == some (.broadcast (transferHash 7))) (by decide +kernel)
  simp only [Bool.and_eq_true, beq_iff_eq] at hr
  obtain ⟨⟨hb, h6⟩, h7⟩ := hr
  have hnonce := hgeneral transferQueued transferId s transferQueued_queued hs (transferHash 6) (by simp [hb])
    (transferHash 7) (by simp [hb]) h6 h7
  exact absurd hnonce (by decide)

end Engine
