import Engine.Records.Contract

/-! The send worker keeps to the contract. -/
namespace Engine
open Concurrent Program

namespace Local

def «at» (l : Local) (phase : Phase) : Local := { l with phase := phase }

variable {l : Local}

@[simp] theorem at_request (p : Phase) : (l.at p).request = l.request := rfl
@[simp] theorem at_held (p : Phase) : (l.at p).held = l.held := rfl
@[simp] theorem at_exhausted (p : Phase) : (l.at p).exhausted = l.exhausted := rfl
@[simp] theorem at_read (p : Phase) : (l.at p).read = l.read := rfl
@[simp] theorem at_receipts (p : Phase) : (l.at p).receipts = l.receipts := rfl
@[simp] theorem at_queueId (p : Phase) : (l.at p).queueId = l.queueId := rfl
@[simp] theorem at_phase (p : Phase) : (l.at p).phase = p := rfl
@[simp] theorem at_at (p p' : Phase) : (l.at p).at p' = l.at p' := rfl

theorem at_of_eq {p : Phase} (h : l.phase = p) : l.at p = l := by
  subst h
  rfl

theorem threw_of_unfinished (h : l.phase.unfinished = true) : l.threw = l.at .lost := by
  simp [threw, h, Local.at]

theorem idle_finished (h : l.phase = .idle) : l.phase.unfinished = false := by rw [h]; rfl

end Local

section
variable {r : Transaction} {n : ℕ}

@[simp] theorem manuallyRetried_queueId : (manuallyRetried r n).queueId = r.queueId := by
  unfold manuallyRetried; split_ifs <;> rfl
@[simp] theorem manuallyRetried_isUserOp : (manuallyRetried r n).isUserOp = r.isUserOp := by
  unfold manuallyRetried; split_ifs <;> rfl
@[simp] theorem manuallyRetried_from : (manuallyRetried r n).from = r.from := by
  unfold manuallyRetried; split_ifs <;> rfl
@[simp] theorem manuallyRetried_chainId : (manuallyRetried r n).chainId = r.chainId := by
  unfold manuallyRetried; split_ifs <;> rfl
@[simp] theorem manuallyRetried_to : (manuallyRetried r n).to = r.to := by
  unfold manuallyRetried; split_ifs <;> rfl
@[simp] theorem manuallyRetried_target : (manuallyRetried r n).target = r.target := by
  unfold manuallyRetried; split_ifs <;> rfl
@[simp] theorem manuallyRetried_data : (manuallyRetried r n).data = r.data := by
  unfold manuallyRetried; split_ifs <;> rfl
@[simp] theorem manuallyRetried_value : (manuallyRetried r n).value = r.value := by
  unfold manuallyRetried; split_ifs <;> rfl
@[simp] theorem manuallyRetried_wallet : (manuallyRetried r n).wallet = r.wallet := by
  simp [Transaction.wallet]

theorem status_of_queued (h : (manuallyRetried r n).status = .queued) :
    r.status = .queued ∨ (r.status = .errored ∧ n = 0) := by
  unfold manuallyRetried at h
  split_ifs at h with hc
  · exact Or.inr hc
  · exact Or.inl h

/-- Only an errored record changes when it is taken for a first send. -/
theorem manuallyRetried_of_ne_queued (h : (manuallyRetried r n).status ≠ .queued) : manuallyRetried r n = r := by
  unfold manuallyRetried at h ⊢
  split_ifs at h ⊢
  · exact absurd rfl h
  · rfl

end

/-- A call while nothing is unfinished: a throw changes nothing. -/
theorem follows_await_finished {l : Local} (hf : l.phase.unfinished = false) {o : Op} {f : o.Reply → Prog β}
    {R : Local → Except Err β → Prop} (ha : Allowed l o)
    (hok : ∀ r, o.possible (.ok r) → (f r).Follows records R (l.next o (.ok r)))
    (herr : ∀ e, R l (.error e)) : ((await o).bind f).Follows records R l :=
  follows_await (P := records) ha hok fun e _ => by
    rw [show records.next l o (.error e) = l from Local.next_error_of_finished hf o e]
    exact herr e

/-- A lookup of the block number changes nothing, unless it throws. -/
theorem follows_getBlockNumberish {l : Local} (chainId : ℕ) : (getBlockNumberish chainId).Follows records
    (fun l' r => (∀ b, r = .ok b → l' = l) ∧ ∀ e, r = .error e → l' = l.threw) l := by
  refine follows_getChain (.ignore _ rfl) (fun _ _ => ?_) (fun e _ => ⟨by simp, fun _ _ => rfl⟩)
  refine Follows.handle ?_ (fun l' b hl => ?_) (fun l' e hl => ?_) (Q := fun l' _ => l' = l)
  · exact follows_perform (.ignore _ rfl) fun r _ => by cases r <;> rfl
  · exact ⟨fun _ _ => hl, by simp⟩
  · obtain rfl : l' = l := hl
    refine follows_await (.ignore _ rfl) (fun cached _ => ?_) (fun e _ => ⟨by simp, fun _ _ => rfl⟩)
    cases cached with
    | some b => exact ⟨fun _ _ => rfl, by simp⟩
    | none => exact ⟨by simp, fun _ _ => rfl⟩

section
variable {l : Local} {r : Transaction} {q : QueueId} {n : ℕ}

/-- A send attempt that has just read its record. -/
structure Attempting (l : Local) (q : QueueId) (n : ℕ) (r : Transaction) : Prop where
  request : l.request = .sendJob q n
  held : l.held = true
  read : l.read = some r
  idle : l.phase = .idle

theorem Attempting.ignores (h : Attempting l q n r) : ∀ o : Op, o.ignored = true → records.Ignores l o :=
  fun _ ho => Local.ignores (Local.idle_finished h.idle) ho

theorem Attempting.firstSend (h : Attempting l q n r) (hqueued : (manuallyRetried r n).status = .queued)
    (heoa : r.isUserOp = false) {tx : SerializableTransaction}
    (hpop : PopulatedOrErrored (manuallyRetried r n) (.ok tx)) (p : Phase) (nonce : ℤ) :
    FirstSend (l.at p) r q n ⟨r.from, { tx with nonce := nonce }⟩ := by
  obtain ⟨h1, h2, h3, h4⟩ := hpop
  refine ⟨h.request, h.held, h.read, hqueued, heoa, rfl, ?_, ?_, ?_, ?_⟩
  · simpa using h1
  · simpa using h2
  · simpa using h3
  · simpa using h4

/-- The broadcast of a first send: it is accepted, or nothing happened. -/
theorem follows_broadcast (h : Attempting l q n r) {tx : SerializableTransaction}
    (hsend : FirstSend l r q n ⟨r.from, tx⟩) : (broadcast (manuallyRetried r n) tx).Follows records
      (fun l' x => (∀ hash, x = .ok hash → hash = ⟨r.from, tx⟩ ∧ l' = l.at (.accepted hash)) ∧
        ∀ e, x = .error e → l' = l) l := by
  have hf := Local.idle_finished h.idle
  refine Follows.handle ?_ (fun l' hash hl => ⟨fun _ hx => by cases hx; exact hl.1 _ rfl, by simp⟩)
    (fun l' e hl => ?_)
    (Q := fun l' x => (∀ hash, x = .ok hash → hash = ⟨r.from, tx⟩ ∧ l' = l.at (.accepted hash)) ∧
      ∀ e, x = .error e → l' = l)
  · refine (quiet_await rfl).follows_bind h.ignores (fun _ => ?_) (fun e => ⟨by simp, fun _ _ => rfl⟩)
    have hallowed : records.allowed l (.accountSendTransaction (.transaction (manuallyRetried r n).queueId)
        (manuallyRetried r n).from tx) := by
      rw [manuallyRetried_queueId, manuallyRetried_from]
      exact .sendFirst r q n _ _ h.idle hsend
    refine follows_perform hallowed fun x hx => ?_
    cases x with
    | ok hash => 
      have hhash : hash = ⟨r.from, tx⟩ := by simpa using (show hash = ⟨(manuallyRetried r n).from, tx⟩ from hx)
      exact ⟨fun _ hh => by cases hh; exact ⟨hhash, rfl⟩, by simp⟩
    | error e => exact ⟨by simp, fun _ _ => Local.threw_of_finished hf⟩
  · obtain rfl : l' = l := hl.2 e rfl
    dsimp only
    split_ifs
    · exact (only_syncIfHigher _).follows_bind h.ignores
        (fun _ => ⟨by simp, fun _ _ => rfl⟩) (fun _ => ⟨by simp, fun _ _ => rfl⟩)
    · exact (only_recycleNonce _ _).follows_bind h.ignores
        (fun _ => ⟨by simp, fun _ _ => rfl⟩) (fun _ => ⟨by simp, fun _ _ => rfl⟩)

/-- The handler may store its result; when it threw, nothing is left unfinished. -/
structure Prepared (l : Local) (l' : Local) (x : Except Err Transaction) : Prop where
  moved : ∃ p, l' = l.at p
  writes : ∀ t, x = .ok t → Writes l' t
  settled : ∀ e, x = .error e → l'.Settled

theorem prepared_error {e : Err} (p : Phase) (h : (l.at p).Settled) : Prepared l (l.at p) (.error e) :=
  ⟨⟨p, rfl⟩, by simp, fun _ _ => h⟩

theorem prepared_threw {e : Err} (hf : l.phase.unfinished = false) : Prepared l l (.error e) :=
  ⟨⟨l.phase, (Local.at_of_eq rfl).symm⟩, by simp, fun _ _ => Or.inl hf⟩

theorem prepared_lost {e : Err} : Prepared l (l.at .lost) (.error e) := prepared_error _ (Or.inl rfl)

theorem follows_sendTransaction (h : Attempting l q n r) (hqueued : (manuallyRetried r n).status = .queued)
    (heoa : r.isUserOp = false) : (sendTransaction (manuallyRetried r n)).Follows records (Prepared l) l := by
  have hf := Local.idle_finished h.idle
  refine (only_assert _).follows_bind h.ignores (fun _ => ?_) (fun e => prepared_threw hf)
  refine (populates _).only_bind h.ignores (fun _ _ hp => hp)
    (fun x hx => ?_) (fun e _ => prepared_threw hf)
  obtain ⟨x', hx', hpop⟩ := hx
  cases hx'
  cases x with
  | error errored =>
    obtain ⟨m, rfl⟩ := hpop
    refine ⟨⟨.idle, (Local.at_of_eq h.idle).symm⟩, fun t ht => ?_, by simp⟩
    cases ht
    exact .unpopulated r q n m h.request h.held h.read h.idle hqueued
  | ok populated =>
    refine (quiet_acquireNonce _ _).follows_bind h.ignores (fun acquired => ?_) (fun e => prepared_threw hf)
    have hsend := fun p => h.firstSend hqueued heoa hpop p acquired.nonce
    refine (follows_broadcast h (hsend l.phase)).bind (fun l' hash hl => ?_)
      (fun l' e hl => by rw [hl.2 e rfl]; exact prepared_threw hf)
    obtain ⟨rfl, rfl⟩ := hl.1 hash rfl
    have hmark : records.allowed (l.at (.accepted ⟨r.from, { populated with nonce := acquired.nonce }⟩))
        (.saddSent (manuallyRetried r n).wallet acquired.nonce) := by
      rw [manuallyRetried_wallet]
      exact .mark r q n _ rfl (hsend _)
    refine follows_await hmark (fun _ _ => ?_) (fun e _ => prepared_lost)
    refine (Engine.follows_getBlockNumberish _).bind (fun l' b hl => ?_) (fun l' e hl => ?_)
    · obtain rfl := hl.1 b rfl
      refine ⟨⟨.marked _, rfl⟩, fun t ht => ?_, by simp⟩
      cases ht
      exact .sent r q n _ b rfl (hsend _)
    · rw [hl.2 e rfl]
      exact prepared_lost

theorem follows_sendUserOp (h : Attempting l q n r) (hqueued : (manuallyRetried r n).status = .queued)
    (huser : r.isUserOp = true) : (sendUserOp (manuallyRetried r n)).Follows records (Prepared l) l := by
  have hf := Local.idle_finished h.idle
  refine (only_assert _).follows_bind h.ignores (fun _ => ?_) (fun e => prepared_threw hf)
  refine (only_getChain _).follows_bind h.ignores (fun _ => ?_) (fun e => prepared_threw hf)
  refine (populates _).only_bind h.ignores (fun _ _ hp => hp)
    (fun x hx => ?_) (fun e _ => prepared_threw hf)
  obtain ⟨x', hx', hpop⟩ := hx
  cases hx'
  cases x with
  | error errored =>
    obtain ⟨m, rfl⟩ := hpop
    refine ⟨⟨.idle, (Local.at_of_eq h.idle).symm⟩, fun t ht => ?_, by simp⟩
    cases ht
    exact .unpopulated r q n m h.request h.held h.read h.idle hqueued
  | ok populated =>
    refine (only_generateSignedUserOperation _ _).follows_bind h.ignores (fun u => ?_) (fun e => prepared_threw hf)
    have hbundle : records.allowed l (.bundleUserOp (manuallyRetried r n).queueId u) := by
      rw [manuallyRetried_queueId]
      exact .bundle r q n u h.request h.held h.read h.idle hqueued huser
    refine follows_await_finished hf hbundle (fun hash hhash => ?_) (fun e => prepared_threw hf)
    obtain rfl : hash = ⟨u⟩ := hhash
    refine (Engine.follows_getBlockNumberish _).bind (fun l' b hl => ?_) (fun l' e hl => ?_)
    · obtain rfl := hl.1 b rfl
      refine ⟨⟨.bundled _, rfl⟩, fun t ht => ?_, by simp⟩
      cases ht
      exact .sentUserOp r q n ⟨u⟩ b h.request h.held h.read rfl hqueued huser
    · rw [hl.2 e rfl]
      exact prepared_lost

/-- A transaction populated from the record's own call and nonce. -/
theorem sendAgain_of_populate (request : TransactionRequest) {p : Population}
    (hreq : (∃ q n, l.request = .sendJob q n ∧ l.held = true) ∨ ∃ q a b, l.request = .syncRetry q a b)
    (hread : l.read = some r) (hsent : r.status = .sent) (heoa : r.isUserOp = false)
    (hrequest : request = { r.request r.from with
      gas := request.gas, gasPrice := request.gasPrice, maxFeePerGas := request.maxFeePerGas,
      maxPriorityFeePerGas := request.maxPriorityFeePerGas }) :
    SendAgain l r ⟨r.from, request.populate p⟩ := by
  rw [hrequest]
  refine ⟨hreq, hread, hsent, heoa, ⟨rfl, rfl, rfl, rfl, rfl⟩, fun m hm => ?_⟩
  simp [TransactionHash.nonce, TransactionRequest.populate, Transaction.request, hm]

theorem SendAgain.withDoubledFees {a : Address} {tx : SerializableTransaction} (h : SendAgain l r ⟨a, tx⟩) :
    SendAgain l r ⟨a, Engine.withDoubledFees tx⟩ :=
  ⟨h.request, h.read, h.sent, h.eoa,
    ⟨h.carries.signer, h.carries.chainId, h.carries.to, h.carries.data, h.carries.value⟩, h.nonce⟩

theorem SendAgain.at {hash : TransactionHash} (h : SendAgain l r hash) (p : Phase) : SendAgain (l.at p) r hash :=
  ⟨h.request, h.read, h.sent, h.eoa, h.carries, h.nonce⟩

/-- A resend: nothing is stored when the broadcast was refused. -/
structure Resent (l : Local) (l' : Local) (x : Except Err (Option Transaction)) : Prop where
  refused : x = .ok none → l' = l
  prepared : ∀ t, x = .ok (some t) → Prepared l l' (.ok t)
  threw : ∀ e, x = .error e → Prepared l l' (.error e)

private theorem resent_error {l' : Local} {e : Err} (h : Prepared l l' (.error e)) : Resent l l' (.error e) :=
  ⟨by simp, by simp, fun _ he => by cases he; exact h⟩

/-- After the broadcast: the block number is looked up and the record's list of hashes taken. -/
theorem follows_record_hash {hash : TransactionHash} (hsend : SendAgain l r hash) {chainId : ℕ}
    {g : ℤ → List TransactionHash → α} {R : Local → Except Err α → Prop}
    (hok : ∀ b hashes, r.sentTransactionHashes = some hashes → R (l.at (.accepted hash)) (.ok (g b hashes)))
    (herr : ∀ l' e, Prepared l l' (.error e) → R l' (.error e)) :
    ((getBlockNumberish chainId).bind fun b => (defined r.sentTransactionHashes).bind fun hashes =>
      done (g b hashes)).Follows records R (l.at (.accepted hash)) := by
  refine (Engine.follows_getBlockNumberish _).bind (fun l' b hl => ?_) (fun l' e hl => ?_)
  · obtain rfl := hl.1 b rfl
    cases hhashes : r.sentTransactionHashes with
    | none =>
      refine herr _ _ (prepared_error _ (Or.inr ?_))
      exact ⟨r, hsend.read, hsend.eoa, hsend.sent, Or.inl ⟨hhashes, _, rfl⟩⟩
    | some hashes => exact hok b hashes hhashes
  · rw [hl.2 e rfl]
    exact herr _ _ prepared_lost

theorem follows_resendTransaction (h : Attempting l q n r) (hsent : r.status = .sent) :
    (resendTransaction r n).Follows records (Resent l) l := by
  have hf := Local.idle_finished h.idle
  have hthrew : ∀ e, Resent l l (.error e) := fun e => resent_error (prepared_threw hf)
  unfold resendTransaction assert
  split
  case isFalse => exact hthrew _
  case isTrue heoa =>
    replace heoa : r.isUserOp = false := by simpa using heoa
    refine (only_getChain _).follows_bind h.ignores (fun _ => ?_) hthrew
    refine follows_await_finished hf (.ignore _ rfl) (fun populated hp => ?_) hthrew
    obtain ⟨p, rfl⟩ := hp
    have hsend := (sendAgain_of_populate (p := p)
      { r.request r.from with gasPrice := none, maxFeePerGas := none, maxPriorityFeePerGas := none }
      (Or.inl ⟨q, n, h.request, h.held⟩) h.read hsent heoa rfl).withDoubledFees
    dsimp only
    generalize withDoubledFees _ = tx at hsend ⊢
    refine Follows.bind (Q := fun l' x => (x = .ok none → l' = l) ∧ (∀ hash, x = .ok (some hash) →
      hash = ⟨r.from, tx⟩ ∧ l' = l.at (.accepted hash)) ∧ ∀ e, x = .error e → l' = l) ?_
      (fun l' x hl => ?_) (fun l' e hl => by rw [hl.2.2 e rfl]; exact hthrew e)
    · refine Follows.handle (Q := fun l' x => (∀ hash, x = .ok hash → ∃ hash', hash = some hash' ∧
        hash' = ⟨r.from, tx⟩ ∧ l' = l.at (.accepted hash')) ∧ ∀ e, x = .error e → l' = l) ?_
        (fun l' x hl => ?_) (fun l' e hl => ?_)
      · refine (quiet_await rfl).follows_bind h.ignores (fun _ => ?_) (fun e => ⟨by simp, fun _ _ => rfl⟩)
        refine follows_await_finished hf (.sendAgain r r.from _ h.idle hsend) (fun hash hhash => ?_)
          (fun e => ⟨by simp, fun _ _ => rfl⟩)
        refine ⟨fun x hx => ?_, by simp⟩
        cases hx
        exact ⟨hash, rfl, hhash, rfl⟩
      · obtain ⟨hash, rfl, hhash, rfl⟩ := hl.1 x rfl
        exact ⟨by simp, fun hash' hx => by cases hx; exact ⟨hhash, rfl⟩, by simp⟩
      · obtain rfl : l' = l := hl.2 e rfl
        split_ifs
        · exact ⟨fun _ => rfl, by simp, by simp⟩
        · exact ⟨by simp, by simp, fun _ _ => rfl⟩
    · cases x with
      | none =>
        obtain rfl := hl.1 rfl
        exact ⟨fun _ => rfl, by simp, by simp⟩
      | some hash =>
        obtain ⟨rfl, rfl⟩ := hl.2.1 hash rfl
        refine follows_record_hash hsend (fun b hashes hhashes => ⟨by simp, fun t ht => ?_, by simp⟩)
          (fun l' e hl => resent_error hl)
        cases ht
        refine ⟨⟨_, rfl⟩, fun t ht => ?_, by simp⟩
        cases ht
        exact Writes.resent (l := l.at _) r q n hashes ⟨r.from, tx⟩ b h.request rfl (hsend.at _) hhashes

/-- The attempt is over, or its handler threw. -/
structure AttemptDone (l : Local) (q : QueueId) (n : ℕ) (l' : Local) (x : Except Err Unit) : Prop where
  request : l'.request = .sendJob q n
  held : l'.held = true
  finished : x = .ok () → l'.phase.unfinished = false
  settled : l'.Settled

theorem attemptDone_at (h : Attempting l q n r) {p : Phase} (hp : p.unfinished = false) (x : Except Err Unit) :
    AttemptDone l q n (l.at p) x := ⟨h.request, h.held, fun _ => hp, Or.inl hp⟩

theorem attemptDone_of_prepared (h : Attempting l q n r) {l' : Local} {e : Err} (hp : Prepared l l' (.error e)) :
    AttemptDone l q n l' (.error e) := by
  have hs := hp.settled e rfl
  obtain ⟨p, rfl⟩ := hp.moved
  exact ⟨h.request, h.held, by simp, hs⟩

theorem follows_storeSendResult (h : Attempting l q n r) {l' : Local} {result : Transaction} (t : Transaction)
    (hp : Prepared l l' (.ok result)) :
    (storeSendResult t result).Follows records (AttemptDone l q n) l' := by
  have hwrites := hp.writes result rfl
  obtain ⟨p, rfl⟩ := hp.moved
  have hstored : ∀ x : Except Err Unit, AttemptDone l q n (l.at .stored) x := attemptDone_at h rfl
  have hnext : records.next (l.at p) (.setTransaction result) (.ok ()) = l.at .stored := by
    simp [records, Local.next, h.request, Local.at]
  have hignores : ∀ o : Op, o.ignored = true → records.Ignores (l.at .stored) o := fun o ho => Local.ignores rfl ho
  refine follows_await (.set _ hwrites) (fun _ _ => ?_) (fun e _ => ?_)
  · rw [show ∀ u, records.next (l.at p) (.setTransaction result) (.ok u) = l.at .stored from fun u => hnext]
    refine (quiet_enqueueTransactionWebhook _).follows_bind hignores (fun _ => ?_) (fun e => hstored _)
    have hmetrics : ∀ m, (await (.recordMetrics m)).Follows records (AttemptDone l q n) (l.at .stored) :=
      fun m => (quiet_await rfl).follows_last hignores hstored
    split
    · refine follows_await_finished rfl (.addMine _ rfl) (fun _ _ => ?_) (fun e => hstored _)
      split
      · exact (only_getChain _).follows_bind hignores (fun _ => hmetrics _) (fun e => hstored _)
      · exact hstored _
    · split
      · exact hmetrics _
      · exact hstored _
  · have hnext' : records.next (l.at p) (.setTransaction result) (.error e) = (l.at p).threw := rfl
    rw [hnext']
    cases hp : p.unfinished with
    | true =>
      rw [Local.threw_of_unfinished hp]
      exact attemptDone_at h rfl _
    | false =>
      rw [Local.threw_of_finished hp]
      exact attemptDone_at h hp _

theorem follows_sendFound (h : Attempting l q n r) :
    (sendFound (manuallyRetried r n) n).Follows records (AttemptDone l q n) l := by
  have hidle : ∀ x, AttemptDone l q n l x := fun x =>
    Local.at_of_eq h.idle ▸ attemptDone_at h (p := .idle) rfl x
  unfold sendFound
  split
  · rename_i hqueued
    split_ifs with huser
    · refine (follows_sendUserOp h hqueued (by simpa using huser)).bind (fun l' result hp => ?_)
        (fun l' e hp => attemptDone_of_prepared h hp)
      exact follows_storeSendResult h _ hp
    · refine (follows_sendTransaction h hqueued (by simpa using huser)).bind (fun l' result hp => ?_)
        (fun l' e hp => attemptDone_of_prepared h hp)
      exact follows_storeSendResult h _ hp
  · rename_i hsent
    have hr : manuallyRetried r n = r := manuallyRetried_of_ne_queued (by rw [hsent]; decide)
    rw [hr] at hsent ⊢
    refine (follows_resendTransaction h hsent).bind (fun l' result hp => ?_)
      (fun l' e hp => attemptDone_of_prepared h (hp.threw e rfl))
    cases result with
    | none =>
      obtain rfl := hp.refused rfl
      exact hidle _
    | some result => exact follows_storeSendResult h _ (hp.prepared result rfl)
  · exact hidle _

/-- The `failed` listener of an attempt that made `made` attempts in all. -/
theorem follows_sendFailedHandler (made : ℕ) (e : Err) (hreq : l.request = .sendJob q n) :
    (sendFailedHandler q made e).Follows records (fun l _ => l.held = false ∧ l.phase.unfinished = false)
      (l.attempted (made = sendAttempts)) := by
  unfold sendFailedHandler
  split
  case isFalse => exact ⟨rfl, rfl⟩
  case isTrue hmade =>
    refine follows_await_finished rfl (.get q (by simp [Local.attempted, hreq, Request.queueId]) rfl)
      (fun t _ => ?_) (fun e => ⟨rfl, rfl⟩)
    cases t with
    | none => exact ⟨rfl, rfl⟩
    | some r =>
      set l₁ : Local := { l.attempted true with read := some r } with hl₁
      have hl : (l.attempted (made = sendAttempts)).next (.getTransaction q) (.ok (some r)) = l₁ := by
        simp [Local.next, Local.attempted, hmade, hl₁]
      rw [hl]
      have hignores : ∀ o : Op, o.ignored = true → records.Ignores l₁ o := fun o ho => Local.ignores rfl ho
      refine (only_prettifyError r e).follows_bind hignores (fun message => ?_) (fun e => ⟨rfl, rfl⟩)
      refine follows_await_finished rfl (.set _ (.failed r q n message hreq rfl rfl rfl rfl)) (fun _ _ => ?_)
        (fun e => ⟨rfl, rfl⟩)
      have hstored : l₁.next (.setTransaction (erroredTransaction r message)) (.ok ()) = l₁.at .stored := by
        simp [Local.next, hl₁, Local.attempted, hreq, Local.at]
      rw [show ∀ u, l₁.next (.setTransaction (erroredTransaction r message)) (.ok u) = l₁.at .stored from
        fun _ => hstored]
      exact (quiet_enqueueTransactionWebhook _).follows_last (fun o ho => Local.ignores rfl ho) fun _ => ⟨rfl, rfl⟩

/-- A send job's process from its start. -/
theorem follows_sendTransactionWorker (q : QueueId) (n : ℕ) : (sendTransactionWorker q n).Follows records
    (fun l _ => l.held = false ∧ l.phase.unfinished = false)
    { request := .sendJob q n, queueId := some q, held := true } := by
  have hattempt : (sendTransactionHandler q n).Follows records
      (fun l x => l.request = .sendJob q n ∧ l.held = true ∧ (x = .ok () → l.phase.unfinished = false) ∧ l.Settled)
      { request := .sendJob q n, queueId := some q, held := true } := by
    refine follows_await_finished rfl (.get q rfl rfl) (fun t _ => ?_) (fun e => ⟨rfl, rfl, by simp, Or.inl rfl⟩)
    cases t with
    | none => exact ⟨rfl, rfl, fun _ => rfl, Or.inl rfl⟩
    | some r =>
      exact (follows_sendFound ⟨rfl, rfl, rfl, rfl⟩).mono fun l x hl => ⟨hl.request, hl.held, hl.finished, hl.settled⟩
  have hresult : (attempt (sendTransactionHandler q n)).Follows records
      (fun l x => ∃ x', x = .ok x' ∧ l.request = .sendJob q n ∧ l.held = true ∧
        (x' = .ok () → l.phase.unfinished = false) ∧ l.Settled)
      { request := .sendJob q n, queueId := some q, held := true } := hattempt.attempt fun l x hl => ⟨x, rfl, hl⟩
  refine hresult.bind ?_ ?_
  · rintro l x ⟨x', hx, hreq, hheld, hfin, hsettled⟩
    cases hx
    cases x with
    | ok u =>
      refine follows_perform (.sendCompleted q n hreq hheld (hfin rfl)) fun y hy => ?_
      cases y with
      | ok u => exact ⟨rfl, rfl⟩
      | error e => cases hy
    | error e =>
      refine follows_await (.sendFailed q n hreq hheld hsettled) (fun made _ => ?_) (fun e he => by cases he)
      exact follows_sendFailedHandler _ _ hreq
  · rintro l e ⟨x', hx, -⟩
    cases hx

end
end Engine
