import Engine.Records.Announcing

/-! What a process has written down before it acts: the id it drew, the nonce it filed in the nonce map, the record it
read, and the record it stored. -/
namespace Engine
open Concurrent Program

structure Notes where
  request : Request
  /-- The id drawn by `randomUUID`. -/
  drawn : Option QueueId := none
  /-- The nonce, with its owner, that was added to a nonce map last. -/
  filed : Option (Wallet × ℤ × QueueId) := none
  read : Option Transaction := none
  stored : Option Transaction := none

/-- The broadcast moves nothing: no value and no data, sent to its sender. -/
structure NullCall (hash : TransactionHash) : Prop where
  «to» : hash.transaction.to = some hash.signer
  data : hash.transaction.data = some []
  value : hash.transaction.value = some 0

/-- The id under which an insertion stores, when it drew `drawn`. -/
def insertionId (idempotencyKey : Option String) (drawn : Option QueueId) : Option QueueId :=
  (idempotencyKey.filter (· ≠ "")).or drawn

def Request.inserts : Request → Bool
  | .insertTransaction _ _ _ => true
  | _ => false

/-- The calls that no note is about. -/
def Op.unnoted : Op → Bool
  | .randomUUID | .zaddNonceMap _ _ _ | .getTransaction _ | .setTransaction _ => false
  | .accountSendTransaction _ _ _ | .enqueueWebhook _ _ => false
  | _ => true

namespace Notes

def next (l : Notes) : (o : Op) → Except Err o.Reply → Notes
  | .randomUUID, .ok q => { l with drawn := some q }
  | .zaddNonceMap k n q, .ok _ => { l with filed := some (k, n, q) }
  | .getTransaction _, .ok t => { l with read := t }
  | .setTransaction t, .ok _ => { l with stored := some t }
  | _, _ => l

/-- An insertion stores what it was asked for, a broadcast has its nonce filed or repeats a sent record, a cancellation
is a null transaction, and what is announced was stored. -/
def Allowed (l : Notes) : Op → Prop
  | .setTransaction t => ∀ tx key simulate, l.request = .insertTransaction tx key simulate →
      ∃ q, insertionId key l.drawn = some q ∧ t = queuedTransaction tx q
  | .accountSendTransaction (.transaction q) a tx =>
      l.filed = some (⟨tx.chainId, a⟩, tx.nonce, q) ∨ ∃ r, l.read = some r ∧ r.status = .sent
  | .accountSendTransaction .cancellation a tx => NullCall ⟨a, tx⟩
  | .enqueueWebhook type q => ∃ t, l.stored = some t ∧ t.queueId = q ∧ t.status.webhookType = some type
  | _ => True

abbrev protocol : Protocol Calls where
  Local := Notes
  next := next
  allowed := Allowed
  possible := Op.possible

section
variable {l : Notes} {o : Op} {q : QueueId} {α : Type}

theorem next_of_unnoted (ho : o.unnoted = true) (r : Except Err o.Reply) : l.next o r = l := by
  cases o <;> first
    | exact absurd ho Bool.false_ne_true
    | cases r <;> rfl

theorem ignores_of_unnoted (l : Notes) (ho : o.unnoted = true) : protocol.Ignores l o := by
  refine ⟨?_, fun r _ => next_of_unnoted ho r⟩
  cases o <;> first
    | exact absurd ho Bool.false_ne_true
    | trivial

theorem next_error (e : Err) : l.next o (.error e) = l := by
  cases o <;> rfl

theorem next_request (r : Except Err o.Reply) : (l.next o r).request = l.request := by
  cases r with
  | error e => rw [next_error]
  | ok r => cases o <;> rfl

/-! ### What nothing is noted of -/

abbrev Unnoted (p : Prog α) : Prop := p.Only fun o : Op => o.unnoted = true

theorem unnoted_await (ho : o.unnoted = true) : Unnoted (await o) := only_perform ho

instance : HasLookups fun o : Op => o.unnoted = true where
  isLookup o ho := by cases o <;> first | rfl | cases ho

instance : HasCounters fun o : Op => o.unnoted = true where
  counts o ho := by cases o <;> first | rfl | cases ho

/-! ### What is noted -/

/-- The process is not an insertion. -/
abbrev Keeps (l : Notes) (p : Prog α) : Prop :=
  p.Follows protocol (fun l' _ => l'.request = l.request) l

theorem follows_unnoted {p : Prog α} (hp : Unnoted p) : p.Follows protocol (fun l' _ => l' = l) l :=
  hp.follows_last (fun _ ho => ignores_of_unnoted l ho) fun _ => rfl

theorem keeps_unnoted {p : Prog α} (hp : Unnoted p) : l.Keeps p :=
  (follows_unnoted hp).mono fun _ _ hl => congrArg Notes.request hl

/-- What nothing is noted of, and what comes after it. -/
theorem Keeps.after {β : Type} {p : Prog α} {f : α → Prog β} (hp : Unnoted p) (hf : ∀ a, l.Keeps (f a)) :
    l.Keeps (p.bind f) :=
  hp.follows_bind (fun _ ho => ignores_of_unnoted l ho) hf fun _ => rfl

theorem allowed_setTransaction {t : Transaction} (hreq : l.request.inserts = false) :
    l.Allowed (.setTransaction t) := by
  intro tx key simulate heq
  rw [heq] at hreq
  cases hreq

theorem follows_enqueueTransactionWebhook {t : Transaction} (ht : l.stored = some t) :
    l.Keeps (enqueueTransactionWebhook t) := by
  unfold enqueueTransactionWebhook
  cases hstatus : t.status with
  | queued => rfl
  | _ =>
    refine follows_perform (P := protocol) ⟨t, ht, rfl, ?_⟩ fun r _ => by cases r <;> rfl
    rw [hstatus]
    rfl

/-- A record is stored and announced. -/
theorem keeps_announced {β : Type} {t : Transaction} {f : Unit → Prog β} (hreq : l.request.inserts = false)
    (hf : Unnoted (f ())) :
    l.Keeps ((await (.setTransaction t)).bind fun _ => (enqueueTransactionWebhook t).bind f) := by
  refine follows_await (P := protocol) (allowed_setTransaction hreq) (fun _ _ => ?_) fun e _ => next_request _
  have hann : Keeps { l with stored := some t } (enqueueTransactionWebhook t) := follows_enqueueTransactionWebhook rfl
  refine hann.bind (fun l' _ hl => ?_) fun l' e hl => hl
  exact (keeps_unnoted hf).mono fun l'' r hl' => hl'.trans hl

theorem keeps_storeSendResult {t result : Transaction} (hreq : l.request.inserts = false) :
    l.Keeps (storeSendResult t result) := by
  refine keeps_announced hreq ?_
  split
  · refine (unnoted_await rfl).bind fun _ => ?_
    split
    · exact (only_getChain _).bind fun _ => unnoted_await rfl
    · exact only_done _
  · split
    · exact unnoted_await rfl
    · exact only_done _

/-- A nonce is acquired only when it was filed under its owner. -/
theorem follows_acquireNonce (q : QueueId) (k : Wallet) : (acquireNonce q k).Follows protocol (fun l' r =>
    l'.request = l.request ∧ ∀ acquired, r = .ok acquired → l'.filed = some (k, acquired.nonce, q)) l := by
  have hfile : ∀ n, ((updateNonceMap k n q).bind fun _ =>
      (done { nonce := n, isRecycledNonce := false } : Prog AcquiredNonce)).Follows protocol (fun l' r =>
        l'.request = l.request ∧ ∀ acquired, r = .ok acquired → l'.filed = some (k, acquired.nonce, q)) l := by
    intro n
    refine follows_await (P := protocol) trivial (fun _ _ => ⟨rfl, fun acquired h => ?_⟩) fun e _ => ⟨rfl, nofun⟩
    cases h
    rfl
  refine (unnoted_await rfl).follows_bind (fun _ ho => ignores_of_unnoted l ho) (fun recycled => ?_)
    fun e => ⟨rfl, nofun⟩
  cases recycled with
  | none =>
    exact (only_incrementNonce k).follows_bind (fun _ ho => ignores_of_unnoted l ho) hfile fun e => ⟨rfl, nofun⟩
  | some n => exact hfile n

theorem keeps_broadcast {queued : Transaction} {populated : SerializableTransaction}
    (hfiled : l.filed = some (queued.wallet, populated.nonce, queued.queueId))
    (hchain : populated.chainId = queued.chainId) : l.Keeps (broadcast queued populated) := by
  have hallowed : l.Allowed (.accountSendTransaction (.transaction queued.queueId) queued.from populated) := by
    refine Or.inl (hfiled.trans ?_)
    unfold Transaction.wallet
    rw [hchain]
  refine Follows.handle (Q := fun l' _ => l' = l) ?_ (fun _ _ hl => congrArg Notes.request hl) fun l' e hl => ?_
  · refine (unnoted_await rfl).follows_bind (fun _ ho => ignores_of_unnoted l ho) (fun _ => ?_) fun e => rfl
    exact follows_perform (P := protocol) hallowed fun r _ => by cases r <;> rfl
  · subst hl
    dsimp only
    split
    · exact Keeps.after (only_syncIfHigher _) fun _ => rfl
    · exact Keeps.after (only_recycleNonce _ _) fun _ => rfl

/-! ### The handlers -/

/-- From what is kept to what comes after it. -/
theorem Keeps.then {β : Type} {p : Prog α} {f : α → Prog β} (hp : l.Keeps p)
    (hf : ∀ (l' : Notes) a, l'.request = l.request → l'.Keeps (f a)) : l.Keeps (p.bind f) :=
  hp.bind (fun l' a hl => (hf l' a hl).mono fun _ _ hl' => hl'.trans hl) fun _ _ hl => hl

theorem keeps_sendTransaction (queued : Transaction) : l.Keeps (sendTransaction queued) := by
  refine Keeps.after (only_assert _) fun _ => ?_
  refine (populates queued).only_bind (fun _ ho => ignores_of_unnoted l ho) (fun _ _ h => h)
    (fun x hx => ?_) fun _ _ => rfl
  obtain ⟨x', hx', hx⟩ := hx
  cases hx'
  cases x with
  | error errored => rfl
  | ok populated =>
    refine (follows_acquireNonce queued.queueId queued.wallet).bind (fun l' acquired hl => ?_) fun _ _ hl => hl.1
    have hfiled := hl.2 acquired rfl
    have hbroadcast : l'.Keeps (broadcast queued { populated with nonce := acquired.nonce }) :=
      keeps_broadcast hfiled hx.1
    refine (hbroadcast.then fun l'' hash _ => ?_).mono fun _ _ hl' => hl'.trans hl.1
    refine Keeps.after (unnoted_await rfl) fun _ => ?_
    exact Keeps.after (only_getBlockNumberish _) fun block => rfl

theorem keeps_resendTransaction {sent : Transaction} (hread : ∃ r, l.read = some r ∧ r.status = .sent) (n : ℕ) :
    l.Keeps (resendTransaction sent n) := by
  refine Keeps.after (only_assert _) fun _ => Keeps.after (only_getChain _) fun _ => ?_
  refine Keeps.after (unnoted_await rfl) fun populated => ?_
  refine Keeps.then (Follows.handle (Q := fun l' _ => l' = l) ?_ (fun _ _ hl => congrArg Notes.request hl)
    fun l' e hl => ?_) fun l' result hl => ?_
  · refine (unnoted_await rfl).follows_bind (fun _ ho => ignores_of_unnoted l ho) (fun _ => ?_) fun e => rfl
    exact follows_await (P := protocol) (Or.inr hread) (fun _ _ => rfl) fun _ _ => rfl
  · subst hl
    dsimp only
    split <;> rfl
  · cases result with
    | none => rfl
    | some hash =>
      refine Keeps.after (only_getBlockNumberish _) fun block => ?_
      exact Keeps.after (only_defined _) fun hashes => rfl

private theorem status_of_manuallyRetried {t : Transaction} {n : ℕ} (h : (manuallyRetried t n).status = .sent) :
    t.status = .sent := by
  unfold manuallyRetried at h
  split_ifs at h
  · cases h
  · exact h

theorem keeps_sendFound {t : Transaction} {n : ℕ} (hreq : l.request.inserts = false)
    (hread : t.status = .sent → ∃ r, l.read = some r ∧ r.status = .sent) : l.Keeps (sendFound t n) := by
  have hstore : ∀ (l' : Notes) result, l'.request = l.request → l'.Keeps (storeSendResult t result) :=
    fun l' result hl => keeps_storeSendResult (hl ▸ hreq)
  unfold sendFound
  split
  · split
    · exact (keeps_unnoted (only_sendUserOp (fun _ _ => rfl) t)).then hstore
    · exact (keeps_sendTransaction t).then hstore
  · rename_i hsent
    refine (keeps_resendTransaction (hread hsent) n).then fun l' result hl => ?_
    cases result with
    | none => rfl
    | some result => exact hstore l' result hl
  · rfl

theorem keeps_sendTransactionWorker {q : QueueId} {n : ℕ} (hreq : l.request.inserts = false) :
    l.Keeps (sendTransactionWorker q n) := by
  have hhandler : l.Keeps (sendTransactionHandler q n) := by
    refine follows_await (P := protocol) trivial (fun found _ => ?_) fun _ _ => rfl
    cases found with
    | none => rfl
    | some t =>
      have hfound : Keeps { l with read := some t } (sendFound (manuallyRetried t n) n) :=
        keeps_sendFound hreq fun h => ⟨t, rfl, status_of_manuallyRetried h⟩
      exact hfound
  have hlistener : ∀ (l' : Notes) made e, l'.request = l.request → l'.Keeps (sendFailedHandler q made e) := by
    intro l' made e hl
    unfold sendFailedHandler
    split
    · refine follows_await (P := protocol) trivial (fun found _ => ?_) fun _ _ => rfl
      cases found with
      | none => rfl
      | some t =>
        have hstore : ∀ message, Keeps { l' with read := some t }
          ((await (.setTransaction (erroredTransaction t message))).bind
            fun _ => enqueueTransactionWebhook (erroredTransaction t message)) := by
          intro message
          refine follows_await (P := protocol) (allowed_setTransaction (l := { l' with read := some t }) (hl ▸ hreq))
            (fun _ _ => ?_) fun _ _ => rfl
          exact follows_enqueueTransactionWebhook
            (l := { l' with read := some t, stored := some (erroredTransaction t message) }) rfl
        exact Keeps.after (l := { l' with read := some t }) (only_prettifyError t e) hstore
    · rfl
  have hattempt : l.Keeps (attempt (sendTransactionHandler q n)) := hhandler.attempt fun _ _ hl => hl
  refine hattempt.then fun l' result hl => ?_
  cases result with
  | ok u => exact keeps_unnoted (unnoted_await rfl)
  | error e => exact Keeps.after (unnoted_await rfl) fun made => hlistener l' made e hl

theorem keeps_mineTransactionWorker {q : QueueId} (hreq : l.request.inserts = false) :
    l.Keeps (mineTransactionWorker q) := by
  have hhandler : l.Keeps (mineTransactionHandler q) := by
    refine follows_await (P := protocol) trivial (fun found _ => ?_) fun _ _ => rfl
    cases found with
    | none => rfl
    | some sent =>
      have hmined : ∀ mined : Transaction, Keeps { l with read := some sent }
        ((await (.setTransaction mined)).bind fun _ =>
          (enqueueTransactionWebhook mined).bind fun _ => (getChain mined.chainId).bind fun _ =>
            await (.recordMetrics (.transactionMined mined.chainId mined.from))) :=
        fun mined => keeps_announced (l := { l with read := some sent }) hreq
          ((only_getChain _).bind fun _ => unnoted_await rfl)
      dsimp only
      split
      · split
        · refine Keeps.after (l := { l with read := some sent }) (only_mineUserOp (fun _ _ => rfl) sent)
            fun result => ?_
          cases result with
          | none => rfl
          | some mined => exact hmined mined
        · refine Keeps.after (l := { l with read := some sent })
            (only_mineTransaction (fun _ _ => rfl) (fun _ _ => rfl) (fun _ _ => rfl) sent) fun result => ?_
          cases result with
          | none => rfl
          | some mined => exact hmined mined
      · rfl
  have hlistener : ∀ (l' : Notes) made, l'.request = l.request → l'.Keeps (mineFailedHandler q made) := by
    intro l' made hl
    unfold mineFailedHandler
    split
    · refine follows_await (P := protocol) trivial (fun found _ => ?_) fun _ _ => rfl
      cases found with
      | none => rfl
      | some sent =>
        dsimp only
        split
        · refine keeps_announced (l := { l' with read := some sent }) (hl ▸ hreq) ?_
          split
          · exact only_done _
          · refine (only_recycleNonce _ _).bind fun _ => (only_defined _).bind fun nonce => ?_
            exact (unnoted_await rfl).bind fun _ => only_done _
        · rfl
    · rfl
  have hattempt : l.Keeps (attempt (mineTransactionHandler q)) := hhandler.attempt fun _ _ hl => hl
  refine hattempt.then fun l' result hl => ?_
  cases result with
  | ok u => exact keeps_unnoted (unnoted_await rfl)
  | error e => exact Keeps.after (unnoted_await rfl) fun made => hlistener l' made hl

/-! ### The routes -/

theorem follows_sendCancellationTransaction (k : Wallet) (n : Option ℤ) :
    (sendCancellationTransaction k n).Follows protocol (fun l' _ => l' = l) l := by
  refine (only_getChain _).follows_bind (fun _ ho => ignores_of_unnoted l ho) (fun _ => ?_) fun e => rfl
  refine follows_await (P := protocol) trivial (fun populated hp => ?_) fun _ _ => rfl
  refine follows_await (P := protocol) trivial (fun _ _ => ?_) fun _ _ => rfl
  obtain ⟨p, rfl⟩ := hp
  exact follows_perform (P := protocol) ⟨rfl, rfl, rfl⟩ fun r _ => by cases r <;> rfl

theorem keeps_cancelTransaction {q : QueueId} (hreq : l.request.inserts = false) : l.Keeps (cancelTransaction q) := by
  refine follows_await (P := protocol) trivial (fun found _ => ?_) fun _ _ => rfl
  cases found with
  | none => rfl
  | some t =>
    have hcancelled : ∀ (l' : Notes) (cancelled : Transaction) (reply : CancelReply), l'.request = l.request →
        l'.Keeps ((await (.setTransaction cancelled)).bind fun _ => (enqueueTransactionWebhook cancelled).bind fun _ =>
          (getChain cancelled.chainId).bind fun _ => done reply) :=
      fun l' cancelled reply hl => keeps_announced (hl ▸ hreq) ((only_getChain _).bind fun _ => only_done _)
    have hqueued : Keeps { l with read := some t } (cancelQueued t) :=
      keeps_unnoted (only_cancelQueued (fun _ _ => rfl) t)
    have hsent : Keeps { l with read := some t } (cancelSent t) :=
      Keeps.then ((follows_sendCancellationTransaction _ _).mono fun _ _ hl => congrArg Notes.request hl)
        fun _ _ _ => rfl
    dsimp only
    split
    · rfl
    · split
      · exact hqueued.then fun l' cancelled hl => hcancelled l' cancelled _ hl
      · exact hsent.then fun l' cancelled hl => hcancelled l' cancelled _ hl
      · rfl

theorem keeps_retryTransaction {q : QueueId} {fee priority : Option String} (hreq : l.request.inserts = false) :
    l.Keeps (retryTransaction q fee priority) := by
  refine follows_await (P := protocol) trivial (fun found _ => ?_) fun _ _ => rfl
  cases found with
  | none => rfl
  | some t =>
    dsimp only
    split
    · rfl
    · refine Keeps.after (l := { l with read := some t }) (only_maybeBigInt _) fun _ => ?_
      refine Keeps.after (only_maybeBigInt _) fun _ => ?_
      refine follows_await (P := protocol) (allowed_setTransaction (l := { l with read := some t }) hreq)
        (fun _ _ => ?_)
        fun _ _ => rfl
      exact follows_perform (P := protocol) trivial fun r _ => by cases r <;> rfl

theorem keeps_syncRetrySend {sent : Transaction} {fee priority : Option String}
    (hread : ∃ r, l.read = some r ∧ r.status = .sent) : l.Keeps (syncRetrySend sent fee priority) := by
  refine Keeps.after (only_getChain _) fun _ => ?_
  refine Keeps.after (only_maybeBigInt _) fun _ => Keeps.after (only_maybeBigInt _) fun _ => ?_
  refine Keeps.after (unnoted_await rfl) fun populated => Keeps.after (unnoted_await rfl) fun _ => ?_
  refine follows_await (P := protocol) (Or.inr hread) (fun hash _ => ?_) fun _ _ => rfl
  exact Keeps.after (l := l) (only_getBlockNumberish _) fun block => Keeps.after (only_defined _) fun hashes => rfl

theorem keeps_syncRetryTransaction {q : QueueId} {fee priority : Option String} (hreq : l.request.inserts = false) :
    l.Keeps (syncRetryTransaction q fee priority) := by
  refine follows_await (P := protocol) trivial (fun found _ => ?_) fun _ _ => rfl
  cases found with
  | none => rfl
  | some t =>
    dsimp only
    split
    · rfl
    · rename_i hstatus
      have hsent : t.status = .sent := by
        by_contra hne
        exact hstatus (Or.inl hne)
      have hsend : Keeps { l with read := some t } (syncRetrySend t fee priority) :=
        keeps_syncRetrySend ⟨t, rfl, hsent⟩
      refine hsend.then fun l' sent hl => ?_
      refine follows_await (P := protocol) (allowed_setTransaction (hl ▸ hreq)) (fun _ _ => ?_) fun _ _ => rfl
      have hrest : Keeps { l' with stored := some sent } ((await (.mineQueueAdd sent.queueId)).bind fun _ =>
          (enqueueTransactionWebhook sent).bind fun _ => done (sent.sentTransactionHashes.bind List.getLast?)) :=
        Keeps.after (unnoted_await rfl) fun _ => (follows_enqueueTransactionWebhook rfl).then fun _ _ _ => rfl
      exact hrest

theorem keeps_retryFailedTransaction {q : QueueId} : l.Keeps (retryFailedTransaction q) := by
  refine follows_await (P := protocol) trivial (fun found _ => ?_) fun _ _ => rfl
  cases found with
  | none => rfl
  | some t =>
    have hreceipt : ∀ chain, Unnoted (findMinedReceipt t chain) := only_findMinedReceipt (fun _ _ => rfl) t
    have hretry : Unnoted ((removeJobs t.queueId).bind fun _ => await (.sendQueueAdd t.queueId 0)) :=
      (only_removeJobs (fun _ _ => rfl) (fun _ => rfl) _).bind fun _ => unnoted_await rfl
    dsimp only
    split
    · rfl
    · split
      · rfl
      · refine Keeps.after (l := { l with read := some t }) (only_getChain _) fun chain => ?_
        refine Keeps.after (hreceipt chain) fun receipt => ?_
        cases receipt with
        | some receipt => rfl
        | none => exact keeps_unnoted hretry

theorem keeps_cancelRecycledNoncesHandler : l.Keeps cancelRecycledNoncesHandler := by
  have hcancel : ∀ k n, (cancelNonce k n).Follows protocol (fun l' _ => l' = l) l := by
    intro k n
    refine Follows.handle (Q := fun l' _ => l' = l) ?_ (fun _ _ hl => hl) fun l' e hl => ?_
    · exact (follows_sendCancellationTransaction k _).bind (fun _ _ hl => hl) fun _ _ hl => hl
    · subst hl
      dsimp only
      split
      · rfl
      · exact follows_unnoted (only_recycleNonce k _)
  have hnonces : ∀ k, Unnoted (getAndDeleteRecycledNonces k) := by
    intro k
    refine (unnoted_await rfl).bind fun r => ?_
    cases r <;> trivial
  have hwallet : ∀ k, ((getAndDeleteRecycledNonces k).bind fun ns => forEach (cancelNonce k) ns).Follows protocol
      (fun l' _ => l' = l) l := by
    intro k
    refine (hnonces k).follows_bind (fun _ ho => ignores_of_unnoted l ho) (fun ns => ?_) fun e => rfl
    refine follows_forEach (S := fun _ l' => l' = l) rfl (fun n ns l' hl => ?_) fun l' hl => hl
    subst hl
    exact (hcancel k n).mono fun _ r hl => by cases r <;> exact hl
  refine Keeps.after (unnoted_await rfl) fun keys => ?_
  refine (follows_forEach (S := fun _ l' => l' = l) (R := fun l' _ => l' = l) rfl (fun k ks l' hl => ?_)
    fun l' hl => hl).mono fun _ _ hl => congrArg Notes.request hl
  subst hl
  exact (hwallet k).mono fun _ r hl => by cases r <;> exact hl

/-- An insertion stores the call that it was asked for, under its key or the id it drew. -/
theorem follows_insertTransaction (tx : InsertedTransaction) (key : Option String) (simulate : Bool) :
    Keeps { request := .insertTransaction tx key simulate } (insertTransaction tx key simulate) := by
  have hinsert : ∀ (l : Notes) q, l.request = .insertTransaction tx key simulate → insertionId key l.drawn = some q →
      l.Keeps (insertQueued (queuedTransaction tx q) simulate) := by
    intro l q hreq hid
    have hstore : l.Keeps ((await (.setTransaction (queuedTransaction tx q))).bind fun _ =>
        (await (.sendQueueAdd q 0)).bind fun _ =>
          (await (.recordMetrics (.transactionQueued tx.chainId tx.from))).bind fun _ => done q) := by
      refine follows_await (P := protocol) (fun tx' key' simulate' heq => ?_) (fun _ _ => ?_) fun _ _ => rfl
      · cases hreq.symm.trans heq
        exact ⟨q, hid, rfl⟩
      · exact keeps_unnoted (l := { l with stored := some (queuedTransaction tx q) })
          ((unnoted_await rfl).bind fun _ => (unnoted_await rfl).bind fun _ => only_done _)
    unfold insertQueued
    split
    · exact Keeps.after (only_assertSimulates _) fun _ => hstore
    · exact hstore
  refine follows_await (P := protocol) trivial (fun drawn _ => ?_) fun _ _ => rfl
  dsimp only
  split
  · rename_i hkey
    refine hinsert { request := .insertTransaction tx key simulate, drawn := some drawn } drawn rfl ?_
    unfold insertionId
    rw [hkey, Option.none_or]
  · rename_i q hkey
    refine Keeps.after (l := { request := .insertTransaction tx key simulate, drawn := some drawn }) (unnoted_await rfl)
      fun found => ?_
    split
    · rfl
    · refine hinsert _ q rfl ?_
      unfold insertionId
      rw [hkey, Option.some_or]

end
end Notes

def notesContract : Contract engine where
  toProtocol := Notes.protocol
  init k := { request := k }
  ends _ _ := True
  answers := possible_of_effect
  starts w k p w' h := by
    have hdiscard : ∀ {α : Type} {l : Notes} {p : Prog α}, l.Keeps p → l.Keeps (discard p) :=
      fun hp => hp.then fun _ _ _ => rfl
    have hends : ∀ {l : Notes} {p : Prog Unit}, l.Keeps p → p.Follows Notes.protocol (fun _ _ => True) l :=
      fun hp => hp.mono fun _ _ _ => trivial
    cases k with
    | insertTransaction tx key simulate =>
      cases Option.some.inj h
      exact hends (hdiscard (Notes.follows_insertTransaction tx key simulate))
    | sendJob q n =>
      obtain ⟨j, -, hp⟩ := Option.map_eq_some_iff.mp h
      cases hp
      exact hends (Notes.keeps_sendTransactionWorker rfl)
    | mineJob q =>
      obtain ⟨j, -, hp⟩ := Option.map_eq_some_iff.mp h
      cases hp
      exact hends (Notes.keeps_mineTransactionWorker rfl)
    | cancel q =>
      cases Option.some.inj h
      exact hends (hdiscard (Notes.keeps_cancelTransaction rfl))
    | retry q fee priority =>
      cases Option.some.inj h
      exact hends (Notes.keeps_retryTransaction rfl)
    | syncRetry q fee priority =>
      cases Option.some.inj h
      exact hends (hdiscard (Notes.keeps_syncRetryTransaction rfl))
    | retryFailed q =>
      cases Option.some.inj h
      exact hends Notes.keeps_retryFailedTransaction
    | cancelRecycledNonces =>
      cases Option.some.inj h
      exact hends Notes.keeps_cancelRecycledNoncesHandler
    | chainExecutes c hash =>
      cases Option.some.inj h
      exact hends (Notes.keeps_unnoted (Notes.unnoted_await rfl))
    | chainConsumes k n =>
      cases Option.some.inj h
      exact hends (Notes.keeps_unnoted (Notes.unnoted_await rfl))

end Engine
