import Engine.Records.Engine
import Engine.Source.Calls

/-! What a process of the service may do to a transaction: the writes that each
handler can make from the record it read, and the broadcasts it can send. -/
namespace Engine
open Concurrent Program

/-- How far a process is with a transaction. In the phases between `accepted` and
`timedOut` something has happened that the stored record does not show yet. -/
inductive Phase
  | idle
  /-- The account's broadcast was accepted. -/
  | accepted (hash : TransactionHash)
  /-- And its nonce was added to `nonce-sent`. -/
  | marked (hash : TransactionHash)
  | bundled (hash : UserOpHash)
  /-- The mined transaction's nonce was removed from `nonce-sent`. -/
  | unmarked
  /-- The timed out record was stored, its nonce is still in `nonce-sent`. -/
  | timedOut
  | stored
  /-- A call threw before the handler was done. -/
  | lost
deriving DecidableEq

/-- The record will be written with what was just submitted. -/
def Phase.submitted : Phase → Bool
  | .accepted _ | .marked _ | .bundled _ => true
  | _ => false

/-- The record and `nonce-sent` do not agree, or will not. -/
def Phase.unfinished : Phase → Bool
  | .idle | .stored | .lost => false
  | _ => true

structure Local where
  request : Request
  /-- The transaction that the process works on. -/
  queueId : Option QueueId := none
  /-- The process holds its job. -/
  held : Bool := false
  /-- The job failed for the last time. -/
  exhausted : Bool := false
  /-- The record that was read last. -/
  read : Option Transaction := none
  /-- The receipts found since. -/
  receipts : List TransactionReceipt := []
  phase : Phase := .idle
deriving DecidableEq

namespace Local

/-- A call threw. -/
def threw (l : Local) : Local := if l.phase.unfinished then { l with phase := .lost } else l

/-- The attempt is over; the `failed` listener starts anew. -/
def attempted (l : Local) (exhausted : Bool) : Local :=
  { l with held := false, exhausted := exhausted, read := none, receipts := [], phase := .idle }

def next (l : Local) : (o : Op) → Except Err o.Reply → Local
  | .randomUUID, .ok q => { l with queueId := some q }
  | .existsTransaction q, .ok false => { l with queueId := some q }
  | .getTransaction _, .ok t => { l with read := t, receipts := [], phase := .idle }
  | .ethGetTransactionReceipt _ _, .ok receipt => { l with receipts := receipt :: l.receipts }
  | .accountSendTransaction (.transaction _) _ _, .ok hash => { l with phase := .accepted hash }
  | .bundleUserOp _ _, .ok hash => { l with phase := .bundled hash }
  | .saddSent _ _, .ok _ =>
    match l.phase with
    | .accepted hash => { l with phase := .marked hash }
    | _ => l
  | .sremSent _ _, .ok _ => { l with phase := if l.held then .unmarked else .stored }
  | .setTransaction t, .ok _ =>
    match l.request with
    | .mineJob _ => { l with phase := if l.held || t.isUserOp then .stored else .timedOut }
    | _ => { l with phase := .stored }
  | .getLatestBlock _, .ok none => l.threw
  | .sendJobCompleted _ _, .ok _ => l.attempted false
  | .sendJobFailed _ _, .ok n => l.attempted (n = sendAttempts)
  | .mineJobCompleted _, .ok _ => l.attempted false
  | .mineJobFailed _, .ok n => l.attempted (n = mineAttempts)
  | .ethBlockNumber _, .error _ => l
  | _, .error _ => l.threw
  | _, .ok _ => l

end Local

/-- The hash is of a transaction that carries the record's call to `recipient`. -/
structure Carries (t : Transaction) (recipient : Option Address) (hash : TransactionHash) : Prop where
  signer : hash.signer = t.from
  chainId : hash.transaction.chainId = t.chainId
  «to» : hash.transaction.to = recipient
  data : hash.transaction.data = t.data
  value : hash.transaction.value = t.value

theorem Carries.wallet {t : Transaction} {recipient : Option Address} {hash : TransactionHash}
    (h : Carries t recipient hash) : hash.wallet = t.wallet := by
  unfold TransactionHash.wallet Transaction.wallet
  rw [h.chainId, h.signer]

/-- A first send of an EOA transaction by a send job, with any nonce. -/
structure FirstSend (l : Local) (r : Transaction) (q : QueueId) (n : ℕ) (hash : TransactionHash) : Prop where
  request : l.request = .sendJob q n
  held : l.held = true
  read : l.read = some r
  queued : (manuallyRetried r n).status = .queued
  eoa : r.isUserOp = false
  carries : Carries r (r.to.or r.target) hash

/-- A broadcast of a sent EOA transaction again, with the nonce of its record. -/
structure SendAgain (l : Local) (r : Transaction) (hash : TransactionHash) : Prop where
  request : (∃ q n, l.request = .sendJob q n ∧ l.held = true) ∨ ∃ q a b, l.request = .syncRetry q a b
  read : l.read = some r
  sent : r.status = .sent
  eoa : r.isUserOp = false
  carries : Carries r r.to hash
  nonce : ∀ m, r.nonce = some m → hash.nonce = m

/-- The records that a process may store. -/
inductive Writes (l : Local) : Transaction → Prop
  | queued (tx : InsertedTransaction) (key : Option String) (simulate : Bool) (q : QueueId)
      (hreq : l.request = .insertTransaction tx key simulate) (hq : l.queueId = some q)
      (hidle : l.phase = .idle) : Writes l (queuedTransaction tx q)
  | unpopulated (r : Transaction) (q : QueueId) (n : ℕ) (message : String)
      (hreq : l.request = .sendJob q n) (hheld : l.held = true) (hread : l.read = some r)
      (hidle : l.phase = .idle) (hqueued : (manuallyRetried r n).status = .queued) :
      Writes l (erroredTransaction (manuallyRetried r n) message)
  | sent (r : Transaction) (q : QueueId) (n : ℕ) (hash : TransactionHash) (block : ℤ)
      (hphase : l.phase = .marked hash) (hsend : FirstSend l r q n hash) :
      Writes l (sentTransaction (manuallyRetried r n) hash.transaction hash block)
  | sentUserOp (r : Transaction) (q : QueueId) (n : ℕ) (hash : UserOpHash) (block : ℤ)
      (hreq : l.request = .sendJob q n) (hheld : l.held = true) (hread : l.read = some r)
      (hphase : l.phase = .bundled hash) (hqueued : (manuallyRetried r n).status = .queued)
      (huser : r.isUserOp = true) : Writes l (sentUserOp (manuallyRetried r n) hash.userOp hash block)
  | resent (r : Transaction) (q : QueueId) (n : ℕ) (hashes : List TransactionHash) (hash : TransactionHash)
      (block : ℤ) (hreq : l.request = .sendJob q n) (hphase : l.phase = .accepted hash)
      (hsend : SendAgain l r hash) (hhashes : r.sentTransactionHashes = some hashes) :
      Writes l (resentTransaction r hashes hash.transaction n hash block)
  | failed (r : Transaction) (q : QueueId) (n : ℕ) (message : String) (hreq : l.request = .sendJob q n)
      (hheld : l.held = false) (hexhausted : l.exhausted = true) (hread : l.read = some r)
      (hidle : l.phase = .idle) : Writes l (erroredTransaction r message)
  | mined (r : Transaction) (q : QueueId) (hashes : List TransactionHash) (receipt : TransactionReceipt)
      (hreq : l.request = .mineJob q) (hheld : l.held = true) (hread : l.read = some r)
      (hphase : l.phase = .unmarked) (hsent : r.status = .sent) (heoa : r.isUserOp = false)
      (hhashes : r.sentTransactionHashes = some hashes) (hmem : receipt.transactionHash ∈ hashes)
      (hfound : receipt ∈ l.receipts) : Writes l (minedTransaction r receipt)
  | minedUserOp (r : Transaction) (q : QueueId) (raw : UserOpReceiptRaw) (receipt : TransactionReceipt)
      (message : Option String) (hreq : l.request = .mineJob q) (hheld : l.held = true)
      (hread : l.read = some r) (hidle : l.phase = .idle) (hsent : r.status = .sent)
      (huser : r.isUserOp = true) : Writes l (minedUserOp r raw receipt message)
  | timedOut (r : Transaction) (q : QueueId) (hreq : l.request = .mineJob q) (hheld : l.held = false)
      (hexhausted : l.exhausted = true) (hread : l.read = some r) (hidle : l.phase = .idle)
      (hsent : r.status = .sent) : Writes l (timedOutTransaction r)
  | cancelledQueued (r : Transaction) (q : QueueId) (block : ℤ) (hreq : l.request = .cancel q)
      (hread : l.read = some r) (hidle : l.phase = .idle) (hqueued : r.status = .queued)
      (heoa : r.isUserOp = false) : Writes l (cancelledQueued r block)
  | cancelledSent (r : Transaction) (q : QueueId) (hash : TransactionHash) (hreq : l.request = .cancel q)
      (hread : l.read = some r) (hidle : l.phase = .idle) (hsent : r.status = .sent)
      (heoa : r.isUserOp = false) : Writes l (cancelledSent r hash)
  | retried (r : Transaction) (q : QueueId) (a b : Option String) (fee priority : Option ℤ)
      (hreq : l.request = .retry q a b) (hread : l.read = some r) (hidle : l.phase = .idle)
      (hsent : r.status = .sent) : Writes l (retriedTransaction r fee priority)
  | syncRetried (r : Transaction) (q : QueueId) (a b : Option String) (hashes : List TransactionHash)
      (hash : TransactionHash) (block : ℤ) (hreq : l.request = .syncRetry q a b)
      (hphase : l.phase = .accepted hash) (hsend : SendAgain l r hash)
      (hhashes : r.sentTransactionHashes = some hashes) :
      Writes l (syncRetriedTransaction r hashes hash.transaction hash block)

/-- The send jobs that a process may add. -/
inductive AddsSendJob (l : Local) (q : QueueId) : ℕ → Prop
  | inserted (tx : InsertedTransaction) (key : Option String) (simulate : Bool)
      (hreq : l.request = .insertTransaction tx key simulate) (hq : l.queueId = some q)
      (hstored : l.phase = .stored) : AddsSendJob l q 0
  | resend (r : Transaction) (hread : l.read = some r) (hq : r.queueId = q) (hsent : r.status = .sent)
      (hreq : (∃ q', l.request = .mineJob q') ∨ ∃ q' a b, l.request = .retry q' a b) :
      AddsSendJob l q (r.resendCount + 1)
  | retryFailed (r : Transaction) (hread : l.read = some r) (hq : r.queueId = q)
      (herrored : r.status = .errored) (heoa : r.isUserOp = false) (hreq : ∃ q', l.request = .retryFailed q') :
      AddsSendJob l q 0

/-- The calls that say nothing about a transaction. -/
def Op.ignored : Op → Bool
  | .zpopminRecycled _ | .zaddRecycled _ _ | .keysRecycled | .multiZrangeDelRecycled _ => true
  | .incrNonce _ | .setNonce _ _ | .evalNonceIfHigher _ _ | .zaddNonceMap _ _ _ => true
  | .sismemberSent _ _ | .keysSent | .getNonce _ | .ethGetTransactionCountOrNaN _ => true
  | .getLatestBlock _ | .getConfig | .getAccount _ _ | .getSmartWallet _ _ _ => true
  | .ethGetTransactionCount _ | .ethBlockNumber _ | .toSerializableTransaction _ => true
  | .accountSendTransaction .cancellation _ _ => true
  | .ethGetTransactionByHash _ _ | .simulateTransaction _ => true
  | .getChainMetadata _ | .readFactory _ _ | .createUnsignedUserOp _ _ _ | .getPaymasterAndData _ => true
  | .signUserOp _ | .getUserOpReceiptRaw _ | .getUserOpReceipt _ => true
  | .sendQueueGetJob _ _ | .mineQueueGetJob _ | .enqueueWebhook _ _ | .jobLog | .recordMetrics _ => true
  | _ => false

/-- A broadcast of a record without a list of hashes throws before it is recorded,
a time-out of a record without a nonce before the nonce is removed. -/
def Local.Malformed (l : Local) : Prop :=
  ∃ r, l.read = some r ∧ r.isUserOp = false ∧ r.status = .sent ∧
    (r.sentTransactionHashes = none ∧ (∃ hash, l.phase = .accepted hash) ∨ r.nonce = none ∧ l.phase = .timedOut)

/-- Nothing is left unfinished. -/
def Local.Settled (l : Local) : Prop := l.phase.unfinished = false ∨ l.Malformed

/-- Whose record a request is about. -/
def Request.queueId : Request → Option QueueId
  | .sendJob q _ | .mineJob q | .cancel q | .retry q _ _ | .syncRetry q _ _ | .retryFailed q => some q
  | _ => none

inductive Allowed (l : Local) : Op → Prop
  | ignore (o : Op) (h : o.ignored = true) : Allowed l o
  | receipt (chainId : ℕ) (hash : TransactionHash) : Allowed l (.ethGetTransactionReceipt chainId hash)
  | uuid (tx : InsertedTransaction) (key : Option String) (simulate : Bool)
      (hreq : l.request = .insertTransaction tx key simulate) (hidle : l.phase = .idle) : Allowed l .randomUUID
  | «exists» (tx : InsertedTransaction) (key : Option String) (simulate : Bool) (q : QueueId)
      (hreq : l.request = .insertTransaction tx key simulate) (hidle : l.phase = .idle) :
      Allowed l (.existsTransaction q)
  | get (q : QueueId) (hq : l.request.queueId = some q) (hidle : l.phase = .idle) :
      Allowed l (.getTransaction q)
  | set (t : Transaction) (h : Writes l t) : Allowed l (.setTransaction t)
  | sendFirst (r : Transaction) (q : QueueId) (n : ℕ) (a : Address) (tx : SerializableTransaction)
      (hidle : l.phase = .idle) (h : FirstSend l r q n ⟨a, tx⟩) :
      Allowed l (.accountSendTransaction (.transaction r.queueId) a tx)
  | sendAgain (r : Transaction) (a : Address) (tx : SerializableTransaction) (hidle : l.phase = .idle)
      (h : SendAgain l r ⟨a, tx⟩) : Allowed l (.accountSendTransaction (.transaction r.queueId) a tx)
  | bundle (r : Transaction) (q : QueueId) (n : ℕ) (u : UserOperation) (hreq : l.request = .sendJob q n)
      (hheld : l.held = true) (hread : l.read = some r) (hidle : l.phase = .idle)
      (hqueued : (manuallyRetried r n).status = .queued) (huser : r.isUserOp = true) :
      Allowed l (.bundleUserOp r.queueId u)
  | mark (r : Transaction) (q : QueueId) (n : ℕ) (hash : TransactionHash) (hphase : l.phase = .accepted hash)
      (h : FirstSend l r q n hash) : Allowed l (.saddSent r.wallet hash.nonce)
  | unmark (r : Transaction) (q : QueueId) (m : ℤ) (hreq : l.request = .mineJob q) (hheld : l.held = true)
      (hread : l.read = some r) (hidle : l.phase = .idle) (hsent : r.status = .sent)
      (heoa : r.isUserOp = false) (hnonce : r.nonce = some m) : Allowed l (.sremSent r.wallet m)
  | release (r : Transaction) (q : QueueId) (m : ℤ) (hreq : l.request = .mineJob q) (hheld : l.held = false)
      (hread : l.read = some r) (hphase : l.phase = .timedOut) (heoa : r.isUserOp = false)
      (hnonce : r.nonce = some m) : Allowed l (.sremSent r.wallet m)
  | addSend (q : QueueId) (n : ℕ) (h : AddsSendJob l q n) : Allowed l (.sendQueueAdd q n)
  | removeSend (q : QueueId) (n : ℕ) (h : ∃ q', l.request = .cancel q' ∨ l.request = .retryFailed q')
      (hidle : l.phase = .idle) : Allowed l (.sendQueueRemove q n)
  | addMine (q : QueueId) (hstored : l.phase = .stored) : Allowed l (.mineQueueAdd q)
  | removeMine (q : QueueId) (h : ∃ q', l.request = .retryFailed q') (hidle : l.phase = .idle) :
      Allowed l (.mineQueueRemove q)
  | sendCompleted (q : QueueId) (n : ℕ) (hreq : l.request = .sendJob q n) (hheld : l.held = true)
      (hsettled : l.phase.unfinished = false) : Allowed l (.sendJobCompleted q n)
  | sendFailed (q : QueueId) (n : ℕ) (hreq : l.request = .sendJob q n) (hheld : l.held = true)
      (hsettled : l.Settled) : Allowed l (.sendJobFailed q n)
  | mineCompleted (q : QueueId) (hreq : l.request = .mineJob q) (hheld : l.held = true)
      (hsettled : l.phase.unfinished = false) : Allowed l (.mineJobCompleted q)
  | mineFailed (q : QueueId) (hreq : l.request = .mineJob q) (hheld : l.held = true)
      (hsettled : l.phase.unfinished = false) : Allowed l (.mineJobFailed q)
  | execute (c : Caller) (h : TransactionHash) (hreq : l.request = .chainExecutes c h) :
      Allowed l (.chainExecutes c h)
  | consume (k : Wallet) (n : ℤ) (hreq : l.request = .chainConsumes k n) : Allowed l (.chainConsumes k n)

abbrev records : Protocol Calls where
  Local := Local
  next := Local.next
  allowed := Allowed
  possible := Op.possible

namespace Local
variable {l : Local}

theorem threw_of_finished (h : l.phase.unfinished = false) : l.threw = l := by simp [threw, h]

/-- A call that throws loses what is unfinished. -/
theorem next_error (o : Op) (e : Err) :
    l.next o (.error e) = match o with
      | .ethBlockNumber _ => l
      | _ => l.threw := by
  cases o with
  | accountSendTransaction c a tx => cases c <;> rfl
  | _ => rfl

theorem next_error_of_finished (h : l.phase.unfinished = false) (o : Op) (e : Err) :
    l.next o (.error e) = l := by
  rw [next_error]
  split
  · rfl
  · exact threw_of_finished h

theorem ignores (h : l.phase.unfinished = false) {o : Op} (ho : o.ignored = true) : records.Ignores l o := by
  refine ⟨.ignore o ho, fun r _ => ?_⟩
  cases r with
  | error e => exact next_error_of_finished h o e
  | ok r =>
    cases o with
    | getLatestBlock chainId =>
      cases r with
      | none => exact threw_of_finished h
      | some b => rfl
    | accountSendTransaction c a tx =>
      cases c with
      | transaction q => cases ho
      | cancellation => rfl
    | _ => first | rfl | cases ho

end Local

/-! ### The parts of the handlers that say nothing about a transaction -/

abbrev Quiet (p : Prog α) : Prop := p.Only fun o : Op => o.ignored = true

instance : HasLookups fun o : Op => o.ignored = true where
  isLookup o ho := by cases o <;> first | rfl | cases ho

instance : HasCounters fun o : Op => o.ignored = true where
  counts o ho := by cases o <;> first | rfl | cases ho

theorem quiet_await {o : Op} (h : o.ignored = true) : Quiet (await o) := only_perform h

theorem quiet_enqueueTransactionWebhook (t : Transaction) : Quiet (enqueueTransactionWebhook t) :=
  only_enqueueTransactionWebhook (fun _ _ => rfl) t

theorem quiet_acquireNonce (q : QueueId) (k : Wallet) : Quiet (acquireNonce q k) :=
  only_acquireNonce (fun _ _ _ => rfl) q k

theorem quiet_sendCancellationTransaction (k : Wallet) (n : Option ℤ) : Quiet (sendCancellationTransaction k n) :=
  only_sendCancellationTransaction (fun _ _ => rfl) k n

theorem quiet_cancelRecycledNoncesHandler : Quiet cancelRecycledNoncesHandler :=
  only_cancelRecycledNoncesHandler rfl (fun _ => rfl) fun _ _ => rfl

end Engine
