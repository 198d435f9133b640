import Engine.Concurrent.Protocol
import Engine.Source.InsertTransaction
import Engine.Source.MineTransactionWorker
import Engine.Source.Routes
import Engine.Source.SendTransactionWorker

/-! Which calls the functions of the source make: those of any kind that the lookups belong to, and the few others that
each function is named with. -/
namespace Engine
open Concurrent Program

/-- The calls of a simulation. -/
def Op.simulates : Op → Bool
  | .getConfig | .getAccount _ _ | .getSmartWallet _ _ _ | .simulateTransaction _ => true
  | _ => false

/-- The calls that find out where the chain is. -/
def Op.asksChain : Op → Bool
  | .getConfig | .ethBlockNumber _ | .getLatestBlock _ | .ethGetTransactionCount _ => true
  | _ => false

/-- The calls that ask for something, and change nothing. -/
def Op.isLookup : Op → Bool
  | .toSerializableTransaction _ | .ethGetTransactionByHash _ _ | .getChainMetadata _ => true
  | .readFactory _ _ | .createUnsignedUserOp _ _ _ | .getPaymasterAndData _ | .signUserOp _ => true
  | .getUserOpReceiptRaw _ | .getUserOpReceipt _ | .sendQueueGetJob _ _ | .mineQueueGetJob _ | .jobLog => true
  | o => o.simulates || o.asksChain

/-- The calls for the counter and the recycled nonces of a wallet. -/
def Op.counts : Op → Bool
  | .zpopminRecycled _ | .zaddRecycled _ _ | .incrNonce _ | .setNonce _ _ | .evalNonceIfHigher _ _ => true
  | _ => false

class HasChainCalls (S : Op → Prop) : Prop where
  asksChain : ∀ o : Op, o.asksChain = true → S o

class HasLookups (S : Op → Prop) : Prop where
  isLookup : ∀ o : Op, o.isLookup = true → S o

class HasCounters (S : Op → Prop) : Prop where
  counts : ∀ o : Op, o.counts = true → S o

instance HasLookups.chainCalls {S : Op → Prop} [HasLookups S] : HasChainCalls S where
  asksChain o ho := HasLookups.isLookup o (by cases o <;> first | rfl | cases ho)

section
variable {S : Op → Prop}

theorem only_assert (b : Bool) : (assert b).Only S := by
  unfold assert
  split <;> trivial

theorem only_defined (field : Option α) : (defined field).Only S := by
  cases field <;> trivial

theorem only_maybeBigInt (val : Option String) : (maybeBigInt val).Only S := by
  unfold maybeBigInt
  split
  · exact only_done _
  · split
    · exact only_done _
    · exact only_raise _

theorem only_settle {f : β → Prog α} (hf : ∀ b, (f b).Only S) (bs : List β) : (settle f bs).Only S := by
  induction bs with
  | nil => exact only_done _
  | cons b bs ih => exact (hf b).attempt.bind fun r => ih.bind fun rs => only_done _

theorem only_enqueueTransactionWebhook (h : ∀ type q, S (.enqueueWebhook type q)) (t : Transaction) :
    (enqueueTransactionWebhook t).Only S := by
  unfold enqueueTransactionWebhook
  split
  · exact only_perform (h _ _)
  · exact only_perform (h _ _)
  · exact only_perform (h _ _)
  · exact only_perform (h _ _)
  · exact only_done _

theorem only_receipts (hreceipt : ∀ c h, S (.ethGetTransactionReceipt c h)) (chain : ℕ)
    (hashes : List TransactionHash) :
    (settle (fun hash => await (.ethGetTransactionReceipt chain hash)) hashes).Only S := by
  refine only_settle (fun hash => ?_) hashes
  exact only_perform (hreceipt chain hash)

theorem only_findMinedReceipt (hreceipt : ∀ c h, S (.ethGetTransactionReceipt c h)) (t : Transaction) (chain : ℕ) :
    (findMinedReceipt t chain).Only S := by
  unfold findMinedReceipt
  split
  · exact only_done _
  · exact (only_receipts hreceipt chain _).bind fun receipts => only_done _

/-! ### Simulations -/

theorem simulates_doSimulateTransaction (t : Transaction) :
    (doSimulateTransaction t).Only fun o : Op => o.simulates = true := by
  have hcall : ∀ o : Op, o.simulates = true → (await o).Only fun o : Op => o.simulates = true :=
    fun o ho => only_perform ho
  refine ((hcall _ rfl).bind fun _ => only_done _).bind fun chain => ?_
  split
  · exact only_raise _
  · dsimp only
    split
    · exact (hcall _ rfl).bind fun _ => ((hcall _ rfl).bind fun _ => only_done _).handle fun _ => only_done _
    · exact (hcall _ rfl).bind fun _ => ((hcall _ rfl).bind fun _ => only_done _).handle fun _ => only_done _

theorem simulates_assertSimulates (t : Transaction) : (assertSimulates t).Only fun o : Op => o.simulates = true := by
  refine (simulates_doSimulateTransaction t).bind fun error => ?_
  cases error with
  | none => exact only_done _
  | some error => exact only_raise _

/-! ### The chain -/

section
variable [HasChainCalls S]

theorem only_asks {o : Op} (ho : o.asksChain = true) : (await o).Only S := only_perform (HasChainCalls.asksChain o ho)

theorem only_getChain (chainId : ℕ) : (getChain chainId).Only S := (only_asks rfl).bind fun _ => only_done _

theorem only_getBlockNumberish (chainId : ℕ) : (getBlockNumberish chainId).Only S := by
  refine (only_getChain chainId).bind fun chain => (only_asks rfl).handle fun e => ?_
  refine (only_asks rfl).bind fun cached => ?_
  cases cached <;> trivial

theorem only_syncLatestNonceFromOnchainIfHigher (h : ∀ k c, S (.evalNonceIfHigher k c)) (k : Wallet) :
    (syncLatestNonceFromOnchainIfHigher k).Only S :=
  (only_getChain _).bind fun _ => (only_asks rfl).bind fun _ => only_perform (h _ _)

end

/-! ### Nonces -/

section
variable [HasCounters S]

theorem only_counts {o : Op} (ho : o.counts = true) : (await o).Only S := only_perform (HasCounters.counts o ho)

theorem only_recycleNonce (k : Wallet) (n : Option ℤ) : (recycleNonce k n).Only S := by
  cases n with
  | none => exact only_done _
  | some n => exact only_counts rfl

variable [HasChainCalls S]

theorem only_syncIfHigher (k : Wallet) : (syncLatestNonceFromOnchainIfHigher k).Only S :=
  only_syncLatestNonceFromOnchainIfHigher (fun _ _ => HasCounters.counts _ rfl) k

theorem only_incrementNonce (k : Wallet) : (incrementNonce k).Only S := by
  have hsync : (syncLatestNonceFromOnchain k).Only S :=
    (only_getChain _).bind fun _ => (only_asks rfl).bind fun _ => only_counts rfl
  refine (only_counts rfl).bind fun n => ?_
  split
  · exact hsync.bind fun _ => only_counts rfl
  · exact only_done _

theorem only_acquireNonce (h : ∀ k n q, S (.zaddNonceMap k n q)) (q : QueueId) (k : Wallet) :
    (acquireNonce q k).Only S := by
  refine (only_counts rfl).bind fun recycled => ?_
  cases recycled with
  | none => exact (only_incrementNonce k).bind fun n => (only_perform (h _ _ _)).bind fun _ => only_done _
  | some n => exact (only_perform (h _ _ _)).bind fun _ => only_done _

end

/-! ### Lookups -/

section
variable [HasLookups S]

theorem only_lookup {o : Op} (ho : o.isLookup = true) : (await o).Only S := only_perform (HasLookups.isLookup o ho)

theorem only_doSimulateTransaction (t : Transaction) : (doSimulateTransaction t).Only S :=
  (simulates_doSimulateTransaction t).mono fun o ho => HasLookups.isLookup o (by cases o <;> first | rfl | cases ho)

theorem only_assertSimulates (t : Transaction) : (assertSimulates t).Only S :=
  (simulates_assertSimulates t).mono fun o ho => HasLookups.isLookup o (by cases o <;> first | rfl | cases ho)

theorem only_prettifyError (t : Transaction) (e : Err) : (prettifyError t e).Only S := by
  unfold prettifyError
  split
  · exact only_done _
  · split
    · exact (only_getChain t.chainId).bind fun chain => (only_lookup rfl).bind fun _ => only_done _
    · split
      · exact (only_doSimulateTransaction t).bind fun _ => only_done _
      · exact only_done _

theorem only_getPopulatedOrErrored (queued : Transaction) : (getPopulatedOrErroredTransaction queued).Only S := by
  refine Only.handle ?_ fun e => only_done _
  dsimp only
  split
  · exact only_raise _
  · exact only_raise _
  · exact (only_getChain _).bind fun _ => (only_lookup rfl).bind fun _ => only_done _

/-- And what comes of it is the queued call, or an error of it. -/
theorem populates (queued : Transaction) :
    (getPopulatedOrErroredTransaction queued).Follows (.only S Op.possible)
      (fun _ r => ∃ x, r = .ok x ∧ PopulatedOrErrored queued x) () :=
  follows_getPopulatedOrErrored (HasLookups.isLookup _ rfl) (fun _ => HasLookups.isLookup _ rfl) queued

theorem only_generateSignedUserOperation (queued : Transaction) (populated : SerializableTransaction) :
    (generateSignedUserOperation queued populated).Only S := by
  have hfactory : ∀ chain a, (resolveAccountFactory queued chain a).Only S := by
    intro chain a
    unfold resolveAccountFactory
    split
    · exact only_done _
    · exact (only_lookup rfl).handle fun _ => only_raise _
  have hgas : ∀ u, (withGasOverride queued.gas u).Only S := by
    intro u
    unfold withGasOverride
    split
    · exact only_done _
    · exact (only_lookup rfl).bind fun _ => only_done _
  unfold generateSignedUserOperation
  split
  · refine (only_getChain _).bind fun chain => (hfactory _ _).bind fun factory => ?_
    refine (only_lookup rfl).bind fun u => (hgas u).bind fun u => ?_
    exact (only_lookup rfl).bind fun _ => only_lookup rfl
  · exact only_raise _

theorem only_userOpError (hash : UserOpHash) : (userOpError hash).Only S :=
  ((only_lookup rfl).bind fun _ => (only_lookup rfl).bind fun _ => only_done _).handle fun _ =>
    (only_lookup rfl).bind fun _ => only_done _

/-! ### Sending -/

theorem only_sendUserOp (hbundle : ∀ q u, S (.bundleUserOp q u)) (queued : Transaction) :
    (sendUserOp queued).Only S := by
  refine (only_assert _).bind fun _ => (only_getChain _).bind fun _ => ?_
  refine (only_getPopulatedOrErrored queued).bind fun x => ?_
  cases x with
  | error errored => exact only_done _
  | ok populated =>
    refine (only_generateSignedUserOperation _ _).bind fun signed => (only_perform (hbundle _ _)).bind fun hash => ?_
    exact (only_getBlockNumberish _).bind fun block => only_done _

theorem only_broadcast [HasCounters S] (hsend : ∀ c a tx, S (.accountSendTransaction c a tx)) (queued : Transaction)
    (populated : SerializableTransaction) : (broadcast queued populated).Only S := by
  refine Only.handle ?_ fun e => ?_
  · exact (only_lookup rfl).bind fun _ => only_perform (hsend _ _ _)
  · split
    · exact (only_syncIfHigher _).bind fun _ => only_raise _
    · exact (only_recycleNonce _ _).bind fun _ => only_raise _

theorem only_sendTransaction [HasCounters S] (hfile : ∀ k n q, S (.zaddNonceMap k n q))
    (hsend : ∀ c a tx, S (.accountSendTransaction c a tx)) (hmark : ∀ k n, S (.saddSent k n)) (queued : Transaction) :
    (sendTransaction queued).Only S := by
  refine (only_assert _).bind fun _ => (only_getPopulatedOrErrored queued).bind fun x => ?_
  cases x with
  | error errored => exact only_done _
  | ok populated =>
    refine (only_acquireNonce hfile _ _).bind fun acquired => (only_broadcast hsend queued _).bind fun hash => ?_
    exact (only_perform (hmark _ _)).bind fun _ => (only_getBlockNumberish _).bind fun block => only_done _

theorem only_resendTransaction (hsend : ∀ c a tx, S (.accountSendTransaction c a tx)) (sent : Transaction)
    (resendCount : ℕ) : (resendTransaction sent resendCount).Only S := by
  refine (only_assert _).bind fun _ => (only_getChain _).bind fun _ => ?_
  refine (only_lookup rfl).bind fun populated => Only.bind (Only.handle ?_ fun e => ?_) fun result => ?_
  · exact (only_lookup rfl).bind fun _ => (only_perform (hsend _ _ _)).bind fun _ => only_done _
  · split
    · exact only_done _
    · exact only_raise _
  · cases result with
    | none => exact only_done _
    | some hash =>
      exact (only_getBlockNumberish _).bind fun block => (only_defined _).bind fun hashes => only_done _

theorem only_syncRetrySend (hsend : ∀ c a tx, S (.accountSendTransaction c a tx)) (sent : Transaction)
    (fee priority : Option String) : (syncRetrySend sent fee priority).Only S := by
  refine (only_getChain _).bind fun _ => (only_maybeBigInt _).bind fun _ => (only_maybeBigInt _).bind fun _ => ?_
  refine (only_lookup rfl).bind fun populated => (only_lookup rfl).bind fun _ => ?_
  refine (only_perform (hsend _ _ _)).bind fun _ => (only_getBlockNumberish _).bind fun block => ?_
  exact (only_defined _).bind fun hashes => only_done _

theorem only_sendCancellationTransaction (hsend : ∀ a tx, S (.accountSendTransaction .cancellation a tx)) (k : Wallet)
    (n : Option ℤ) : (sendCancellationTransaction k n).Only S :=
  (only_getChain _).bind fun _ => (only_lookup rfl).bind fun _ => (only_lookup rfl).bind fun _ =>
    only_perform (hsend _ _)

theorem only_storeSendResult (hstore : ∀ t, S (.setTransaction t)) (hwebhook : ∀ type q, S (.enqueueWebhook type q))
    (hmine : ∀ q, S (.mineQueueAdd q)) (hmetrics : ∀ m, S (.recordMetrics m)) (t result : Transaction) :
    (storeSendResult t result).Only S := by
  refine (only_perform (hstore _)).bind fun _ => (only_enqueueTransactionWebhook hwebhook result).bind fun _ => ?_
  split
  · refine (only_perform (hmine _)).bind fun _ => ?_
    split
    · exact (only_getChain _).bind fun _ => only_perform (hmetrics _)
    · exact only_done _
  · split
    · exact only_perform (hmetrics _)
    · exact only_done _

/-! ### Mining -/

theorem only_resendIfDue (hadd : ∀ q n, S (.sendQueueAdd q n)) (sent : Transaction) : (resendIfDue sent).Only S := by
  refine (only_lookup rfl).bind fun config => (only_getBlockNumberish _).bind fun n => ?_
  refine (only_defined _).bind fun block => ?_
  split
  · exact only_perform (hadd _ _)
  · exact only_done _

theorem only_mineTransaction (hreceipt : ∀ c h, S (.ethGetTransactionReceipt c h)) (hunmark : ∀ k n, S (.sremSent k n))
    (hadd : ∀ q n, S (.sendQueueAdd q n)) (sent : Transaction) : (mineTransaction sent).Only S := by
  refine (only_assert _).bind fun _ => (only_getChain _).bind fun chain => (only_defined _).bind fun hashes => ?_
  refine (only_receipts hreceipt chain hashes).bind fun receipts => ?_
  split
  · exact (only_defined _).bind fun nonce => (only_perform (hunmark _ _)).bind fun _ => only_done _
  · exact (only_resendIfDue hadd sent).bind fun _ => only_done _

theorem only_mineUserOp (hreceipt : ∀ c h, S (.ethGetTransactionReceipt c h)) (sent : Transaction) :
    (mineUserOp sent).Only S := by
  refine (only_assert _).bind fun _ => (only_getChain _).bind fun chain => (only_defined _).bind fun hash => ?_
  refine (only_lookup rfl).bind fun raw => ?_
  cases raw with
  | none => exact only_done _
  | some raw =>
    refine (only_lookup rfl).bind fun hash => (only_perform (hreceipt _ _)).bind fun receipt => ?_
    dsimp only
    split
    · exact only_done _
    · exact (only_userOpError _).bind fun message => only_done _

/-! ### Routes -/

theorem only_cancelQueued (hremove : ∀ q n, S (.sendQueueRemove q n)) (queued : Transaction) :
    (cancelQueued queued).Only S := by
  refine (only_lookup rfl).bind fun config => (only_forEach (fun n => ?_) _).bind fun _ => ?_
  · exact (only_perform (hremove _ _)).handle fun _ => only_done _
  · exact (only_getBlockNumberish _).bind fun block => only_done _

theorem only_removeJobs (hremove : ∀ q n, S (.sendQueueRemove q n)) (hunwatch : ∀ q, S (.mineQueueRemove q))
    (q : QueueId) : (removeJobs q).Only S := by
  have hmine : ((await (.mineQueueGetJob q)).bind fun mineJob =>
      if mineJob = true then await (.mineQueueRemove q) else done ()).Only S := by
    refine (only_lookup rfl).bind fun mineJob => ?_
    split
    · exact only_perform (hunwatch _)
    · exact only_done _
  refine (only_lookup rfl).bind fun sendJob => ?_
  dsimp only
  split
  · exact (only_perform (hremove _ _)).bind fun _ => hmine
  · exact hmine

end

/-! ### Cancelling recycled nonces -/

theorem only_cancelRecycledNoncesHandler [HasLookups S] [HasCounters S] (hkeys : S .keysRecycled)
    (htake : ∀ k, S (.multiZrangeDelRecycled k)) (hsend : ∀ a tx, S (.accountSendTransaction .cancellation a tx)) :
    cancelRecycledNoncesHandler.Only S := by
  have hcancel : ∀ k n, (cancelNonce k n).Only S := by
    intro k n
    refine ((only_sendCancellationTransaction hsend k _).bind fun _ => only_done _).handle fun e => ?_
    split
    · exact only_done _
    · exact only_recycleNonce k _
  refine (only_perform hkeys).bind fun keys => only_forEach (fun k => ?_) keys
  refine Only.bind ?_ fun ns => only_forEach (hcancel k) ns
  refine (only_perform (htake k)).bind fun r => ?_
  cases r <;> trivial

end
end Engine
