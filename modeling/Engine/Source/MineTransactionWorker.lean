import Engine.Source.WalletNonce

/-! `worker/tasks/mineTransactionWorker.ts`: poll a sent transaction or user
operation until it is mined, ask for resends, time it out. -/
namespace Engine
open Concurrent Program

/-- The stored record of a mined EOA transaction. -/
def minedTransaction (sent : Transaction) (receipt : TransactionReceipt) : Transaction :=
  { sent with
    status := .mined, transactionHash := some receipt.transactionHash,
    minedAtBlock := some receipt.blockNumber, transactionType := some receipt.type,
    onchainStatus := some receipt.status, gasUsed := some receipt.gasUsed,
    effectiveGasPrice := some receipt.effectiveGasPrice,
    cumulativeGasUsed := some receipt.cumulativeGasUsed,
    errorMessage := if receipt.status = .reverted then
      some "The transaction failed onchain. See: https://portal.thirdweb.com/engine/troubleshooting"
    else none }

/-- The first fulfilled result. -/
def firstReceipt : List (Except Err TransactionReceipt) → Option TransactionReceipt
  | [] => none
  | .ok receipt :: _ => some receipt
  | .error _ :: rest => firstReceipt rest

/-- Ask for a resend when enough blocks passed since the last send. -/
def resendIfDue (sent : Transaction) : Prog Unit := do
  let config ← await .getConfig
  let blockNumber ← getBlockNumberish sent.chainId
  let sentAtBlock ← defined sent.sentAtBlock
  if blockNumber - sentAtBlock ≥ config.minEllapsedBlocksBeforeRetry then
    await (.sendQueueAdd sent.queueId (sent.resendCount + 1))
  else pure ()

def mineTransaction (sent : Transaction) : Prog (Option Transaction) := do
  assert (!sent.isUserOp)
  let chain ← getChain sent.chainId
  let hashes ← defined sent.sentTransactionHashes
  let receiptResults ← settle (fun hash => await (.ethGetTransactionReceipt chain hash)) hashes
  match firstReceipt receiptResults with
  | some receipt => do
    let nonce ← defined sent.nonce
    let _ ← removeSentNonce sent.wallet nonce
    pure (some (minedTransaction sent receipt))
  | none => do
    resendIfDue sent
    pure none

def minedUserOp (sent : Transaction) (raw : UserOpReceiptRaw) (receipt : TransactionReceipt)
    (errorMessage : Option String) : Transaction :=
  { sent with
    status := .mined, transactionHash := some receipt.transactionHash,
    minedAtBlock := some receipt.blockNumber, transactionType := some receipt.type,
    onchainStatus := some (if raw.success then .success else .reverted),
    gasUsed := some receipt.gasUsed, effectiveGasPrice := some receipt.effectiveGasPrice,
    gas := some receipt.gasUsed, cumulativeGasUsed := some receipt.cumulativeGasUsed,
    sender := some raw.sender, nonce := some raw.nonce, errorMessage := errorMessage }

/-- The message of an unsuccessful user operation, which its parsed receipt fails with. -/
def userOpError (hash : UserOpHash) : Prog (Option String) :=
  tryCatch (do
      await (.getUserOpReceipt hash)
      await .jobLog
      pure none)
    fun e => do
      await .jobLog
      pure (some (e.message.getD ""))

def mineUserOp (sent : Transaction) : Prog (Option Transaction) := do
  assert sent.isUserOp
  let chain ← getChain sent.chainId
  let userOpHash ← defined sent.userOpHash
  let userOpReceiptRaw ← await (.getUserOpReceiptRaw userOpHash)
  match userOpReceiptRaw with
  | none => pure none
  | some raw => do
    let hash ← await (.ethGetTransactionByHash chain raw.transactionHash)
    let receipt ← await (.ethGetTransactionReceipt chain hash)
    let errorMessage ← if raw.success then pure none else userOpError userOpHash
    pure (some (minedUserOp sent raw receipt errorMessage))

def mineTransactionHandler (queueId : QueueId) : Prog Unit := do
  let transaction ← await (.getTransaction queueId)
  match transaction with
  | none => pure ()
  | some sent =>
    if sent.status = .sent then do
      let result ← if sent.isUserOp then mineUserOp sent else mineTransaction sent
      match result with
      | none => throw (Err.new "NOT_CONFIRMED_YET")
      | some mined => do
        await (.setTransaction mined)
        enqueueTransactionWebhook mined
        let _ ← getChain mined.chainId
        await (.recordMetrics (.transactionMined mined.chainId mined.from))
    else pure ()

/-- The stored record of a transaction that was not mined in time. -/
def timedOutTransaction (sent : Transaction) : Transaction :=
  { sent with status := .errored, errorMessage := some "Transaction timed out." }

/-- The `failed` listener: error the transaction and release its nonce. -/
def mineFailedHandler (queueId : QueueId) (attemptsMade : ℕ) : Prog Unit :=
  if attemptsMade = mineAttempts then do
    let transaction ← await (.getTransaction queueId)
    match transaction with
    | none => pure ()
    | some sent =>
      if sent.status = .sent then do
        await (.setTransaction (timedOutTransaction sent))
        enqueueTransactionWebhook (timedOutTransaction sent)
        if sent.isUserOp then pure ()
        else do
          recycleNonce sent.wallet sent.nonce
          let nonce ← defined sent.nonce
          let _ ← removeSentNonce sent.wallet nonce
      else pure ()
  else pure ()

/-- One attempt of a mine job, and the listener when it failed. -/
def mineTransactionWorker (queueId : QueueId) : Prog Unit := do
  let result ← attempt (mineTransactionHandler queueId)
  match result with
  | .ok _ => await (.mineJobCompleted queueId)
  | .error _ => do
    let attemptsMade ← await (.mineJobFailed queueId)
    mineFailedHandler queueId attemptsMade

end Engine
