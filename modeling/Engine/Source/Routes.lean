import Mathlib.Data.List.DropRight
import Engine.Source.CancelRecycledNoncesWorker

/-! `server/routes/transaction/`: cancel, retry, sync-retry and retry-failed. -/
namespace Engine
open Concurrent Program

def isStrWhiteSpace (c : Char) : Bool :=
  c.toNat ∈ [0x09, 0x0A, 0x0B, 0x0C, 0x0D, 0x20, 0xA0, 0x1680, 0x2028, 0x2029, 0x202F, 0x205F, 0x3000,
    0xFEFF] || (0x2000 ≤ c.toNat && c.toNat ≤ 0x200A)

def digitValue (c : Char) : Option ℕ :=
  if '0' ≤ c ∧ c ≤ '9' then some (c.toNat - '0'.toNat)
  else if 'a' ≤ c ∧ c ≤ 'z' then some (c.toNat - 'a'.toNat + 10)
  else if 'A' ≤ c ∧ c ≤ 'Z' then some (c.toNat - 'A'.toNat + 10)
  else none

def parseDigits (base : ℕ) (n : ℕ) : List Char → Option ℕ
  | [] => some n
  | c :: cs =>
    match digitValue c with
    | some d => if d < base then parseDigits base (base * n + d) cs else none
    | none => none

/-- One digit at least. -/
def parseNumeral (base : ℕ) (cs : List Char) : Option ℤ :=
  if cs = [] then none else (parseDigits base 0 cs).map Int.ofNat

/-- The text without surrounding blanks, read as `BigInt` reads it. -/
def parseTrimmed : List Char → Option ℤ
  | [] => some 0
  | '0' :: 'x' :: cs | '0' :: 'X' :: cs => parseNumeral 16 cs
  | '0' :: 'o' :: cs | '0' :: 'O' :: cs => parseNumeral 8 cs
  | '0' :: 'b' :: cs | '0' :: 'B' :: cs => parseNumeral 2 cs
  | '+' :: cs => parseNumeral 10 cs
  | '-' :: cs => (parseNumeral 10 cs).map Int.neg
  | cs => parseNumeral 10 cs

/-- `maybeBigInt(val)`: an empty or missing text is `undefined`. -/
def maybeBigInt (val : Option String) : Prog (Option ℤ) :=
  match val.filter (· ≠ "") with
  | none => pure none
  | some val =>
    match parseTrimmed ((val.toList.dropWhile isStrWhiteSpace).rdropWhile isStrWhiteSpace) with
    | some n => pure (some n)
    | none => throw ({ name := "SyntaxError", message := some ("Cannot convert " ++ val ++ " to a BigInt") } : Err)

def transactionNotFound : Err := createCustomError "Transaction not found." 400 "TRANSACTION_NOT_FOUND"

def cannotBeRetried (reason : String) : Err :=
  createCustomError ("Transaction cannot be retried" ++ reason) 400 "TRANSACTION_CANNOT_BE_RETRIED"

def cannotBeCancelled : Err :=
  createCustomError "Transaction cannot be cancelled." 400 "TRANSACTION_CANNOT_BE_CANCELLED"

def Status.text : Status → String
  | .queued => "queued"
  | .sent => "sent"
  | .mined => "mined"
  | .cancelled => "cancelled"
  | .errored => "errored"

/-- `SendTransactionQueue.remove`: a running job stays. -/
def removeSendJob (queueId : QueueId) (resendCount : ℕ) : Prog Unit :=
  tryCatch (await (.sendQueueRemove queueId resendCount)) fun _ => pure ()

/-- The stored record of a transaction that was cancelled before it was sent. -/
def cancelledQueued (queued : Transaction) (block : ℤ) : Transaction :=
  { queued with
    status := .cancelled, sentAtBlock := some block, isUserOp := false, nonce := some (-1),
    sentTransactionHashes := some [] }

/-- The stored record of a sent transaction that a null transaction replaces. -/
def cancelledSent (sent : Transaction) (transactionHash : TransactionHash) : Transaction :=
  { sent with status := .cancelled, sentTransactionHashes := some [transactionHash] }

/-- Remove the send jobs of `resendCount` 0 up to the configured number of retries. -/
def cancelQueued (queued : Transaction) : Prog Transaction := do
  let config ← await .getConfig
  forEach (removeSendJob queued.queueId) (List.range config.maxRetriesPerTx.toNat)
  let block ← getBlockNumberish queued.chainId
  pure (cancelledQueued queued block)

def cancelSent (sent : Transaction) : Prog Transaction := do
  let transactionHash ← sendCancellationTransaction sent.wallet sent.nonce
  pure (cancelledSent sent transactionHash)

structure CancelReply where
  queueId : QueueId
  status : String
  message : String
  transactionHash : Option TransactionHash
deriving DecidableEq

def cancelTransaction (queueId : QueueId) : Prog CancelReply := do
  let transaction ← await (.getTransaction queueId)
  match transaction with
  | none => throw transactionNotFound
  | some t => do
    let cancelled ←
      if t.isUserOp then throw cannotBeCancelled
      else match t.status with
        | .queued => cancelQueued t
        | .sent => cancelSent t
        | _ => throw cannotBeCancelled
    await (.setTransaction cancelled)
    enqueueTransactionWebhook cancelled
    let _ ← getChain cancelled.chainId
    pure {
      queueId, status := "success", message := "Transaction successfully cancelled.",
      transactionHash := cancelled.sentTransactionHashes.bind List.getLast? }

def retriedTransaction (sent : Transaction) (maxFeePerGas maxPriorityFeePerGas : Option ℤ) : Transaction :=
  { sent with maxFeePerGas := maxFeePerGas, maxPriorityFeePerGas := maxPriorityFeePerGas }

/-- User operations are not told apart here. -/
def retryTransaction (queueId : QueueId) (maxFeePerGas maxPriorityFeePerGas : Option String) :
    Prog Unit := do
  let transaction ← await (.getTransaction queueId)
  match transaction with
  | none => throw transactionNotFound
  | some t =>
    if t.status ≠ .sent then throw (cannotBeRetried ".")
    else do
      let maxFeePerGas ← maybeBigInt maxFeePerGas
      let maxPriorityFeePerGas ← maybeBigInt maxPriorityFeePerGas
      let sent := retriedTransaction t maxFeePerGas maxPriorityFeePerGas
      await (.setTransaction sent)
      await (.sendQueueAdd sent.queueId (sent.resendCount + 1))

/-- The stored record of a sync-retry. -/
def syncRetriedTransaction (sent : Transaction) (hashes : List TransactionHash)
    (populated : SerializableTransaction) (hash : TransactionHash) (block : ℤ) : Transaction :=
  { sent with
    resendCount := sent.resendCount + 1, sentAtBlock := some block,
    sentTransactionHashes := some (hashes ++ [hash]), gas := populated.gas,
    gasPrice := populated.gasPrice, maxFeePerGas := populated.maxFeePerGas,
    maxPriorityFeePerGas := populated.maxPriorityFeePerGas }

/-- Broadcast again at once, with the nonce of the record. -/
def syncRetrySend (sent : Transaction) (maxFeePerGas maxPriorityFeePerGas : Option String) :
    Prog Transaction := do
  let _ ← getChain sent.chainId
  let maxFeePerGas ← maybeBigInt maxFeePerGas
  let maxPriorityFeePerGas ← maybeBigInt maxPriorityFeePerGas
  let populated ← await (.toSerializableTransaction { sent.request sent.from with
    maxFeePerGas := maxFeePerGas, maxPriorityFeePerGas := maxPriorityFeePerGas })
  await (.getAccount sent.chainId sent.from)
  let hash ← await (.accountSendTransaction (.transaction sent.queueId) sent.from populated)
  let block ← getBlockNumberish sent.chainId
  let hashes ← defined sent.sentTransactionHashes
  pure (syncRetriedTransaction sent hashes populated hash block)

/-- Replies with the hash of the broadcast, the last one of the record. -/
def syncRetryTransaction (queueId : QueueId) (maxFeePerGas maxPriorityFeePerGas : Option String) :
    Prog (Option TransactionHash) := do
  let transaction ← await (.getTransaction queueId)
  match transaction with
  | none => throw transactionNotFound
  | some t =>
    if t.status ≠ .sent ∨ t.isUserOp then throw (cannotBeRetried ".")
    else do
      let sent ← syncRetrySend t maxFeePerGas maxPriorityFeePerGas
      await (.setTransaction sent)
      await (.mineQueueAdd sent.queueId)
      enqueueTransactionWebhook sent
      pure (sent.sentTransactionHashes.bind List.getLast?)

/-- The hash that the text ends with is not written out. -/
def alreadyMined : Err := cannotBeRetried " because it has already been mined with hash: "

/-- A receipt of any hash of the record; lookups that throw find nothing. -/
def findMinedReceipt (t : Transaction) (chain : ℕ) : Prog (Option TransactionReceipt) :=
  match t.sentTransactionHashes with
  | none => pure none
  | some hashes => do
    let receipts ← settle (fun hash => await (.ethGetTransactionReceipt chain hash)) hashes
    pure (receipts.findSome? Except.toOption)

/-- Remove the jobs that would keep new ones with their ids from being added. -/
def removeJobs (queueId : QueueId) : Prog Unit := do
  let sendJob ← await (.sendQueueGetJob queueId 0)
  if sendJob then await (.sendQueueRemove queueId 0) else pure ()
  let mineJob ← await (.mineQueueGetJob queueId)
  if mineJob then await (.mineQueueRemove queueId) else pure ()

def retryFailedTransaction (queueId : QueueId) : Prog Unit := do
  let transaction ← await (.getTransaction queueId)
  match transaction with
  | none => throw transactionNotFound
  | some t =>
    if t.status ≠ .errored then throw (cannotBeRetried (" because status: " ++ t.status.text))
    else if t.isUserOp then throw (cannotBeRetried " because it is a userop")
    else do
      let chain ← getChain t.chainId
      let minedReceipt ← findMinedReceipt t chain
      match minedReceipt with
      | some _ => throw alreadyMined
      | none => do
        removeJobs t.queueId
        await (.sendQueueAdd t.queueId 0)

end Engine
