import Engine.Source.WalletNonce

/-! `worker/tasks/sendTransactionWorker.ts`: submit a queued transaction or user
operation, resend a sent transaction, error it when all attempts failed. -/
namespace Engine
open Concurrent Program

/-- `transaction` as the handler takes it: an errored transaction of a first send
is queued again, without its nonce and gas values. -/
def requeued (t : Transaction) : Transaction :=
  { t with
    status := .queued, nonce := none, errorMessage := none, gas := none, gasPrice := none,
    maxFeePerGas := none, maxPriorityFeePerGas := none }

def manuallyRetried (t : Transaction) (resendCount : ℕ) : Transaction :=
  if t.status = .errored ∧ resendCount = 0 then requeued t else t

def erroredTransaction (t : Transaction) (errorMessage : String) : Transaction :=
  { t with status := .errored, errorMessage := some errorMessage }

/-- `[populated, undefined]` is `.ok`, `[undefined, errored]` is `.error`. -/
def getPopulatedOrErroredTransaction (queued : Transaction) :
    Prog (Except Transaction SerializableTransaction) :=
  tryCatch (do
      let sender := if queued.isUserOp then queued.accountAddress else some queued.from
      match sender, queued.to.or queued.target with
      | none, _ => throw (Err.new "Invalid transaction parameters: from")
      | _, none => throw (Err.new "Invalid transaction parameters: to")
      | some sender, some recipient => do
        let _ ← getChain queued.chainId
        let populated ← await (.toSerializableTransaction { queued.request sender with
          «to» := some recipient, nonce := if queued.isUserOp then none else some 1 })
        pure (.ok populated))
    fun e => pure (.error (erroredTransaction queued (e.message.getD "[object Object]")))

/-- A populated transaction is the queued call; otherwise the queued transaction is errored. -/
def PopulatedOrErrored (queued : Transaction) : Except Transaction SerializableTransaction → Prop
  | .ok tx => tx.chainId = queued.chainId ∧ tx.to = queued.to.or queued.target ∧
      tx.data = queued.data ∧ tx.value = queued.value
  | .error t => ∃ errorMessage, t = erroredTransaction queued errorMessage

theorem follows_getPopulatedOrErrored {S : Op → Prop} (hc : S .getConfig)
    (hs : ∀ r, S (.toSerializableTransaction r)) (queued : Transaction) :
    (getPopulatedOrErroredTransaction queued).Follows (.only S Op.possible)
      (fun _ r => ∃ x, r = .ok x ∧ PopulatedOrErrored queued x) () := by
  refine Follows.handle (Q := fun _ r => ∀ x, r = .ok x → PopulatedOrErrored queued x) ?_
    (fun _ x hx => ⟨x, rfl, hx x rfl⟩) (fun _ e _ => ⟨_, rfl, _, rfl⟩)
  dsimp only
  split
  · rintro x ⟨⟩
  · rintro x ⟨⟩
  · rename_i sender recipient hsender hrecipient
    refine follows_getChain hc (fun _ _ => ?_) (fun e _ x hx => by cases hx)
    refine follows_await (hs _) (fun tx htx => ?_) (fun e _ x hx => by cases hx)
    obtain ⟨p, rfl⟩ := htx
    rintro x ⟨⟩
    exact ⟨rfl, hrecipient.symm, rfl, rfl⟩

def resolveAccountFactory (queued : Transaction) (chain : ℕ) (accountAddress : Address) : Prog Address :=
  match queued.accountFactoryAddress with
  | some accountFactoryAddress => pure accountFactoryAddress
  | none =>
    tryCatch (await (.readFactory chain accountAddress)) fun _ =>
      throw (Err.new ("Failed to find factory address for account '" ++ addressText accountAddress ++
        "' on chain '" ++ toString queued.chainId ++ "'"))

/-- A gas override that is not zero replaces the estimate; the paymaster data is fetched again for it. -/
def withGasOverride (gas : Option ℤ) (unsignedOp : UserOperation) : Prog UserOperation :=
  match gas.filter (· ≠ 0) with
  | none => pure unsignedOp
  | some gas => do
    let unsignedOp := { unsignedOp with callGasLimit := gas, paymasterAndData := [] }
    let paymasterAndData ← await (.getPaymasterAndData unsignedOp)
    pure { unsignedOp with paymasterAndData := paymasterAndData.getD [] }

def generateSignedUserOperation (queued : Transaction) (populated : SerializableTransaction) :
    Prog UserOperation :=
  match queued.accountAddress, queued.signerAddress, queued.target with
  | some accountAddress, some _, some _ => do
    let chain ← getChain queued.chainId
    let accountFactoryAddress ← resolveAccountFactory queued chain accountAddress
    let unsignedOp ← await (.createUnsignedUserOp queued populated accountFactoryAddress)
    let unsignedOp ← withGasOverride queued.gas unsignedOp
    await (.getAccount queued.chainId queued.from)
    await (.signUserOp unsignedOp)
  | _, _, _ => throw (Err.new "Invalid UserOperation parameters")

def sentUserOp (queued : Transaction) (userOp : UserOperation) (hash : UserOpHash) (block : ℤ) :
    Transaction :=
  { queued with
    isUserOp := true, status := .sent, nonce := some userOp.nonce, userOpHash := some hash,
    sentAtBlock := some block, maxFeePerGas := some userOp.maxFeePerGas,
    maxPriorityFeePerGas := some userOp.maxPriorityFeePerGas }

def sendUserOp (queued : Transaction) : Prog Transaction := do
  assert queued.isUserOp
  let _ ← getChain queued.chainId
  let result ← getPopulatedOrErroredTransaction queued
  match result with
  | .error errored => pure errored
  | .ok populated => do
    let signedUserOp ← generateSignedUserOperation queued populated
    let userOpHash ← await (.bundleUserOp queued.queueId signedUserOp)
    let block ← getBlockNumberish queued.chainId
    pure (sentUserOp queued signedUserOp userOpHash block)

def resolveDeployedContractAddress (queued : Transaction) (nonce : ℤ) : Option ContractAddress :=
  match queued.deployedContractAddress with
  | some a => some a
  | none =>
    if queued.extension = some "deploy-published" ∧ queued.functionName = some "deploy" then
      some (.create queued.from nonce)
    else none

/-- The stored record of a first send. -/
def sentTransaction (queued : Transaction) (populated : SerializableTransaction)
    (hash : TransactionHash) (block : ℤ) : Transaction :=
  { queued with
    status := .sent, isUserOp := false, nonce := some populated.nonce,
    sentTransactionHashes := some [hash], resendCount := 0, sentAtBlock := some block,
    gas := populated.gas, gasPrice := populated.gasPrice, maxFeePerGas := populated.maxFeePerGas,
    maxPriorityFeePerGas := populated.maxPriorityFeePerGas,
    deployedContractAddress := resolveDeployedContractAddress queued populated.nonce }

/-- Hand the transaction to the account; when that throws, give the nonce back or,
if it is already used, move the stored nonce up to the chain's. -/
def broadcast (queued : Transaction) (populated : SerializableTransaction) : Prog TransactionHash :=
  tryCatch (do
      await (.getAccount queued.chainId queued.from)
      await (.accountSendTransaction (.transaction queued.queueId) queued.from populated))
    fun e => do
      if isNonceAlreadyUsedError e || isReplacementGasFeeTooLow e then do
        let _ ← syncLatestNonceFromOnchainIfHigher queued.wallet
        throw e
      else do
        recycleNonce queued.wallet (some populated.nonce)
        throw e

def sendTransaction (queued : Transaction) : Prog Transaction := do
  assert (!queued.isUserOp)
  let result ← getPopulatedOrErroredTransaction queued
  match result with
  | .error errored => pure errored
  | .ok populated => do
    let acquired ← acquireNonce queued.queueId queued.wallet
    let populated := { populated with nonce := acquired.nonce }
    let transactionHash ← broadcast queued populated
    addSentNonce queued.wallet acquired.nonce
    let block ← getBlockNumberish queued.chainId
    pure (sentTransaction queued populated transactionHash block)

/-- `populated` with every present fee doubled. -/
def withDoubledFees (populated : SerializableTransaction) : SerializableTransaction :=
  { populated with
    gasPrice := doubled populated.gasPrice, maxFeePerGas := doubled populated.maxFeePerGas,
    maxPriorityFeePerGas := doubled populated.maxPriorityFeePerGas }

/-- The stored record of a resend. -/
def resentTransaction (sent : Transaction) (hashes : List TransactionHash)
    (populated : SerializableTransaction) (resendCount : ℕ) (hash : TransactionHash) (block : ℤ) :
    Transaction :=
  { sent with
    resendCount := resendCount, sentAtBlock := some block,
    sentTransactionHashes := some (hashes ++ [hash]), gas := populated.gas,
    gasPrice := populated.gasPrice, maxFeePerGas := populated.maxFeePerGas,
    maxPriorityFeePerGas := populated.maxPriorityFeePerGas }

/-- Nothing is returned when the nonce is used or a pending transaction pays as much. -/
def resendTransaction (sent : Transaction) (resendCount : ℕ) : Prog (Option Transaction) := do
  assert (!sent.isUserOp)
  let _ ← getChain sent.chainId
  let populated ← await (.toSerializableTransaction { sent.request sent.from with
    gasPrice := none, maxFeePerGas := none, maxPriorityFeePerGas := none })
  let populated := withDoubledFees populated
  let result ← tryCatch (do
      await (.getAccount sent.chainId sent.from)
      let hash ← await (.accountSendTransaction (.transaction sent.queueId) sent.from populated)
      pure (some hash))
    fun e => if isNonceAlreadyUsedError e || isReplacementGasFeeTooLow e then pure none else throw e
  match result with
  | none => pure none
  | some transactionHash => do
    let block ← getBlockNumberish sent.chainId
    let hashes ← defined sent.sentTransactionHashes
    pure (some (resentTransaction sent hashes populated resendCount transactionHash block))

/-- Store the result of a send or resend and hand it on. -/
def storeSendResult (t result : Transaction) : Prog Unit := do
  await (.setTransaction result)
  enqueueTransactionWebhook result
  if result.status = .sent then do
    await (.mineQueueAdd result.queueId)
    if t.status = .queued then do
      let _ ← getChain result.chainId
      await (.recordMetrics (.transactionSent t.chainId t.from true))
    else pure ()
  else if result.status = .errored then
    await (.recordMetrics (.transactionSent t.chainId t.from false))
  else pure ()

/-- The branches of the handler for a transaction it found. -/
def sendFound (t : Transaction) (resendCount : ℕ) : Prog Unit :=
  match t.status with
  | .queued =>
    if t.isUserOp then do
      let result ← sendUserOp t
      storeSendResult t result
    else do
      let result ← sendTransaction t
      storeSendResult t result
  | .sent => do
    let result ← resendTransaction t resendCount
    match result with
    | some result => storeSendResult t result
    | none => pure ()
  | _ => pure ()

def sendTransactionHandler (queueId : QueueId) (resendCount : ℕ) : Prog Unit := do
  let transaction ← await (.getTransaction queueId)
  match transaction with
  | none => pure ()
  | some t => sendFound (manuallyRetried t resendCount) resendCount

/-- The `failed` listener: no status is checked. -/
def sendFailedHandler (queueId : QueueId) (attemptsMade : ℕ) (e : Err) : Prog Unit :=
  if attemptsMade = sendAttempts then do
    let transaction ← await (.getTransaction queueId)
    match transaction with
    | none => pure ()
    | some t => do
      let errorMessage ← prettifyError t e
      await (.setTransaction (erroredTransaction t errorMessage))
      enqueueTransactionWebhook (erroredTransaction t errorMessage)
  else pure ()

/-- One attempt of a send job, and the listener when it failed. -/
def sendTransactionWorker (queueId : QueueId) (resendCount : ℕ) : Prog Unit := do
  let result ← attempt (sendTransactionHandler queueId resendCount)
  match result with
  | .ok _ => await (.sendJobCompleted queueId resendCount)
  | .error e => do
    let attemptsMade ← await (.sendJobFailed queueId resendCount)
    sendFailedHandler queueId attemptsMade e

end Engine
