import Engine.Indexer.World

/-! `worker/tasks/chainIndexer.ts`, `db/chainIndexers/`, and the routes that add and remove contract
subscriptions. -/
namespace Engine.Indexer
open Concurrent Program

/-- `prisma.$transaction(body)`. -/
def transaction (body : ℕ → Prog Unit) : Prog Unit := do
  let pgtx ← await .beginTransaction
  let result ← attempt (body pgtx)
  match result with
  | .ok _ => await (.commit pgtx)
  | .error e => do
    tryCatch (await (.rollback pgtx)) fun _ => pure ()
    throw e

/-- `lastIndexedBlock[0]["lastIndexedBlock"]`. -/
def getBlockForIndexing (chainId : ℕ) (pgtx : ℕ) : Prog ℤ := do
  let lastIndexedBlock ← await (.selectForUpdateNowait pgtx chainId)
  match lastIndexedBlock with
  | some lastIndexedBlock => pure lastIndexedBlock
  | none => throw ({ name := "TypeError", message := some "Cannot read properties of undefined" } : Err)

def upsertChainIndexer (pgtx : Option ℕ) (chainId : ℕ) (currentBlockNumber : ℤ) : Prog Unit :=
  await (.upsertChainIndexer pgtx chainId currentBlockNumber)

/-- `attempts` of the requery with the given index. -/
def requeryAttempts (requeryDelays : List String) (i : ℕ) : ℕ := if i + 1 = requeryDelays.length then 10 else 0

/-- `ProcessEventsLogQueue.add`: a job now, and one for each delay. -/
def addProcessEventsLog (data : EnqueueData EventLogFilter) : Prog Unit := do
  let requeryDelays ← await .getConfig
  await (.addEventsJob ⟨data, none, 0⟩)
  forEach (fun (x : String × ℕ) => await (.addEventsJob ⟨data, some x.1, requeryAttempts requeryDelays x.2⟩))
    requeryDelays.zipIdx

/-- `ProcessTransactionReceiptsQueue.add`. -/
def addProcessTransactionReceipts (data : EnqueueData TransactionReceiptFilter) : Prog Unit := do
  let requeryDelays ← await .getConfig
  await (.addReceiptsJob ⟨data, none, 0⟩)
  forEach (fun (x : String × ℕ) => await (.addReceiptsJob ⟨data, some x.1, requeryAttempts requeryDelays x.2⟩))
    requeryDelays.zipIdx

def ContractSubscription.eventLogFilter (c : ContractSubscription) : EventLogFilter :=
  ⟨c.contractAddress, c.filterEvents⟩

def ContractSubscription.transactionReceiptFilter (c : ContractSubscription) : TransactionReceiptFilter :=
  ⟨c.contractAddress, c.filterFunctions⟩

def eventLogFilters (contractSubscriptions : List ContractSubscription) : List EventLogFilter :=
  (contractSubscriptions.filter fun c => c.processEventLogs).map ContractSubscription.eventLogFilter

def transactionReceiptFilters (contractSubscriptions : List ContractSubscription) : List TransactionReceiptFilter :=
  (contractSubscriptions.filter fun c => c.processTransactionReceipts).map
    ContractSubscription.transactionReceiptFilter

/-- Parse event logs, if any subscription asks for them. -/
def enqueueEventLogs (chainId : ℕ) (contractSubscriptions : List ContractSubscription) (fromBlock toBlock : ℤ) :
    Prog Unit :=
  if eventLogFilters contractSubscriptions ≠ [] then
    addProcessEventsLog ⟨chainId, eventLogFilters contractSubscriptions, fromBlock, toBlock⟩
  else pure ()

/-- Parse transaction receipts, if any subscription asks for them. -/
def enqueueTransactionReceipts (chainId : ℕ) (contractSubscriptions : List ContractSubscription)
    (fromBlock toBlock : ℤ) : Prog Unit :=
  if transactionReceiptFilters contractSubscriptions ≠ [] then
    addProcessTransactionReceipts ⟨chainId, transactionReceiptFilters contractSubscriptions, fromBlock, toBlock⟩
  else pure ()

/-- Enqueue the jobs of a block range, and move the cursor to its end. -/
def indexBlocks (chainId : ℕ) (pgtx : ℕ) (fromBlock toBlock : ℤ) : Prog Unit := do
  let contractSubscriptions ← await (.findSubscriptionsByChainId chainId)
  enqueueEventLogs chainId contractSubscriptions fromBlock toBlock
  enqueueTransactionReceipts chainId contractSubscriptions fromBlock toBlock
  tryCatch (upsertChainIndexer (some pgtx) chainId toBlock) fun _ => pure ()

/-- The part after the row was locked. -/
def indexFrom (chainId maxBlocksToIndex toBlockOffset : ℕ) (pgtx : ℕ) (fromBlock : ℤ) : Prog Unit := do
  await (.getSdk chainId)
  let blockNumber : ℤ ← await (.getBlockNumber chainId)
  let currentBlockNumber := blockNumber - toBlockOffset
  let toBlock := min currentBlockNumber (fromBlock + maxBlocksToIndex)
  if fromBlock ≥ toBlock then pure ()
  else do
    let block ← await (.getBlockWithTransactions chainId toBlock)
    if block then indexBlocks chainId pgtx fromBlock toBlock else pure ()

def chainIndexerTask (chainId maxBlocksToIndex toBlockOffset : ℕ) : Prog Unit :=
  tryCatch (transaction fun pgtx => do
    let fromBlock ← attempt (getBlockForIndexing chainId pgtx)
    match fromBlock with
    | .error _ => pure ()
    | .ok fromBlock => indexFrom chainId maxBlocksToIndex toBlockOffset pgtx fromBlock) fun _ => pure ()

/-- The body of `POST /contract-subscriptions/add`. -/
structure AddBody where
  chain : String
  contractAddress : String
  webhookUrl : Option String
  processEventLogs : Bool
  filterEvents : Option (List String)
  processTransactionReceipts : Bool
  filterFunctions : Option (List String)
deriving DecidableEq

def isValidHttpUrl (urlString : String) : Prog Bool := do
  let protocol ← await (.urlProtocol urlString)
  pure (protocol = some "http:" || protocol = some "https:")

/-- Create the webhook, if one is asked for. An empty URL is none. -/
def insertWebhookFor (webhookUrl : Option String) : Prog (Option ℕ) :=
  match webhookUrl.filter (· ≠ "") with
  | none => pure none
  | some url => do
    let valid ← isValidHttpUrl url
    if valid then do
      let webhook ← await (.insertWebhook url)
      pure (some webhook)
    else throw (createCustomError "Invalid webhook URL. Make sure it starts with 'https://'." 400 "BAD_REQUEST")

/-- If the chain is not indexed, its cursor is set to the latest block. -/
def startIndexing (chainId : ℕ) : Prog Unit := do
  let subscribedChainIds ← await .findSubscribedChainIds
  if chainId ∈ subscribedChainIds then pure ()
  else tryCatch (do
      await (.getSdk chainId)
      let currentBlockNumber ← await (.getBlockNumber chainId)
      upsertChainIndexer none chainId currentBlockNumber) fun _ => pure ()

def addContractSubscription (body : AddBody) : Prog Unit := do
  let chainId ← await (.getChainIdFromChain body.chain)
  if !body.processEventLogs && !body.processTransactionReceipts then
    throw (createCustomError "Contract Subscriptions must parse event logs and/or receipts." 400 "BAD_REQUEST")
  else do
    await (.getChain chainId)
    let isValid ← await (.isContractDeployed chainId body.contractAddress)
    if !isValid then throw (createCustomError "Invalid contract." 400 "INVALID_CONTRACT")
    else do
      startIndexing chainId
      let webhookId ← insertWebhookFor body.webhookUrl
      let _ ← await (.createContractSubscription
        { chainId, contractAddress := normalizeAddress body.contractAddress, webhookId,
          processEventLogs := body.processEventLogs, filterEvents := body.filterEvents.getD [],
          processTransactionReceipts := body.processTransactionReceipts,
          filterFunctions := body.filterFunctions.getD [] })
      pure ()

/-- A webhook id 0 would be none. -/
def removeContractSubscription (contractSubscriptionId : String) : Prog Unit := do
  let contractSubscription ← await (.deleteContractSubscription contractSubscriptionId)
  match contractSubscription.webhookId.filter (· ≠ 0) with
  | some webhookId => await (.deleteWebhook webhookId)
  | none => pure ()

inductive Kind
  | chainIndexerTask (chainId maxBlocksToIndex toBlockOffset : ℕ)
  | addContractSubscription (body : AddBody)
  | removeContractSubscription (contractSubscriptionId : String)
  /-- A transaction is given up. -/
  | expire (pgtx : ℕ)
  /-- The chain goes on. -/
  | advanceHead (chainId : ℕ) (head : ℤ)
deriving DecidableEq

abbrev indexer : Machine Calls Unit where
  World := World
  Kind := Kind
  effect := World.effect
  start w
    | .chainIndexerTask chainId maxBlocksToIndex toBlockOffset =>
      some (Indexer.chainIndexerTask chainId maxBlocksToIndex toBlockOffset, w)
    | .addContractSubscription body => some (Indexer.addContractSubscription body, w)
    | .removeContractSubscription id => some (Indexer.removeContractSubscription id, w)
    | .expire pgtx => some (await (.expire pgtx), w)
    | .advanceHead chainId head => some (await (.advanceHead chainId head), w)

end Engine.Indexer
