import Engine.Events.World

/-! `worker/tasks/processEventLogsWorker.ts`, `worker/tasks/processTransactionReceiptsWorker.ts`, and
what they use of `worker/queues/sendWebhookQueue.ts`. -/
namespace Engine.Events
open Concurrent Program
open Indexer (EnqueueData EventLogFilter TransactionReceiptFilter QueuedJob)

/-! ### Reading the chain -/

/-- `addressConfig[normalizeAddress(address)].contract`. -/
def contractOf (filters : List EventLogFilter) (address : String) : Prog Unit :=
  if filters.any fun f => f.address = normalizeAddress address then pure ()
  else throw ({ name := "TypeError", message := some "Cannot read properties of undefined (reading 'contract')" } : Err)

/-- `f.events.includes(signature.name)`. -/
def isListed (events : List String) (signature : AbiItem) : Bool := signature.name.any fun name => name ∈ events

/-- The events of a filter. `[]` means all events. -/
def preparedEvents (chainId : ℕ) (f : EventLogFilter) : Prog (List PreparedEvent) :=
  if f.events.length > 0 then do
    let abi : List AbiItem ← await (.resolveContractAbi chainId f.address)
    collect (fun signature => await (.prepareEvent signature)) (abi.filter (isListed f.events))
  else pure []

def getContractEvents (chainId : ℕ) (fromBlock toBlock : ℤ) (f : EventLogFilter) : Prog (List EventLog) := do
  let events ← preparedEvents chainId f
  await (.getContractEvents chainId f.address fromBlock toBlock events)

/-- What `formatDecodedLog` throws is a `TypeError`. -/
def orTypeError {α : Type} : Except TypeError α → Prog α
  | .ok a => pure a
  | .error _ => throw ({ name := "TypeError" } : Err)

/-- The readable form of a log, by the ABI of its contract. -/
def readDecodedLog (chainId : ℕ) (log : EventLog) : Prog (Option DecodedLog) := do
  let abi : List AbiItem ← await (.resolveContractAbi chainId (normalizeAddress log.address))
  orTypeError (formatDecodedLog (abi.map AbiItem.toAbiEntry) log.eventName log.args)

/-- The row of a log. -/
def EventLog.row (log : EventLog) (chainId : ℕ) (decodedLog : Option DecodedLog) : ContractEventLogsCreateInput where
  chainId := chainId
  blockNumber := log.blockNumber
  contractAddress := normalizeAddress log.address
  transactionHash := log.transactionHash
  topic0 := log.topics[0]?
  topic1 := log.topics[1]?
  topic2 := log.topics[2]?
  topic3 := log.topics[3]?
  transactionIndex := log.transactionIndex
  logIndex := log.logIndex
  eventName := log.eventName
  decodedLog := decodedLog

def formatLog (chainId : ℕ) (filters : List EventLogFilter) (log : EventLog) :
    Prog ContractEventLogsCreateInput := do
  contractOf filters log.address
  let decodedLog ← readDecodedLog chainId log
  pure (log.row chainId decodedLog)

/-- All event logs for the subscribed addresses and filters. -/
def getLogs (data : EnqueueData EventLogFilter) : Prog (List ContractEventLogsCreateInput) :=
  if data.filters.length = 0 then pure []
  else do
    await (.getChain data.chainId)
    let allLogs ← collect (getContractEvents data.chainId data.fromBlock data.toBlock) data.filters
    collect (formatLog data.chainId data.filters) allLogs.flatten

/-- The arrays of function names, one for each filter, and which of them the entry of an address
refers to. -/
structure AddressConfig where
  arrays : List (List String)
  entry : String → Option ℕ

/-- The array that an entry referred to is extended, and the entry then refers to the filter's own. -/
def AddressConfig.merge (c : AddressConfig) (filter : TransactionReceiptFilter) : AddressConfig where
  arrays := ((c.entry filter.address).elim c.arrays fun i => c.arrays.modify i (· ++ filter.functions)) ++
    [filter.functions]
  entry := Function.update c.entry filter.address (some c.arrays.length)

def addressConfig (filters : List TransactionReceiptFilter) : AddressConfig :=
  filters.foldl AddressConfig.merge ⟨[], fun _ => none⟩

/-- `addressConfig[toAddress].functions`. -/
def functionsOf (filters : List TransactionReceiptFilter) (toAddress : String) : Option (List String) :=
  ((addressConfig filters).entry toAddress).bind fun i => (addressConfig filters).arrays[i]?

def getFunctionName (chainId : ℕ) (address : String) (data : Hex) : Prog String := do
  let abi : List AbiItem ← await (.resolveContractAbi chainId address)
  await (.decodeFunctionName abi data)

/-- The name is read if there are names to compare it to. -/
def functionNameOf (chainId : ℕ) (functions : List String) (toAddress : String) (input : Hex) :
    Prog (Option String) :=
  if functions.length > 0 then do
    let functionName ← getFunctionName chainId toAddress input
    pure (some functionName)
  else pure none

/-- The transaction is for a subscribed function name. No function names mean all of them. -/
def isSubscribedFunction (functions : List String) (functionName : Option String) : Bool :=
  functions.length = 0 || functionName.any functions.contains

/-- The receipt of a transaction to a subscribed address. -/
def receiptOf (chainId : ℕ) (filters : List TransactionReceiptFilter) (transaction : BlockTransaction) :
    Prog (List ContractTransactionReceiptsCreateInput) :=
  match truthy transaction.to with
  -- a contract deployment
  | none => pure []
  | some address =>
    match functionsOf filters (normalizeAddress address) with
    | none => pure []
    | some functions => do
      let functionName ← functionNameOf chainId functions (normalizeAddress address) transaction.input
      if isSubscribedFunction functions functionName then do
        let receipt : RpcReceipt ← await (.ethGetTransactionReceipt chainId transaction.hash)
        pure
          [{ chainId
             blockNumber := receipt.blockNumber
             contractAddress := normalizeAddress address
             transactionHash := receipt.transactionHash.toLower
             transactionIndex := receipt.transactionIndex
             data := transaction.input
             functionName }]
      else pure []

def getFormattedTransactionReceiptsFromBlock (chainId : ℕ) (filters : List TransactionReceiptFilter)
    (blockNumber : ℤ) : Prog (List ContractTransactionReceiptsCreateInput) := do
  let transactions : List BlockTransaction ← await (.ethGetBlockByNumber chainId blockNumber)
  let receipts ← collect (receiptOf chainId filters) transactions
  pure receipts.flatten

/-- The blocks between `fromBlock` and `toBlock`, inclusive. -/
def blockRange (fromBlock toBlock : ℤ) : List ℤ :=
  (List.range (toBlock - fromBlock + 1).toNat).map fun i => fromBlock + i

/-- All transaction receipts for the subscribed addresses and filters. -/
def getFormattedTransactionReceipts (data : EnqueueData TransactionReceiptFilter) :
    Prog (List ContractTransactionReceiptsCreateInput) :=
  if data.filters.length = 0 then pure []
  else do
    await (.getChain data.chainId)
    let allReceipts ← collect (getFormattedTransactionReceiptsFromBlock data.chainId data.filters)
      (blockRange data.fromBlock data.toBlock)
    pure allReceipts.flatten

/-! ### Webhooks -/

/-- An idempotency key that ensures a webhook URL will receive an item at most once. -/
def getContractSubscriptionWebhookIdempotencyKey (webhook : Webhooks) : Item → String
  | .eventLog log => webhook.url ++ "." ++ log.transactionHash ++ "." ++ toString log.logIndex
  | .transactionReceipt receipt => webhook.url ++ "." ++ receipt.transactionHash

/-- The job that is added for the data. -/
def EnqueueContractSubscriptionWebhookData.job (data : EnqueueContractSubscriptionWebhookData) : SendWebhookJob :=
  ⟨getContractSubscriptionWebhookIdempotencyKey data.webhook data.item, data⟩

/-- The webhook is not revoked and of the type asked for. -/
def EnqueueContractSubscriptionWebhookData.wanted (data : EnqueueContractSubscriptionWebhookData) : Bool :=
  data.webhook.revokedAt.isNone && data.type = data.webhook.eventType

def enqueueContractSubscriptionWebhook (data : EnqueueContractSubscriptionWebhookData) : Prog Unit :=
  if data.wanted then await (.sendWebhookQueueAdd data.job) else pure ()

/-- The webhooks of a contract, in the order of its subscriptions. -/
def webhooksOf (contractSubscriptions : List (Indexer.ContractSubscription × Option Webhooks))
    (contractAddress : String) : List Webhooks :=
  (contractSubscriptions.filter fun x => x.1.contractAddress = contractAddress).filterMap fun x => x.2

def getWebhooksByContractAddresses (chainId : ℕ) : Prog (String → List Webhooks) := do
  let contractSubscriptions : List (Indexer.ContractSubscription × Option Webhooks) ←
    await (.findSubscriptionsWithWebhook chainId)
  pure (webhooksOf contractSubscriptions)

/-- The nested loops over the inserted rows and the webhooks of their contracts. -/
def enqueueWebhooks (webhooksByContractAddress : String → List Webhooks) (inserted : List Item) : Prog Unit :=
  forEach (fun item => forEach (fun webhook =>
    enqueueContractSubscriptionWebhook ⟨.contractSubscription, webhook, item⟩)
      (webhooksByContractAddress item.contractAddress)) inserted

/-- What both handlers do with the rows they inserted. -/
def announce (chainId : ℕ) (inserted : List Item) : Prog Unit :=
  if inserted.length = 0 then pure ()
  else do
    let webhooksByContractAddress ← getWebhooksByContractAddresses chainId
    enqueueWebhooks webhooksByContractAddress inserted

/-! ### The handlers -/

def processEventLogs (job : QueuedJob EventLogFilter) : Prog Unit := do
  let logs ← getLogs job.data
  if logs.length = 0 then pure ()
  else do
    let insertedLogs : List ContractEventLogs ← await (.createContractEventLogs logs)
    announce job.data.chainId (insertedLogs.map .eventLog)

def processTransactionReceipts (job : QueuedJob TransactionReceiptFilter) : Prog Unit := do
  let receipts ← getFormattedTransactionReceipts job.data
  if receipts.length = 0 then pure ()
  else do
    let insertedReceipts : List ContractTransactionReceipts ← await (.createContractTransactionReceipts receipts)
    announce job.data.chainId (insertedReceipts.map .transactionReceipt)

/-- One attempt of a job, or a change of the subscriptions and webhooks. -/
inductive Kind
  | processEventLogs (job : QueuedJob EventLogFilter)
  | processTransactionReceipts (job : QueuedJob TransactionReceiptFilter)
  | createContractSubscription (row : Indexer.ContractSubscription)
  | deleteContractSubscription (id : String)
  | insertWebhook (row : Webhooks)
  | revokeWebhook (id : ℕ) (now : ℕ)
deriving DecidableEq

abbrev workers : Machine Calls Unit where
  World := World
  Kind := Kind
  effect := World.effect
  start w
    | .processEventLogs job => some (Events.processEventLogs job, w)
    | .processTransactionReceipts job => some (Events.processTransactionReceipts job, w)
    | .createContractSubscription row => some (await (.createContractSubscription row), w)
    | .deleteContractSubscription id => some (await (.deleteContractSubscription id), w)
    | .insertWebhook row => some (await (.insertWebhook row), w)
    | .revokeWebhook id now => some (await (.revokeWebhook id now), w)

end Engine.Events
