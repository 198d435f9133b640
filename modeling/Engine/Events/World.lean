import Engine.Events.Tables
import Engine.Indexer.World
import Engine.Paging.Table

/-! What the workers of contract subscriptions share: the tables of event logs and receipts, the
subscriptions with their webhooks, and the queue of webhook jobs. -/
namespace Engine.Events
open Concurrent Keyset

/-- What a webhook is sent for. -/
inductive Item
  | eventLog (eventLog : ContractEventLogs)
  | transactionReceipt (transactionReceipt : ContractTransactionReceipts)
deriving DecidableEq

def Item.chainId : Item → ℕ
  | .eventLog log => log.chainId
  | .transactionReceipt receipt => receipt.chainId

def Item.contractAddress : Item → String
  | .eventLog log => log.contractAddress
  | .transactionReceipt receipt => receipt.contractAddress

/-- `EnqueueContractSubscriptionWebhookData`. -/
structure EnqueueContractSubscriptionWebhookData where
  type : WebhooksEventTypes
  webhook : Webhooks
  item : Item
deriving DecidableEq

/-- A job of the queue `send-webhook`. -/
structure SendWebhookJob where
  jobId : String
  data : EnqueueContractSubscriptionWebhookData
deriving DecidableEq

/-- `@@id([transactionHash, logIndex])`. -/
def ContractEventLogs.key (log : ContractEventLogs) : String × ℕ := (log.transactionHash, log.logIndex)

/-- `@@unique([chainId, transactionHash])`. -/
def ContractTransactionReceipts.key (receipt : ContractTransactionReceipts) : ℕ × String :=
  (receipt.chainId, receipt.transactionHash)

structure World where
  contractEventLogs : Table ContractEventLogs.key
  contractTransactionReceipts : Table ContractTransactionReceipts.key
  contractSubscriptions : Table Indexer.ContractSubscription.id
  webhooks : Table Webhooks.id
  /-- All jobs ever added: BullMQ retains them. -/
  sendWebhookJobs : Table SendWebhookJob.jobId

/-- An entry of a contract's ABI, of any kind. Constructors and fallbacks have no name. -/
structure AbiItem extends AbiEntry where
  signature : String
deriving DecidableEq

/-- What `prepareEvent` makes of an entry. -/
structure PreparedEvent where
  abiEvent : AbiItem
  hash : String
deriving DecidableEq

/-- A log as `getContractEvents` returns it. -/
structure EventLog where
  address : String
  blockNumber : ℕ
  transactionHash : String
  topics : List String
  transactionIndex : ℕ
  logIndex : ℕ
  eventName : String
  args : LogArgs

structure BlockTransaction where
  «to» : Option String
  hash : String
  input : Hex
deriving DecidableEq

structure RpcReceipt where
  blockNumber : ℕ
  transactionHash : String
  transactionIndex : ℕ
deriving DecidableEq

/-- The awaited calls. -/
inductive Op
  -- chains
  | getChain (chainId : ℕ)
  | resolveContractAbi (chainId : ℕ) (address : String)
  | prepareEvent (signature : AbiItem)
  | getContractEvents (chainId : ℕ) (address : String) (fromBlock toBlock : ℤ) (events : List PreparedEvent)
  | ethGetBlockByNumber (chainId : ℕ) (blockNumber : ℤ)
  | ethGetTransactionReceipt (chainId : ℕ) (hash : String)
  /-- `decodeFunctionData({ abi, data }).functionName`. -/
  | decodeFunctionName (abi : List AbiItem) (data : Hex)
  -- Postgres
  | createContractEventLogs (data : List ContractEventLogsCreateInput)
  | createContractTransactionReceipts (data : List ContractTransactionReceiptsCreateInput)
  | findSubscriptionsWithWebhook (chainId : ℕ)
  -- BullMQ
  | sendWebhookQueueAdd (job : SendWebhookJob)
  -- not calls of the workers
  | createContractSubscription (row : Indexer.ContractSubscription)
  | deleteContractSubscription (id : String)
  | insertWebhook (row : Webhooks)
  | revokeWebhook (id : ℕ) (now : ℕ)
deriving DecidableEq

@[reducible] def Op.Reply : Op → Type
  | .resolveContractAbi _ _ => List AbiItem
  | .prepareEvent _ => PreparedEvent
  | .getContractEvents _ _ _ _ _ => List EventLog
  | .ethGetBlockByNumber _ _ => List BlockTransaction
  | .ethGetTransactionReceipt _ _ => RpcReceipt
  | .decodeFunctionName _ _ => String
  | .createContractEventLogs _ => List ContractEventLogs
  | .createContractTransactionReceipts _ => List ContractTransactionReceipts
  | .findSubscriptionsWithWebhook _ => List (Indexer.ContractSubscription × Option Webhooks)
  | _ => Unit

/-- What is decided outside when the call is performed. -/
@[reducible] def Op.Choice : Op → Type
  | .resolveContractAbi _ _ => List AbiItem
  | .prepareEvent _ => PreparedEvent
  | .getContractEvents _ _ _ _ _ => List EventLog
  | .ethGetBlockByNumber _ _ => List BlockTransaction
  | .ethGetTransactionReceipt _ _ => RpcReceipt
  | .decodeFunctionName _ _ => String
  -- `createdAt`
  | .createContractEventLogs _ => ℕ
  | .createContractTransactionReceipts _ => ℕ
  -- the error that is thrown, if the reply gets lost
  | .sendWebhookQueueAdd _ => Option Err
  | _ => Unit

abbrev Calls : Interface := ⟨Op, Op.Reply, Op.Choice, Err⟩

abbrev Prog (α : Type) := Program Calls α

abbrev await (o : Op) : Prog o.Reply := Program.perform (I := Calls) o

namespace World

/-- The active subscriptions of a chain, each with its webhook. -/
def subscribed (w : World) (chainId : ℕ) : List (Indexer.ContractSubscription × Option Webhooks) :=
  (w.contractSubscriptions.rows.filter fun s => s.chainId = chainId ∧ s.deleted = false).map fun s =>
    (s, s.webhookId.bind fun id => w.webhooks.rows.find? fun webhook => webhook.id = id)

/-- `prisma.contractEventLogs.createManyAndReturn({ data, skipDuplicates: true })`. -/
def createContractEventLogs (w : World) (data : List ContractEventLogsCreateInput) (createdAt : ℕ) :
    List ContractEventLogs × World :=
  let rows := data.map fun input => ({ input with createdAt } : ContractEventLogs)
  (newRows ContractEventLogs.key (w.contractEventLogs.rows.map ContractEventLogs.key) rows,
    { w with contractEventLogs := w.contractEventLogs.insert rows })

/-- `prisma.contractTransactionReceipts.createManyAndReturn({ data, skipDuplicates: true })`. -/
def createContractTransactionReceipts (w : World) (data : List ContractTransactionReceiptsCreateInput)
    (createdAt : ℕ) : List ContractTransactionReceipts × World :=
  let rows := data.map fun input => ({ input with createdAt } : ContractTransactionReceipts)
  (newRows ContractTransactionReceipts.key
      (w.contractTransactionReceipts.rows.map ContractTransactionReceipts.key) rows,
    { w with contractTransactionReceipts := w.contractTransactionReceipts.insert rows })

def deleteContractSubscription (w : World) (id : String) : World :=
  { w with
    contractSubscriptions := w.contractSubscriptions.modify
      (fun s => if s.id = id then { s with deleted := true } else s) (fun s => by split_ifs <;> rfl) }

def revokeWebhook (w : World) (id now : ℕ) : World :=
  { w with
    webhooks := w.webhooks.modify
      (fun webhook => if webhook.id = id then { webhook with revokedAt := some now } else webhook)
      (fun webhook => by split_ifs <;> rfl) }

/-- A call with what the outside decided about it. -/
def apply (w : World) : (o : Op) → o.Choice → Option (Except Err o.Reply × World)
  | .getChain _, _ => some (.ok (), w)
  | .resolveContractAbi _ _, abi => some (.ok abi, w)
  | .prepareEvent _, event => some (.ok event, w)
  | .getContractEvents _ _ _ _ _, logs => some (.ok logs, w)
  | .ethGetBlockByNumber _ _, transactions => some (.ok transactions, w)
  | .ethGetTransactionReceipt _ _, receipt => some (.ok receipt, w)
  | .decodeFunctionName _ _, functionName => some (.ok functionName, w)
  | .createContractEventLogs data, createdAt =>
    some (.ok (w.createContractEventLogs data createdAt).1, (w.createContractEventLogs data createdAt).2)
  | .createContractTransactionReceipts data, createdAt =>
    some (.ok (w.createContractTransactionReceipts data createdAt).1,
      (w.createContractTransactionReceipts data createdAt).2)
  | .findSubscriptionsWithWebhook chainId, _ => some (.ok (w.subscribed chainId), w)
  -- an id that a job has is ignored
  | .sendWebhookQueueAdd job, lost =>
    some (lost.elim (.ok ()) .error, { w with sendWebhookJobs := w.sendWebhookJobs.insert [job] })
  | .createContractSubscription row, _ =>
    if row.id ∈ w.contractSubscriptions.rows.map Indexer.ContractSubscription.id then none
    else some (.ok (), { w with contractSubscriptions := w.contractSubscriptions.insert [row] })
  | .deleteContractSubscription id, _ => some (.ok (), w.deleteContractSubscription id)
  | .insertWebhook row, _ =>
    if row.id ∈ w.webhooks.rows.map Webhooks.id then none
    else some (.ok (), { w with webhooks := w.webhooks.insert [row] })
  | .revokeWebhook id now, _ => some (.ok (), w.revokeWebhook id now)

/-- A call as its caller sees it: it may throw before it did anything. -/
def effect (w : World) (o : Op) : Except Err o.Choice → Option (Except Err o.Reply × World)
  | .error e => some (.error e, w)
  | .ok c => w.apply o c

end World
end Engine.Events
