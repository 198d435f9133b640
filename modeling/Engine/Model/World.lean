import Mathlib.Data.Finset.Basic
import Engine.Concurrent.Machine
import Engine.Concurrent.SortedSet
import Engine.Model.Types

/-! Everything the workers and routes share: the Redis keys, the BullMQ queues and
the chain; the calls they make on it, and what each call does. -/
namespace Engine
open Concurrent

/-- For whom an account broadcasts: a stored transaction or a cancellation. -/
inductive Caller
  | transaction (q : QueueId)
  | cancellation
deriving DecidableEq

/-- What the network has accepted. -/
inductive Submission
  | broadcast (caller : Caller) (hash : TransactionHash)
  | userOp (q : QueueId) (hash : UserOpHash)
deriving DecidableEq

/-- The transaction that was submitted, if it is one of the service. -/
def Submission.queueId : Submission → Option QueueId
  | .broadcast (.transaction q) _ => some q
  | .broadcast .cancellation _ => none
  | .userOp q _ => some q

/-- What consumed a nonce on chain: a broadcast, or a transaction sent elsewhere. -/
inductive Inclusion
  | broadcast (hash : TransactionHash)
  | external
deriving DecidableEq

structure World where
  /-- `nonce:<chainId>:<walletAddress>` -/
  nonce : Wallet → Option ℤ
  /-- `nonce-recycled:<chainId>:<walletAddress>` -/
  recycled : Wallet → SortedSet ℤ
  /-- `nonce-sent:<chainId>:<walletAddress>` -/
  sent : Wallet → Finset ℤ
  /-- `transaction:<queueId>` -/
  transactions : QueueId → Option Transaction
  /-- Jobs `<queueId>.<resendCount>` of the send queue. -/
  sendJobs : QueueId → ℕ → Option Job
  /-- Jobs `mine.<queueId>` of the mine queue. -/
  mineJobs : QueueId → Option Job
  uuids : List QueueId
  accepted : List Submission
  chain : Wallet → ℤ → Option Inclusion

/-- Nothing was ever sent by a wallet, or asked of the service. -/
def World.empty : World where
  nonce _ := none
  recycled _ := .empty
  sent _ := ∅
  transactions _ := none
  sendJobs _ _ := none
  mineJobs _ := none
  uuids := []
  accepted := []
  chain _ _ := none

/-- The fields a prepared transaction leaves for `toSerializableTransaction` to fill. -/
structure TransactionRequest where
  «from» : Address
  chainId : ℕ
  «to» : Option Address
  data : Option Hex
  value : Option ℤ
  nonce : Option ℤ
  gas : Option ℤ
  gasPrice : Option ℤ
  maxFeePerGas : Option ℤ
  maxPriorityFeePerGas : Option ℤ
deriving DecidableEq

/-- What the RPC supplies for the fields a request leaves open. -/
structure Population where
  nonce : ℤ := 0
  gas : Option ℤ := none
  gasPrice : Option ℤ := none
  maxFeePerGas : Option ℤ := none
  maxPriorityFeePerGas : Option ℤ := none
deriving DecidableEq

def TransactionRequest.populate (r : TransactionRequest) (p : Population) : SerializableTransaction where
  chainId := r.chainId
  «to» := r.to
  data := r.data
  value := r.value
  nonce := r.nonce.getD p.nonce
  gas := r.gas.or p.gas
  gasPrice := r.gasPrice.or p.gasPrice
  maxFeePerGas := r.maxFeePerGas.or p.maxFeePerGas
  maxPriorityFeePerGas := r.maxPriorityFeePerGas.or p.maxPriorityFeePerGas

/-- The awaited calls, one constructor for each command or request. -/
inductive Op
  -- Redis: nonces
  | zpopminRecycled (k : Wallet)
  | zaddRecycled (k : Wallet) (nonce : ℤ)
  | keysRecycled
  | multiZrangeDelRecycled (k : Wallet)
  | incrNonce (k : Wallet)
  | setNonce (k : Wallet) (nonce : ℤ)
  | evalNonceIfHigher (k : Wallet) (transactionCount : ℤ)
  | saddSent (k : Wallet) (nonce : ℤ)
  | sremSent (k : Wallet) (nonce : ℤ)
  | sismemberSent (k : Wallet) (nonce : ℤ)
  | keysSent
  | getNonce (k : Wallet)
  | zaddNonceMap (k : Wallet) (nonce : ℤ) (q : QueueId)
  -- Redis: transactions and cached block numbers
  | getTransaction (q : QueueId)
  | setTransaction (t : Transaction)
  | existsTransaction (q : QueueId)
  | getLatestBlock (chainId : ℕ)
  -- configuration, wallets and RPC
  | getConfig
  | getAccount (chainId : ℕ) («from» : Address)
  | getSmartWallet (chainId : ℕ) («from» accountAddress : Address)
  | ethGetTransactionCount (k : Wallet)
  /-- The same request where its caller looks whether the count is a number. -/
  | ethGetTransactionCountOrNaN (k : Wallet)
  | ethBlockNumber (chainId : ℕ)
  | toSerializableTransaction (r : TransactionRequest)
  | accountSendTransaction (caller : Caller) (signer : Address) (tx : SerializableTransaction)
  | ethGetTransactionReceipt (chainId : ℕ) (hash : TransactionHash)
  | ethGetTransactionByHash (chainId : ℕ) (hash : TransactionHash)
  | simulateTransaction (t : Transaction)
  | getChainMetadata (chainId : ℕ)
  -- user operations
  | readFactory (chainId : ℕ) (accountAddress : Address)
  | createUnsignedUserOp (t : Transaction) (tx : SerializableTransaction) (factory : Address)
  | getPaymasterAndData (userOp : UserOperation)
  | signUserOp (userOp : UserOperation)
  | bundleUserOp (q : QueueId) (userOp : UserOperation)
  | getUserOpReceiptRaw (hash : UserOpHash)
  | getUserOpReceipt (hash : UserOpHash)
  -- BullMQ, from the outside
  | sendQueueAdd (q : QueueId) (resendCount : ℕ)
  | sendQueueRemove (q : QueueId) (resendCount : ℕ)
  | sendQueueGetJob (q : QueueId) (resendCount : ℕ)
  | mineQueueAdd (q : QueueId)
  | mineQueueRemove (q : QueueId)
  | mineQueueGetJob (q : QueueId)
  | enqueueWebhook (type : WebhooksEventTypes) (q : QueueId)
  | jobLog
  -- BullMQ, ending an attempt
  | sendJobCompleted (q : QueueId) (resendCount : ℕ)
  | sendJobFailed (q : QueueId) (resendCount : ℕ)
  | mineJobCompleted (q : QueueId)
  | mineJobFailed (q : QueueId)
  -- not awaited, or not a call of the service
  | randomUUID
  | recordMetrics (m : MetricParams)
  | chainExecutes (caller : Caller) (hash : TransactionHash)
  | chainConsumes (k : Wallet) (nonce : ℤ)
deriving DecidableEq

@[reducible] def Op.Reply : Op → Type
  | .zpopminRecycled _ => Option ℤ
  | .keysRecycled => List Wallet
  | .multiZrangeDelRecycled _ => Option (List ℤ)
  | .incrNonce _ => ℤ
  | .evalNonceIfHigher _ _ => ℤ
  | .sremSent _ _ => Bool
  | .sismemberSent _ _ => Bool
  | .keysSent => List Wallet
  | .getNonce _ => Option ℤ
  | .getTransaction _ => Option Transaction
  | .existsTransaction _ => Bool
  | .getLatestBlock _ => Option ℤ
  | .getConfig => Config
  | .ethGetTransactionCount _ => ℕ
  | .ethGetTransactionCountOrNaN _ => Option ℕ
  | .ethBlockNumber _ => ℤ
  | .toSerializableTransaction _ => SerializableTransaction
  | .accountSendTransaction _ _ _ => TransactionHash
  | .ethGetTransactionReceipt _ _ => TransactionReceipt
  | .ethGetTransactionByHash _ _ => TransactionHash
  | .getChainMetadata _ => String × String
  | .readFactory _ _ => Address
  | .createUnsignedUserOp _ _ _ => UserOperation
  | .getPaymasterAndData _ => Option Hex
  | .signUserOp _ => UserOperation
  | .bundleUserOp _ _ => UserOpHash
  | .getUserOpReceiptRaw _ => Option UserOpReceiptRaw
  | .sendQueueGetJob _ _ => Bool
  | .mineQueueGetJob _ => Bool
  | .sendJobFailed _ _ => ℕ
  | .mineJobFailed _ => ℕ
  | .randomUUID => QueueId
  | _ => Unit

/-- What is decided outside when the call succeeds. -/
@[reducible] def Op.Choice : Op → Type
  | .keysRecycled => List Wallet
  | .keysSent => List Wallet
  -- whether the transaction was executed, or aborted by the server
  | .multiZrangeDelRecycled _ => Bool
  -- whether the commands of the pipeline were applied: `exec` resolves either way
  | .setTransaction _ => Bool
  | .getLatestBlock _ => Option ℤ
  | .getConfig => Config
  | .ethGetTransactionCount _ => ℕ
  | .ethGetTransactionCountOrNaN _ => Option ℕ
  | .ethBlockNumber _ => ℤ
  | .toSerializableTransaction _ => Population
  | .ethGetTransactionReceipt _ _ => TransactionReceipt
  | .getChainMetadata _ => String × String
  | .readFactory _ _ => Address
  | .createUnsignedUserOp _ _ _ => UserOperation
  | .getPaymasterAndData _ => Option Hex
  | .getUserOpReceiptRaw _ => Option UserOpReceiptRaw
  | .randomUUID => QueueId
  | _ => Unit

/-- The calls whose promise never rejects. -/
def Op.neverThrows : Op → Bool
  | .sendJobCompleted _ _ | .sendJobFailed _ _ | .mineJobCompleted _ | .mineJobFailed _ => true
  | .randomUUID | .recordMetrics _ | .chainExecutes _ _ | .chainConsumes _ _ => true
  | _ => false

/-- `attempts` of `SendTransactionQueue` and of `MineTransactionQueue.add`. -/
def sendAttempts : ℕ := 5

def mineAttempts : ℕ := 200

abbrev Calls : Interface := ⟨Op, Op.Reply, Op.Choice, Err⟩

abbrev Prog (α : Type) := Program Calls α

/-- `await` of one call. -/
abbrev await (o : Op) : Prog o.Reply := Program.perform (I := Calls) o

end Engine
