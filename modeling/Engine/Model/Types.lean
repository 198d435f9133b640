import Mathlib.Data.Int.Notation
import Mathlib.Data.Nat.Notation

/-! The data of the transaction service: stored transactions, what is handed to
an account, hashes, receipts, errors and jobs. -/
namespace Engine

/-- 20 bytes. Checksummed and lower-case spellings denote the same address. -/
abbrev Address := BitVec 160
abbrev Hex := List UInt8
abbrev QueueId := String

/-- What the `nonce:<chainId>:<walletAddress>` family of keys is indexed by. -/
structure Wallet where
  chainId : ℕ
  walletAddress : Address
deriving DecidableEq

/-- The populated transaction an account signs and sends. -/
structure SerializableTransaction where
  chainId : ℕ
  «to» : Option Address
  data : Option Hex
  value : Option ℤ
  nonce : ℤ
  gas : Option ℤ
  gasPrice : Option ℤ
  maxFeePerGas : Option ℤ
  maxPriorityFeePerGas : Option ℤ
deriving DecidableEq

/-- The hash of a signed transaction. Hashing is taken to be collision free, so a
hash is what was hashed: the signer and the transaction. -/
structure TransactionHash where
  signer : Address
  transaction : SerializableTransaction
deriving DecidableEq

structure UserOperation where
  sender : Address
  nonce : ℤ
  «to» : Option Address
  value : Option ℤ
  data : Option Hex
  callGasLimit : ℤ
  maxFeePerGas : ℤ
  maxPriorityFeePerGas : ℤ
  paymasterAndData : Hex
deriving DecidableEq

/-- The hash of a signed user operation, collision free as well. -/
structure UserOpHash where
  userOp : UserOperation
deriving DecidableEq

/-- A contract address: a given one, or the CREATE address of a sender and a nonce. -/
inductive ContractAddress
  | literal (address : Address)
  | create («from» : Address) (nonce : ℤ)
deriving DecidableEq

inductive Status
  | queued
  | sent
  | mined
  | cancelled
  | errored
deriving DecidableEq

/-- Nothing is left to do for a mined or a cancelled transaction. -/
def Status.terminal : Status → Bool
  | .mined | .cancelled => true
  | _ => false

inductive OnchainStatus
  | success
  | reverted
deriving DecidableEq

/-- The raw input from the caller. -/
structure InsertedTransaction where
  isUserOp : Bool
  chainId : ℕ
  «from» : Address
  «to» : Option Address := none
  value : Option ℤ := none
  data : Option Hex := none
  functionName : Option String := none
  gas : Option ℤ := none
  gasPrice : Option ℤ := none
  maxFeePerGas : Option ℤ := none
  maxPriorityFeePerGas : Option ℤ := none
  deployedContractAddress : Option ContractAddress := none
  extension : Option String := none
  signerAddress : Option Address := none
  accountAddress : Option Address := none
  accountFactoryAddress : Option Address := none
  target : Option Address := none
  sender : Option Address := none
deriving DecidableEq

/-- `AnyTransaction`, the stored JSON object. A field that a status of the union
does not have is `none`; spreading one status into another keeps the rest, as
object spread does. -/
structure Transaction extends InsertedTransaction where
  status : Status
  queueId : QueueId
  resendCount : ℕ := 0
  nonce : Option ℤ := none
  sentTransactionHashes : Option (List TransactionHash) := none
  userOpHash : Option UserOpHash := none
  sentAtBlock : Option ℤ := none
  transactionHash : Option TransactionHash := none
  minedAtBlock : Option ℤ := none
  transactionType : Option String := none
  onchainStatus : Option OnchainStatus := none
  gasUsed : Option ℤ := none
  effectiveGasPrice : Option ℤ := none
  cumulativeGasUsed : Option ℤ := none
  errorMessage : Option String := none
deriving DecidableEq

/-- The wallet whose nonces an EOA transaction uses. -/
def Transaction.wallet (t : Transaction) : Wallet := ⟨t.chainId, t.from⟩

def TransactionHash.wallet (h : TransactionHash) : Wallet := ⟨h.transaction.chainId, h.signer⟩

def TransactionHash.nonce (h : TransactionHash) : ℤ := h.transaction.nonce

structure TransactionReceipt where
  transactionHash : TransactionHash
  blockNumber : ℤ
  status : OnchainStatus
  type : String
  gasUsed : ℤ
  effectiveGasPrice : ℤ
  cumulativeGasUsed : ℤ
deriving DecidableEq

structure UserOpReceiptRaw where
  transactionHash : TransactionHash
  success : Bool
  sender : Address
  nonce : ℤ
deriving DecidableEq

/-- A thrown JavaScript error. `code` is an ethers code or an API error code. -/
structure Err where
  name : String := "Error"
  message : Option String := none
  code : Option String := none
  statusCode : Option ℕ := none
deriving DecidableEq

/-- `new Error(message)`. -/
def Err.new (message : String) : Err := { message := some message }

/-- `createCustomError(message, statusCode, code)`. -/
def createCustomError (message : String) (statusCode : ℕ) (code : String) : Err :=
  { message := some message, code := some code, statusCode := some statusCode }

structure Config where
  minEllapsedBlocksBeforeRetry : ℤ
  maxRetriesPerTx : ℤ
deriving DecidableEq

inductive WebhooksEventTypes
  | queuedTx
  | sentTx
  | minedTx
  | erroredTx
  | cancelledTx
  | allTx
  | backendWalletBalance
  | auth
  | contractSubscription
deriving DecidableEq

/-- A row of `webhooks`. -/
structure Webhooks where
  id : ℕ
  url : String
  eventType : WebhooksEventTypes
  /-- In milliseconds. -/
  revokedAt : Option ℕ
deriving DecidableEq

/-- The events of `recordMetrics` that the transaction workers emit. -/
inductive MetricParams
  | transactionQueued (chainId : ℕ) (walletAddress : Address)
  | transactionSent (chainId : ℕ) (walletAddress : Address) (success : Bool)
  | transactionMined (chainId : ℕ) (walletAddress : Address)
deriving DecidableEq

inductive JobState
  | waiting
  | delayed
  | active
  | completed
  | failed
deriving DecidableEq

/-- A BullMQ job, as far as its retries go. -/
structure Job where
  state : JobState
  attemptsMade : ℕ
deriving DecidableEq

end Engine
