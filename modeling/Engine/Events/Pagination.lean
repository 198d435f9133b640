import Mathlib.Data.List.Lex
import Engine.Codec.Base64
import Engine.Codec.Integer
import Engine.Events.Tables
import Engine.Paging.Keyset

/-! `db/contractEventLogs/getContractEventLogs.ts` and
`db/contractTransactionReceipts/getContractTransactionReceipts.ts`, their pages by cursor, and the
routes that serve these. -/
namespace Engine.Events

variable (o : Codec.Base64)

/-- `base64.decode(cursor).split("-").map((val) => parseInt(val))`. -/
def cursorValues (cursor : String) : Except Err (List (Option ℤ)) :=
  match o.decode cursor with
  | some decodedCursor => pure (Codec.splitDashes decodedCursor.toList)
  | none => throw { name := "InvalidCharacterError",
                    message := some "Invalid character: the string to be decoded is not correctly encoded." }

/-- The numbers joined by `-`, in Base64. -/
def encodeCursor (values : List ℕ) : Except Err String :=
  match o.encode (String.ofList (Codec.joinDashes values)) with
  | some cursor => pure cursor
  | none => throw { name := "InvalidCharacterError",
                    message := some ("The string to be encoded contains characters outside of the Latin1 range.") }

/-- The filter applies if the list is given and not empty. -/
def ifAny {α : Type} (xs : Option (List α)) (p : List α → Bool) : Bool :=
  match xs with
  | some (x :: xs) => p (x :: xs)
  | _ => true

/-! ### Event logs -/

structure EventLogCursor where
  createdAt : ℤ
  chainId : ℤ
  blockNumber : ℤ
  transactionIndex : ℤ
  logIndex : ℤ
deriving DecidableEq

/-- More values are ignored. -/
def parseEventLogCursor (cursor : String) : Except Err EventLogCursor := do
  let parsedCursor ← cursorValues o cursor
  match parsedCursor with
  | some createdAt :: some chainId :: some blockNumber :: some transactionIndex :: some logIndex :: _ =>
    pure { createdAt, chainId, blockNumber, transactionIndex, logIndex }
  | _ => throw (.new "Invalid cursor format")

/-- The log is after the cursor. -/
def EventLogCursor.before (cursorObj : EventLogCursor) (log : ContractEventLogs) : Bool :=
  log.createdAt > cursorObj.createdAt ||
  (log.createdAt = cursorObj.createdAt && log.chainId > cursorObj.chainId) ||
  (log.createdAt = cursorObj.createdAt && log.chainId = cursorObj.chainId &&
    log.blockNumber > cursorObj.blockNumber) ||
  (log.createdAt = cursorObj.createdAt && log.chainId = cursorObj.chainId &&
    log.blockNumber = cursorObj.blockNumber && log.transactionIndex > cursorObj.transactionIndex) ||
  (log.createdAt = cursorObj.createdAt && log.chainId = cursorObj.chainId &&
    log.blockNumber = cursorObj.blockNumber && log.transactionIndex = cursorObj.transactionIndex &&
    log.logIndex > cursorObj.logIndex)

/-- What event logs are ordered by, and what their cursors hold. -/
def ContractEventLogs.tuple (log : ContractEventLogs) : List ℕ :=
  [log.createdAt, log.chainId, log.blockNumber, log.transactionIndex, log.logIndex]

structure LogFilters where
  contractAddresses : Option (List String)
  topics : Option (List String)
deriving DecidableEq

def LogFilters.accepts (filters : LogFilters) (log : ContractEventLogs) : Bool :=
  ifAny filters.contractAddresses (fun contractAddresses => log.contractAddress ∈ contractAddresses) &&
  ifAny filters.topics fun topics => log.topic0.any (· ∈ topics) || log.topic1.any (· ∈ topics) ||
    log.topic2.any (· ∈ topics) || log.topic3.any (· ∈ topics)

def eventLogsWhere (filters : LogFilters) (cursorObj : Option EventLogCursor) (maxCreatedAt : Option ℤ)
    (log : ContractEventLogs) : Bool :=
  filters.accepts log && cursorObj.all (fun cursorObj => cursorObj.before log) &&
    maxCreatedAt.all fun maxCreatedAt => (log.createdAt : ℤ) ≤ maxCreatedAt

/-- An empty cursor is none. -/
def getEventLogsByCursor (contractEventLogs : List ContractEventLogs) (cursor : Option String) (limit : Option ℕ)
    (filters : LogFilters) (maxCreatedAt : Option ℤ) : Except Err (Option String × List ContractEventLogs) := do
  let cursorObj ← (cursor.filter (· ≠ "")).mapM (parseEventLogCursor o)
  let logs := Keyset.select ContractEventLogs.tuple (eventLogsWhere filters cursorObj maxCreatedAt) (limit.getD 100)
    contractEventLogs
  match logs.getLast? with
  | none => pure (cursor, logs)
  | some lastLog => do
    let newCursor ← encodeCursor o lastLog.tuple
    pure (some newCursor, logs)

structure PageEventLogsQuery extends LogFilters where
  cursor : Option String
  pageSize : Option ℕ

/-- `now` is `Date.now()`. Addresses are normalised. -/
def pageEventLogs (contractEventLogs : List ContractEventLogs) (cursorDelaySeconds now : ℤ)
    (query : PageEventLogsQuery) : Except Err (Option String × List ContractEventLogs) :=
  getEventLogsByCursor o contractEventLogs query.cursor query.pageSize query.toLogFilters
    (some (now - cursorDelaySeconds * 1000))

/-! ### Transaction receipts -/

structure ReceiptCursor where
  createdAt : ℤ
  chainId : ℤ
  blockNumber : ℤ
  transactionIndex : ℤ
deriving DecidableEq

def parseReceiptCursor (cursor : String) : Except Err ReceiptCursor := do
  let parsedCursor ← cursorValues o cursor
  match parsedCursor with
  | some createdAt :: some chainId :: some blockNumber :: some transactionIndex :: _ =>
    pure { createdAt, chainId, blockNumber, transactionIndex }
  | _ => throw (.new "Invalid cursor format")

/-- The last alternative asks for a later block, too. -/
def ReceiptCursor.before (cursorObj : ReceiptCursor) (receipt : ContractTransactionReceipts) : Bool :=
  receipt.createdAt > cursorObj.createdAt ||
  (receipt.createdAt = cursorObj.createdAt && receipt.chainId > cursorObj.chainId) ||
  (receipt.createdAt = cursorObj.createdAt && receipt.chainId = cursorObj.chainId &&
    receipt.blockNumber > cursorObj.blockNumber) ||
  (receipt.createdAt = cursorObj.createdAt && receipt.chainId = cursorObj.chainId &&
    receipt.blockNumber > cursorObj.blockNumber && receipt.transactionIndex > cursorObj.transactionIndex)

/-- What transaction receipts are ordered by, and what their cursors hold. -/
def ContractTransactionReceipts.tuple (receipt : ContractTransactionReceipts) : List ℕ :=
  [receipt.createdAt, receipt.chainId, receipt.blockNumber, receipt.transactionIndex]

def receiptAccepted (contractAddresses : Option (List String)) (maxCreatedAt : Option ℤ)
    (receipt : ContractTransactionReceipts) : Bool :=
  ifAny contractAddresses (fun contractAddresses => receipt.contractAddress ∈ contractAddresses) &&
    maxCreatedAt.all fun maxCreatedAt => (receipt.createdAt : ℤ) ≤ maxCreatedAt

def getTransactionReceiptsByCursor (contractTransactionReceipts : List ContractTransactionReceipts)
    (cursor : Option String) (limit : Option ℕ) (contractAddresses : Option (List String))
    (maxCreatedAt : Option ℤ) : Except Err (Option String × List ContractTransactionReceipts) := do
  let cursorObj ← (cursor.filter (· ≠ "")).mapM (parseReceiptCursor o)
  let transactionReceipts := Keyset.select ContractTransactionReceipts.tuple
    (fun receipt => receiptAccepted contractAddresses maxCreatedAt receipt &&
      cursorObj.all fun cursorObj => cursorObj.before receipt) (limit.getD 100) contractTransactionReceipts
  match transactionReceipts.getLast? with
  | none => pure (cursor, transactionReceipts)
  | some lastReceipt => do
    let newCursor ← encodeCursor o lastReceipt.tuple
    pure (some newCursor, transactionReceipts)

end Engine.Events
