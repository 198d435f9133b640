import Engine.Events.DecodedLog
import Engine.Model.Types

/-! The tables of event logs and transaction receipts of subscribed contracts. -/
namespace Engine.Events

/-- A new row of `contract_event_logs`. -/
structure ContractEventLogsCreateInput where
  chainId : ℕ
  blockNumber : ℕ
  contractAddress : String
  transactionHash : String
  topic0 : Option String
  topic1 : Option String
  topic2 : Option String
  topic3 : Option String
  transactionIndex : ℕ
  logIndex : ℕ
  eventName : String
  decodedLog : Option DecodedLog := none
deriving DecidableEq

structure ContractEventLogs extends ContractEventLogsCreateInput where
  /-- In milliseconds. -/
  createdAt : ℕ
deriving DecidableEq

/-- A new row of `contract_transaction_receipts`. -/
structure ContractTransactionReceiptsCreateInput where
  chainId : ℕ
  blockNumber : ℕ
  contractAddress : String
  transactionHash : String
  transactionIndex : ℕ
  data : Hex
  functionName : Option String
deriving DecidableEq

structure ContractTransactionReceipts extends ContractTransactionReceiptsCreateInput where
  /-- In milliseconds. -/
  createdAt : ℕ
deriving DecidableEq

end Engine.Events
