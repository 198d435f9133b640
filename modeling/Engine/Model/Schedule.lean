import Engine.Model.Effect

/-! Answers of the outside for writing down runs. -/
namespace Engine
open Concurrent

/-- What the outside would answer to every call. -/
abbrev Answers := (o : Op) → Except Err o.Choice

def minedReceipt (hash : TransactionHash) : TransactionReceipt where
  transactionHash := hash
  blockNumber := 1
  status := .success
  type := "eip1559"
  gasUsed := 21000
  effectiveGasPrice := 1
  cumulativeGasUsed := 21000

/-- Every call succeeds, with nothing remarkable in its reply. -/
def usual : Answers
  | .keysRecycled => .ok []
  | .keysSent => .ok []
  | .multiZrangeDelRecycled _ => .ok true
  | .setTransaction _ => .ok true
  | .getLatestBlock _ => .ok none
  | .getConfig => .ok ⟨12, 3⟩
  | .ethGetTransactionCount _ => .ok 0
  | .ethGetTransactionCountOrNaN _ => .ok (some 0)
  | .ethBlockNumber _ => .ok 0
  | .toSerializableTransaction _ => .ok {}
  | .ethGetTransactionReceipt _ hash => .ok (minedReceipt hash)
  | .getChainMetadata _ => .ok ("chain", "symbol")
  | .readFactory _ _ => .ok 0
  | .createUnsignedUserOp _ tx _ => .ok ⟨0, 0, tx.to, tx.value, tx.data, 0, 0, 0, []⟩
  | .getPaymasterAndData _ => .ok none
  | .getUserOpReceiptRaw _ => .ok none
  | .randomUUID => .ok "9eb88b00-f04f-409b-9df7-7dcc9003bc35"
  | .zpopminRecycled _ | .zaddRecycled _ _ | .incrNonce _ | .setNonce _ _ | .evalNonceIfHigher _ _ => .ok ()
  | .sismemberSent _ _ | .getNonce _ => .ok ()
  | .saddSent _ _ | .sremSent _ _ | .zaddNonceMap _ _ _ | .getTransaction _ | .existsTransaction _ => .ok ()
  | .getAccount _ _ | .getSmartWallet _ _ _ | .accountSendTransaction _ _ _ => .ok ()
  | .ethGetTransactionByHash _ _ | .simulateTransaction _ | .signUserOp _ | .bundleUserOp _ _ => .ok ()
  | .getUserOpReceipt _ | .sendQueueAdd _ _ | .sendQueueRemove _ _ | .sendQueueGetJob _ _ => .ok ()
  | .mineQueueAdd _ | .mineQueueRemove _ | .mineQueueGetJob _ | .enqueueWebhook _ _ | .jobLog => .ok ()
  | .sendJobCompleted _ _ | .sendJobFailed _ _ | .mineJobCompleted _ | .mineJobFailed _ => .ok ()
  | .recordMetrics _ | .chainExecutes _ _ | .chainConsumes _ _ => .ok ()

def throwing (e : Err) : Answers := fun _ => .error e

/-- `eth_getTransactionCount` answers `c`. -/
def withCount (c : ℕ) : Answers
  | .ethGetTransactionCount _ => .ok c
  | o => usual o

/-- The next calls of thread `i`, answered in order. -/
def answered {M : Machine Calls α} (i : ℕ) (answers : List Answers) : List (Move M) :=
  answers.map fun a => .call i a

/-- The next `n` calls of thread `i`, answered as usual. -/
def proceeds {M : Machine Calls α} (i n : ℕ) : List (Move M) := answered i (List.replicate n usual)

end Engine
