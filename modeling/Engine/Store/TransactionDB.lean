import Mathlib.Data.PNat.Basic
import Mathlib.Data.String.Basic
import Engine.Model.Types
import Engine.Store.Redis

/-! `db/transactions/db.ts`: the stored transactions and their status indexes, under the
text of their keys. -/
namespace Engine
open Redis

/-- The four indexes: the statuses that `TransactionDB.set` adds to one. -/
inductive Index
  | queued
  | mined
  | cancelled
  | errored
deriving DecidableEq

/-- The keyspace of the service, as far as transactions go. A string is a transaction's JSON. -/
abbrev Store := Keyspace String Transaction QueueId

namespace TransactionDB

def transactionDetailsKey (queueId : QueueId) : String := "transaction:" ++ queueId

/-- `queuedTransactionsKey` and its three siblings. -/
def indexKey : Index → String
  | .queued => "transaction:queued"
  | .mined => "transaction:mined"
  | .cancelled => "transaction:cancelled"
  | .errored => "transaction:errored"

def indexOf : Status → Option Index
  | .queued => some .queued
  | .sent => none
  | .mined => some .mined
  | .cancelled => some .cancelled
  | .errored => some .errored

/-- `set`: `timestamp` is the date that goes with the status. The pipeline's errors are not looked at. -/
def set (t : Transaction) (timestamp : ℤ) (s : Store) : Store :=
  let s := Keyspace.set s (transactionDetailsKey t.queueId) t
  match indexOf t.status with
  | some i => s.zadd (indexKey i) timestamp t.queueId
  | none => s

def get (queueId : QueueId) (s : Store) : Except CommandError (Option Transaction) :=
  Keyspace.get s (transactionDetailsKey queueId)

/-- The slices of a list that a loop with step `size` takes. -/
def batches (size : ℕ+) : ℕ → List α → List (List α)
  | 0, _ => []
  | _ + 1, [] => []
  | fuel + 1, l => l.take size :: batches size fuel (l.drop size)

/-- `bulkGet`, with `batchSize` keys a command, which is taken to be within the bound of `Batches`; ids that are not
found are skipped. -/
def bulkGet (batchSize : ℕ+) (queueIds : List QueueId) (s : Store) : List Transaction :=
  (batches batchSize queueIds.length queueIds).flatMap fun ids =>
    (s.mget (ids.map transactionDetailsKey)).filterMap id

/-- One command takes as many keys as a batch has. The bound on the arguments of a call is in `Batches`. -/
def unlinkBatches : List (List QueueId) → Store → ℕ × Store
  | [], s => (0, s)
  | ids :: rest, s =>
    let (n, s) := s.unlink (ids.map transactionDetailsKey)
    let (m, s) := unlinkBatches rest s
    (n + m, s)

def bulkDelete (batchSize : ℕ+) (queueIds : List QueueId) (s : Store) : ℕ × Store :=
  unlinkBatches (batches batchSize queueIds.length queueIds) s

def «exists» (queueId : QueueId) (s : Store) : Bool := Keyspace.exists s (transactionDetailsKey queueId)

def getTransactionListByStatus (batchSize : ℕ+) (status : Index) (page limit : ℤ) (s : Store) :
    Except CommandError (List Transaction × ℕ) := do
  let start := (page - 1) * limit
  let stop := start + limit - 1
  let queueIds ← s.zrevrange (indexKey status) start stop
  let transactions := bulkGet batchSize queueIds s
  let totalCount ← s.zcard (indexKey status)
  pure (transactions, totalCount)

/-- The number pruned, or the error of reading the queued index. -/
def pruneTransactionDetailsAndLists (batchSize : ℕ+) (keep : ℤ) (s : Store) : Except CommandError ℕ × Store :=
  let stop := -keep - 1
  match s.zrange (indexKey .queued) 0 stop with
  | .error e => (.error e, s)
  | .ok queueIds =>
    let (numPruned, s) := bulkDelete batchSize queueIds s
    (.ok numPruned, (((s.zremrangebyrank (indexKey .queued) 0 stop).zremrangebyrank (indexKey .mined) 0 stop
      ).zremrangebyrank (indexKey .cancelled) 0 stop).zremrangebyrank (indexKey .errored) 0 stop)

end TransactionDB

/-- One use of the transaction database. -/
inductive DbCall
  | set (t : Transaction) (timestamp : ℤ)
  | get (queueId : QueueId)
  | «exists» (queueId : QueueId)
  | bulkGet (queueIds : List QueueId)
  | bulkDelete (queueIds : List QueueId)
  | list (status : Index) (page limit : ℤ)
  | prune (keep : ℤ)

inductive DbReply
  | done
  | transaction (t : Option Transaction)
  | «exists» (b : Bool)
  | transactions (ts : List Transaction)
  | number (n : ℕ)
  | page (ts : List Transaction) (totalCount : ℕ)
deriving DecidableEq

/-- The ids that a caller hands in. -/
def DbCall.ids : DbCall → List QueueId
  | .set t _ => [t.queueId]
  | .get q | .exists q => [q]
  | .bulkGet qs | .bulkDelete qs => qs
  | .list _ _ _ | .prune _ => []

namespace Store

def step (batchSize : ℕ+) (s : Store) : DbCall → Except CommandError DbReply × Store
  | .set t timestamp => (.ok .done, TransactionDB.set t timestamp s)
  | .get q => ((TransactionDB.get q s).map .transaction, s)
  | .exists q => (.ok (.exists (TransactionDB.exists q s)), s)
  | .bulkGet qs => (.ok (.transactions (TransactionDB.bulkGet batchSize qs s)), s)
  | .bulkDelete qs =>
    (.ok (.number (TransactionDB.bulkDelete batchSize qs s).1), (TransactionDB.bulkDelete batchSize qs s).2)
  | .list status page limit =>
    ((TransactionDB.getTransactionListByStatus batchSize status page limit s).map fun r => .page r.1 r.2, s)
  | .prune keep =>
    ((TransactionDB.pruneTransactionDetailsAndLists batchSize keep s).1.map .number,
      (TransactionDB.pruneTransactionDetailsAndLists batchSize keep s).2)

/-- The replies to a sequence of calls, the store they leave. -/
def run (batchSize : ℕ+) (s : Store) : List DbCall → List (Except CommandError DbReply) × Store
  | [] => ([], s)
  | c :: cs => ((s.step batchSize c).1 :: (run batchSize (s.step batchSize c).2 cs).1,
      (run batchSize (s.step batchSize c).2 cs).2)

end Store
end Engine
