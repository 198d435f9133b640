import Engine.Model.Effect
import Engine.Source.Shared

/-! `worker/tasks/migratePostgresTransactionsWorker.ts`: the rows of the old database become
records with jobs. -/
namespace Engine
open Concurrent Program

/-- A selected row. -/
structure Row where
  id : String
  /-- What `toSentTransaction` or `toQueuedTransaction` makes of it, or the failed assertion. -/
  converted : Except Err Transaction

def migrateRow (row : Row) (enqueue : Transaction → Prog Unit) : Prog (List String) :=
  Shared.migrateRow row.id (ofExcept row.converted) (fun t => await (.setTransaction t)) enqueue

/-- The ids of the rows to cancel. -/
def migrateRows (rows : List Row) (enqueue : Transaction → Prog Unit) : Prog (List String) := do
  let toCancel ← collect (fun row => migrateRow row enqueue) rows
  pure toCancel.flatten

def migrateSentTransactions (rows : List Row) : Prog (List String) :=
  migrateRows rows fun sentTransaction => await (.mineQueueAdd sentTransaction.queueId)

def migrateQueuedTransactions (rows : List Row) : Prog (List String) :=
  migrateRows rows fun queuedTransaction => await (.sendQueueAdd queuedTransaction.queueId 0)

end Engine
