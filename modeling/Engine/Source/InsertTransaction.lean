import Engine.Source.Utils

/-! `utils/transaction/insertTransaction.ts`: store a transaction and queue its first send. -/
namespace Engine
open Concurrent Program

/-- Every run of line breaks becomes one dash (`error.replace(/[\r\n]+/g, " --- ")`). -/
def replaceLineBreaks (inBreak : Bool) : List Char → List Char
  | [] => []
  | c :: cs =>
    if c = '\r' ∨ c = '\n' then
      (if inBreak then [] else " --- ".toList) ++ replaceLineBreaks true cs
    else c :: replaceLineBreaks false cs

def queuedTransaction (insertedTransaction : InsertedTransaction) (queueId : QueueId) : Transaction :=
  { insertedTransaction with
    status := .queued, queueId := queueId, resendCount := 0,
    value := some (insertedTransaction.value.getD 0) }

def assertSimulates (queued : Transaction) : Prog Unit := do
  let error ← doSimulateTransaction queued
  match error with
  | none => pure ()
  | some error =>
    throw (createCustomError
      ("Simulation failed: " ++ String.ofList (replaceLineBreaks false error.toList)) 400 "BAD_REQUEST")

/-- The part after the idempotency check. -/
def insertQueued (queued : Transaction) (shouldSimulate : Bool) : Prog QueueId := do
  if shouldSimulate then assertSimulates queued else pure ()
  await (.setTransaction queued)
  await (.sendQueueAdd queued.queueId 0)
  await (.recordMetrics (.transactionQueued queued.chainId queued.from))
  pure queued.queueId

def insertTransaction (insertedTransaction : InsertedTransaction) (idempotencyKey : Option String)
    (shouldSimulate : Bool) : Prog QueueId := do
  let queueId ← await .randomUUID
  match idempotencyKey.filter (· ≠ "") with
  | none => insertQueued (queuedTransaction insertedTransaction queueId) shouldSimulate
  | some queueId => do
    let alreadyInserted ← await (.existsTransaction queueId)
    if alreadyInserted then pure queueId
    else insertQueued (queuedTransaction insertedTransaction queueId) shouldSimulate

end Engine
