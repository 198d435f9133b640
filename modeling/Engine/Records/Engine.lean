import Engine.Model.Schedule
import Engine.Source.InsertTransaction
import Engine.Source.MineTransactionWorker
import Engine.Source.Routes
import Engine.Source.SendTransactionWorker

/-! The service as one machine: workers that take jobs, requests, and the chain. -/
namespace Engine
open Concurrent Program

inductive Request
  | insertTransaction (tx : InsertedTransaction) (idempotencyKey : Option String) (shouldSimulate : Bool)
  /-- One attempt of the send job `<queueId>.<resendCount>`. -/
  | sendJob (q : QueueId) (resendCount : ℕ)
  /-- One attempt of the mine job of `queueId`. -/
  | mineJob (q : QueueId)
  | cancel (q : QueueId)
  | retry (q : QueueId) (maxFeePerGas maxPriorityFeePerGas : Option String)
  | syncRetry (q : QueueId) (maxFeePerGas maxPriorityFeePerGas : Option String)
  | retryFailed (q : QueueId)
  | cancelRecycledNonces
  /-- The chain executes an accepted broadcast. -/
  | chainExecutes (c : Caller) (h : TransactionHash)
  /-- A nonce is used up by a transaction that was sent elsewhere. -/
  | chainConsumes (k : Wallet) (n : ℤ)
deriving DecidableEq

/-- A worker takes a job that waits, also one that waits for its next attempt. -/
def takeJob : Option Job → Option Job
  | some ⟨.waiting, n⟩ => some ⟨.active, n⟩
  | some ⟨.delayed, n⟩ => some ⟨.active, n⟩
  | _ => none

/-- `p` for its effects. -/
def discard (p : Prog α) : Prog Unit := p.bind fun _ => done ()

abbrev engine : Machine Calls Unit where
  World := World
  Kind := Request
  effect := World.effect
  start w
    | .insertTransaction tx key simulate => some (discard (insertTransaction tx key simulate), w)
    | .sendJob q n =>
      (takeJob (w.sendJobs q n)).map fun j => (sendTransactionWorker q n, w.setSendJob q n (some j))
    | .mineJob q => (takeJob (w.mineJobs q)).map fun j => (mineTransactionWorker q, w.setMineJob q (some j))
    | .cancel q => some (discard (cancelTransaction q), w)
    | .retry q maxFeePerGas maxPriorityFeePerGas =>
      some (retryTransaction q maxFeePerGas maxPriorityFeePerGas, w)
    | .syncRetry q maxFeePerGas maxPriorityFeePerGas =>
      some (discard (syncRetryTransaction q maxFeePerGas maxPriorityFeePerGas), w)
    | .retryFailed q => some (retryFailedTransaction q, w)
    | .cancelRecycledNonces => some (cancelRecycledNoncesHandler, w)
    | .chainExecutes c h => some (await (.chainExecutes c h), w)
    | .chainConsumes k n => some (await (.chainConsumes k n), w)

/-- Any interleaving, with any failures. -/
def anyRun : Guard engine where
  start _ _ := true
  call _ _ _ _ := true

/-- The call that the runs below are about. -/
def transfer : InsertedTransaction :=
  { isUserOp := false, chainId := 1, «from» := 7, «to» := some 9, data := some [1], value := some 5 }

/-- The queue id that `usual` draws. -/
def transferId : QueueId := "9eb88b00-f04f-409b-9df7-7dcc9003bc35"

/-- The hash of the transfer with nonce `n`. -/
def transferHash (n : ℤ) : TransactionHash := ⟨7, ⟨1, some 9, some [1], some 5, n, none, none, none, none⟩⟩

def starts (k : Request) : Move engine := .start k

/-- The transfer is inserted by process 0, and sent with nonce 0 by process 1. -/
def insertedAndSent : List (Move engine) :=
  starts (.insertTransaction transfer none false) :: proceeds 0 4 ++ starts (.sendJob transferId 0) :: proceeds 1 21

/-- And it is mined. -/
def sentAndMined : List (Move engine) :=
  insertedAndSent ++ starts (.chainExecutes (.transaction transferId) (transferHash 0)) :: proceeds 2 1 ++
    starts (.mineJob transferId) :: proceeds 3 9

def connectionClosed : Err := .new "Connection is closed."

/-- An attempt of a send job cannot read its record. -/
def cannotRead (i n : ℕ) : List (Move engine) :=
  starts (.sendJob transferId n) :: answered i [throwing connectionClosed, usual]

end Engine
