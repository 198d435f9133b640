import Engine.Source.Utils

/-! `db/wallets/walletNonce.ts` and `nonceMap.ts`: the nonces of a backend wallet. -/
namespace Engine
open Concurrent Program

structure AcquiredNonce where
  nonce : ℤ
  isRecycledNonce : Bool
deriving DecidableEq

def addSentNonce (k : Wallet) (nonce : ℤ) : Prog Unit := await (.saddSent k nonce)

def removeSentNonce (k : Wallet) (nonce : ℤ) : Prog Bool := await (.sremSent k nonce)

def isSentNonce (k : Wallet) (nonce : ℤ) : Prog Bool := await (.sismemberSent k nonce)

/-- A key that is not set counts as 0. -/
def inspectNonce (k : Wallet) : Prog ℤ := do
  let nonce ← await (.getNonce k)
  pure (nonce.getD 0)

def updateNonceMap (k : Wallet) (nonce : ℤ) (queueId : QueueId) : Prog Unit :=
  await (.zaddNonceMap k nonce queueId)

/-- A nonce that is not a number is logged and dropped. -/
def recycleNonce (k : Wallet) (nonce : Option ℤ) : Prog Unit :=
  match nonce with
  | none => pure ()
  | some nonce => await (.zaddRecycled k nonce)

def acquireRecycledNonce (k : Wallet) : Prog (Option ℤ) := await (.zpopminRecycled k)

/-- The count is read, and written back less one, in two steps. -/
def syncLatestNonceFromOnchain (k : Wallet) : Prog Unit := do
  let _ ← getChain k.chainId
  let transactionCount ← await (.ethGetTransactionCount k)
  await (.setNonce k ((transactionCount : ℤ) - 1))

def syncLatestNonceFromOnchainIfHigher (k : Wallet) : Prog ℤ := do
  let _ ← getChain k.chainId
  let transactionCount ← await (.ethGetTransactionCount k)
  await (.evalNonceIfHigher k transactionCount)

/-- `nonce = await redis.incr(key)`, with the resync when it returned 1. -/
def incrementNonce (k : Wallet) : Prog ℤ := do
  let nonce ← await (.incrNonce k)
  if nonce = 1 then do
    syncLatestNonceFromOnchain k
    await (.incrNonce k)
  else pure nonce

def acquireNonce (queueId : QueueId) (k : Wallet) : Prog AcquiredNonce := do
  let recycled ← acquireRecycledNonce k
  let nonce ← match recycled with
    | some nonce => pure nonce
    | none => incrementNonce k
  updateNonceMap k nonce queueId
  pure { nonce, isRecycledNonce := false }

end Engine
