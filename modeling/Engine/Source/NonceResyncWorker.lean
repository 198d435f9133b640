import Engine.Source.WalletNonce

/-! `worker/tasks/nonceResyncWorker.ts`: recycle the nonces between the on-chain count and
the counter that are not marked as sent. -/
namespace Engine
open Concurrent Program

/-- The integers from `lo` up to `hi`, `hi` excluded. -/
def noncesBetween (lo hi : ℤ) : List ℤ := (List.range (hi - lo).toNat).map fun i : ℕ => lo + i

/-- Recycle the nonce unless it is marked as sent. -/
def recycleUnlessSent (k : Wallet) (nonce : ℤ) : Prog Unit := do
  let «exists» ← isSentNonce k nonce
  if «exists» then pure () else recycleNonce k (some nonce)

/-- The loop over the keys. Its `return`s leave the handler, not only the round of the key. -/
def resyncKeys : List Wallet → Prog Unit
  | [] => pure ()
  | k :: ks => do
    let _ ← getChain k.chainId
    let transactionCount ← await (.ethGetTransactionCountOrNaN k)
    let lastUsedNonceDb ← inspectNonce k
    match transactionCount with
    | none => pure ()
    | some transactionCount => do
      let lastUsedNonceOnchain : ℤ := transactionCount - 1
      if lastUsedNonceOnchain ≥ lastUsedNonceDb then pure ()
      else do
        forEach (recycleUnlessSent k) (noncesBetween (lastUsedNonceOnchain + 1) lastUsedNonceDb)
        resyncKeys ks

def nonceResyncHandler : Prog Unit := do
  let sentNoncesKeys ← await .keysSent
  resyncKeys sentNoncesKeys

end Engine
