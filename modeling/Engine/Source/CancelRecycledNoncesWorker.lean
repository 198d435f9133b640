import Engine.Source.WalletNonce

/-! `worker/tasks/cancelRecycledNoncesWorker.ts` and `utils/transaction/cancelTransaction.ts`:
null transactions that use up nonces. -/
namespace Engine
open Concurrent Program

/-- The fees as the code doubles them: `maxFeePerGas` twice, `maxPriorityFeePerGas` not. -/
def withCancellationFees (populated : SerializableTransaction) : SerializableTransaction :=
  { populated with
    gasPrice := doubled populated.gasPrice, maxFeePerGas := doubled (doubled populated.maxFeePerGas) }

/-- The request of a null transaction: nothing, sent to oneself. -/
def cancellationRequest (k : Wallet) (nonce : Option ℤ) : TransactionRequest where
  «from» := k.walletAddress
  chainId := k.chainId
  «to» := some k.walletAddress
  data := some []
  value := some 0
  nonce := nonce
  gas := none
  gasPrice := none
  maxFeePerGas := none
  maxPriorityFeePerGas := none

def sendCancellationTransaction (k : Wallet) (nonce : Option ℤ) : Prog TransactionHash := do
  let _ ← getChain k.chainId
  let populated ← await (.toSerializableTransaction (cancellationRequest k nonce))
  await (.getAccount k.chainId k.walletAddress)
  await (.accountSendTransaction .cancellation k.walletAddress (withCancellationFees populated))

/-- The text of a `nonce-recycled` key. -/
def recycledNoncesKey (k : Wallet) : String :=
  "nonce-recycled:" ++ toString k.chainId ++ ":" ++ addressText k.walletAddress

/-- `ZRANGE` and `DEL` in one `MULTI`. -/
def getAndDeleteRecycledNonces (k : Wallet) : Prog (List ℤ) := do
  let multiResult ← await (.multiZrangeDelRecycled k)
  match multiResult with
  | none => throw (Err.new ("Error getting members of " ++ recycledNoncesKey k ++ "."))
  | some nonces => pure nonces

/-- Cancel one nonce; give it back unless it is already used. -/
def cancelNonce (k : Wallet) (nonce : ℤ) : Prog Unit :=
  tryCatch (do
      let _ ← sendCancellationTransaction k (some nonce)
      pure ())
    fun e => if isNonceAlreadyUsedError e then pure () else recycleNonce k (some nonce)

def cancelRecycledNoncesHandler : Prog Unit := do
  let keys ← await .keysRecycled
  forEach (fun k => do
    let recycledNonces ← getAndDeleteRecycledNonces k
    forEach (cancelNonce k) recycledNonces) keys

end Engine
