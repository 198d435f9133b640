import Mathlib.Data.List.Infix
import Engine.Model.Effect

/-! `utils/`: chains, block numbers, errors, simulation and webhooks. -/
namespace Engine
open Concurrent Program

/-- A chain is its id here: overrides only change its RPC url and metadata. -/
def getChain (chainId : ℕ) : Prog ℕ := do
  let _ ← await .getConfig
  pure chainId

theorem follows_getChain {P : Protocol Calls} {R : P.Local → Except Err β → Prop} {l : P.Local}
    {chainId : ℕ} {f : ℕ → Prog β} (ha : P.allowed l .getConfig)
    (hok : ∀ r, P.possible .getConfig (.ok r) → (f chainId).Follows P R (P.next l .getConfig (.ok r)))
    (herr : ∀ e, P.possible .getConfig (.error e) → R (P.next l .getConfig (.error e)) (.error e)) :
    ((getChain chainId).bind f).Follows P R l := by
  refine ⟨ha, fun r hr => ?_⟩
  cases r with
  | ok r => exact hok r hr
  | error e => exact herr e hr

/-- The cache update is not awaited and its failure is swallowed. -/
def getBlockNumberish (chainId : ℕ) : Prog ℤ := do
  let chain ← getChain chainId
  tryCatch (await (.ethBlockNumber chain)) fun _ => do
    let cached ← await (.getLatestBlock chain)
    match cached with
    | some blockNumber => pure blockNumber
    | none => throw (Err.new "Error getting latest block number.")

/-- `error.message.toLowerCase()`. The texts looked for are ASCII. -/
def parseMessage (e : Err) : Option (List Char) := e.message.map fun m => m.toList.map Char.toLower

def includes (message : List Char) (text : String) : Bool := decide (text.toList <:+: message)

def isEthersErrorCode (e : Err) (code : String) : Bool := e.code == some code

def isNonceAlreadyUsedError (e : Err) : Bool :=
  match parseMessage e with
  | some (c :: cs) => includes (c :: cs) "nonce too low"
  | _ => isEthersErrorCode e "NONCE_EXPIRED"

def isReplacementGasFeeTooLow (e : Err) : Bool :=
  match parseMessage e with
  | some (c :: cs) => includes (c :: cs) "replacement fee too low" ||
      includes (c :: cs) "replacement transaction underpriced"
  | _ => isEthersErrorCode e "REPLACEMENT_UNDERPRICED"

/-- The error says that the nonce is used already. -/
def saysUsed (e : Err) : Bool := isNonceAlreadyUsedError e || isReplacementGasFeeTooLow e

def isInsufficientFundsError (e : Err) : Bool :=
  match parseMessage e with
  | some (c :: cs) => includes (c :: cs) "insufficient funds for gas * price + value" ||
      includes (c :: cs) "insufficient funds for intrinsic transaction cost"
  | _ => isEthersErrorCode e "INSUFFICIENT_FUNDS"

def addressText (a : Address) : String := "0x" ++ a.toHex

/-- The simulation error, or `none`. The JSON of the transaction is left out of the thrown text. -/
def doSimulateTransaction (t : Transaction) : Prog (Option String) := do
  let chain ← getChain t.chainId
  if t.data.isNone || (t.to.or t.target).isNone then
    throw (Err.new "Transaction cannot be simulated")
  else
    match t.accountAddress with
    | some accountAddress => await (.getSmartWallet chain t.from accountAddress)
    | none => await (.getAccount t.chainId t.from)
    tryCatch (do
      await (.simulateTransaction t)
      pure none) fun e => pure (some (e.name ++ ": " ++ e.message.getD "undefined"))

def prettifyError (t : Transaction) (e : Err) : Prog String :=
  if t.isUserOp then pure (e.message.getD "")
  else if isInsufficientFundsError e then do
    let chain ← getChain t.chainId
    let (name, symbol) ← await (.getChainMetadata chain)
    pure ("Insufficient " ++ symbol ++ " on " ++ name ++ " in " ++ addressText t.from ++ ".")
  else if isEthersErrorCode e "UNPREDICTABLE_GAS_LIMIT" then do
    let simulateError ← doSimulateTransaction t
    pure (simulateError.getD (e.message.getD ""))
  else pure (e.message.getD "")

/-- Nothing is announced for a queued transaction. -/
def enqueueTransactionWebhook (t : Transaction) : Prog Unit :=
  match t.status with
  | .sent => await (.enqueueWebhook .sentTx t.queueId)
  | .mined => await (.enqueueWebhook .minedTx t.queueId)
  | .cancelled => await (.enqueueWebhook .cancelledTx t.queueId)
  | .errored => await (.enqueueWebhook .erroredTx t.queueId)
  | .queued => pure ()

/-- `assert(condition)`. -/
def assert (condition : Bool) : Prog Unit :=
  if condition then pure ()
  else throw ({ name := "AssertionError", message := some "The expression evaluated to a falsy value" } : Err)

/-- A method call on an `undefined` field. -/
def defined (field : Option α) : Prog α :=
  match field with
  | some a => pure a
  | none => throw ({ name := "TypeError", message := some "Cannot read properties of undefined" } : Err)

/-- `if (fee) fee *= 2n`. -/
def doubled (fee : Option ℤ) : Option ℤ := fee.map (2 * ·)

/-- The fields of a stored transaction that the spread hands to `toSerializableTransaction`. -/
def Transaction.request (t : Transaction) (sender : Address) : TransactionRequest where
  «from» := sender
  chainId := t.chainId
  «to» := t.to
  data := t.data
  value := t.value
  nonce := t.nonce
  gas := t.gas
  gasPrice := t.gasPrice
  maxFeePerGas := t.maxFeePerGas
  maxPriorityFeePerGas := t.maxPriorityFeePerGas

end Engine
