import Engine.Inserts.AllOrNothing
import Engine.Source.Broadcasts

/-! Transactions without a recipient: who inserts them, and what the send worker does with them. -/
namespace Engine.Deployments
open Concurrent Program

/-! ### `POST /backend-wallet/:chain/send-transaction` -/

structure TxOverrides where
  gas : Option String := none
  maxFeePerGas : Option String := none
  maxPriorityFeePerGas : Option String := none
  value : Option String := none

/-- A header with an address: missing, an address, or a text that is none. -/
inductive AddressHeader
  | missing
  | valid (address : Address)
  | invalid

/-- `maybeAddress(address, variableName)`. -/
def maybeAddress (address : AddressHeader) (variableName : String) : Prog (Option Address) :=
  match address with
  | .missing => pure none
  | .valid address => pure (some address)
  | .invalid => throw (createCustomError
      ("Invalid address: " ++ variableName ++ ". Needs to be a valid EVM address") 400 "INVALID_ADDRESS")

/-- `BigInt(value)`. -/
def bigInt (value : String) : Prog ℤ :=
  match parseTrimmed ((value.toList.dropWhile isStrWhiteSpace).rdropWhile isStrWhiteSpace) with
  | some n => pure n
  | none => throw ({ name := "SyntaxError", message := some ("Cannot convert " ++ value ++ " to a BigInt") } : Err)

structure SendTransactionRequest where
  chainId : ℕ
  fromAddress : Address
  toAddress : Option Address := none
  data : Hex
  value : String
  txOverrides : TxOverrides := {}
  simulateTx : Bool := false
  idempotencyKey : Option String := none
  accountAddress : Option Address := none
  accountFactoryAddress : AddressHeader := .missing

def sendTransaction (request : SendTransactionRequest) : Prog QueueId :=
  match request.accountAddress with
  | some accountAddress => do
    let value ← bigInt request.value
    let accountFactoryAddress ← maybeAddress request.accountFactoryAddress "x-account-factory-address"
    let gas ← maybeBigInt request.txOverrides.gas
    let maxFeePerGas ← maybeBigInt request.txOverrides.maxFeePerGas
    let maxPriorityFeePerGas ← maybeBigInt request.txOverrides.maxPriorityFeePerGas
    insertTransaction
      { isUserOp := true, chainId := request.chainId, «from» := request.fromAddress, «to» := request.toAddress
        data := some request.data, value := some value, accountAddress := some accountAddress
        signerAddress := some request.fromAddress, target := request.toAddress
        accountFactoryAddress := accountFactoryAddress, gas := gas, maxFeePerGas := maxFeePerGas
        maxPriorityFeePerGas := maxPriorityFeePerGas }
      request.idempotencyKey request.simulateTx
  | none => do
    let value ← bigInt request.value
    let gas ← maybeBigInt request.txOverrides.gas
    let maxFeePerGas ← maybeBigInt request.txOverrides.maxFeePerGas
    let maxPriorityFeePerGas ← maybeBigInt request.txOverrides.maxPriorityFeePerGas
    insertTransaction
      { isUserOp := false, chainId := request.chainId, «from» := request.fromAddress, «to» := request.toAddress
        data := some request.data, value := some value, gas := gas, maxFeePerGas := maxFeePerGas
        maxPriorityFeePerGas := maxPriorityFeePerGas }
      request.idempotencyKey request.simulateTx

/-! ### `db/transactions/queueTx.ts` -/

/-- A transaction of the old SDK. -/
structure SdkTransaction where
  method : String
  encodedData : Hex
  value : String
  /-- Whether its signer is a smart account. -/
  erc4337 : Bool
  originalSigner : Address
  signerAddress : Address
  target : Address

structure QueueTxParams where
  tx : SdkTransaction
  chainId : ℕ
  extension : String
  deployedContractAddress : Option Address := none
  simulateTx : Bool := false
  idempotencyKey : Option String := none
  txOverrides : TxOverrides := {}
  accountFactoryAddress : Option Address := none

/-- `ZERO_ADDRESS`. -/
def zeroAddress : Address := 0

def isPublishedContractDeploy (params : QueueTxParams) : Bool :=
  params.tx.target = zeroAddress && params.tx.method = "deploy" && params.extension = "deploy-published"

def queueTx (params : QueueTxParams) : Prog QueueId := do
  let value ← maybeBigInt (params.txOverrides.value.or (some params.tx.value))
  let gas ← maybeBigInt params.txOverrides.gas
  let maxFeePerGas ← maybeBigInt params.txOverrides.maxFeePerGas
  let maxPriorityFeePerGas ← maybeBigInt params.txOverrides.maxPriorityFeePerGas
  if params.tx.erc4337 then
    insertTransaction
      { isUserOp := true, chainId := params.chainId, value := value, data := some params.tx.encodedData
        functionName := some params.tx.method, extension := some params.extension, gas := gas
        maxFeePerGas := maxFeePerGas, maxPriorityFeePerGas := maxPriorityFeePerGas
        deployedContractAddress := params.deployedContractAddress.map .literal
        «from» := params.tx.originalSigner, signerAddress := some params.tx.originalSigner
        accountAddress := some params.tx.signerAddress, target := some params.tx.target
        accountFactoryAddress := params.accountFactoryAddress }
      params.idempotencyKey params.simulateTx
  else
    insertTransaction
      { isUserOp := false, chainId := params.chainId, value := value, data := some params.tx.encodedData
        functionName := some params.tx.method, extension := some params.extension, gas := gas
        maxFeePerGas := maxFeePerGas, maxPriorityFeePerGas := maxPriorityFeePerGas
        deployedContractAddress := params.deployedContractAddress.map .literal
        «from» := params.tx.signerAddress
        «to» := if isPublishedContractDeploy params then none else some params.tx.target }
      params.idempotencyKey params.simulateTx

/-! ### Who leaves the recipient out -/

/-- A request for an EOA transaction without a recipient. -/
inductive Deployment
  | sendTransaction (request : SendTransactionRequest) (hto : request.toAddress = none)
      (heoa : request.accountAddress = none)
  | queueTx (params : QueueTxParams) (hdeploy : isPublishedContractDeploy params = true)
      (heoa : params.tx.erc4337 = false)

def Deployment.program : Deployment → Prog QueueId
  | .sendTransaction request _ _ => Deployments.sendTransaction request
  | .queueTx params _ _ => Deployments.queueTx params

/-- Whether a published contract is deployed. -/
def Deployment.published : Deployment → Bool
  | .sendTransaction _ _ _ => false
  | .queueTx _ _ _ => true

section
variable {x : Replies Calls} {t : Transaction} {inserted : InsertedTransaction} {key : Option String} {simulate : Bool}

/-- An insertion stores the queued transaction, and nothing else. -/
theorem eq_of_mem_insertQueued {queued : Transaction} (h : t ∈ storedRecords x (insertQueued queued simulate)) :
    t = queued := by
  have hstore : t ∈ storedRecords x (insertQueued queued false) → t = queued := by
    intro h
    obtain h | ⟨_, -, h⟩ := mem_storedRecords_bind.mp h
    · exact (Option.some.inj (mem_storedRecords_await.mp h)).symm
    obtain h | ⟨_, -, h⟩ := mem_storedRecords_bind.mp h
    · cases mem_storedRecords_await.mp h
    obtain h | ⟨_, -, h⟩ := mem_storedRecords_bind.mp h
    · cases mem_storedRecords_await.mp h
    · cases h
  cases simulate with
  | false => exact hstore h
  | true =>
    obtain h | ⟨_, -, h⟩ := mem_storedRecords_bind.mp h
    · cases not_mem_storedRecords_of_only (only_assertSimulates queued) h
    · exact hstore h

theorem exists_of_mem_insertTransaction (h : t ∈ storedRecords x (insertTransaction inserted key simulate)) :
    ∃ queueId, t = queuedTransaction inserted queueId := by
  unfold insertTransaction at h
  obtain h | ⟨queueId, -, h⟩ := mem_storedRecords_bind.mp h
  · cases mem_storedRecords_await.mp h
  split at h
  · exact ⟨queueId, eq_of_mem_insertQueued h⟩
  · obtain h | ⟨alreadyInserted, -, h⟩ := mem_storedRecords_bind.mp h
    · cases mem_storedRecords_await.mp h
    cases alreadyInserted with
    | true => cases h
    | false => exact ⟨_, eq_of_mem_insertQueued h⟩

private theorem not_mem_bigInt {value : String} : t ∉ storedRecords x (bigInt value) := by
  unfold bigInt
  split <;> exact List.not_mem_nil

/-- A queued EOA transaction with nobody to send it to. -/
structure NoRecipient (t : Transaction) : Prop where
  status : t.status = .queued
  isUserOp : t.isUserOp = false
  «to» : t.to = none
  target : t.target = none

/-- What is stored for a deployment has no recipient. -/
theorem Deployment.noRecipient (deployment : Deployment) (h : t ∈ storedRecords x deployment.program) :
    NoRecipient t := by
  cases deployment with
  | sendTransaction request hto heoa =>
    have h : t ∈ storedRecords x (Deployments.sendTransaction request) := h
    unfold Deployments.sendTransaction at h
    rw [heoa] at h
    obtain h | ⟨value, -, h⟩ := mem_storedRecords_bind.mp h
    · cases not_mem_bigInt h
    obtain h | ⟨gas, -, h⟩ := mem_storedRecords_bind.mp h
    · cases not_mem_storedRecords_of_only (only_maybeBigInt _) h
    obtain h | ⟨maxFeePerGas, -, h⟩ := mem_storedRecords_bind.mp h
    · cases not_mem_storedRecords_of_only (only_maybeBigInt _) h
    obtain h | ⟨maxPriorityFeePerGas, -, h⟩ := mem_storedRecords_bind.mp h
    · cases not_mem_storedRecords_of_only (only_maybeBigInt _) h
    obtain ⟨queueId, rfl⟩ := exists_of_mem_insertTransaction h
    exact ⟨rfl, rfl, hto, rfl⟩
  | queueTx params hdeploy heoa =>
    have h : t ∈ storedRecords x (Deployments.queueTx params) := h
    unfold Deployments.queueTx at h
    obtain h | ⟨value, -, h⟩ := mem_storedRecords_bind.mp h
    · cases not_mem_storedRecords_of_only (only_maybeBigInt _) h
    obtain h | ⟨gas, -, h⟩ := mem_storedRecords_bind.mp h
    · cases not_mem_storedRecords_of_only (only_maybeBigInt _) h
    obtain h | ⟨maxFeePerGas, -, h⟩ := mem_storedRecords_bind.mp h
    · cases not_mem_storedRecords_of_only (only_maybeBigInt _) h
    obtain h | ⟨maxPriorityFeePerGas, -, h⟩ := mem_storedRecords_bind.mp h
    · cases not_mem_storedRecords_of_only (only_maybeBigInt _) h
    rw [heoa, if_neg Bool.false_ne_true, hdeploy, if_pos rfl] at h
    obtain ⟨queueId, rfl⟩ := exists_of_mem_insertTransaction h
    exact ⟨rfl, rfl, rfl, rfl⟩

/-! ### What the worker does with it -/

/-- The text of the error. -/
def missingTo : String := "Invalid transaction parameters: to"

/-- Nothing is populated without a recipient. -/
theorem sendTransaction_eq (h : NoRecipient t) : Engine.sendTransaction t = pure (erroredTransaction t missingTo) := by
  have hpopulated : getPopulatedOrErroredTransaction t = pure (.error (erroredTransaction t missingTo)) := by
    unfold getPopulatedOrErroredTransaction
    rw [h.to, h.target, h.isUserOp]
    rfl
  unfold Engine.sendTransaction
  rw [hpopulated, h.isUserOp]
  rfl

theorem sendFound_eq (h : NoRecipient t) (resendCount : ℕ) :
    sendFound t resendCount = storeSendResult t (erroredTransaction t missingTo) := by
  unfold sendFound
  rw [h.status]
  dsimp only
  rw [h.isUserOp, if_neg Bool.false_ne_true, sendTransaction_eq h]
  rfl

theorem manuallyRetried_eq (h : NoRecipient t) (resendCount : ℕ) : manuallyRetried t resendCount = t := by
  unfold manuallyRetried
  rw [h.status, if_neg (by simp)]

/-- The record that was stored, or what an attempt made of it. -/
def Waits (t t' : Transaction) : Prop := t' = t ∨ ∃ errorMessage, t' = erroredTransaction t errorMessage

private theorem noRecipient_requeued (h : NoRecipient t) (errorMessage : String) :
    NoRecipient (requeued (erroredTransaction t errorMessage)) := ⟨rfl, h.isUserOp, h.to, h.target⟩

/-- No attempt broadcasts anything. -/
theorem not_mem_broadcasts_sendFound (h : NoRecipient t) {t' : Transaction} (hwaits : Waits t t') (resendCount : ℕ)
    (tx : SerializableTransaction) : tx ∉ broadcasts x (sendFound (manuallyRetried t' resendCount) resendCount) := by
  obtain rfl | ⟨errorMessage, rfl⟩ := hwaits
  · rw [manuallyRetried_eq h, sendFound_eq h]
    exact not_mem_broadcasts_storeSendResult _ _
  · unfold manuallyRetried
    split_ifs with hfirst
    · rw [sendFound_eq (noRecipient_requeued h errorMessage)]
      exact not_mem_broadcasts_storeSendResult _ _
    · exact List.not_mem_nil

theorem not_mem_broadcasts_handler (h : NoRecipient t) {t' : Transaction} (hwaits : Waits t t') {queueId : QueueId}
    (hfound : x (.getTransaction queueId) = .ok (some t')) (resendCount : ℕ) (tx : SerializableTransaction) :
    tx ∉ broadcasts x (sendTransactionHandler queueId resendCount) := by
  intro hmem
  unfold sendTransactionHandler at hmem
  obtain hmem | ⟨found, hfound', hmem⟩ := mem_broadcasts_bind.mp hmem
  · cases mem_broadcasts_await.mp hmem
  · have hsame : found = some t' := Except.ok.inj ((outcome_perform _).symm.trans hfound' |>.symm.trans hfound)
    subst hsame
    exact not_mem_broadcasts_sendFound h hwaits resendCount tx hmem

end

/-- An attempt sends the deployment: it broadcasts a transaction that creates a contract, and stores it as
sent, with the address of the contract when a published one is deployed, and not as errored for want of
a recipient. -/
structure SentAsCreation (deployment : Deployment) (y : Replies Calls) (queueId : QueueId) (resendCount : ℕ) :
    Prop where
  broadcast : ∃ tx ∈ broadcasts y (sendTransactionHandler queueId resendCount), tx.to = none
  stored : ∃ sent ∈ storedRecords y (sendTransactionHandler queueId resendCount), sent.status = .sent ∧
    (deployment.published = true →
      ∃ nonce, sent.nonce = some nonce ∧ sent.deployedContractAddress = some (.create sent.from nonce))
  notErrored : ∀ errored ∈ storedRecords y (sendTransactionHandler queueId resendCount), errored.status = .errored →
    errored.errorMessage ≠ some missingTo

/-- No attempt sends a deployment, whatever every call replies. -/
theorem not_sentAsCreation (deployment : Deployment) (x y : Replies Calls) (t t' : Transaction)
    (hstored : t ∈ storedRecords x deployment.program) (hwaits : Waits t t')
    (hfound : y (.getTransaction t.queueId) = .ok (some t')) (resendCount : ℕ) :
    ¬ SentAsCreation deployment y t.queueId resendCount := by
  intro h
  obtain ⟨tx, htx, -⟩ := h.broadcast
  exact not_mem_broadcasts_handler (deployment.noRecipient hstored) hwaits hfound resendCount tx htx

/-- A contract is created from its code. -/
def creation : Deployment :=
  .sendTransaction { chainId := 137, fromAddress := 7, data := [0x60], value := "0x00" } rfl rfl

/-- The record that is stored for it. -/
def creationRecord : Transaction :=
  queuedTransaction { isUserOp := false, chainId := 137, «from» := 7, data := some [0x60], value := some 0 } "q"

/-- Everything that an insertion, a population and a broadcast call succeeds. -/
def willing : Replies Calls
  | .randomUUID => .ok "q"
  | .setTransaction _ => .ok ()
  | .sendQueueAdd _ _ => .ok ()
  | .recordMetrics _ => .ok ()
  | .getTransaction _ => .ok (some creationRecord)
  | .getConfig => .ok ⟨0, 0⟩
  | .toSerializableTransaction request => .ok (request.populate ⟨0, none, none, none, none⟩)
  | .getAccount _ _ => .ok ()
  | .accountSendTransaction _ a tx => .ok ⟨a, tx⟩
  | _ => .error {}

theorem stored_creationRecord : creationRecord ∈ storedRecords willing creation.program := by
  decide

theorem not_sent_creation : ¬ SentAsCreation creation willing "q" 0 :=
  not_sentAsCreation creation willing willing creationRecord creationRecord stored_creationRecord (Or.inl rfl) rfl 0

/-- The deployment is accepted, everything it needs succeeds, and yet it is not sent. -/
theorem not_deployments_sent : ¬ ∀ (deployment : Deployment) (x y : Replies Calls) (t : Transaction),
    t ∈ storedRecords x deployment.program → y (.getTransaction t.queueId) = .ok (some t) →
    (∀ request, ∃ tx, y (.toSerializableTransaction request) = .ok tx) →
    (∀ caller a tx, ∃ hash, y (.accountSendTransaction caller a tx) = .ok hash) →
      SentAsCreation deployment y t.queueId 0 := by
  intro hgeneral
  have hsent := hgeneral creation willing willing creationRecord stored_creationRecord rfl
    (fun request => ⟨_, rfl⟩) (fun caller a tx => ⟨_, rfl⟩)
  have hnoRecipient : NoRecipient creationRecord := ⟨rfl, rfl, rfl, rfl⟩
  obtain ⟨tx, htx, -⟩ := hsent.broadcast
  exact not_mem_broadcasts_handler hnoRecipient (Or.inl rfl) rfl 0 tx htx

end Engine.Deployments
