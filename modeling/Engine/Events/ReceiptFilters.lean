import Engine.Events.Chain

/-! Which transactions of a block range a receipt is produced for. -/
namespace Engine.Events
open Concurrent Program
open Indexer (EnqueueData TransactionReceiptFilter)

/-- The normalised address that a transaction is to. -/
def BlockTransaction.toAddress (t : BlockTransaction) : Option String := (truthy t.to).map normalizeAddress

namespace Chain

/-- The name of the function that calldata to a contract decodes to. -/
def functionName (c : Chain) (address : String) (input : Hex) : Except Err String :=
  c.decodeFunctionName (c.abi address) input

/-- A list of function names that is empty or contains the name. -/
def admits (c : Chain) (functions : List String) (address : String) (input : Hex) : Bool :=
  isSubscribedFunction functions (c.functionName address input).toOption

/-- The row of a transaction's receipt. -/
def row (c : Chain) (chainId : ℕ) (functions : List String) (address : String) (t : BlockTransaction) :
    ContractTransactionReceiptsCreateInput where
  chainId := chainId
  blockNumber := (c.receipt t.hash).blockNumber
  contractAddress := address
  transactionHash := (c.receipt t.hash).transactionHash.toLower
  transactionIndex := (c.receipt t.hash).transactionIndex
  data := t.input
  functionName := if functions.isEmpty then none else (c.functionName address t.input).toOption

/-- What the entry of the transaction's address takes. -/
def found (c : Chain) (chainId : ℕ) (filters : List TransactionReceiptFilter) (t : BlockTransaction) :
    Option ContractTransactionReceiptsCreateInput :=
  t.toAddress.bind fun address => (functionsOf filters address).bind fun functions =>
    if c.admits functions address t.input then some (c.row chainId functions address t) else none

/-- The transaction's name can be read, if its address's entry has names to compare it to. -/
def Readable (c : Chain) (filters : List TransactionReceiptFilter) (t : BlockTransaction) : Prop :=
  ∀ address functions, t.toAddress = some address → functionsOf filters address = some functions →
    functions ≠ [] → ∃ name, c.functionName address t.input = .ok name

/-- The transactions of a block range. -/
def transactions (c : Chain) (data : EnqueueData TransactionReceiptFilter) : List BlockTransaction :=
  (blockRange data.fromBlock data.toBlock).flatMap c.blocks

section
variable {c : Chain} {chainId : ℕ} {filters : List TransactionReceiptFilter} {t : BlockTransaction}
  {data : EnqueueData TransactionReceiptFilter}

/-! ### One transaction -/

theorem outcome_functionNameOf (functions : List String) (address : String) (input : Hex) :
    (functionNameOf chainId functions address input).outcome c.replies =
      if functions = [] then .ok none else (c.functionName address input).map some := by
  unfold functionNameOf
  cases functions with
  | nil => rfl
  | cons name names =>
    rw [if_pos (by simp), if_neg (by simp), bind_eq, outcome_bind]
    have hname : (getFunctionName chainId address input).outcome c.replies = c.functionName address input := by
      unfold getFunctionName
      rw [bind_eq, outcome_bind, outcome_perform]
      exact outcome_perform _
    rw [hname]
    cases c.functionName address input with
    | ok name => rfl
    | error e => rfl

theorem outcome_receipt (functions : List String) (functionName : Option String) (address : String) :
    (if isSubscribedFunction functions functionName then do
        let receipt : RpcReceipt ← await (.ethGetTransactionReceipt chainId t.hash)
        pure
          [{ chainId
             blockNumber := receipt.blockNumber
             contractAddress := address
             transactionHash := receipt.transactionHash.toLower
             transactionIndex := receipt.transactionIndex
             data := t.input
             functionName }]
      else pure [] : Prog (List ContractTransactionReceiptsCreateInput)).outcome c.replies =
    .ok (if isSubscribedFunction functions functionName then
      [{ c.row chainId functions address t with functionName }] else []) := by
  cases isSubscribedFunction functions functionName with
  | true => rfl
  | false => rfl

theorem outcome_receiptOf (h : c.Readable filters t) :
    (receiptOf chainId filters t).outcome c.replies = .ok (c.found chainId filters t).toList := by
  unfold receiptOf found
  cases hto : truthy t.to with
  | none =>
    have haddress : t.toAddress = none := by rw [BlockTransaction.toAddress, hto]; rfl
    rw [haddress]
    rfl
  | some address =>
    have haddress : t.toAddress = some (normalizeAddress address) := by rw [BlockTransaction.toAddress, hto]; rfl
    rw [haddress, Option.bind_some]
    dsimp only
    cases hfunctions : functionsOf filters (normalizeAddress address) with
    | none => rfl
    | some functions =>
      dsimp only
      rw [bind_eq, outcome_bind, outcome_functionNameOf, Option.bind_some]
      cases functions with
      | nil => rfl
      | cons name names =>
        obtain ⟨functionName, hname⟩ := h _ _ haddress hfunctions (by simp)
        rw [if_neg (by simp), hname]
        show Program.outcome _ _ = _
        rw [outcome_receipt]
        have hadmits : c.admits (name :: names) (normalizeAddress address) t.input =
            isSubscribedFunction (name :: names) (some functionName) := by
          unfold admits
          rw [hname]
          rfl
        rw [hadmits]
        have hrow :
            { c.row chainId (name :: names) (normalizeAddress address) t with functionName := some functionName } =
            c.row chainId (name :: names) (normalizeAddress address) t := by
          unfold row
          rw [hname]
          rfl
        rw [hrow]
        cases isSubscribedFunction (name :: names) (some functionName) with
        | true => rfl
        | false => rfl

variable (chainId) in
/-- A name that cannot be read throws. -/
theorem outcome_receiptOf_error (h : ¬ c.Readable filters t) :
    ∃ e, (receiptOf chainId filters t).outcome c.replies = .error e := by
  unfold Readable at h
  push Not at h
  obtain ⟨address, functions, haddress, hfunctions, hne, hunreadable⟩ := h
  unfold receiptOf
  cases hto : truthy t.to with
  | none =>
    rw [BlockTransaction.toAddress, hto] at haddress
    cases haddress
  | some to' =>
    rw [BlockTransaction.toAddress, hto] at haddress
    obtain rfl := Option.some.inj haddress
    dsimp only
    rw [hfunctions]
    dsimp only
    rw [bind_eq, outcome_bind, outcome_functionNameOf, if_neg hne]
    cases hname : c.functionName (normalizeAddress to') t.input with
    | ok name => exact absurd hname (hunreadable name)
    | error e => exact ⟨e, rfl⟩

/-! ### All of them -/

private theorem flatten_filterMap {f : BlockTransaction → Option ContractTransactionReceiptsCreateInput}
    (ts : List BlockTransaction) : (ts.map fun t => (f t).toList).flatten = ts.filterMap f := by
  induction ts with
  | nil => rfl
  | cons t ts ih =>
    rw [List.map_cons, List.flatten_cons, ih, List.filterMap_cons]
    cases f t with
    | none => rfl
    | some row => rfl

theorem outcome_fromBlock {blockNumber : ℤ} (h : ∀ t ∈ c.blocks blockNumber, c.Readable filters t) :
    (getFormattedTransactionReceiptsFromBlock chainId filters blockNumber).outcome c.replies =
      .ok ((c.blocks blockNumber).filterMap (c.found chainId filters)) := by
  have hall : (collect (receiptOf chainId filters) (c.blocks blockNumber)).outcome c.replies =
      .ok ((c.blocks blockNumber).map fun t => (c.found chainId filters t).toList) :=
    outcome_collect fun t ht => outcome_receiptOf (h t ht)
  unfold getFormattedTransactionReceiptsFromBlock
  rw [bind_eq, outcome_bind_ok (outcome_perform _), bind_eq, outcome_bind_ok hall, flatten_filterMap]
  rfl

/-- If every name can be read, the result is what is found in the range. -/
theorem outcome_of_readable (h : ∀ t ∈ c.transactions data, c.Readable data.filters t) :
    (getFormattedTransactionReceipts data).outcome c.replies =
      .ok ((c.transactions data).filterMap (c.found data.chainId data.filters)) := by
  have hall : (collect (getFormattedTransactionReceiptsFromBlock data.chainId data.filters)
      (blockRange data.fromBlock data.toBlock)).outcome c.replies =
      .ok ((blockRange data.fromBlock data.toBlock).map fun blockNumber =>
        (c.blocks blockNumber).filterMap (c.found data.chainId data.filters)) := by
    apply outcome_collect
    intro blockNumber hblock
    apply outcome_fromBlock
    intro t ht
    exact h t (List.mem_flatMap.mpr ⟨blockNumber, hblock, ht⟩)
  have hflatten : ((blockRange data.fromBlock data.toBlock).map fun blockNumber =>
      (c.blocks blockNumber).filterMap (c.found data.chainId data.filters)).flatten =
      (c.transactions data).filterMap (c.found data.chainId data.filters) := by
    unfold transactions
    rw [List.filterMap_flatMap, ← List.flatMap_def]
  unfold getFormattedTransactionReceipts
  split_ifs with hnone
  · have hempty : data.filters = [] := List.length_eq_zero_iff.mp hnone
    have hfound : (c.transactions data).filterMap (c.found data.chainId data.filters) = [] := by
      rw [List.filterMap_eq_nil_iff]
      intro t ht
      unfold found
      rw [hempty]
      cases t.toAddress <;> rfl
    rw [hfound]
    rfl
  · rw [bind_eq, outcome_bind_ok (outcome_perform _), bind_eq, outcome_bind_ok hall, hflatten]
    rfl

/-- If a name cannot be read, there is no result. -/
theorem outcome_of_unreadable (ht : t ∈ c.transactions data) (h : ¬ c.Readable data.filters t)
    (receipts : List ContractTransactionReceiptsCreateInput) :
    (getFormattedTransactionReceipts data).outcome c.replies ≠ .ok receipts := by
  intro hok
  obtain ⟨blockNumber, hblock, ht⟩ := List.mem_flatMap.mp ht
  unfold getFormattedTransactionReceipts at hok
  split_ifs at hok with hnone
  · have hempty : data.filters = [] := List.length_eq_zero_iff.mp hnone
    refine h fun address functions _ hfunctions => ?_
    rw [hempty] at hfunctions
    cases hfunctions
  · rw [bind_eq, outcome_bind_ok (outcome_perform _), bind_eq] at hok
    obtain ⟨allReceipts, hall, -⟩ := outcome_bind_eq_ok.mp hok
    obtain ⟨blockReceipts, -, hfrom⟩ := exists_outcome_of_collect hall hblock
    unfold getFormattedTransactionReceiptsFromBlock at hfrom
    rw [bind_eq, outcome_bind_ok (outcome_perform _), bind_eq] at hfrom
    obtain ⟨receipts', hcollect, -⟩ := outcome_bind_eq_ok.mp hfrom
    obtain ⟨rows, -, hrows⟩ := exists_outcome_of_collect hcollect ht
    obtain ⟨e, he⟩ := outcome_receiptOf_error data.chainId h
    rw [he] at hrows
    cases hrows

/-- All that is to be found in the range is returned exactly when every name that is compared can
be read. -/
theorem found_returned_iff : (∃ receipts, (getFormattedTransactionReceipts data).outcome c.replies = .ok receipts ∧
    ∀ t ∈ c.transactions data, ∀ row, c.found data.chainId data.filters t = some row → row ∈ receipts) ↔
      ∀ t ∈ c.transactions data, c.Readable data.filters t := by
  constructor
  · intro h t ht
    obtain ⟨receipts, hreceipts, -⟩ := h
    by_contra hunreadable
    exact outcome_of_unreadable ht hunreadable receipts hreceipts
  · intro h
    refine ⟨_, outcome_of_readable h, ?_⟩
    intro t ht row hrow
    exact List.mem_filterMap.mpr ⟨t, ht, hrow⟩

end

/-! ### Runs -/

/-- A chain whose contracts have one function, and whose receipts name their transactions. -/
def oneFunction (transactions : List BlockTransaction) : Chain where
  abi _ :=
    [{ type := .function, name := some "transfer", signature := "transfer(address,uint256)"
       inputs := some [⟨some "to", "address"⟩, ⟨some "value", "uint256"⟩] }]
  blocks _ := transactions
  receipt hash := ⟨7, hash, 0⟩
  decodeFunctionName _ data :=
    if data = [] then .error (.new "AbiFunctionSignatureNotFoundError") else .ok "transfer"
  prepareEvent signature := .ok ⟨signature, ""⟩
  contractEvents _ _ _ _ := []

/-- A payment to contract 5 without calldata, next to a call of its function. -/
def paymentAndTransfer : List BlockTransaction := [⟨some "0x05", "0x0a", []⟩, ⟨some "0x05", "0x0b", [1]⟩]

def transfersOf5 : EnqueueData TransactionReceiptFilter := ⟨1, [⟨"0x05", ["transfer"]⟩], 7, 7⟩

/-- The payment hides the call's receipt. -/
theorem not_found_returned : ¬ ∀ (c : Chain) (data : EnqueueData TransactionReceiptFilter),
    ∃ receipts, (getFormattedTransactionReceipts data).outcome c.replies = .ok receipts ∧
      ∀ t ∈ c.transactions data, ∀ row, c.found data.chainId data.filters t = some row → row ∈ receipts := by
  intro h
  obtain ⟨receipts, hreceipts, -⟩ := h (oneFunction paymentAndTransfer) transfersOf5
  have herror : ((getFormattedTransactionReceipts transfersOf5).outcome
      (oneFunction paymentAndTransfer).replies).toOption = none := by decide +kernel
  rw [hreceipts] at herror
  cases herror

end Chain
end Engine.Events
