import Engine.Concurrent.Answered
import Engine.Events.Workers

/-! What the workers of contract subscriptions read from a chain that answers. -/
namespace Engine.Events
open Concurrent Program
open Indexer (EnqueueData EventLogFilter TransactionReceiptFilter)

/-- A chain as its node and the contracts' ABIs show it. -/
structure Chain where
  abi : String → List AbiItem
  blocks : ℤ → List BlockTransaction
  receipt : String → RpcReceipt
  /-- `decodeFunctionData` throws on calldata of no function of the ABI. -/
  decodeFunctionName : List AbiItem → Hex → Except Err String
  prepareEvent : AbiItem → Except Err PreparedEvent
  contractEvents : String → ℤ → ℤ → List PreparedEvent → List EventLog

/-- The replies to the calls that read the chain. -/
def Chain.replies (c : Chain) : Replies Calls
  | .getChain _ => .ok ()
  | .resolveContractAbi _ address => .ok (c.abi address)
  | .prepareEvent signature => c.prepareEvent signature
  | .getContractEvents _ address fromBlock toBlock events => .ok (c.contractEvents address fromBlock toBlock events)
  | .ethGetBlockByNumber _ blockNumber => .ok (c.blocks blockNumber)
  | .ethGetTransactionReceipt _ hash => .ok (c.receipt hash)
  | .decodeFunctionName abi data => c.decodeFunctionName abi data
  | _ => .error (.new "Not a call that reads the chain.")

/-! ### The entries of the addresses -/

/-- Each entry refers to an array, and no two of them to the same. -/
structure AddressConfig.Sound (c : AddressConfig) : Prop where
  bound : ∀ address i, c.entry address = some i → i < c.arrays.length
  injective : ∀ address address' i, c.entry address = some i → c.entry address' = some i → address = address'

section
variable {config : AddressConfig} {filter : TransactionReceiptFilter} {filters : List TransactionReceiptFilter}
  {address : String}

theorem length_merge (config : AddressConfig) (filter : TransactionReceiptFilter) :
    (config.merge filter).arrays.length = config.arrays.length + 1 := by
  unfold AddressConfig.merge
  cases config.entry filter.address with
  | none => simp
  | some i => simp

theorem entry_merge_self (config : AddressConfig) (filter : TransactionReceiptFilter) :
    (config.merge filter).entry filter.address = some config.arrays.length := Function.update_self _ _ _

theorem entry_merge_of_ne (config : AddressConfig) (h : address ≠ filter.address) :
    (config.merge filter).entry address = config.entry address := Function.update_of_ne h _ _

theorem AddressConfig.Sound.merge (h : config.Sound) (filter : TransactionReceiptFilter) :
    (config.merge filter).Sound := by
  constructor
  · intro address i hentry
    rw [length_merge]
    by_cases haddress : address = filter.address
    · subst haddress
      rw [entry_merge_self] at hentry
      have := Option.some.inj hentry
      omega
    · rw [entry_merge_of_ne config haddress] at hentry
      have := h.bound address i hentry
      omega
  · intro address address' i hentry hentry'
    by_cases haddress : address = filter.address
    · by_cases haddress' : address' = filter.address
      · rw [haddress, haddress']
      · rw [haddress, entry_merge_self] at hentry
        rw [entry_merge_of_ne config haddress'] at hentry'
        have := h.bound address' i hentry'
        have := Option.some.inj hentry
        omega
    · rw [entry_merge_of_ne config haddress] at hentry
      by_cases haddress' : address' = filter.address
      · rw [haddress', entry_merge_self] at hentry'
        have := h.bound address i hentry
        have := Option.some.inj hentry'
        omega
      · rw [entry_merge_of_ne config haddress'] at hentry'
        exact h.injective address address' i hentry hentry'

theorem addressConfig_append (filters : List TransactionReceiptFilter) (filter : TransactionReceiptFilter) :
    addressConfig (filters ++ [filter]) = (addressConfig filters).merge filter := by
  unfold addressConfig
  rw [List.foldl_append]
  rfl

private theorem sound_addressConfig (filters : List TransactionReceiptFilter) : (addressConfig filters).Sound := by
  induction filters using List.reverseRecOn with
  | nil =>
    constructor
    · intro address i h
      cases h
    · intro address address' i h
      cases h
  | append_singleton filters filter ih =>
    rw [addressConfig_append]
    exact ih.merge filter

/-- The last filter of an address is the one that counts. -/
theorem functionsOf_append_self (filters : List TransactionReceiptFilter) (filter : TransactionReceiptFilter) :
    functionsOf (filters ++ [filter]) filter.address = some filter.functions := by
  unfold functionsOf
  rw [addressConfig_append, entry_merge_self, Option.bind_some]
  unfold AddressConfig.merge
  cases (addressConfig filters).entry filter.address with
  | none => simp
  | some i => simp

theorem functionsOf_append_of_ne (h : address ≠ filter.address) :
    functionsOf (filters ++ [filter]) address = functionsOf filters address := by
  unfold functionsOf
  rw [addressConfig_append, entry_merge_of_ne _ h]
  cases hentry : (addressConfig filters).entry address with
  | none => rfl
  | some i =>
    have hbound := (sound_addressConfig filters).bound address i hentry
    rw [Option.bind_some, Option.bind_some]
    unfold AddressConfig.merge
    cases hother : (addressConfig filters).entry filter.address with
    | none => simp [List.getElem?_append_left hbound]
    | some j =>
      have hne : j ≠ i := by
        rintro rfl
        exact h ((sound_addressConfig filters).injective _ _ _ hentry hother)
      have hbound' : i < ((addressConfig filters).arrays.modify j (· ++ filter.functions)).length := by
        rw [List.length_modify]
        exact hbound
      rw [Option.elim_some, List.getElem?_append_left hbound', List.getElem?_modify]
      simp [hne]

/-- An entry is of a filter. -/
theorem mem_of_functionsOf {functions : List String} (h : functionsOf filters address = some functions) :
    ⟨address, functions⟩ ∈ filters := by
  induction filters using List.reverseRecOn with
  | nil => cases h
  | append_singleton filters filter ih =>
    by_cases haddress : address = filter.address
    · rw [haddress, functionsOf_append_self] at h
      obtain rfl := Option.some.inj h
      rw [haddress]
      exact List.mem_append_right filters (List.mem_singleton.mpr rfl)
    · rw [functionsOf_append_of_ne haddress] at h
      exact List.mem_append_left [filter] (ih h)

/-- An address with a filter has an entry. -/
theorem exists_functionsOf (h : filter ∈ filters) :
    ∃ functions, functionsOf filters filter.address = some functions := by
  induction filters using List.reverseRecOn with
  | nil => cases h
  | append_singleton filters last ih =>
    by_cases haddress : filter.address = last.address
    · rw [haddress, functionsOf_append_self]
      exact ⟨last.functions, rfl⟩
    · rw [functionsOf_append_of_ne haddress]
      obtain h | h := List.mem_append.mp h
      · exact ih h
      · exact absurd (congrArg TransactionReceiptFilter.address (List.mem_singleton.mp h)) haddress

end
end Engine.Events
