import Engine.Events.ReceiptFilters

/-! The filters of one address against the union they are meant to be. -/
namespace Engine.Events
open Concurrent Program
open Indexer (EnqueueData TransactionReceiptFilter)

namespace Chain

/-- Some filter on the transaction's address takes it. -/
def wanted (c : Chain) (filters : List TransactionReceiptFilter) (t : BlockTransaction) : Bool :=
  t.toAddress.any fun address => filters.any fun f =>
    normalizeAddress f.address = address && c.admits f.functions address t.input

/-- All calldata sent to filtered addresses decodes. -/
def Decodes (c : Chain) (data : EnqueueData TransactionReceiptFilter) : Prop :=
  ∀ t ∈ c.transactions data, ∀ address, t.toAddress = some address →
    ∀ f ∈ data.filters, normalizeAddress f.address = address → ∃ name, c.functionName address t.input = .ok name

/-- The hash that a transaction's receipt is stored under. -/
def storedHash (c : Chain) (t : BlockTransaction) : String := (c.receipt t.hash).transactionHash.toLower

/-- A receipt for each transaction that some filter takes, whatever the order of the filters. -/
structure Union (c : Chain) (data : EnqueueData TransactionReceiptFilter) : Prop where
  produced : ∃ receipts, (getFormattedTransactionReceipts data).outcome c.replies = .ok receipts ∧
    (receipts.map fun row => row.transactionHash) =
      ((c.transactions data).filter (c.wanted data.filters)).map c.storedHash
  unordered : ∀ filters : List TransactionReceiptFilter, filters.Perm data.filters →
    (getFormattedTransactionReceipts { data with filters }).outcome c.replies =
      (getFormattedTransactionReceipts data).outcome c.replies

/-- The filters on the transaction's address agree about it, and about whether names are read. -/
structure Agreed (c : Chain) (filters : List TransactionReceiptFilter) (address : String) (input : Hex) : Prop where
  normalized : ∃ f ∈ filters, f.address = address
  taken : ∀ f ∈ filters, f.address = address → c.admits f.functions address input = true
  named : ∀ f ∈ filters, ∀ f' ∈ filters, f.address = address → f'.address = address →
    f.functions.isEmpty = f'.functions.isEmpty

section
variable {c : Chain} {chainId : ℕ} {filters filters' : List TransactionReceiptFilter} {t : BlockTransaction}
  {data : EnqueueData TransactionReceiptFilter} {address : String}

theorem normalized_of_toAddress (h : t.toAddress = some address) : normalizeAddress address = address := by
  obtain ⟨text, -, rfl⟩ := Option.map_eq_some_iff.mp h
  exact normalizeAddress_idem text

theorem wanted_iff (h : t.toAddress = some address) : c.wanted filters t = true ↔
    ∃ f ∈ filters, normalizeAddress f.address = address ∧ c.admits f.functions address t.input = true := by
  unfold wanted
  rw [h]
  simp

theorem exists_toAddress_of_wanted (h : c.wanted filters t = true) : ∃ address, t.toAddress = some address := by
  unfold wanted at h
  obtain ⟨address, haddress, -⟩ := (Option.any_eq_true _ _).mp h
  exact ⟨address, haddress⟩

theorem wanted_congr (h : ∀ f, f ∈ filters ↔ f ∈ filters') : c.wanted filters t = c.wanted filters' t := by
  cases haddress : t.toAddress with
  | none =>
    unfold wanted
    rw [haddress]
    rfl
  | some address =>
    rw [Bool.eq_iff_iff, wanted_iff haddress, wanted_iff haddress]
    simp [h]

variable (chainId) in
theorem found_eq (haddress : t.toAddress = some address) {functions : List String}
    (hfunctions : functionsOf filters address = some functions) : c.found chainId filters t =
      if c.admits functions address t.input then some (c.row chainId functions address t) else none := by
  unfold found
  rw [haddress, Option.bind_some, hfunctions, Option.bind_some]

/-- What is taken is wanted. -/
theorem wanted_of_found {row : ContractTransactionReceiptsCreateInput} (h : c.found chainId filters t = some row) :
    c.wanted filters t = true ∧ row.transactionHash = c.storedHash t := by
  unfold found at h
  obtain ⟨address, haddress, h⟩ := Option.bind_eq_some_iff.mp h
  obtain ⟨functions, hfunctions, h⟩ := Option.bind_eq_some_iff.mp h
  split_ifs at h with hadmits
  obtain rfl := Option.some.inj h
  refine ⟨(wanted_iff haddress).mpr ⟨_, mem_of_functionsOf hfunctions, ?_, hadmits⟩, rfl⟩
  exact normalized_of_toAddress haddress

private theorem row_congr {functions functions' : List String} (h : functions.isEmpty = functions'.isEmpty) :
    c.row chainId functions address t = c.row chainId functions' address t := by
  unfold row
  rw [h]

variable (chainId) in
/-- Filters that agree leave no trace of their order. -/
theorem found_of_agreed (hmem : ∀ f, f ∈ filters ↔ f ∈ filters') (haddress : t.toAddress = some address)
    (h : c.Agreed filters address t.input) :
    ∃ row, c.found chainId filters t = some row ∧ c.found chainId filters' t = some row := by
  obtain ⟨f, hf, rfl⟩ := h.normalized
  obtain ⟨functions, hfunctions⟩ := exists_functionsOf hf
  obtain ⟨functions', hfunctions'⟩ := exists_functionsOf ((hmem f).mp hf)
  have hin := mem_of_functionsOf hfunctions
  have hin' := (hmem _).mpr (mem_of_functionsOf hfunctions')
  refine ⟨c.row chainId functions f.address t, ?_, ?_⟩
  · rw [found_eq chainId haddress hfunctions, if_pos (h.taken _ hin rfl)]
  · rw [found_eq chainId haddress hfunctions', if_pos (h.taken _ hin' rfl), row_congr (h.named _ hin' _ hin rfl rfl)]

theorem found_of_not_wanted (h : c.wanted filters t = false) : c.found chainId filters t = none := by
  cases hfound : c.found chainId filters t with
  | none => rfl
  | some row => exact absurd (wanted_of_found hfound).1 (by simp [h])

/-- If the calls can be decoded, every name can be read, in whatever order the filters are. -/
theorem readable_of_decodes (h : c.Decodes data) (hmem : ∀ f, f ∈ filters ↔ f ∈ data.filters) :
    ∀ t ∈ c.transactions data, c.Readable filters t := by
  intro t ht address functions haddress hfunctions _
  have hin := (hmem _).mp (mem_of_functionsOf hfunctions)
  exact h t ht address haddress _ hin (normalized_of_toAddress haddress)

theorem outcome_of_perm (h : c.Decodes data) (hmem : ∀ f, f ∈ filters ↔ f ∈ data.filters) :
    (getFormattedTransactionReceipts { data with filters }).outcome c.replies =
      .ok ((c.transactions data).filterMap (c.found data.chainId filters)) := by
  have hreadable : ∀ t ∈ c.transactions data, c.Readable filters t := readable_of_decodes h hmem
  exact @outcome_of_readable c { data with filters } hreadable

/-! ### The union -/

theorem map_filterMap_found (ts : List BlockTransaction) :
    (ts.filterMap (c.found chainId filters)).map (fun row => row.transactionHash) =
      (ts.filter fun t => (c.found chainId filters t).isSome).map c.storedHash := by
  induction ts with
  | nil => rfl
  | cons t ts ih =>
    rw [List.filterMap_cons, List.filter_cons]
    cases hfound : c.found chainId filters t with
    | none => exact ih
    | some row =>
      dsimp only
      rw [List.map_cons, ih, (wanted_of_found hfound).2]
      rfl

/-- As many receipts as transactions wanted means that each of these is found. -/
theorem isSome_found_of_length {ts : List BlockTransaction} (ht : t ∈ ts) (hwanted : c.wanted filters t = true)
    (h : (ts.filter fun t => (c.found chainId filters t).isSome).length = (ts.filter (c.wanted filters)).length) :
    (c.found chainId filters t).isSome = true := by
  have hsub : (ts.filter fun t => (c.found chainId filters t).isSome).Sublist (ts.filter (c.wanted filters)) := by
    apply List.monotone_filter_right
    intro t' hfound
    obtain ⟨row, hrow⟩ := Option.isSome_iff_exists.mp hfound
    exact (wanted_of_found hrow).1
  have hin : t ∈ ts.filter (c.wanted filters) := List.mem_filter.mpr ⟨ht, hwanted⟩
  rw [← hsub.eq_of_length h] at hin
  exact (List.mem_filter.mp hin).2

theorem eq_of_filterMap_eq {α β : Type} {f g : α → Option β} {as : List α} {a : α}
    (h : as.filterMap f = as.filterMap g) (hsome : ∀ a ∈ as, (f a).isSome = (g a).isSome) (ha : a ∈ as) :
    f a = g a := by
  induction as with
  | nil => cases ha
  | cons b as ih =>
    have hb := hsome b List.mem_cons_self
    have hsome' : ∀ a ∈ as, (f a).isSome = (g a).isSome := fun a ha => hsome a (List.mem_cons_of_mem b ha)
    rw [List.filterMap_cons, List.filterMap_cons] at h
    cases hf : f b with
    | none =>
      have hg : g b = none := by simpa [hf] using hb
      rw [hf, hg] at h
      obtain rfl | ha := List.mem_cons.mp ha
      · rw [hf, hg]
      · exact ih h hsome' ha
    | some x =>
      obtain ⟨y, hg⟩ := Option.isSome_iff_exists.mp (by rw [← hb, hf]; rfl)
      rw [hf, hg] at h
      obtain ⟨hxy, hrest⟩ := List.cons.inj h
      obtain rfl | ha := List.mem_cons.mp ha
      · rw [hf, hg, hxy]
      · exact ih hrest hsome' ha

/-- The filters with one of them moved to the end. -/
theorem exists_perm_last {f : TransactionReceiptFilter} (hf : f ∈ filters) :
    ∃ filters' : List TransactionReceiptFilter, filters'.Perm filters ∧
      functionsOf filters' f.address = some f.functions := by
  refine ⟨filters.erase f ++ [f], ?_, functionsOf_append_self _ f⟩
  exact (List.perm_append_singleton f _).trans (List.perm_cons_erase hf).symm

theorem outcome_of_decodes (h : c.Decodes data) : (getFormattedTransactionReceipts data).outcome c.replies =
    .ok ((c.transactions data).filterMap (c.found data.chainId data.filters)) :=
  outcome_of_perm h fun _ => Iff.rfl

/-- What a union says of the filters in another order. -/
theorem Union.found (h : c.Decodes data) (hunion : c.Union data) (hperm : filters.Perm data.filters) :
    (c.transactions data).filterMap (c.found data.chainId filters) =
      (c.transactions data).filterMap (c.found data.chainId data.filters) ∧
    ∀ t ∈ c.transactions data, (c.found data.chainId filters t).isSome = c.wanted data.filters t := by
  have hmem : ∀ f, f ∈ filters ↔ f ∈ data.filters := fun f => hperm.mem_iff
  have hsame := Except.ok.inj
    ((outcome_of_perm h hmem).symm.trans ((hunion.unordered filters hperm).trans (outcome_of_decodes h)))
  refine ⟨hsame, ?_⟩
  intro t ht
  obtain ⟨receipts, hreceipts, hhashes⟩ := hunion.produced
  obtain rfl := Except.ok.inj ((outcome_of_decodes h).symm.trans hreceipts)
  rw [← hsame, map_filterMap_found] at hhashes
  have hlength := congrArg List.length hhashes
  rw [List.length_map, List.length_map] at hlength
  have hwanted : c.wanted filters = c.wanted data.filters := funext fun t => wanted_congr hmem
  rw [← hwanted] at hlength ⊢
  cases hw : c.wanted filters t with
  | true => exact isSome_found_of_length ht hw hlength
  | false =>
    rw [found_of_not_wanted hw]
    rfl

/-- Each filter on the address of a wanted transaction takes it, and makes the row that is returned. -/
theorem Union.found_of_mem (h : c.Decodes data) (hunion : c.Union data) (ht : t ∈ c.transactions data)
    (haddress : t.toAddress = some address) (hwanted : c.wanted data.filters t = true)
    {f : TransactionReceiptFilter} (hf : f ∈ data.filters) (hfaddress : f.address = address) :
    c.admits f.functions address t.input = true ∧
      c.found data.chainId data.filters t = some (c.row data.chainId f.functions address t) := by
  obtain ⟨filters, hperm, hfunctions⟩ := exists_perm_last hf
  obtain ⟨hsame, hsome⟩ := hunion.found h hperm
  have hsome' := (hunion.found h (List.Perm.refl data.filters)).2
  rw [hfaddress] at hfunctions
  have hrow := found_eq (c := c) data.chainId haddress hfunctions
  have hadmits : c.admits f.functions address t.input = true := by
    have hthis := hsome t ht
    rw [hwanted, hrow] at hthis
    by_contra hnot
    rw [if_neg hnot] at hthis
    cases hthis
  rw [if_pos hadmits] at hrow
  refine ⟨hadmits, ?_⟩
  rw [← hrow]
  exact eq_of_filterMap_eq hsame.symm (fun t ht => by rw [hsome t ht, hsome' t ht]) ht

/-- The rows that two filters make are the same only if both or none of them reads the name. -/
theorem isEmpty_eq_of_row {functions functions' : List String} {name : String}
    (hname : c.functionName address t.input = .ok name)
    (h : c.row chainId functions address t = c.row chainId functions' address t) :
    functions.isEmpty = functions'.isEmpty := by
  have hnames : (c.row chainId functions address t).functionName =
      (c.row chainId functions' address t).functionName := by rw [h]
  unfold row at hnames
  rw [hname] at hnames
  cases hempty : functions.isEmpty <;> cases hempty' : functions'.isEmpty <;> simp_all [Except.toOption]

theorem Union.agreed (h : c.Decodes data) (hunion : c.Union data) (ht : t ∈ c.transactions data)
    (haddress : t.toAddress = some address) (hwanted : c.wanted data.filters t = true) :
    c.Agreed data.filters address t.input := by
  constructor
  · have hsome := (hunion.found h (List.Perm.refl data.filters)).2 t ht
    rw [hwanted] at hsome
    obtain ⟨row, hrow⟩ := Option.isSome_iff_exists.mp hsome
    unfold Chain.found at hrow
    obtain ⟨address', haddress', hrow⟩ := Option.bind_eq_some_iff.mp hrow
    obtain ⟨functions, hfunctions, -⟩ := Option.bind_eq_some_iff.mp hrow
    obtain rfl := Option.some.inj (haddress.symm.trans haddress')
    exact ⟨_, mem_of_functionsOf hfunctions, rfl⟩
  · intro f hf hfaddress
    exact (hunion.found_of_mem h ht haddress hwanted hf hfaddress).1
  · intro f hf f' hf' hfaddress hfaddress'
    have hrow := (hunion.found_of_mem h ht haddress hwanted hf hfaddress).2
    have hrow' := (hunion.found_of_mem h ht haddress hwanted hf' hfaddress').2
    obtain ⟨g, hg, hgaddress, -⟩ := (wanted_iff haddress).mp hwanted
    obtain ⟨name, hname⟩ := h t ht address haddress g hg hgaddress
    exact isEmpty_eq_of_row hname (Option.some.inj (hrow.symm.trans hrow'))

/-- What is found does not depend on the order of filters that agree. -/
theorem found_perm (hagreed : ∀ address, t.toAddress = some address → c.wanted filters t = true →
      c.Agreed filters address t.input) (hmem : ∀ f, f ∈ filters ↔ f ∈ filters') :
    c.found chainId filters' t = c.found chainId filters t ∧
      (c.found chainId filters t).isSome = c.wanted filters t := by
  cases hwanted : c.wanted filters t with
  | true =>
    obtain ⟨address, haddress⟩ := exists_toAddress_of_wanted hwanted
    obtain ⟨row, hrow, hrow'⟩ := found_of_agreed chainId hmem haddress (hagreed address haddress hwanted)
    rw [hrow, hrow']
    exact ⟨rfl, rfl⟩
  | false =>
    rw [found_of_not_wanted hwanted, found_of_not_wanted ((wanted_congr hmem).symm.trans hwanted)]
    exact ⟨rfl, rfl⟩

/-- In a range whose calldata decodes, the filters are a union exactly when those of each wanted
transaction's address agree. -/
theorem union_iff_agreed (h : c.Decodes data) : c.Union data ↔
    ∀ t ∈ c.transactions data, ∀ address, t.toAddress = some address → c.wanted data.filters t = true →
      c.Agreed data.filters address t.input := by
  constructor
  · intro hunion t ht address haddress hwanted
    exact hunion.agreed h ht haddress hwanted
  · intro hagreed
    constructor
    · refine ⟨_, outcome_of_decodes h, ?_⟩
      rw [map_filterMap_found]
      congr 1
      apply List.filter_congr
      intro t ht
      exact (found_perm (hagreed t ht) fun _ => Iff.rfl).2
    · intro filters hperm
      rw [outcome_of_perm h fun f => hperm.mem_iff, outcome_of_decodes h]
      congr 1
      apply List.filterMap_congr
      intro t ht
      exact (found_perm (hagreed t ht) fun f => hperm.mem_iff.symm).1

end

/-! ### Runs -/

def callOf5 : List BlockTransaction := [⟨some "0x05", "0x0b", [1]⟩]

/-- Two filters of contract 5, the last of which is for another function. -/
def twoFilters : EnqueueData TransactionReceiptFilter := ⟨1, [⟨"0x05", ["transfer"]⟩, ⟨"0x05", ["mint"]⟩], 7, 7⟩

theorem decodes_callOf5 : (oneFunction callOf5).Decodes twoFilters := by
  intro t ht address _ f _ _
  obtain ⟨blockNumber, -, ht⟩ := List.mem_flatMap.mp ht
  obtain rfl := List.mem_singleton.mp ht
  exact ⟨"transfer", rfl⟩

theorem union_iff_agreed_twoFilters : (oneFunction callOf5).Union twoFilters ↔
    ∀ t ∈ (oneFunction callOf5).transactions twoFilters, ∀ address, t.toAddress = some address →
      (oneFunction callOf5).wanted twoFilters.filters t = true →
        (oneFunction callOf5).Agreed twoFilters.filters address t.input :=
  union_iff_agreed decodes_callOf5

/-- The last filter of an address hides what the one before it takes. -/
theorem not_union : ¬ ∀ (c : Chain) (data : EnqueueData TransactionReceiptFilter), c.Decodes data → c.Union data := by
  intro h
  obtain ⟨receipts, hreceipts, hhashes⟩ := (h (oneFunction callOf5) twoFilters decodes_callOf5).produced
  have hnone : ((getFormattedTransactionReceipts twoFilters).outcome (oneFunction callOf5).replies).toOption =
      some [] := by decide +kernel
  rw [hreceipts] at hnone
  obtain rfl := Option.some.inj hnone
  have hwanted : ((oneFunction callOf5).transactions twoFilters).filter
      ((oneFunction callOf5).wanted twoFilters.filters) = callOf5 := by decide +kernel
  rw [hwanted] at hhashes
  cases hhashes

end Chain
end Engine.Events
