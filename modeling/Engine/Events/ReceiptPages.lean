import Engine.Events.EventLogPages

/-! Reading the transaction receipts by cursor, until an empty page. -/
namespace Engine.Events

variable (o : Codec.Base64)

/-- A block, as far as receipts of one time are concerned. -/
def ContractTransactionReceipts.block (receipt : ContractTransactionReceipts) : List ℕ :=
  [receipt.createdAt, receipt.chainId, receipt.blockNumber]

/-- The receipts of all pages, from a cursor on. `none`: a page failed, or the fuel is used up. -/
def followReceipts (table : List ContractTransactionReceipts) (limit : Option ℕ)
    (contractAddresses : Option (List String)) (maxCreatedAt : Option ℤ) :
    ℕ → Option String → Option (List ContractTransactionReceipts)
  | 0, _ => none
  | fuel + 1, cursor =>
    match getTransactionReceiptsByCursor o table cursor limit contractAddresses maxCreatedAt with
    | .error _ => none
    | .ok (newCursor, transactionReceipts) =>
      if transactionReceipts = [] then some []
      else (followReceipts table limit contractAddresses maxCreatedAt fuel newCursor).map fun rest =>
        transactionReceipts ++ rest

/-- The accepted receipts in the order of their tuples. -/
def acceptedReceipts (table : List ContractTransactionReceipts) (contractAddresses : Option (List String))
    (maxCreatedAt : Option ℤ) : List ContractTransactionReceipts :=
  Keyset.sorted ContractTransactionReceipts.tuple (table.filter (receiptAccepted contractAddresses maxCreatedAt))

/-- Every accepted receipt once, in the order of the tuples. -/
structure PagedExactly (table : List ContractTransactionReceipts) (contractAddresses : Option (List String))
    (maxCreatedAt : Option ℤ) (receipts : List ContractTransactionReceipts) : Prop where
  ordered : receipts.Pairwise fun receipt receipt' => receipt.tuple < receipt'.tuple
  exact : ∀ receipt, receipt ∈ receipts ↔
    receipt ∈ table ∧ receiptAccepted contractAddresses maxCreatedAt receipt = true

/-- The cursor that a receipt is encoded as. -/
def ContractTransactionReceipts.cursor (receipt : ContractTransactionReceipts) : ReceiptCursor :=
  ⟨receipt.createdAt, receipt.chainId, receipt.blockNumber, receipt.transactionIndex⟩

/-- What the cursor of a reader stands for. -/
def IsReceiptCursorOf : Option String → Option ContractTransactionReceipts → Prop
  | none, none => True
  | some c, some receipt => c ≠ "" ∧ parseReceiptCursor o c = .ok receipt.cursor
  | _, _ => False

section
variable {o} {table receipts : List ContractTransactionReceipts} {contractAddresses : Option (List String)}
  {maxCreatedAt : Option ℤ} {limit : Option ℕ} {cursor : Option String} {last : Option ContractTransactionReceipts}
  {fuel : ℕ}

variable (o) in
theorem parse_encodeReceiptCursor (receipt : ContractTransactionReceipts) :
    ∃ c, encodeCursor o receipt.tuple = .ok c ∧ c ≠ "" ∧ parseReceiptCursor o c = .ok receipt.cursor := by
  obtain ⟨c, hc, hne, hvalues⟩ :=
    exists_encodeCursor o receipt.tuple (by simp [ContractTransactionReceipts.tuple])
  refine ⟨c, hc, hne, ?_⟩
  unfold parseReceiptCursor
  rw [hvalues]
  rfl

/-- A receipt is after a cursor if it is in a later block. -/
theorem receipt_before_iff (last receipt : ContractTransactionReceipts) :
    last.cursor.before receipt = true ↔ last.block < receipt.block := by
  unfold ReceiptCursor.before ContractTransactionReceipts.cursor ContractTransactionReceipts.block
  dsimp only
  simp only [gt_iff_lt, Bool.or_eq_true, Bool.and_eq_true, decide_eq_true_iff, List.cons_lt_cons_iff,
    List.not_lt_nil, and_false, or_false]
  omega

theorem block_le_of_tuple_le (receipt receipt' : ContractTransactionReceipts) (h : receipt.tuple ≤ receipt'.tuple) :
    receipt.block ≤ receipt'.block := by
  by_contra hlt
  refine absurd h (not_le_of_gt ?_)
  have hlt : receipt'.block < receipt.block := lt_of_not_ge hlt
  unfold ContractTransactionReceipts.block at hlt
  unfold ContractTransactionReceipts.tuple
  simp only [List.cons_lt_cons_iff, List.not_lt_nil, and_false, or_false] at hlt ⊢
  omega

variable (limit contractAddresses maxCreatedAt) in
/-- A page with a cursor. -/
theorem getTransactionReceiptsByCursor_eq (hunique : (table.map ContractTransactionReceipts.tuple).Nodup)
    (h : IsReceiptCursorOf o cursor last) : ∃ newCursor,
      getTransactionReceiptsByCursor o table cursor limit contractAddresses maxCreatedAt = .ok (newCursor,
        Keyset.nextPage ContractTransactionReceipts.block (limit.getD 100)
          (acceptedReceipts table contractAddresses maxCreatedAt) last) ∧
      IsReceiptCursorOf o newCursor ((Keyset.nextPage ContractTransactionReceipts.block (limit.getD 100)
        (acceptedReceipts table contractAddresses maxCreatedAt) last).getLast?.or last) := by
  have hread : (cursor.filter (· ≠ "")).mapM (parseReceiptCursor o) =
      .ok (last.map ContractTransactionReceipts.cursor) := by
    cases cursor with
    | none =>
      cases last with
      | none => rfl
      | some receipt => cases h
    | some c =>
      cases last with
      | none => cases h
      | some receipt =>
        obtain ⟨hne, hparse⟩ := h
        simp [Option.filter, hne, hparse]
  have hpage : Keyset.select ContractTransactionReceipts.tuple
      (fun receipt => receiptAccepted contractAddresses maxCreatedAt receipt &&
        (last.map ContractTransactionReceipts.cursor).all fun cursorObj => cursorObj.before receipt)
      (limit.getD 100) table = Keyset.nextPage ContractTransactionReceipts.block (limit.getD 100)
        (acceptedReceipts table contractAddresses maxCreatedAt) last := by
    unfold Keyset.select Keyset.nextPage acceptedReceipts
    rw [← Keyset.sorted_filter (Keyset.nodup_filter hunique _), List.filter_filter]
    congr 2
    refine List.filter_congr fun receipt _ => ?_
    cases last with
    | none => simp [Keyset.After]
    | some lastReceipt =>
      have hbefore : lastReceipt.cursor.before receipt =
          decide (Keyset.After ContractTransactionReceipts.block (some lastReceipt) receipt) := by
        rw [Bool.eq_iff_iff, decide_eq_true_iff, receipt_before_iff]
        simp [Keyset.After]
      rw [← hbefore, Bool.and_comm]
      rfl
  unfold getTransactionReceiptsByCursor
  rw [hread]
  simp only [bind, Except.bind, hpage]
  cases hlast : (Keyset.nextPage ContractTransactionReceipts.block (limit.getD 100)
      (acceptedReceipts table contractAddresses maxCreatedAt) last).getLast? with
  | none => exact ⟨cursor, rfl, by simpa using h⟩
  | some lastReceipt =>
    obtain ⟨c, hc, hne, hparse⟩ := parse_encodeReceiptCursor o lastReceipt
    refine ⟨some c, ?_, hne, hparse⟩
    simp only [hc]
    rfl

/-- The pages are those of the accepted receipts, read by block. -/
theorem followReceipts_eq (hunique : (table.map ContractTransactionReceipts.tuple).Nodup)
    (h : IsReceiptCursorOf o cursor last) :
    followReceipts o table limit contractAddresses maxCreatedAt fuel cursor =
      Keyset.follow ContractTransactionReceipts.block (limit.getD 100)
        (acceptedReceipts table contractAddresses maxCreatedAt) fuel last := by
  induction fuel generalizing cursor last with
  | zero => rfl
  | succ fuel ih =>
    obtain ⟨newCursor, hpage, hcursor⟩ := getTransactionReceiptsByCursor_eq contractAddresses
      maxCreatedAt limit hunique h
    unfold followReceipts Keyset.follow
    rw [hpage]
    dsimp only
    cases hlast : (Keyset.nextPage ContractTransactionReceipts.block (limit.getD 100)
        (acceptedReceipts table contractAddresses maxCreatedAt) last).getLast? with
    | none =>
      rw [List.getLast?_eq_none_iff] at hlast
      rw [if_pos hlast]
    | some receipt =>
      rw [hlast, Option.some_or] at hcursor
      rw [if_neg (List.ne_nil_of_mem (List.mem_of_getLast? hlast)), ih hcursor]

private theorem pagedExactly_iff (hunique : (table.map ContractTransactionReceipts.tuple).Nodup) :
    PagedExactly table contractAddresses maxCreatedAt receipts ↔
      receipts = acceptedReceipts table contractAddresses maxCreatedAt := by
  have hsorted : (acceptedReceipts table contractAddresses maxCreatedAt).Pairwise
      fun receipt receipt' => receipt.tuple < receipt'.tuple :=
    Keyset.sorted_pairwise (Keyset.nodup_filter hunique _)
  have hmem : ∀ receipt, receipt ∈ acceptedReceipts table contractAddresses maxCreatedAt ↔
      receipt ∈ table ∧ receiptAccepted contractAddresses maxCreatedAt receipt = true := by
    intro receipt
    unfold acceptedReceipts
    rw [Keyset.mem_sorted, List.mem_filter]
  constructor
  · intro h
    have hirrefl : Std.Irrefl fun x y : ContractTransactionReceipts => x.tuple < y.tuple :=
      ⟨fun x => lt_irrefl x.tuple⟩
    have hantisymm : Std.Antisymm fun x y : ContractTransactionReceipts => x.tuple < y.tuple :=
      ⟨fun x y hxy hyx => absurd hyx hxy.asymm⟩
    exact h.ordered.eq_of_mem_iff hsorted fun receipt => (h.exact receipt).trans (hmem receipt).symm
  · rintro rfl
    exact ⟨hsorted, hmem⟩

/-- Following the cursors returns the accepted receipts exactly if and only if no page but the last
one ends inside a block. -/
theorem receipts_paged_iff (hunique : (table.map ContractTransactionReceipts.tuple).Nodup)
    (hlimit : 1 ≤ limit.getD 100) (hfuel : table.length < fuel) : ∃ receipts,
      followReceipts o table limit contractAddresses maxCreatedAt fuel none = some receipts ∧
      (PagedExactly table contractAddresses maxCreatedAt receipts ↔
        Keyset.Boundaries ContractTransactionReceipts.block (limit.getD 100)
          (acceptedReceipts table contractAddresses maxCreatedAt)) := by
  have hsorted : (acceptedReceipts table contractAddresses maxCreatedAt).Pairwise
      fun receipt receipt' => receipt.tuple < receipt'.tuple :=
    Keyset.sorted_pairwise (Keyset.nodup_filter hunique _)
  have hlength : ((acceptedReceipts table contractAddresses maxCreatedAt).filter fun receipt =>
      Keyset.After ContractTransactionReceipts.block none receipt).length < fuel := by
    have hpages := List.length_filter_le (fun receipt =>
      decide (Keyset.After ContractTransactionReceipts.block none receipt))
      (acceptedReceipts table contractAddresses maxCreatedAt)
    have haccepted := List.length_filter_le (receiptAccepted contractAddresses maxCreatedAt) table
    have hsame : (acceptedReceipts table contractAddresses maxCreatedAt).length =
        (table.filter (receiptAccepted contractAddresses maxCreatedAt)).length := List.length_insertionSort _ _
    omega
  obtain ⟨receipts, hreceipts⟩ := Keyset.follow_isSome (n := limit.getD 100) hlength
  have hstart : IsReceiptCursorOf o none none := True.intro
  have hexact : receipts = acceptedReceipts table contractAddresses maxCreatedAt ↔
      (∀ receipt, (acceptedReceipts table contractAddresses maxCreatedAt).head? = some receipt →
        Keyset.After ContractTransactionReceipts.block none receipt) ∧
      Keyset.Boundaries ContractTransactionReceipts.block (limit.getD 100)
        (acceptedReceipts table contractAddresses maxCreatedAt) := by
    apply Keyset.follow_eq_iff block_le_of_tuple_le (by omega) [] hsorted _ hreceipts
    intro receipt hreceipt
    cases hreceipt
  refine ⟨receipts, (followReceipts_eq hunique hstart).trans hreceipts, ?_⟩
  rw [pagedExactly_iff hunique, hexact]
  constructor
  · intro h
    exact h.2
  · intro h
    exact ⟨fun receipt _ last hlast => (by cases hlast), h⟩

end

/-- A receipt of contract 5 on chain 1. -/
def receiptAt (createdAt blockNumber transactionIndex : ℕ) : ContractTransactionReceipts where
  chainId := 1
  blockNumber := blockNumber
  contractAddress := "0x05"
  transactionHash := "0x01"
  transactionIndex := transactionIndex
  data := []
  functionName := none
  createdAt := createdAt

/-- Two blocks of two receipts each. -/
def twoBlocks : List ContractTransactionReceipts :=
  [receiptAt 1000 8 0, receiptAt 1000 7 1, receiptAt 1000 7 0, receiptAt 1000 8 3]

theorem receipts_paged_twoBlocks : ∃ receipts,
    followReceipts Codec.base64 twoBlocks (some 2) none none 5 none = some receipts ∧
    (PagedExactly twoBlocks none none receipts ↔
      Keyset.Boundaries ContractTransactionReceipts.block 2 (acceptedReceipts twoBlocks none none)) :=
  receipts_paged_iff (by decide) (by decide) (by decide)

/-- With pages of one receipt, the second receipt of every block is left out. -/
theorem not_receipts_paged : ¬ ∀ (o : Codec.Base64) (table : List ContractTransactionReceipts)
    (contractAddresses : Option (List String)) (maxCreatedAt : Option ℤ) (limit : Option ℕ) (fuel : ℕ),
    (table.map ContractTransactionReceipts.tuple).Nodup →
    1 ≤ limit.getD 100 → table.length < fuel → ∃ receipts,
      followReceipts o table limit contractAddresses maxCreatedAt fuel none = some receipts ∧
      PagedExactly table contractAddresses maxCreatedAt receipts := by
  intro h
  obtain ⟨receipts, hreceipts, hpaged⟩ :=
    h Codec.base64 twoBlocks none none (some 1) 5 (by decide) (by decide) (by decide)
  have hfollowed : followReceipts Codec.base64 twoBlocks (some 1) none none 5 none =
      some [receiptAt 1000 7 0, receiptAt 1000 8 0] := by decide +kernel
  obtain rfl := Option.some.inj (hreceipts.symm.trans hfollowed)
  have hleft : receiptAt 1000 7 1 ∈ [receiptAt 1000 7 0, receiptAt 1000 8 0] :=
    (hpaged.exact (receiptAt 1000 7 1)).mpr ⟨by decide, by decide⟩
  revert hleft
  decide

end Engine.Events
