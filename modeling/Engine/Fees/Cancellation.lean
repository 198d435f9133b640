import Engine.Source.Broadcasts
import Engine.Source.CancelRecycledNoncesWorker
import Engine.Source.SendTransactionWorker

/-! The fees of a cancellation beside those of a resend. -/
namespace Engine.Fees
open Concurrent Program

/-! ### What a replacement needs -/

/-- The most that a transaction pays for a unit of gas. -/
def feeCap (tx : SerializableTransaction) : Option ℤ := tx.maxFeePerGas.or tx.gasPrice

/-- What of it goes to the block's producer; all of it in a legacy transaction. -/
def tip (tx : SerializableTransaction) : Option ℤ := tx.maxPriorityFeePerGas.or tx.gasPrice

/-- `fee'` is at least 10% more than `fee`, where that is not zero. -/
def BumpsFee (fee fee' : Option ℤ) : Prop := ∀ f, fee = some f → 0 < f → ∃ f', fee' = some f' ∧ 11 * f ≤ 10 * f'

theorem bumpsFee_doubled (fee : Option ℤ) : BumpsFee fee (doubled fee) := by
  intro f hf hpos
  have hdouble : doubled fee = some (2 * f) := by rw [hf]; rfl
  exact ⟨2 * f, hdouble, by omega⟩

/-- A node lets `tx` replace `pending`. -/
structure Replaces (pending tx : SerializableTransaction) : Prop where
  feeCap : BumpsFee (feeCap pending) (feeCap tx)
  tip : BumpsFee (tip pending) (tip tx)

/-- Populated at one fee level. -/
structure SameFees (tx tx' : SerializableTransaction) : Prop where
  gasPrice : tx.gasPrice = tx'.gasPrice
  maxFeePerGas : tx.maxFeePerGas = tx'.maxFeePerGas
  maxPriorityFeePerGas : tx.maxPriorityFeePerGas = tx'.maxPriorityFeePerGas

/-- The fees that a population fills in: those of a legacy or of an EIP-1559 transaction. -/
inductive FeesPopulated (populated : SerializableTransaction) : Prop
  | legacy (gasPrice : ℤ) (hgas : populated.gasPrice = some gasPrice) (hcap : populated.maxFeePerGas = none)
      (htip : populated.maxPriorityFeePerGas = none)
  | eip1559 (cap tip : ℤ) (hgas : populated.gasPrice = none) (hcap : populated.maxFeePerGas = some cap)
      (htip : populated.maxPriorityFeePerGas = some tip) (hpos : 0 ≤ tip) (hle : tip ≤ cap)

/-! ### What is broadcast -/

/-- The request that a resend populates: the fees are left out. -/
def resendRequest (sent : Transaction) : TransactionRequest :=
  { sent.request sent.from with gasPrice := none, maxFeePerGas := none, maxPriorityFeePerGas := none }

section
variable {x : Replies Calls} {k : Wallet} {nonce : Option ℤ} {sent : Transaction} {resendCount : ℕ}
  {populated tx : SerializableTransaction}

/-- A cancellation broadcasts nothing but the populated transaction with its fees raised. -/
theorem eq_of_mem_broadcasts_cancellation
    (hp : x (.toSerializableTransaction (cancellationRequest k nonce)) = .ok populated)
    (htx : tx ∈ broadcasts x (sendCancellationTransaction k nonce)) : tx = withCancellationFees populated := by
  unfold sendCancellationTransaction at htx
  obtain h | ⟨chain, -, h⟩ := mem_broadcasts_bind.mp htx
  · cases not_mem_broadcasts_of_only (only_getChain _) h
  obtain h | ⟨populated', hp', h⟩ := mem_broadcasts_bind.mp h
  · cases mem_broadcasts_await.mp h
  obtain h | ⟨account, -, h⟩ := mem_broadcasts_bind.mp h
  · cases mem_broadcasts_await.mp h
  have hsame : populated' = populated := Except.ok.inj ((outcome_perform _).symm.trans hp' |>.symm.trans hp)
  exact hsame ▸ (Option.some.inj (mem_broadcasts_await.mp h)).symm

/-- A resend broadcasts nothing but the populated transaction with its fees doubled. -/
theorem eq_of_mem_broadcasts_resend (hp : x (.toSerializableTransaction (resendRequest sent)) = .ok populated)
    (htx : tx ∈ broadcasts x (resendTransaction sent resendCount)) : tx = withDoubledFees populated := by
  unfold resendTransaction at htx
  obtain h | ⟨_, -, h⟩ := mem_broadcasts_bind.mp htx
  · cases not_mem_broadcasts_of_only (only_assert _) h
  obtain h | ⟨chain, -, h⟩ := mem_broadcasts_bind.mp h
  · cases not_mem_broadcasts_of_only (only_getChain _) h
  obtain h | ⟨populated', hp', h⟩ := mem_broadcasts_bind.mp h
  · cases mem_broadcasts_await.mp h
  have hsame : populated' = populated := Except.ok.inj ((outcome_perform _).symm.trans hp' |>.symm.trans hp)
  subst hsame
  obtain h | ⟨result, -, h⟩ := mem_broadcasts_bind.mp h
  · obtain h | ⟨e, -, h⟩ := mem_broadcasts_handle.mp h
    · obtain h | ⟨account, -, h⟩ := mem_broadcasts_bind.mp h
      · cases mem_broadcasts_await.mp h
      obtain h | ⟨hash, -, h⟩ := mem_broadcasts_bind.mp h
      · exact (Option.some.inj (mem_broadcasts_await.mp h)).symm
      · cases h
    · split at h <;> cases h
  · cases result with
    | none => cases h
    | some transactionHash =>
      obtain h | ⟨block, -, h⟩ := mem_broadcasts_bind.mp h
      · cases not_mem_broadcasts_of_only (only_getBlockNumberish _) h
      obtain h | ⟨hashes, -, h⟩ := mem_broadcasts_bind.mp h
      · cases not_mem_broadcasts_of_only (only_defined _) h
      · cases h

/-! ### How the two compare -/

/-- The broadcast of a cancellation outbids, as the broadcast of a resend does, what was populated. -/
structure OutbidsAsResend (populated tx : SerializableTransaction) : Prop where
  gasPrice : tx.gasPrice = populated.gasPrice.map (2 * ·)
  maxFeePerGas : tx.maxFeePerGas = populated.maxFeePerGas.map (2 * ·)
  maxPriorityFeePerGas : tx.maxPriorityFeePerGas = populated.maxPriorityFeePerGas.map (2 * ·)
  nonce : tx.nonce = populated.nonce
  «to» : tx.to = populated.to
  data : tx.data = populated.data
  value : tx.value = populated.value
  tipLeCap : ∀ p m, tx.maxPriorityFeePerGas = some p → tx.maxFeePerGas = some m → p ≤ m
  resend : ∀ x sent resendCount, x (.toSerializableTransaction (resendRequest sent)) = .ok populated →
    ∀ tx' ∈ broadcasts x (resendTransaction sent resendCount), tx' = tx
  replaces : ∀ pending, pending.nonce = tx.nonce → SameFees pending populated → Replaces pending tx

theorem FeesPopulated.tip_le_cap (hfees : FeesPopulated populated) {p m : ℤ}
    (hp : populated.maxPriorityFeePerGas = some p) (hm : populated.maxFeePerGas = some m) : p ≤ m := by
  cases hfees with
  | legacy gasPrice hgas hcap htip =>
    rw [hcap] at hm
    cases hm
  | eip1559 cap tip hgas hcap htip hpos hle =>
    have hpt : p = tip := Option.some.inj (hp.symm.trans htip)
    have hmc : m = cap := Option.some.inj (hm.symm.trans hcap)
    omega

theorem feeCap_withDoubledFees : feeCap (withDoubledFees populated) = doubled (feeCap populated) := by
  unfold feeCap withDoubledFees doubled
  cases populated.maxFeePerGas <;> rfl

theorem tip_withDoubledFees : tip (withDoubledFees populated) = doubled (tip populated) := by
  unfold tip withDoubledFees doubled
  cases populated.maxPriorityFeePerGas <;> rfl

theorem SameFees.feeCap (h : SameFees tx populated) : feeCap tx = Fees.feeCap populated := by
  unfold Fees.feeCap
  rw [h.gasPrice, h.maxFeePerGas]

theorem SameFees.tip (h : SameFees tx populated) : tip tx = Fees.tip populated := by
  unfold Fees.tip
  rw [h.gasPrice, h.maxPriorityFeePerGas]

/-- Every fee doubled is a replacement. -/
theorem replaces_withDoubledFees (h : SameFees tx populated) : Replaces tx (withDoubledFees populated) := by
  constructor
  · rw [h.feeCap, feeCap_withDoubledFees]
    exact bumpsFee_doubled _
  · rw [h.tip, tip_withDoubledFees]
    exact bumpsFee_doubled _

private theorem outbidsAsResend_withDoubledFees (hfees : FeesPopulated populated) :
    OutbidsAsResend populated (withDoubledFees populated) where
  gasPrice := rfl
  maxFeePerGas := rfl
  maxPriorityFeePerGas := rfl
  nonce := rfl
  «to» := rfl
  data := rfl
  value := rfl
  tipLeCap p m hp hm := by
    obtain ⟨p', hp', rfl⟩ := Option.map_eq_some_iff.mp hp
    obtain ⟨m', hm', rfl⟩ := Option.map_eq_some_iff.mp hm
    have hle : p' ≤ m' := hfees.tip_le_cap hp' hm'
    omega
  resend _ _ _ hp _ htx := eq_of_mem_broadcasts_resend hp htx
  replaces _ _ hsame := replaces_withDoubledFees hsame

/-- The fees raised for a cancellation are the fees doubled only where there is no fee cap to raise twice. -/
theorem withCancellationFees_eq_iff (hfees : FeesPopulated populated) :
    withCancellationFees populated = withDoubledFees populated ↔
      populated.maxFeePerGas = none ∨ populated.maxFeePerGas = some 0 := by
  unfold withCancellationFees withDoubledFees doubled
  rw [SerializableTransaction.mk.injEq]
  cases hfees with
  | legacy gasPrice hgas hcap htip => simp [hcap, htip]
  | eip1559 cap tip hgas hcap htip hpos hle =>
    simp only [hgas, hcap, htip, Option.map_some, Option.map_none, Option.some.injEq, true_and]
    constructor
    · intro h
      right
      omega
    · intro h
      obtain h | h := h
      · cases h
      · omega

/-- A cancellation outbids as a resend does exactly when the populated transaction has no fee cap but zero. -/
theorem cancellation_outbids_iff (k : Wallet) (nonce : Option ℤ) (x : Replies Calls)
    (populated tx : SerializableTransaction)
    (hp : x (.toSerializableTransaction (cancellationRequest k nonce)) = .ok populated)
    (hfees : FeesPopulated populated) (htx : tx ∈ broadcasts x (sendCancellationTransaction k nonce)) :
    OutbidsAsResend populated tx ↔ populated.maxFeePerGas = none ∨ populated.maxFeePerGas = some 0 := by
  have heq : tx = withCancellationFees populated := eq_of_mem_broadcasts_cancellation hp htx
  rw [← withCancellationFees_eq_iff hfees, heq]
  constructor
  · intro h
    unfold withCancellationFees withDoubledFees at *
    rw [SerializableTransaction.mk.injEq]
    exact ⟨rfl, rfl, rfl, rfl, rfl, rfl, rfl, h.maxFeePerGas, h.maxPriorityFeePerGas⟩
  · intro h
    rw [h]
    exact outbidsAsResend_withDoubledFees hfees

end

/-- Every lookup and every broadcast succeeds, and a population gives `populated`. -/
def populating (populated : SerializableTransaction) : Replies Calls
  | .getConfig => .ok ⟨0, 0⟩
  | .toSerializableTransaction _ => .ok populated
  | .getAccount _ _ => .ok ()
  | .accountSendTransaction _ a tx => .ok ⟨a, tx⟩
  | _ => .error {}

/-- A null transaction of the wallet `0x07` on chain 137. -/
def nullTransaction (gasPrice maxFeePerGas maxPriorityFeePerGas : Option ℤ) : SerializableTransaction where
  chainId := 137
  «to» := some 7
  data := some []
  value := some 0
  nonce := 5
  gas := some 21000
  gasPrice := gasPrice
  maxFeePerGas := maxFeePerGas
  maxPriorityFeePerGas := maxPriorityFeePerGas

theorem cancellation_outbids_legacy :
    OutbidsAsResend (nullTransaction (some 30) none none) (nullTransaction (some 60) none none) :=
  (cancellation_outbids_iff ⟨137, 7⟩ (some 5) (populating (nullTransaction (some 30) none none)) _ _ rfl
    (.legacy 30 rfl rfl rfl) List.mem_cons_self).mpr (Or.inl rfl)

/-- The tip stays where it was, and the fee cap is raised twice. -/
theorem not_cancellation_outbids : ¬ ∀ (k : Wallet) (nonce : Option ℤ) (x : Replies Calls)
    (populated tx : SerializableTransaction),
    x (.toSerializableTransaction (cancellationRequest k nonce)) = .ok populated → FeesPopulated populated →
      tx ∈ broadcasts x (sendCancellationTransaction k nonce) → OutbidsAsResend populated tx := by
  intro hgeneral
  have houtbids := hgeneral ⟨137, 7⟩ (some 5) (populating (nullTransaction none (some 30) (some 2)))
    (nullTransaction none (some 30) (some 2)) (nullTransaction none (some 120) (some 2)) rfl
    (.eip1559 30 2 rfl rfl rfl (by decide) (by decide)) List.mem_cons_self
  have htip : some 2 = some (4 : ℤ) := houtbids.maxPriorityFeePerGas
  cases htip

end Engine.Fees
