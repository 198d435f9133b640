import Engine.Events.Workers
import Engine.Text.Separated

/-! Whether the keys that items are told apart by tell them apart. -/
namespace Engine.Events

/-! ### Transaction webhooks -/

/-- The values of `WebhooksEventTypes`. -/
def eventTypeText : WebhooksEventTypes → String
  | .queuedTx => "queued_transaction"
  | .sentTx => "sent_transaction"
  | .minedTx => "mined_transaction"
  | .erroredTx => "errored_transaction"
  | .cancelledTx => "cancelled_transaction"
  | .allTx => "all_transactions"
  | .backendWalletBalance => "backend_wallet_balance"
  | .auth => "auth"
  | .contractSubscription => "contract_subscription"

def getTransactionWebhookIdempotencyKey (webhook : Webhooks) (eventType : WebhooksEventTypes) (queueId : QueueId) :
    String :=
  webhook.url ++ "." ++ eventTypeText eventType ++ "." ++ queueId

theorem not_mem_eventTypeText (eventType : WebhooksEventTypes) : '.' ∉ (eventTypeText eventType).toList := by
  cases eventType <;> decide

theorem eventTypeText_inj {eventType eventType' : WebhooksEventTypes}
    (h : eventTypeText eventType = eventTypeText eventType') : eventType = eventType' := by
  revert h
  cases eventType <;> cases eventType' <;> decide

/-- The second key is read out of the first behind a longer URL: the URL of the second webhook is that
of the first and its event type, and more of its queue id. -/
def Swallows (webhook : Webhooks) (eventType : WebhooksEventTypes) (queueId : QueueId) (webhook' : Webhooks)
    (eventType' : WebhooksEventTypes) (queueId' : QueueId) : Prop :=
  (webhook'.url = webhook.url ++ "." ++ eventTypeText eventType ∧
    queueId = eventTypeText eventType' ++ "." ++ queueId') ∨
  ∃ rest, webhook'.url = webhook.url ++ "." ++ eventTypeText eventType ++ "." ++ rest ∧
    queueId = rest ++ "." ++ eventTypeText eventType' ++ "." ++ queueId'

section
variable {webhook webhook' : Webhooks} {eventType eventType' : WebhooksEventTypes} {queueId queueId' : QueueId}

theorem toList_separated (s t : String) : (s ++ "." ++ t).toList = s.toList ++ '.' :: t.toList := by
  rw [String.toList_append, String.toList_append, List.append_assoc]
  rfl

/-- The URLs part where a dot of the key is the separator of one key only. -/
theorem swallows_iff : Swallows webhook eventType queueId webhook' eventType' queueId' ↔
    ∃ r, webhook'.url.toList = webhook.url.toList ++ '.' :: r ∧
      (eventTypeText eventType).toList ++ '.' :: queueId.toList =
        r ++ '.' :: ((eventTypeText eventType').toList ++ '.' :: queueId'.toList) := by
  unfold Swallows
  simp only [← String.toList_inj, toList_separated, List.append_assoc, List.cons_append]
  constructor
  · intro h
    obtain ⟨hurl, hid⟩ | ⟨rest, hurl, hid⟩ := h
    · exact ⟨_, hurl, by rw [hid]⟩
    · refine ⟨_, hurl, ?_⟩
      rw [hid, List.append_assoc, List.cons_append]
  · intro h
    obtain ⟨r, hurl, hkey⟩ := h
    obtain ⟨rfl, hid⟩ | ⟨rest, rfl, hid⟩ | ⟨rest, htype, -⟩ := append_cons_eq_iff.mp hkey
    · exact Or.inl ⟨hurl, hid⟩
    · refine Or.inr ⟨String.ofList rest, ?_, ?_⟩
      · rw [String.toList_ofList]
        exact hurl
      · rw [String.toList_ofList]
        exact hid
    · refine absurd ?_ (not_mem_eventTypeText eventType)
      rw [htype]
      exact List.mem_append_right _ List.mem_cons_self

theorem transactionKey_eq_iff : getTransactionWebhookIdempotencyKey webhook eventType queueId =
      getTransactionWebhookIdempotencyKey webhook' eventType' queueId' ↔
    (webhook.url = webhook'.url ∧ eventType = eventType' ∧ queueId = queueId') ∨
      Swallows webhook eventType queueId webhook' eventType' queueId' ∨
      Swallows webhook' eventType' queueId' webhook eventType queueId := by
  have hrest : (eventTypeText eventType).toList ++ '.' :: queueId.toList =
      (eventTypeText eventType').toList ++ '.' :: queueId'.toList ↔ eventType = eventType' ∧ queueId = queueId' := by
    rw [append_cons_inj_of_not_mem (not_mem_eventTypeText eventType) (not_mem_eventTypeText eventType'),
      String.toList_inj, String.toList_inj]
    constructor
    · intro h
      exact ⟨eventTypeText_inj h.1, h.2⟩
    · intro h
      rw [h.1, h.2]
      exact ⟨rfl, rfl⟩
  unfold getTransactionWebhookIdempotencyKey
  rw [← String.toList_inj, toList_separated, toList_separated, toList_separated, toList_separated,
    List.append_assoc, List.append_assoc, List.cons_append, List.cons_append, append_cons_eq_iff, hrest,
    String.toList_inj, swallows_iff, swallows_iff]

end

/-! ### Event logs and transaction receipts -/

/-- A transaction hash as chains give it. -/
def IsHash (text : String) : Prop :=
  ∃ digits, text.toList = '0' :: 'x' :: digits ∧ ∀ c ∈ digits, c ∈ "0123456789abcdef".toList

section
variable {url url' hash hash' : String} {logIndex logIndex' : ℕ}

theorem IsHash.not_mem (h : IsHash hash) : '.' ∉ hash.toList := by
  obtain ⟨digits, htext, hdigits⟩ := h
  rw [htext]
  intro hmem
  rcases List.mem_cons.mp hmem with hc | hmem
  · revert hc
    decide
  · rcases List.mem_cons.mp hmem with hc | hmem
    · revert hc
      decide
    · have hhex := hdigits '.' hmem
      revert hhex
      decide

theorem IsHash.mem (h : IsHash hash) : 'x' ∈ hash.toList := by
  obtain ⟨digits, htext, -⟩ := h
  rw [htext]
  exact List.mem_cons_of_mem _ List.mem_cons_self

/-- The keys of two event logs for one URL. -/
theorem eventLogKey_eq_iff (hhash : IsHash hash) (hhash' : IsHash hash') :
    url ++ "." ++ hash ++ "." ++ toString logIndex = url ++ "." ++ hash' ++ "." ++ toString logIndex' ↔
      hash = hash' ∧ logIndex = logIndex' := by
  rw [← String.toList_inj, toList_separated, toList_separated, toList_separated, toList_separated,
    List.append_assoc, List.append_assoc, List.append_right_inj, List.cons_append, List.cons_append,
      List.cons_inj_right,
    append_cons_inj_of_not_mem hhash.not_mem hhash'.not_mem, String.toList_inj, toList_toString, toList_toString]
  constructor
  · intro h
    exact ⟨h.1, toDigits_inj h.2⟩
  · intro h
    exact ⟨h.1, congrArg _ h.2⟩

/-- The key of an event log ends in digits, that of a receipt does not. -/
theorem eventLogKey_ne_receiptKey (hhash' : IsHash hash') :
    url ++ "." ++ hash ++ "." ++ toString logIndex ≠ url' ++ "." ++ hash' := by
  intro h
  rw [← String.toList_inj, toList_separated, toList_separated, toList_separated, toList_toString] at h
  obtain ⟨-, hlast⟩ | ⟨r, -, hlast⟩ | ⟨r, -, hlast⟩ := append_cons_eq_iff.mp h
  · have hx := hhash'.mem
    rw [← hlast] at hx
    exact not_mem_toDigits (by decide) logIndex hx
  · refine not_mem_toDigits (c := '.') (by decide) logIndex ?_
    rw [hlast]
    exact List.mem_append_right _ List.mem_cons_self
  · refine hhash'.not_mem ?_
    rw [hlast]
    exact List.mem_append_right _ List.mem_cons_self

end

/-! ### Pairs of items -/

/-- Two items that are told apart by keys. -/
inductive Pair
  | eventLogs (webhook : Webhooks) (log log' : ContractEventLogs)
  | transactionReceipts (webhook : Webhooks) (receipt receipt' : ContractTransactionReceipts)
  | eventLogAndReceipt (webhook webhook' : Webhooks) (log : ContractEventLogs) (receipt : ContractTransactionReceipts)
  | transactions (webhook webhook' : Webhooks) (eventType eventType' : WebhooksEventTypes)
      (queueId queueId' : QueueId)

namespace Pair

/-- The items are distinct. -/
def Distinct : Pair → Prop
  | eventLogs _ log log' =>
    (log.chainId, log.transactionHash, log.logIndex) ≠ (log'.chainId, log'.transactionHash, log'.logIndex)
  | transactionReceipts _ receipt receipt' =>
    (receipt.chainId, receipt.transactionHash) ≠ (receipt'.chainId, receipt'.transactionHash)
  | eventLogAndReceipt _ _ _ _ => True
  | transactions webhook webhook' eventType eventType' queueId queueId' =>
    (webhook.url, eventType, queueId) ≠ (webhook'.url, eventType', queueId')

/-- The hashes are hashes. -/
def Hashed : Pair → Prop
  | eventLogs _ log log' => IsHash log.transactionHash ∧ IsHash log'.transactionHash
  | transactionReceipts _ receipt receipt' => IsHash receipt.transactionHash ∧ IsHash receipt'.transactionHash
  | eventLogAndReceipt _ _ log receipt => IsHash log.transactionHash ∧ IsHash receipt.transactionHash
  | transactions _ _ _ _ _ _ => True

/-- The keys are distinct: those of the tables, and the job ids. -/
def Identified : Pair → Prop
  | eventLogs webhook log log' => log.key ≠ log'.key ∧
    getContractSubscriptionWebhookIdempotencyKey webhook (.eventLog log) ≠
      getContractSubscriptionWebhookIdempotencyKey webhook (.eventLog log')
  | transactionReceipts webhook receipt receipt' => receipt.key ≠ receipt'.key ∧
    getContractSubscriptionWebhookIdempotencyKey webhook (.transactionReceipt receipt) ≠
      getContractSubscriptionWebhookIdempotencyKey webhook (.transactionReceipt receipt')
  | eventLogAndReceipt webhook webhook' log receipt =>
    getContractSubscriptionWebhookIdempotencyKey webhook (.eventLog log) ≠
      getContractSubscriptionWebhookIdempotencyKey webhook' (.transactionReceipt receipt)
  | transactions webhook webhook' eventType eventType' queueId queueId' =>
    getTransactionWebhookIdempotencyKey webhook eventType queueId ≠
      getTransactionWebhookIdempotencyKey webhook' eventType' queueId'

/-- One transaction is not taken for another: its hash is on one chain, and no key swallows another. -/
def Unconfused : Pair → Prop
  | eventLogs _ log log' => ¬ (log.transactionHash = log'.transactionHash ∧ log.logIndex = log'.logIndex)
  | transactionReceipts _ receipt receipt' => receipt.transactionHash ≠ receipt'.transactionHash
  | eventLogAndReceipt _ _ _ _ => True
  | transactions webhook webhook' eventType eventType' queueId queueId' =>
    ¬ Swallows webhook eventType queueId webhook' eventType' queueId' ∧
      ¬ Swallows webhook' eventType' queueId' webhook eventType queueId

end Pair

/-- Distinct items have distinct keys exactly when they are not confused. -/
theorem identified_iff (pair : Pair) (hdistinct : pair.Distinct) (hhashed : pair.Hashed) :
    pair.Identified ↔ pair.Unconfused := by
  cases pair with
  | eventLogs webhook log log' =>
    unfold Pair.Identified Pair.Unconfused getContractSubscriptionWebhookIdempotencyKey ContractEventLogs.key
    dsimp only
    rw [Ne, Ne, eventLogKey_eq_iff hhashed.1 hhashed.2, Prod.mk.injEq, and_self]
  | transactionReceipts webhook receipt receipt' =>
    unfold Pair.Identified Pair.Unconfused getContractSubscriptionWebhookIdempotencyKey ContractTransactionReceipts.key
    dsimp only
    rw [Ne, Ne, String.append_right_inj, Prod.mk.injEq]
    constructor
    · exact fun h => h.2
    · exact fun h => ⟨fun hkey => h hkey.2, h⟩
  | eventLogAndReceipt webhook webhook' log receipt =>
    constructor
    · exact fun _ => trivial
    · exact fun _ => eventLogKey_ne_receiptKey hhashed.2
  | transactions webhook webhook' eventType eventType' queueId queueId' =>
    unfold Pair.Identified Pair.Unconfused
    dsimp only
    rw [Ne, transactionKey_eq_iff, not_or, not_or]
    constructor
    · exact fun h => h.2
    · intro h
      refine ⟨fun hsame => hdistinct ?_, h⟩
      obtain ⟨hurl, rfl, rfl⟩ := hsame
      rw [hurl]

/-- One URL swallows nothing. -/
theorem not_swallows_of_url {webhook webhook' : Webhooks} {eventType eventType' : WebhooksEventTypes}
    {queueId queueId' : QueueId} (hurl : webhook.url = webhook'.url) :
    ¬ Swallows webhook eventType queueId webhook' eventType' queueId' := by
  intro h
  obtain ⟨r, hlonger, -⟩ := swallows_iff.mp h
  rw [hurl] at hlonger
  have hlength := congrArg List.length hlonger
  rw [List.length_append, List.length_cons] at hlength
  omega

/-- A webhook of all sent transactions. -/
def sentWebhook : Webhooks := ⟨1, "https://a.b/c", .sentTx, none⟩

theorem identified_queueIds : (Pair.transactions sentWebhook sentWebhook .sentTx .sentTx "p" "q").Identified :=
  (identified_iff (.transactions sentWebhook sentWebhook .sentTx .sentTx "p" "q")
    (fun h => absurd (Prod.mk.inj (Prod.mk.inj h).2).2 (by decide)) trivial).mpr
    ⟨not_swallows_of_url rfl, not_swallows_of_url rfl⟩

/-- The first log of a transaction that was signed for no chain in particular. -/
def unprotectedLog (chainId : ℕ) : ContractEventLogs where
  chainId := chainId
  blockNumber := 7
  contractAddress := "0x05"
  transactionHash := "0xeddf9e61fb9d8f5111840daef55e5fde0041f5702856532cdbb5a02998033d26"
  topic0 := none
  topic1 := none
  topic2 := none
  topic3 := none
  transactionIndex := 0
  logIndex := 0
  eventName := "Deployed"
  createdAt := 1000

private theorem isHash_unprotectedLog (chainId : ℕ) : IsHash (unprotectedLog chainId).transactionHash := by
  have htext : "0xeddf9e61fb9d8f5111840daef55e5fde0041f5702856532cdbb5a02998033d26".toList =
      '0' :: 'x' :: "eddf9e61fb9d8f5111840daef55e5fde0041f5702856532cdbb5a02998033d26".toList := by decide
  have hall : ("eddf9e61fb9d8f5111840daef55e5fde0041f5702856532cdbb5a02998033d26".toList.all fun c =>
      decide (c ∈ "0123456789abcdef".toList)) = true := by decide
  refine ⟨_, htext, ?_⟩
  intro c hc
  exact of_decide_eq_true (List.all_eq_true.mp hall c hc)

/-- A transaction of two chains has one log in the table. -/
theorem not_identified : ¬ ∀ pair : Pair, pair.Distinct → pair.Hashed → pair.Identified := by
  intro hgeneral
  have hdistinct : (Pair.eventLogs sentWebhook (unprotectedLog 1) (unprotectedLog 10)).Distinct :=
    fun h => absurd (Prod.mk.inj h).1 (by decide)
  have hidentified := hgeneral _ hdistinct ⟨isHash_unprotectedLog 1, isHash_unprotectedLog 10⟩
  exact hidentified.1 rfl

end Engine.Events
