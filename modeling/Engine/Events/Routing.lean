import Engine.Events.Chain
import Engine.Events.Contract
import Engine.Indexer.Tasks

/-! Which webhooks of a chain's subscriptions an inserted row is sent to. -/
namespace Engine.Events
open Concurrent Program
open Indexer (QueuedJob EventLogFilter TransactionReceiptFilter)

/-- The active subscriptions of a chain, each with its webhook. -/
abbrev Subscriptions := List (Indexer.ContractSubscription × Option Webhooks)

/-- The name of the function that a transaction's calldata decodes to. -/
def calledName (x : Replies Calls) (receipt : ContractTransactionReceipts) : Option String :=
  ((getFunctionName receipt.chainId receipt.contractAddress receipt.data).outcome x).toOption

/-- The subscription asks for rows of the kind, and its own filter takes this one. -/
def asksFor (x : Replies Calls) (c : Indexer.ContractSubscription) : Item → Bool
  | .eventLog log => c.processEventLogs && (c.filterEvents.isEmpty || c.filterEvents.contains log.eventName)
  | .transactionReceipt receipt =>
    c.processTransactionReceipts && (c.filterFunctions.isEmpty || (calledName x receipt).any c.filterFunctions.contains)

/-- The webhook belongs to a subscription on the row's contract that asks for the row. -/
def Routed (x : Replies Calls) (subscriptions : Subscriptions) (webhook : Webhooks) (item : Item) : Prop :=
  ∃ s ∈ subscriptions, s.2 = some webhook ∧ s.1.contractAddress = item.contractAddress ∧ asksFor x s.1 item = true

/-- A webhook that is not revoked and of contract subscriptions. -/
def IsLive (webhook : Webhooks) : Prop := webhook.revokedAt = none ∧ webhook.eventType = .contractSubscription

/-- The handlers of the jobs that the indexer adds for a block range. -/
inductive Handler (chainId : ℕ) (subscriptions : Subscriptions) : Prog Unit → Prop
  | eventLogs {job : QueuedJob EventLogFilter} {fromBlock toBlock : ℤ}
      (h : job.data = ⟨chainId, Indexer.eventLogFilters (subscriptions.map Prod.fst), fromBlock, toBlock⟩) :
      Handler chainId subscriptions (processEventLogs job)
  | transactionReceipts {job : QueuedJob TransactionReceiptFilter} {fromBlock toBlock : ℤ}
      (h : job.data = ⟨chainId, Indexer.transactionReceiptFilters (subscriptions.map Prod.fst), fromBlock, toBlock⟩) :
      Handler chainId subscriptions (processTransactionReceipts job)

/-- A row that the handler inserted. -/
def Inserted (x : Replies Calls) (p : Prog Unit) (item : Item) : Prop := ∃ o ∈ p.calls x, item ∈ insertedBy o (x o)

/-- The handler enqueued the webhook for the row. -/
def Enqueues (x : Replies Calls) (p : Prog Unit) (webhook : Webhooks) (item : Item) : Prop :=
  .sendWebhookQueueAdd (EnqueueContractSubscriptionWebhookData.job ⟨.contractSubscription, webhook, item⟩) ∈ p.calls x

section
variable {x : Replies Calls} {chainId : ℕ} {subscriptions : Subscriptions} {p : Prog Unit} {webhook : Webhooks}
  {item : Item} {items : List Item}

theorem wanted_iff_isLive :
    (EnqueueContractSubscriptionWebhookData.wanted ⟨.contractSubscription, webhook, item⟩) = true ↔
      IsLive webhook := by
  unfold EnqueueContractSubscriptionWebhookData.wanted IsLive
  rw [Bool.and_eq_true, Option.isNone_iff_eq_none, decide_eq_true_iff]
  exact and_congr_right fun _ => eq_comm

/-! ### Announcing -/

private theorem mem_calls_enqueueWebhook {data : EnqueueContractSubscriptionWebhookData} {o : Op} :
    o ∈ (enqueueContractSubscriptionWebhook data).calls x ↔ data.wanted = true ∧ o = .sendWebhookQueueAdd data.job := by
  unfold enqueueContractSubscriptionWebhook
  split_ifs with hwanted
  · rw [calls_perform]
    simp [hwanted]
  · simp [hwanted]

private theorem mem_calls_enqueueWebhooks {webhooks : String → List Webhooks} {o : Op}
    (h : (enqueueWebhooks webhooks items).outcome x = .ok ()) : o ∈ (enqueueWebhooks webhooks items).calls x ↔
      ∃ item ∈ items, ∃ webhook ∈ webhooks item.contractAddress,
        EnqueueContractSubscriptionWebhookData.wanted ⟨.contractSubscription, webhook, item⟩ = true ∧
        o = .sendWebhookQueueAdd
          (EnqueueContractSubscriptionWebhookData.job ⟨.contractSubscription, webhook, item⟩) := by
  unfold enqueueWebhooks at h ⊢
  rw [mem_calls_forEach h]
  refine exists_congr fun item => and_congr_right fun hitem => ?_
  have hinner := outcome_of_forEach h hitem
  rw [mem_calls_forEach hinner]
  refine exists_congr fun webhook => and_congr_right fun _ => ?_
  exact mem_calls_enqueueWebhook

private theorem mem_webhooksOf {address : String} : webhook ∈ webhooksOf subscriptions address ↔
    ∃ s ∈ subscriptions, s.2 = some webhook ∧ s.1.contractAddress = address := by
  unfold webhooksOf
  rw [List.mem_filterMap]
  constructor
  · intro h
    obtain ⟨s, hs, hwebhook⟩ := h
    obtain ⟨hmem, haddress⟩ := List.mem_filter.mp hs
    exact ⟨s, hmem, hwebhook, of_decide_eq_true haddress⟩
  · intro h
    obtain ⟨s, hmem, hwebhook, haddress⟩ := h
    exact ⟨s, List.mem_filter.mpr ⟨hmem, decide_eq_true haddress⟩, hwebhook⟩

theorem mem_calls_announce (hsubscriptions : x (.findSubscriptionsWithWebhook chainId) = .ok subscriptions)
    (h : (announce chainId items).outcome x = .ok ()) {o : Op} (hitems : items ≠ []) :
    o ∈ (announce chainId items).calls x ↔ o = .findSubscriptionsWithWebhook chainId ∨
      ∃ item ∈ items, ∃ webhook ∈ webhooksOf subscriptions item.contractAddress,
        EnqueueContractSubscriptionWebhookData.wanted ⟨.contractSubscription, webhook, item⟩ = true ∧
        o = .sendWebhookQueueAdd
          (EnqueueContractSubscriptionWebhookData.job ⟨.contractSubscription, webhook, item⟩) := by
  have hfind : (await (.findSubscriptionsWithWebhook chainId)).outcome x = .ok subscriptions :=
    (outcome_perform _).trans hsubscriptions
  have hread : (getWebhooksByContractAddresses chainId).outcome x = .ok (webhooksOf subscriptions) := by
    unfold getWebhooksByContractAddresses
    rw [bind_eq, outcome_bind_ok hfind]
    rfl
  have hcalls : (getWebhooksByContractAddresses chainId).calls x = [.findSubscriptionsWithWebhook chainId] := by
    unfold getWebhooksByContractAddresses
    rw [bind_eq, calls_bind_ok hfind, calls_perform]
    rfl
  have hsome : items.length ≠ 0 := fun hlength => hitems (List.length_eq_zero_iff.mp hlength)
  unfold announce at h ⊢
  rw [if_neg hsome, bind_eq] at h ⊢
  rw [outcome_bind_ok hread] at h
  rw [calls_bind_ok hread, hcalls, List.mem_append, List.mem_singleton, mem_calls_enqueueWebhooks h]

/-- Every live webhook of a subscription on the row's contract is enqueued, whatever the subscription
asks for. -/
theorem enqueues_announce (hsubscriptions : x (.findSubscriptionsWithWebhook chainId) = .ok subscriptions)
    (h : (announce chainId items).outcome x = .ok ()) (hitem : item ∈ items) :
    Enqueues x (announce chainId items) webhook item ↔ IsLive webhook ∧
      ∃ s ∈ subscriptions, s.2 = some webhook ∧ s.1.contractAddress = item.contractAddress := by
  unfold Enqueues
  rw [mem_calls_announce hsubscriptions h (List.ne_nil_of_mem hitem)]
  constructor
  · intro hadded
    obtain hadded | ⟨item', -, webhook', hwebhook', hwanted, hadded⟩ := hadded
    · cases hadded
    · have hdata := congrArg SendWebhookJob.data (Op.sendWebhookQueueAdd.inj hadded)
      cases hdata
      exact ⟨wanted_iff_isLive.mp hwanted, mem_webhooksOf.mp hwebhook'⟩
  · intro hlive
    obtain ⟨hlive, hsubscribed⟩ := hlive
    exact Or.inr ⟨item, hitem, webhook, mem_webhooksOf.mpr hsubscribed, wanted_iff_isLive.mpr hlive, rfl⟩

/-! ### The handlers -/

theorem insertedBy_of_reads {o : Op} {r : Except Err o.Reply} (h : o.reads = true) : insertedBy o r = [] := by
  cases o <;> first
    | rfl
    | exact absurd h Bool.false_ne_true

private theorem insertedBy_of_announce (hsubscriptions : x (.findSubscriptionsWithWebhook chainId) = .ok subscriptions)
    (h : (announce chainId items).outcome x = .ok ()) {o : Op} (ho : o ∈ (announce chainId items).calls x) :
    insertedBy o (x o) = [] := by
  by_cases hitems : items = []
  · rw [hitems] at ho
    cases ho
  · obtain rfl | ⟨_, _, _, _, _, rfl⟩ := (mem_calls_announce hsubscriptions h hitems).mp ho
    · rfl
    · rfl

/-- A handler reads rows, inserts them if there are any, and announces what it inserted. -/
def insertAndAnnounce {α : Type} (chainId : ℕ) (read : Prog (List α)) (insert : List α → Op)
    (items : (rows : List α) → (insert rows).Reply → List Item) : Prog Unit :=
  read.bind fun rows =>
    if rows.length = 0 then done ()
    else (await (insert rows)).bind fun reply => announce chainId (items rows reply)

private theorem announced_of_inserted {α : Type} {read : Prog (List α)} {insert : List α → Op}
    {inserted : (rows : List α) → (insert rows).Reply → List Item} {Q : List α → Prop} (hread : ReadsFor Q read)
    (hinserted : ∀ rows reply, insertedBy (insert rows) (.ok reply) = inserted rows reply)
    (hadds : ∀ rows job, insert rows ≠ .sendWebhookQueueAdd job)
    (hsubscriptions : x (.findSubscriptionsWithWebhook chainId) = .ok subscriptions)
    (h : (insertAndAnnounce chainId read insert inserted).outcome x = .ok ())
    (hitem : Inserted x (insertAndAnnounce chainId read insert inserted) item) :
    ∃ items, item ∈ items ∧ (announce chainId items).outcome x = .ok () ∧
      (Enqueues x (insertAndAnnounce chainId read insert inserted) webhook item ↔
        Enqueues x (announce chainId items) webhook item) := by
  have hreads : ∀ o ∈ read.calls x, o.reads = true := fun o ho => hread.of_mem_calls ho
  obtain ⟨o, ho, hin⟩ := hitem
  unfold Enqueues
  unfold insertAndAnnounce at h ho ⊢
  obtain ⟨rows, hrows, h⟩ := outcome_bind_eq_ok.mp h
  rw [calls_bind_ok hrows, List.mem_append] at ho
  split_ifs at h ho with hnone
  · obtain ho | ho := ho
    · rw [insertedBy_of_reads (hreads o ho)] at hin
      cases hin
    · cases ho
  · obtain ⟨reply, hreply, hannounced⟩ := outcome_bind_eq_ok.mp h
    have hanswer : x (insert rows) = .ok reply := (outcome_perform _).symm.trans hreply
    rw [calls_bind_ok hreply, calls_perform] at ho
    refine ⟨inserted rows reply, ?_, hannounced, ?_⟩
    · obtain ho | ho := ho
      · rw [insertedBy_of_reads (hreads o ho)] at hin
        cases hin
      · obtain ho | ho := List.mem_append.mp ho
        · obtain rfl := List.mem_singleton.mp ho
          rwa [hanswer, hinserted] at hin
        · rw [insertedBy_of_announce hsubscriptions hannounced ho] at hin
          cases hin
    · rw [calls_bind_ok hrows, if_neg hnone, calls_bind_ok hreply, calls_perform, List.mem_append, List.mem_append,
        List.mem_singleton]
      constructor
      · intro hadded
        obtain hadded | hadded | hadded := hadded
        · exact absurd (hreads _ hadded) Bool.false_ne_true
        · exact absurd hadded.symm (hadds rows _)
        · exact hadded
      · intro hadded
        exact Or.inr (Or.inr hadded)

/-- What a handler that returned enqueued for an inserted row. -/
theorem enqueues_iff (hp : Handler chainId subscriptions p)
    (hsubscriptions : x (.findSubscriptionsWithWebhook chainId) = .ok subscriptions) (h : p.outcome x = .ok ())
    (hitem : Inserted x p item) : Enqueues x p webhook item ↔ IsLive webhook ∧
      ∃ s ∈ subscriptions, s.2 = some webhook ∧ s.1.contractAddress = item.contractAddress := by
  cases hp with
  | @eventLogs job _ _ hdata =>
    have hchain : job.data.chainId = chainId := by rw [hdata]
    have hform : processEventLogs job = insertAndAnnounce chainId (getLogs job.data) .createContractEventLogs
        fun _ rows => rows.map .eventLog := by
      rw [← hchain]
      rfl
    rw [hform] at h hitem ⊢
    obtain ⟨items, hmem, hannounced, hsame⟩ := announced_of_inserted (readsFor_getLogs job.data) (fun _ _ => rfl)
      (fun _ _ hne => by cases hne) hsubscriptions h hitem
    exact hsame.trans (enqueues_announce hsubscriptions hannounced hmem)
  | @transactionReceipts job _ _ hdata =>
    have hchain : job.data.chainId = chainId := by rw [hdata]
    have hform : processTransactionReceipts job = insertAndAnnounce chainId
        (getFormattedTransactionReceipts job.data) .createContractTransactionReceipts
        fun _ rows => rows.map .transactionReceipt := by
      rw [← hchain]
      rfl
    rw [hform] at h hitem ⊢
    obtain ⟨items, hmem, hannounced, hsame⟩ := announced_of_inserted
      (readsFor_getFormattedTransactionReceipts job.data) (fun _ _ => rfl)
      (fun _ _ hne => by cases hne) hsubscriptions h hitem
    exact hsame.trans (enqueues_announce hsubscriptions hannounced hmem)

/-- An inserted row is routed by the subscriptions exactly when every live webhook of a subscription
on its contract belongs to one that asks for the row. -/
theorem routed_iff (hp : Handler chainId subscriptions p)
    (hsubscriptions : x (.findSubscriptionsWithWebhook chainId) = .ok subscriptions) (h : p.outcome x = .ok ())
    (hitem : Inserted x p item) :
    (∀ webhook, IsLive webhook → (Enqueues x p webhook item ↔ Routed x subscriptions webhook item)) ↔
      ∀ s ∈ subscriptions, s.1.contractAddress = item.contractAddress → ∀ webhook, s.2 = some webhook →
        IsLive webhook → Routed x subscriptions webhook item := by
  constructor
  · intro hrouted s hs haddress webhook hwebhook hlive
    exact (hrouted webhook hlive).mp ((enqueues_iff hp hsubscriptions h hitem).mpr ⟨hlive, s, hs, hwebhook, haddress⟩)
  · intro hasks webhook hlive
    rw [enqueues_iff hp hsubscriptions h hitem]
    constructor
    · intro hon
      obtain ⟨-, s, hs, hwebhook, haddress⟩ := hon
      exact hasks s hs haddress webhook hwebhook hlive
    · intro hrouted
      obtain ⟨s, hs, hwebhook, haddress, -⟩ := hrouted
      exact ⟨hlive, s, hs, hwebhook, haddress⟩

end

/-! ### Runs -/

def subscriptionTo (webhookId : ℕ) (filterEvents : List String) : Indexer.ContractSubscription where
  chainId := 1
  contractAddress := "0x05"
  webhookId := some webhookId
  processEventLogs := true
  filterEvents := filterEvents
  processTransactionReceipts := false
  filterFunctions := []
  id := toString webhookId
  deleted := false
  createdAtHead := 0

def liveWebhook (id : ℕ) : Webhooks := ⟨id, "https://example.com/" ++ toString id, .contractSubscription, none⟩

/-- Two subscriptions on contract 5, to different events. -/
def differentEvents : Subscriptions :=
  [(subscriptionTo 1 ["Transfer"], some (liveWebhook 1)), (subscriptionTo 2 ["Approval"], some (liveWebhook 2))]

def rangeJob : QueuedJob EventLogFilter :=
  ⟨⟨1, Indexer.eventLogFilters (differentEvents.map Prod.fst), 7, 7⟩, none, 0⟩

def transferOf5 : EventLog := ⟨"0x05", 7, "0x01", [], 0, 3, "Transfer", .undefined⟩

/-- Contract 5 emitted one transfer, which is not stored yet. -/
def oneTransfer : Replies Calls
  | .resolveContractAbi _ _ => .ok [⟨⟨.event, some "Transfer", some []⟩, ""⟩, ⟨⟨.event, some "Approval", some []⟩, ""⟩]
  | .prepareEvent signature => .ok ⟨signature, signature.name.getD ""⟩
  | .getContractEvents _ _ _ _ events =>
    .ok (if events.any fun event => event.hash = "Transfer" then [transferOf5] else [])
  | .createContractEventLogs data => .ok (data.map fun input => { input with createdAt := 1000 })
  | .findSubscriptionsWithWebhook _ => .ok differentEvents
  | .getChain _ | .sendWebhookQueueAdd _ => .ok ()
  | _ => .error (.new "Not called.")

def insertedTransfer : Item := .eventLog { transferOf5.row 1 (some []) with createdAt := 1000 }

theorem handler_rangeJob : Handler 1 differentEvents (processEventLogs rangeJob) := .eventLogs rfl

theorem inserted_rangeJob : Inserted oneTransfer (processEventLogs rangeJob) insertedTransfer :=
  ⟨.createContractEventLogs [transferOf5.row 1 (some [])], by decide +kernel, List.mem_singleton.mpr rfl⟩

theorem routed_iff_oneTransfer :
    (∀ webhook, IsLive webhook → (Enqueues oneTransfer (processEventLogs rangeJob) webhook insertedTransfer ↔
      Routed oneTransfer differentEvents webhook insertedTransfer)) ↔
      ∀ s ∈ differentEvents, s.1.contractAddress = insertedTransfer.contractAddress → ∀ webhook, s.2 = some webhook →
        IsLive webhook → Routed oneTransfer differentEvents webhook insertedTransfer :=
  routed_iff handler_rangeJob rfl (ok_of_toOption (by decide +kernel)) inserted_rangeJob

/-- The webhook of a subscription to approvals is sent a transfer. -/
theorem not_routed : ¬ ∀ (x : Replies Calls) (chainId : ℕ) (subscriptions : Subscriptions) (p : Prog Unit)
    (item : Item),
    Handler chainId subscriptions p → x (.findSubscriptionsWithWebhook chainId) = .ok subscriptions →
      p.outcome x = .ok () → Inserted x p item →
        ∀ webhook, IsLive webhook → (Enqueues x p webhook item ↔ Routed x subscriptions webhook item) := by
  intro h
  have hrouted := h oneTransfer 1 differentEvents (processEventLogs rangeJob) insertedTransfer handler_rangeJob rfl
    (ok_of_toOption (by decide +kernel)) inserted_rangeJob (liveWebhook 2) ⟨rfl, rfl⟩
  have hadded : Enqueues oneTransfer (processEventLogs rangeJob) (liveWebhook 2) insertedTransfer := by
    unfold Enqueues
    decide +kernel
  obtain ⟨s, hs, hwebhook, -, hasks⟩ := hrouted.mp hadded
  obtain rfl | hs := List.mem_cons.mp hs
  · exact absurd hwebhook (by decide +kernel)
  · obtain rfl := List.mem_singleton.mp hs
    exact absurd hasks (by decide +kernel)

end Engine.Events
