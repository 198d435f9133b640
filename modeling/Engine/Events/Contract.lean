import Engine.Events.Workers

/-! What the workers of contract subscriptions do after they inserted rows. -/
namespace Engine.Events
open Concurrent Program
open Indexer (EnqueueData EventLogFilter TransactionReceiptFilter QueuedJob)

/-- The rows that a call inserted. -/
def insertedBy : (o : Op) → Except Err o.Reply → List Item
  | .createContractEventLogs _, .ok rows => rows.map .eventLog
  | .createContractTransactionReceipts _, .ok rows => rows.map .transactionReceipt
  | _, _ => []

/-- What a successful `q.add` was for. -/
def addedBy : (o : Op) → Except Err o.Reply → Option EnqueueContractSubscriptionWebhookData
  | .sendWebhookQueueAdd job, .ok _ => some job.data
  | _, _ => none

def subscriptionsIn : (o : Op) → Except Err o.Reply → Option (List (Indexer.ContractSubscription × Option Webhooks))
  | .findSubscriptionsWithWebhook _, .ok contractSubscriptions => some contractSubscriptions
  | _, _ => none

/-- What is to be added for an inserted row. -/
def deliveriesOf (webhooks : List Webhooks) (item : Item) : List EnqueueContractSubscriptionWebhookData :=
  (webhooks.map fun webhook => ⟨.contractSubscription, webhook, item⟩).filter fun data => data.wanted

def deliveries (webhooksByContractAddress : String → List Webhooks) (inserted : List Item) :
    List EnqueueContractSubscriptionWebhookData :=
  inserted.flatMap fun item => deliveriesOf (webhooksByContractAddress item.contractAddress) item

/-- How far an attempt is. -/
inductive Phase
  /-- It inserted nothing yet. -/
  | reading (chainId : ℕ)
  | inserted (chainId : ℕ) (items : List Item)
  | adding (left : List EnqueueContractSubscriptionWebhookData)
  | failed

def Phase.next : Phase → (o : Op) → Except Err o.Reply → Phase
  | .reading chainId, o, r => if insertedBy o r = [] then .reading chainId else .inserted chainId (insertedBy o r)
  | .inserted _ items, o, r => (subscriptionsIn o r).elim .failed fun contractSubscriptions =>
    .adding (deliveries (webhooksOf contractSubscriptions) items)
  | .adding [], _, _ => .adding []
  | .adding (_ :: left), o, r => if (addedBy o r).isSome then .adding left else .failed
  | .failed, _, _ => .failed

section
variable {o : Op} {r : Except Err o.Reply}

theorem Phase.next_reading (chainId : ℕ) : (reading chainId).next o r =
    if insertedBy o r = [] then reading chainId else inserted chainId (insertedBy o r) := rfl

theorem Phase.next_inserted (chainId : ℕ) (items : List Item) : (inserted chainId items).next o r =
    (subscriptionsIn o r).elim failed fun contractSubscriptions =>
      adding (deliveries (webhooksOf contractSubscriptions) items) := rfl

theorem Phase.next_adding (data : EnqueueContractSubscriptionWebhookData)
    (left : List EnqueueContractSubscriptionWebhookData) : (adding (data :: left)).next o r =
    if (addedBy o r).isSome then adding left else failed := rfl

end

/-- Inserted rows are of the chain of the job. -/
def Phase.allowed : Phase → Op → Prop
  | .reading chainId, .createContractEventLogs data => ∀ input ∈ data, input.chainId = chainId
  | .reading chainId, .createContractTransactionReceipts data => ∀ input ∈ data, input.chainId = chainId
  | .reading _, .sendWebhookQueueAdd _ => False
  | .reading _, _ => True
  | .inserted chainId _, o => o = .findSubscriptionsWithWebhook chainId
  | .adding (data :: _), o => o = .sendWebhookQueueAdd data.job
  | _, _ => False

/-- Nothing is left to do for inserted rows. -/
def Phase.over : Phase → Prop
  | .inserted _ _ => False
  | .adding (_ :: _) => False
  | _ => True

/-- The phase after a part of an attempt, by what the part returned. -/
def Phase.After {α : Type} (phase : α → Phase) : Phase → Except Err α → Prop
  | l, .ok a => l = phase a
  | l, .error _ => l = .failed

/-- A call that reads the chain. -/
def Op.reads : Op → Bool
  | .getChain _ | .resolveContractAbi _ _ | .prepareEvent _ | .getContractEvents _ _ _ _ _ | .ethGetBlockByNumber _ _
  | .ethGetTransactionReceipt _ _ | .decodeFunctionName _ _ => true
  | _ => false

/-- Rows are inserted as they were asked for. -/
def possible : (o : Op) → Except Err o.Reply → Prop
  | .createContractEventLogs data, .ok rows => ∀ row ∈ rows, row.toContractEventLogsCreateInput ∈ data
  | .createContractTransactionReceipts data, .ok rows =>
    ∀ row ∈ rows, row.toContractTransactionReceiptsCreateInput ∈ data
  | _, _ => True

abbrev announcing : Protocol Calls where
  Local := Phase
  next := Phase.next
  allowed := Phase.allowed
  possible := possible

/-- The program reads the chain, and what it returns satisfies `Q`. -/
abbrev ReadsFor {α : Type} (Q : α → Prop) (p : Prog α) : Prop := p.Makes (fun o : Op => o.reads = true) Q

section
variable {chainId : ℕ} {filters : List EventLogFilter} {functionFilters : List TransactionReceiptFilter} {o : Op}

theorem readsFor_await (h : o.reads = true) : ReadsFor (fun _ => True) (await o) := makes_perform h

theorem ignores_of_reads (h : o.reads = true) : announcing.Ignores (Phase.reading chainId) o := by
  cases o <;> first
    | exact ⟨trivial, fun r _ => by cases r <;> rfl⟩
    | exact absurd h Bool.false_ne_true

/-! ### Reading the chain -/

theorem readsFor_preparedEvents (f : EventLogFilter) : ReadsFor (fun _ => True) (preparedEvents chainId f) := by
  unfold preparedEvents
  split_ifs
  · refine (readsFor_await rfl).bind fun abi _ => ?_
    have hprepare : ∀ signature ∈ abi.filter (isListed f.events),
        ReadsFor (fun _ : PreparedEvent => True) (await (.prepareEvent signature)) :=
          fun signature _ => readsFor_await rfl
    exact (makes_collect hprepare).imp fun _ _ => trivial
  · trivial

theorem readsFor_getContractEvents (fromBlock toBlock : ℤ) (f : EventLogFilter) :
    ReadsFor (fun _ => True) (getContractEvents chainId fromBlock toBlock f) :=
  (readsFor_preparedEvents f).bind fun _ _ => readsFor_await rfl

theorem readsFor_contractOf (address : String) : ReadsFor (fun _ => True) (contractOf filters address) := by
  unfold contractOf
  split_ifs <;> trivial

theorem readsFor_readDecodedLog (log : EventLog) : ReadsFor (fun _ => True) (readDecodedLog chainId log) := by
  refine (readsFor_await rfl).bind fun abi _ => ?_
  cases formatDecodedLog (abi.map AbiItem.toAbiEntry) log.eventName log.args with
  | ok decodedLog => trivial
  | error e => trivial

theorem readsFor_formatLog (log : EventLog) :
    ReadsFor (fun input => input.chainId = chainId) (formatLog chainId filters log) :=
  (readsFor_contractOf log.address).bind fun _ _ => (readsFor_readDecodedLog log).bind fun _ _ => rfl

theorem readsFor_getLogs (data : EnqueueData EventLogFilter) :
    ReadsFor (fun logs => ∀ input ∈ logs, input.chainId = data.chainId) (getLogs data) := by
  unfold getLogs
  split_ifs
  · intro input hinput
    cases hinput
  · refine (readsFor_await rfl).bind fun _ _ => ?_
    refine Makes.bind (makes_collect fun f _ => readsFor_getContractEvents _ _ f) fun allLogs _ => ?_
    exact makes_collect fun log _ => readsFor_formatLog log

theorem readsFor_functionNameOf (functions : List String) (toAddress : String) (input : Hex) :
    ReadsFor (fun _ => True) (functionNameOf chainId functions toAddress input) := by
  unfold functionNameOf
  split_ifs
  · have hname : ReadsFor (fun _ => True) (getFunctionName chainId toAddress input) :=
      (readsFor_await rfl).bind fun abi _ => readsFor_await rfl
    exact hname.bind fun functionName _ => trivial
  · trivial

theorem readsFor_receiptOf (transaction : BlockTransaction) :
    ReadsFor (fun receipts => ∀ input ∈ receipts, input.chainId = chainId)
      (receiptOf chainId functionFilters transaction) := by
  unfold receiptOf
  split
  · intro input hinput
    cases hinput
  · split
    · intro input hinput
      cases hinput
    · refine (readsFor_functionNameOf _ _ _).bind fun functionName _ => ?_
      split_ifs
      · refine (readsFor_await rfl).bind fun receipt _ => ?_
        intro input hinput
        rw [List.mem_singleton.mp hinput]
      · intro input hinput
        cases hinput

private theorem forall_mem_flatten {α : Type} {Q : α → Prop} {xss : List (List α)} (h : ∀ xs ∈ xss, ∀ x ∈ xs, Q x) :
    ∀ x ∈ xss.flatten, Q x := by
  intro x hx
  obtain ⟨xs, hxs, hx⟩ := List.mem_flatten.mp hx
  exact h xs hxs x hx

theorem readsFor_getFormattedTransactionReceipts (data : EnqueueData TransactionReceiptFilter) :
    ReadsFor (fun receipts => ∀ input ∈ receipts, input.chainId = data.chainId)
      (getFormattedTransactionReceipts data) := by
  have hblock : ∀ blockNumber : ℤ, ReadsFor (fun receipts => ∀ input ∈ receipts, input.chainId = data.chainId)
      (getFormattedTransactionReceiptsFromBlock data.chainId data.filters blockNumber) := by
    intro blockNumber
    refine (readsFor_await rfl).bind fun transactions _ => ?_
    refine Makes.bind (makes_collect fun transaction _ => readsFor_receiptOf transaction) fun receipts hreceipts => ?_
    exact forall_mem_flatten hreceipts
  unfold getFormattedTransactionReceipts
  split_ifs
  · intro input hinput
    cases hinput
  · refine (readsFor_await rfl).bind fun _ _ => ?_
    refine Makes.bind (makes_collect fun blockNumber _ => hblock blockNumber) fun allReceipts hreceipts => ?_
    exact forall_mem_flatten hreceipts

end

/-! ### Announcing -/

section
variable {chainId : ℕ} {items : List Item} {left : List EnqueueContractSubscriptionWebhookData}

/-- The inner loop adds what is to be added for one row. -/
theorem follows_enqueueItem (webhooks : List Webhooks) (item : Item) :
    (forEach (fun webhook => enqueueContractSubscriptionWebhook ⟨.contractSubscription, webhook, item⟩)
      webhooks).Follows announcing (Phase.After fun _ => .adding left)
        (Phase.adding (deliveriesOf webhooks item ++ left)) := by
  refine follows_forEach (S := fun webhooks l => l = Phase.adding (deliveriesOf webhooks item ++ left)) rfl ?_ ?_
  · intro webhook webhooks l hl
    subst hl
    unfold enqueueContractSubscriptionWebhook
    split_ifs with hwanted
    · have hfirst : deliveriesOf (webhook :: webhooks) item =
          ⟨.contractSubscription, webhook, item⟩ :: deliveriesOf webhooks item := by
        unfold deliveriesOf
        rw [List.map_cons, List.filter_cons_of_pos hwanted]
      rw [hfirst]
      refine follows_perform rfl fun r _ => ?_
      cases r <;> rfl
    · have hfirst : deliveriesOf (webhook :: webhooks) item = deliveriesOf webhooks item := by
        unfold deliveriesOf
        rw [List.map_cons, List.filter_cons_of_neg hwanted]
      rw [hfirst]
      rfl
  · intro l hl
    exact hl

theorem follows_enqueueWebhooks (webhooksByContractAddress : String → List Webhooks) :
    (enqueueWebhooks webhooksByContractAddress items).Follows announcing (fun l _ => l.over)
      (.adding (deliveries webhooksByContractAddress items)) := by
  refine follows_forEach (S := fun items l => l = Phase.adding (deliveries webhooksByContractAddress items)) rfl ?_ ?_
  · intro item items l hl
    subst hl
    refine (follows_enqueueItem _ item).mono fun l r hl => ?_
    cases r with
    | ok _ => exact hl
    | error e =>
      have hl : l = .failed := hl
      rw [hl]
      trivial
  · intro l hl
    rw [hl]
    trivial

theorem follows_getWebhooksByContractAddresses :
    (getWebhooksByContractAddresses chainId).Follows announcing
      (Phase.After fun webhooksByContractAddress => .adding (deliveries webhooksByContractAddress items))
      (.inserted chainId items) := by
  unfold getWebhooksByContractAddresses
  refine follows_await rfl (fun contractSubscriptions _ => ?_) fun e _ => rfl
  rfl

theorem follows_announce (chainId : ℕ) (items : List Item) :
    (announce chainId items).Follows announcing (fun l _ => l.over)
      (if items = [] then .reading chainId else .inserted chainId items) := by
  unfold announce
  by_cases hitems : items = []
  · rw [if_pos hitems, if_pos (by rw [hitems]; rfl)]
    trivial
  · rw [if_neg hitems, if_neg (by rwa [List.length_eq_zero_iff])]
    refine follows_getWebhooksByContractAddresses.bind ?_ ?_
    · intro l webhooksByContractAddress hl
      have hl : l = .adding (deliveries webhooksByContractAddress items) := hl
      rw [hl]
      exact follows_enqueueWebhooks webhooksByContractAddress
    · intro l e hl
      have hl : l = .failed := hl
      rw [hl]
      trivial

theorem follows_processEventLogs (job : QueuedJob EventLogFilter) :
    (processEventLogs job).Follows announcing (fun l _ => l.over) (.reading job.data.chainId) := by
  refine (readsFor_getLogs job.data).follows_bind (fun o ho => ignores_of_reads ho) (fun logs hlogs => ?_)
    fun e => trivial
  dsimp only
  split_ifs
  · trivial
  · refine follows_await hlogs (fun insertedLogs _ => ?_) fun e _ => trivial
    exact follows_announce job.data.chainId (insertedLogs.map .eventLog)

theorem follows_processTransactionReceipts (job : QueuedJob TransactionReceiptFilter) :
    (processTransactionReceipts job).Follows announcing (fun l _ => l.over) (.reading job.data.chainId) := by
  refine (readsFor_getFormattedTransactionReceipts job.data).follows_bind (fun o ho => ignores_of_reads ho)
    (fun receipts hreceipts => ?_) fun e => trivial
  dsimp only
  split_ifs
  · trivial
  · refine follows_await hreceipts (fun insertedReceipts _ => ?_) fun e _ => trivial
    exact follows_announce job.data.chainId (insertedReceipts.map .transactionReceipt)

end

/-- The chain of a job. -/
def Kind.chainId : Kind → ℕ
  | .processEventLogs job => job.data.chainId
  | .processTransactionReceipts job => job.data.chainId
  | _ => 0

theorem possible_of_effect {w w' : World} {o : Op} {a : Except Err o.Choice} {r : Except Err o.Reply}
    (h : w.effect o a = some (r, w')) : possible o r := by
  cases a with
  | error e =>
    obtain ⟨rfl, -⟩ := Prod.mk.inj (Option.some.inj h)
    cases o <;> trivial
  | ok c =>
    cases o with
    | createContractEventLogs data =>
      obtain ⟨rfl, -⟩ := Prod.mk.inj (Option.some.inj h)
      intro row hrow
      obtain ⟨input, hinput, rfl⟩ := List.mem_map.mp (Keyset.mem_of_mem_newRows hrow)
      exact hinput
    | createContractTransactionReceipts data =>
      obtain ⟨rfl, -⟩ := Prod.mk.inj (Option.some.inj h)
      intro row hrow
      obtain ⟨input, hinput, rfl⟩ := List.mem_map.mp (Keyset.mem_of_mem_newRows hrow)
      exact hinput
    | _ => trivial

def announcement : Contract workers where
  toProtocol := announcing
  init k := .reading k.chainId
  ends l _ := l.over
  answers _ _ _ _ _ h := possible_of_effect h
  starts w k p w' h := by
    cases k with
    | processEventLogs job =>
      obtain ⟨rfl, -⟩ := Prod.mk.inj (Option.some.inj h)
      exact follows_processEventLogs job
    | processTransactionReceipts job =>
      obtain ⟨rfl, -⟩ := Prod.mk.inj (Option.some.inj h)
      exact follows_processTransactionReceipts job
    | _ =>
      obtain ⟨rfl, -⟩ := Prod.mk.inj (Option.some.inj h)
      exact follows_perform trivial fun r _ => trivial

end Engine.Events
