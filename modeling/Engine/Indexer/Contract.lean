import Engine.Concurrent.Locks
import Engine.Indexer.Tasks

/-! How far an indexer tick or an add request is, and what it may do then. -/
namespace Engine.Indexer
open Concurrent Program

inductive Stage
  | other
  /-- A tick that has not begun its transaction. -/
  | tick (chainId : ℕ)
  | began (chainId pgtx : ℕ)
  /-- The row is locked and was read. -/
  | locked (chainId pgtx : ℕ) (fromBlock : ℤ)
  | numbered (chainId pgtx : ℕ) (fromBlock blockNumber : ℤ)
  /-- The subscriptions were read; up to which block were jobs enqueued for them. -/
  | found (chainId pgtx : ℕ) (fromBlock blockNumber : ℤ) (subscriptions : List ContractSubscription)
      (events receipts : Option ℤ)
  /-- An add request. -/
  | asking
  | adding (chainId : ℕ)
  /-- An add request that found its chain without a subscription. -/
  | unsubscribed (chainId : ℕ)
deriving DecidableEq

/-- The calls that are allowed everywhere. -/
def Op.isPlain : Op → Bool
  | .selectForUpdateNowait _ _ | .getBlockNumber _ | .findSubscriptionsByChainId _ => false
  | .addEventsJob _ | .addReceiptsJob _ | .upsertChainIndexer _ _ _ => false
  | _ => true

namespace Stage

def nextTick (chainId : ℕ) : (o : Op) → Except Err o.Reply → Stage
  | .beginTransaction, .ok pgtx => .began chainId pgtx
  | _, _ => .tick chainId

def nextBegan (chainId pgtx : ℕ) : (o : Op) → Except Err o.Reply → Stage
  | .selectForUpdateNowait _ _, .ok (some fromBlock) => .locked chainId pgtx fromBlock
  | _, _ => .began chainId pgtx

def nextLocked (chainId pgtx : ℕ) (fromBlock : ℤ) : (o : Op) → Except Err o.Reply → Stage
  | .getBlockNumber _, .ok blockNumber => .numbered chainId pgtx fromBlock blockNumber
  | _, _ => .locked chainId pgtx fromBlock

def nextNumbered (chainId pgtx : ℕ) (fromBlock blockNumber : ℤ) : (o : Op) → Except Err o.Reply → Stage
  | .findSubscriptionsByChainId _, .ok subscriptions =>
    .found chainId pgtx fromBlock blockNumber subscriptions none none
  | _, _ => .numbered chainId pgtx fromBlock blockNumber

def nextFound (chainId pgtx : ℕ) (fromBlock blockNumber : ℤ) (subscriptions : List ContractSubscription)
    (events receipts : Option ℤ) : (o : Op) → Except Err o.Reply → Stage
  | .addEventsJob job, .ok _ =>
    .found chainId pgtx fromBlock blockNumber subscriptions (some job.data.toBlock) receipts
  | .addReceiptsJob job, .ok _ =>
    .found chainId pgtx fromBlock blockNumber subscriptions events (some job.data.toBlock)
  | _, _ => .found chainId pgtx fromBlock blockNumber subscriptions events receipts

def nextAsking : (o : Op) → Except Err o.Reply → Stage
  | .getChainIdFromChain _, .ok chainId => .adding chainId
  | _, _ => .asking

def nextAdding (chainId : ℕ) : (o : Op) → Except Err o.Reply → Stage
  | .findSubscribedChainIds, .ok subscribedChainIds =>
    if chainId ∈ subscribedChainIds then .other else .unsubscribed chainId
  | _, _ => .adding chainId

def nextUnsubscribed (chainId : ℕ) : (o : Op) → Except Err o.Reply → Stage
  | .upsertChainIndexer _ _ _, _ | _, .error _ => .other
  | _, .ok _ => .unsubscribed chainId

def next (l : Stage) (o : Op) (r : Except Err o.Reply) : Stage :=
  match l with
  | .other => .other
  | .tick c => nextTick c o r
  | .began c pgtx => nextBegan c pgtx o r
  | .locked c pgtx b => nextLocked c pgtx b o r
  | .numbered c pgtx b n => nextNumbered c pgtx b n o r
  | .found c pgtx b n subscriptions events receipts => nextFound c pgtx b n subscriptions events receipts o r
  | .asking => nextAsking o r
  | .adding c => nextAdding c o r
  | .unsubscribed c => nextUnsubscribed c o r

/-- A tick asks for its own chain, enqueues jobs from the cursor on for the subscriptions that it
read, and moves the cursor where its jobs end; an add request sets the cursor of a chain that it
found without a subscription. -/
inductive Allowed : Stage → Op → Prop
  | plain (l : Stage) (o : Op) (h : o.isPlain = true) : Allowed l o
  | select (c pgtx : ℕ) : Allowed (.began c pgtx) (.selectForUpdateNowait pgtx c)
  | number (c pgtx : ℕ) (b : ℤ) : Allowed (.locked c pgtx b) (.getBlockNumber c)
  | find (c pgtx : ℕ) (b n : ℤ) : Allowed (.numbered c pgtx b n) (.findSubscriptionsByChainId c)
  | events (c pgtx : ℕ) (b n : ℤ) (subs : List ContractSubscription) (x y : Option ℤ)
      (job : QueuedJob EventLogFilter) (h : job.data = ⟨c, eventLogFilters subs, b, job.data.toBlock⟩) :
      Allowed (.found c pgtx b n subs x y) (.addEventsJob job)
  | receipts (c pgtx : ℕ) (b n : ℤ) (subs : List ContractSubscription) (x y : Option ℤ)
      (job : QueuedJob TransactionReceiptFilter)
      (h : job.data = ⟨c, transactionReceiptFilters subs, b, job.data.toBlock⟩) :
      Allowed (.found c pgtx b n subs x y) (.addReceiptsJob job)
  | write (c pgtx : ℕ) (b n v : ℤ) (subs : List ContractSubscription) (x y : Option ℤ) (hb : b < v) (hn : v ≤ n)
      (hx : eventLogFilters subs ≠ [] → x = some v) (hy : transactionReceiptFilters subs ≠ [] → y = some v) :
      Allowed (.found c pgtx b n subs x y) (.upsertChainIndexer (some pgtx) c v)
  | ask (c : ℕ) : Allowed (.unsubscribed c) (.getBlockNumber c)
  | reset (c : ℕ) (v : ℤ) : Allowed (.unsubscribed c) (.upsertChainIndexer none c v)

def protocol : Protocol Calls where
  Local := Stage
  next := next
  allowed := Allowed
  possible _ _ := True

variable {l : Stage} {o : Op} {α : Type}

/-- Any call, at any stage, whose outcome does not matter. -/
theorem follows_plain (ho : o.isPlain = true) : (await o).Follows protocol (fun _ _ => True) l :=
  follows_perform (P := protocol) (.plain _ _ ho) fun _ _ => trivial

theorem follows_transaction {body : ℕ → Prog Unit} {c : ℕ}
    (h : ∀ pgtx, (body pgtx).Follows protocol (fun _ _ => True) (.began c pgtx)) :
    (transaction body).Follows protocol (fun _ _ => True) (.tick c) := by
  refine follows_await (P := protocol) (.plain _ _ rfl) (fun pgtx _ => ?_) (fun e _ => trivial)
  have hresult : (Program.attempt (body pgtx)).Follows protocol (fun _ _ => True) (.began c pgtx) :=
    (h pgtx).attempt fun _ _ _ => trivial
  refine hresult.bind (fun l x _ => ?_) (fun _ _ _ => trivial)
  cases x with
  | ok u => exact follows_plain rfl
  | error e =>
    have hrollback : (tryCatch (await (.rollback pgtx)) fun _ => pure () : Prog Unit).Follows protocol
        (fun _ _ => True) l := Follows.handle (follows_plain rfl) (fun _ _ _ => trivial) (fun _ _ _ => trivial)
    exact hrollback.bind (fun l u _ => trivial) (fun _ _ _ => trivial)

variable {c pgtx : ℕ} {b n v : ℤ} {subs : List ContractSubscription} {x y : Option ℤ}

/-- A queue's jobs are enqueued, all with the same data. -/
theorem follows_addProcessEventsLog : (addProcessEventsLog ⟨c, eventLogFilters subs, b, v⟩).Follows protocol
    (fun l r => r = .ok () → l = .found c pgtx b n subs (some v) y) (.found c pgtx b n subs x y) := by
  refine follows_await (P := protocol) (.plain _ _ rfl) (fun delays _ => ?_) (fun e _ he => by cases he)
  refine follows_await (P := protocol) (.events _ _ _ _ _ _ _ _ rfl) (fun _ _ => ?_) (fun e _ he => by cases he)
  refine follows_forEach (S := fun _ (l : Stage) => l = .found c pgtx b n subs (some v) y) rfl (fun d ds l hl => ?_)
    (fun l hl _ => hl)
  subst hl
  refine follows_perform (P := protocol) (.events _ _ _ _ _ _ _ _ rfl) fun r _ => ?_
  cases r with
  | ok u => exact rfl
  | error e => exact fun he => by cases he

theorem follows_addProcessTransactionReceipts :
    (addProcessTransactionReceipts ⟨c, transactionReceiptFilters subs, b, v⟩).Follows protocol
      (fun l r => r = .ok () → l = .found c pgtx b n subs x (some v)) (.found c pgtx b n subs x y) := by
  refine follows_await (P := protocol) (.plain _ _ rfl) (fun delays _ => ?_) (fun e _ he => by cases he)
  refine follows_await (P := protocol) (.receipts _ _ _ _ _ _ _ _ rfl) (fun _ _ => ?_) (fun e _ he => by cases he)
  refine follows_forEach (S := fun _ (l : Stage) => l = .found c pgtx b n subs x (some v)) rfl (fun d ds l hl => ?_)
    (fun l hl _ => hl)
  subst hl
  refine follows_perform (P := protocol) (.receipts _ _ _ _ _ _ _ _ rfl) fun r _ => ?_
  cases r with
  | ok u => exact rfl
  | error e => exact fun he => by cases he

theorem follows_enqueueEventLogs : (enqueueEventLogs c subs b v).Follows protocol
    (fun l r => r = .ok () → ∃ x, l = .found c pgtx b n subs x none ∧ (eventLogFilters subs ≠ [] → x = some v))
    (.found c pgtx b n subs none none) := by
  unfold enqueueEventLogs
  split
  · exact follows_addProcessEventsLog.mono fun l r hl hr => ⟨some v, hl hr, fun _ => rfl⟩
  · rename_i hnone
    exact fun _ => ⟨none, rfl, fun hne => absurd hne hnone⟩

theorem follows_enqueueTransactionReceipts : (enqueueTransactionReceipts c subs b v).Follows protocol
    (fun l r => r = .ok () → ∃ y, l = .found c pgtx b n subs x y ∧
      (transactionReceiptFilters subs ≠ [] → y = some v)) (.found c pgtx b n subs x none) := by
  unfold enqueueTransactionReceipts
  split
  · exact follows_addProcessTransactionReceipts.mono fun l r hl hr => ⟨some v, hl hr, fun _ => rfl⟩
  · rename_i hnone
    exact fun _ => ⟨none, rfl, fun hne => absurd hne hnone⟩

theorem follows_indexBlocks (hb : b < v) (hn : v ≤ n) :
    (indexBlocks c pgtx b v).Follows protocol (fun _ _ => True) (.numbered c pgtx b n) := by
  refine follows_await (P := protocol) (.find c pgtx b n) (fun subs _ => ?_) (fun e _ => trivial)
  refine follows_enqueueEventLogs.bind (fun l u hl => ?_) (fun _ _ _ => trivial)
  obtain ⟨x, rfl, hx⟩ := hl rfl
  refine follows_enqueueTransactionReceipts.bind (fun l u hl => ?_) (fun _ _ _ => trivial)
  obtain ⟨y, rfl, hy⟩ := hl rfl
  have hwrite : (upsertChainIndexer (some pgtx) c v).Follows protocol (fun _ _ => True) (.found c pgtx b n subs x y) :=
    follows_perform (P := protocol) (.write c pgtx b n v subs x y hb hn hx hy) fun _ _ => trivial
  exact hwrite.handle (fun _ _ _ => trivial) (fun _ _ _ => trivial)

theorem follows_indexFrom (maxBlocksToIndex toBlockOffset : ℕ) :
    (indexFrom c maxBlocksToIndex toBlockOffset pgtx b).Follows protocol (fun _ _ => True) (.locked c pgtx b) := by
  refine follows_await (P := protocol) (.plain _ _ rfl) (fun _ _ => ?_) (fun e _ => trivial)
  refine follows_await (P := protocol) (.number c pgtx b) (fun n _ => ?_) (fun e _ => trivial)
  dsimp only
  split
  · trivial
  · rename_i hlt
    refine follows_await (P := protocol) (.plain _ _ rfl) (fun block _ => ?_) (fun e _ => trivial)
    cases block with
    | false => trivial
    | true => exact follows_indexBlocks (by omega) (by omega)

theorem follows_getBlockForIndexing : (getBlockForIndexing c pgtx).Follows protocol
    (fun l r => ∀ b, r = .ok b → l = .locked c pgtx b) (.began c pgtx) := by
  refine follows_await (P := protocol) (.select c pgtx) (fun row _ => ?_) (fun e _ b hb => by cases hb)
  cases row with
  | none => exact fun b hb => by cases hb
  | some b => exact fun b' hb => by cases hb; rfl

theorem follows_chainIndexerTask (c maxBlocksToIndex toBlockOffset : ℕ) :
    (Indexer.chainIndexerTask c maxBlocksToIndex toBlockOffset).Follows protocol (fun _ _ => True) (.tick c) := by
  refine Follows.handle (Q := fun _ _ => True) (follows_transaction fun pgtx => ?_) (fun _ _ _ => trivial)
    (fun _ _ _ => trivial)
  have hrow : (Program.attempt (getBlockForIndexing c pgtx)).Follows protocol
      (fun (l : Stage) r => ∀ b, r = .ok (.ok b) → l = .locked c pgtx b) (.began c pgtx) :=
    follows_getBlockForIndexing.attempt fun l r hl b hb => hl b (by simpa using hb)
  refine hrow.bind (fun l row hl => ?_) (fun _ _ _ => trivial)
  cases row with
  | error e => trivial
  | ok b =>
    obtain rfl := hl b rfl
    exact follows_indexFrom _ _

/-! ### Requests -/

theorem follows_insertWebhookFor (webhookUrl : Option String) :
    (insertWebhookFor webhookUrl).Follows protocol (fun _ _ => True) l := by
  unfold insertWebhookFor
  split
  · trivial
  · refine Follows.bind (Q := fun _ _ => True) ?_ (fun l valid _ => ?_) (fun _ _ _ => trivial)
    · exact follows_await (P := protocol) (.plain _ _ rfl) (fun _ _ => trivial) (fun _ _ => trivial)
    · split
      · exact follows_await (P := protocol) (.plain _ _ rfl) (fun _ _ => trivial) (fun _ _ => trivial)
      · trivial

theorem follows_startIndexing : (startIndexing c).Follows protocol (fun _ _ => True) (.adding c) := by
  refine follows_await (P := protocol) (.plain _ _ rfl) (fun chains _ => ?_) (fun _ _ => trivial)
  dsimp only
  split
  · trivial
  · rename_i hnot
    have hn : protocol.next (.adding c) .findSubscribedChainIds (.ok chains) = .unsubscribed c := if_neg hnot
    rw [hn]
    refine Follows.handle (Q := fun _ _ => True) ?_ (fun _ _ _ => trivial) (fun _ _ _ => trivial)
    refine follows_await (P := protocol) (.plain _ _ rfl) (fun _ _ => ?_) (fun _ _ => trivial)
    refine follows_await (P := protocol) (.ask c) (fun v _ => ?_) (fun _ _ => trivial)
    exact follows_perform (P := protocol) (.reset c v) fun _ _ => trivial

theorem follows_addContractSubscription (body : AddBody) :
    (Indexer.addContractSubscription body).Follows protocol (fun _ _ => True) .asking := by
  refine follows_await (P := protocol) (.plain _ _ rfl) (fun c _ => ?_) (fun _ _ => trivial)
  dsimp only
  split
  · trivial
  · refine follows_await (P := protocol) (.plain _ _ rfl) (fun _ _ => ?_) (fun _ _ => trivial)
    refine follows_await (P := protocol) (.plain _ _ rfl) (fun valid _ => ?_) (fun _ _ => trivial)
    split
    · trivial
    · refine Follows.bind follows_startIndexing (fun l u _ => ?_) (fun _ _ _ => trivial)
      refine Follows.bind (follows_insertWebhookFor _) (fun l webhookId _ => ?_) (fun _ _ _ => trivial)
      exact follows_await (P := protocol) (.plain _ _ rfl) (fun _ _ => trivial) (fun _ _ => trivial)

theorem follows_removeContractSubscription (id : String) :
    (Indexer.removeContractSubscription id).Follows protocol (fun _ _ => True) l := by
  refine follows_await (P := protocol) (.plain _ _ rfl) (fun s _ => ?_) (fun _ _ => trivial)
  split
  · exact follows_plain rfl
  · trivial

end Stage

def Kind.stage : Kind → Stage
  | .chainIndexerTask c _ _ => .tick c
  | .addContractSubscription _ => .asking
  | _ => .other

def indexContract : Contract indexer where
  toProtocol := Stage.protocol
  init := Kind.stage
  ends _ _ := True
  answers _ _ _ _ _ _ := trivial
  starts w k p w' h := by
    cases k with
    | chainIndexerTask c m o =>
      cases Option.some.inj h
      exact Stage.follows_chainIndexerTask c m o
    | addContractSubscription body =>
      cases Option.some.inj h
      exact Stage.follows_addContractSubscription body
    | removeContractSubscription id =>
      cases Option.some.inj h
      exact Stage.follows_removeContractSubscription id
    | expire pgtx =>
      cases Option.some.inj h
      exact Stage.follows_plain rfl
    | advanceHead c n =>
      cases Option.some.inj h
      exact Stage.follows_plain rfl

end Engine.Indexer
