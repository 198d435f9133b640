import Mathlib.Data.List.Dedup
import Engine.Concurrent.Machine
import Engine.Model.Types
import Engine.Text.Strings

/-! What the indexer of contract subscriptions shares: the cursors in Postgres with their row locks,
the subscriptions, the heads of the chains and the two queues. -/
namespace Engine.Indexer
open Concurrent Function

/-- The columns of a new row of `contract_subscriptions`. -/
structure CreateContractSubscriptionParams where
  chainId : ℕ
  contractAddress : String
  webhookId : Option ℕ
  processEventLogs : Bool
  filterEvents : List String
  processTransactionReceipts : Bool
  filterFunctions : List String
deriving DecidableEq

structure ContractSubscription extends CreateContractSubscriptionParams where
  id : String
  /-- `deletedAt` is set. -/
  deleted : Bool
  /-- The chain's head when the row was created. It is not stored. -/
  createdAtHead : ℤ
deriving DecidableEq

structure EventLogFilter where
  address : String
  events : List String
deriving DecidableEq

structure TransactionReceiptFilter where
  address : String
  functions : List String
deriving DecidableEq

/-- `EnqueueProcessEventLogsData` and `EnqueueProcessTransactionReceiptsData`, for their filters. -/
structure EnqueueData (φ : Type) where
  chainId : ℕ
  filters : List φ
  fromBlock : ℤ
  toBlock : ℤ
deriving DecidableEq

structure QueuedJob (φ : Type) where
  data : EnqueueData φ
  /-- The text of the delay in seconds, for a job that queries again. -/
  requeryDelay : Option String
  attempts : ℕ
deriving DecidableEq

structure World where
  head : ℕ → ℤ
  /-- The committed column of `chain_indexers`. -/
  lastIndexedBlock : ℕ → Option ℤ
  /-- The transaction that has locked the row of a chain. -/
  locks : ℕ → Option ℕ
  /-- What it wrote to the row. -/
  writes : ℕ → Option ℤ
  /-- The transactions that are open. -/
  transactions : List ℕ
  nextTransaction : ℕ
  subscriptions : List ContractSubscription
  /-- All jobs ever added. -/
  eventJobs : List (QueuedJob EventLogFilter)
  receiptJobs : List (QueuedJob TransactionReceiptFilter)

/-- The awaited calls. -/
inductive Op
  -- Postgres: transactions and cursors
  | beginTransaction
  | commit (pgtx : ℕ)
  | rollback (pgtx : ℕ)
  | selectForUpdateNowait (pgtx : ℕ) (chainId : ℕ)
  | upsertChainIndexer (pgtx : Option ℕ) (chainId : ℕ) (currentBlockNumber : ℤ)
  -- Postgres: subscriptions and webhooks
  | findSubscriptionsByChainId (chainId : ℕ)
  | findSubscribedChainIds
  | createContractSubscription (params : CreateContractSubscriptionParams)
  | deleteContractSubscription (id : String)
  | insertWebhook (url : String)
  | deleteWebhook (id : ℕ)
  -- chains and configuration
  | getChainIdFromChain (chain : String)
  | getChain (chainId : ℕ)
  | isContractDeployed (chainId : ℕ) (address : String)
  | getSdk (chainId : ℕ)
  | getBlockNumber (chainId : ℕ)
  | getBlockWithTransactions (chainId : ℕ) (block : ℤ)
  | getConfig
  /-- `new URL(urlString).protocol`, if it does not throw. -/
  | urlProtocol (url : String)
  -- BullMQ
  | addEventsJob (job : QueuedJob EventLogFilter)
  | addReceiptsJob (job : QueuedJob TransactionReceiptFilter)
  -- not calls of the service
  /-- A transaction is given up: it timed out, or its connection was lost. -/
  | expire (pgtx : ℕ)
  | advanceHead (chainId : ℕ) (head : ℤ)
deriving DecidableEq

@[reducible] def Op.Reply : Op → Type
  | .beginTransaction => ℕ
  | .selectForUpdateNowait _ _ => Option ℤ
  | .findSubscriptionsByChainId _ => List ContractSubscription
  | .findSubscribedChainIds => List ℕ
  | .createContractSubscription _ => ContractSubscription
  | .deleteContractSubscription _ => ContractSubscription
  | .insertWebhook _ => ℕ
  | .getChainIdFromChain _ => ℕ
  | .isContractDeployed _ _ => Bool
  | .getBlockNumber _ => ℤ
  | .getBlockWithTransactions _ _ => Bool
  | .getConfig => List String
  | .urlProtocol _ => Option String
  | _ => Unit

/-- What is decided outside when the call succeeds. -/
@[reducible] def Op.Choice : Op → Type
  -- whether the writes were committed: the reply can get lost, and the commit can fail
  | .commit _ => Bool
  | .createContractSubscription _ => String
  | .insertWebhook _ => ℕ
  | .getChainIdFromChain _ => ℕ
  | .isContractDeployed _ _ => Bool
  | .getBlockNumber _ => ℤ
  | .getBlockWithTransactions _ _ => Bool
  | .getConfig => List String
  | .urlProtocol _ => Option String
  | _ => Unit

abbrev Calls : Interface := ⟨Op, Op.Reply, Op.Choice, Err⟩

abbrev Prog (α : Type) := Program Calls α

abbrev await (o : Op) : Prog o.Reply := Program.perform (I := Calls) o

namespace World

/-- A transaction ends: its locks are released, its writes are kept or dropped. -/
def ended (w : World) (pgtx : ℕ) (committed : Bool) : World :=
  { w with
    lastIndexedBlock := fun c =>
      if w.locks c = some pgtx ∧ committed then (w.writes c).or (w.lastIndexedBlock c) else w.lastIndexedBlock c
    locks := fun c => if w.locks c = some pgtx then none else w.locks c
    writes := fun c => if w.locks c = some pgtx then none else w.writes c
    transactions := w.transactions.filter (· ≠ pgtx) }

/-- The active subscriptions of a chain. -/
def subscribed (w : World) (chainId : ℕ) : List ContractSubscription :=
  w.subscriptions.filter fun s => s.chainId = chainId ∧ s.deleted = false

/-- A successful call with what the outside decided about it. -/
def apply (w : World) : (o : Op) → o.Choice → Option (o.Reply × World)
  | .beginTransaction, _ => some (w.nextTransaction,
      { w with transactions := w.nextTransaction :: w.transactions, nextTransaction := w.nextTransaction + 1 })
  | .commit pgtx, committed => if pgtx ∈ w.transactions then some ((), w.ended pgtx committed) else none
  | .rollback pgtx, _ => if pgtx ∈ w.transactions then some ((), w.ended pgtx false) else none
  -- `NOWAIT`: a row that is locked throws. No transaction asks twice.
  | .selectForUpdateNowait pgtx c, _ =>
    if pgtx ∈ w.transactions ∧ w.locks c = none then
      match w.lastIndexedBlock c with
      | none => some (none, w)
      | some b => some (some b, { w with locks := update w.locks c (some pgtx) })
    else none
  -- an upsert waits while another transaction has locked the row
  | .upsertChainIndexer (some pgtx) c b, _ =>
    if pgtx ∈ w.transactions ∧ (w.locks c = none ∨ w.locks c = some pgtx) then
      some ((), { w with locks := update w.locks c (some pgtx), writes := update w.writes c (some b) })
    else none
  | .upsertChainIndexer none c b, _ =>
    if w.locks c = none then some ((), { w with lastIndexedBlock := update w.lastIndexedBlock c (some b) }) else none
  | .findSubscriptionsByChainId c, _ => some (w.subscribed c, w)
  | .findSubscribedChainIds, _ =>
    some (((w.subscriptions.filter fun s => s.deleted = false).map fun s => s.chainId).dedup, w)
  | .createContractSubscription params, id =>
    if ∀ s ∈ w.subscriptions, s.id ≠ id then
      some (⟨params, id, false, w.head params.chainId⟩,
        { w with subscriptions := ⟨params, id, false, w.head params.chainId⟩ :: w.subscriptions })
    else none
  | .deleteContractSubscription id, _ =>
    match w.subscriptions.find? fun s => s.id = id with
    | none => none
    | some s => some ({ s with deleted := true },
        { w with subscriptions := w.subscriptions.map fun s => if s.id = id then { s with deleted := true } else s })
  | .insertWebhook _, id => some (id, w)
  | .deleteWebhook _, _ => some ((), w)
  | .getChainIdFromChain _, c => some (c, w)
  | .getChain _, _ => some ((), w)
  | .isContractDeployed _ _, b => some (b, w)
  | .getSdk _, _ => some ((), w)
  -- a node can lag behind
  | .getBlockNumber c, n => if n ≤ w.head c then some (n, w) else none
  | .getBlockWithTransactions _ _, b => some (b, w)
  | .getConfig, delays => some (delays, w)
  | .urlProtocol _, protocol => some (protocol, w)
  | .addEventsJob job, _ => some ((), { w with eventJobs := job :: w.eventJobs })
  | .addReceiptsJob job, _ => some ((), { w with receiptJobs := job :: w.receiptJobs })
  | .expire pgtx, _ => if pgtx ∈ w.transactions then some ((), w.ended pgtx false) else none
  | .advanceHead c n, _ => if w.head c ≤ n then some ((), { w with head := update w.head c n }) else none

/-- A call as its caller sees it: it may throw, and then it did nothing. -/
def effect (w : World) (o : Op) : Except Err o.Choice → Option (Except Err o.Reply × World)
  | .error e => some (.error e, w)
  | .ok c => (w.apply o c).map fun r => (.ok r.1, r.2)

theorem effect_cases {w w' : World} {o : Op} {a : Except Err o.Choice} {r : Except Err o.Reply}
    (h : w.effect o a = some (r, w')) :
    (∃ e, r = .error e ∧ w' = w) ∨ ∃ c x, a = .ok c ∧ r = .ok x ∧ w.apply o c = some (x, w') := by
  cases a with
  | error e =>
    cases Option.some.inj h
    exact Or.inl ⟨e, rfl, rfl⟩
  | ok c =>
    obtain ⟨⟨x, w''⟩, hx, he⟩ := Option.map_eq_some_iff.mp h
    cases he
    exact Or.inr ⟨c, x, rfl, rfl, hx⟩

end World

/-- A call that ends a transaction. -/
def Op.endsTransaction : Op → Bool
  | .commit _ | .rollback _ | .expire _ => true
  | _ => false

/-- What a call that succeeds can do to the world. -/
inductive World.Changed (w : World) : Op → World → Prop
  | began : w.Changed .beginTransaction
      { w with transactions := w.nextTransaction :: w.transactions, nextTransaction := w.nextTransaction + 1 }
  | ended (o : Op) (pgtx : ℕ) (committed : Bool) (ho : o.endsTransaction = true) : w.Changed o (w.ended pgtx committed)
  | locked (pgtx c : ℕ) (hfree : w.locks c = none) :
      w.Changed (.selectForUpdateNowait pgtx c) { w with locks := update w.locks c (some pgtx) }
  | wrote (pgtx c : ℕ) (v : ℤ) (hopen : pgtx ∈ w.transactions) (hlock : w.locks c = none ∨ w.locks c = some pgtx) :
      w.Changed (.upsertChainIndexer (some pgtx) c v)
        { w with locks := update w.locks c (some pgtx), writes := update w.writes c (some v) }
  | reset (c : ℕ) (v : ℤ) (hfree : w.locks c = none) :
      w.Changed (.upsertChainIndexer none c v) { w with lastIndexedBlock := update w.lastIndexedBlock c (some v) }
  | subscribed (params : CreateContractSubscriptionParams) (id : String) :
    w.Changed (.createContractSubscription params)
      { w with subscriptions := ⟨params, id, false, w.head params.chainId⟩ :: w.subscriptions }
  | unsubscribed (id : String) : w.Changed (.deleteContractSubscription id)
      { w with subscriptions := w.subscriptions.map fun s => if s.id = id then { s with deleted := true } else s }
  | events (job : QueuedJob EventLogFilter) : w.Changed (.addEventsJob job) { w with eventJobs := job :: w.eventJobs }
  | receipts (job : QueuedJob TransactionReceiptFilter) :
      w.Changed (.addReceiptsJob job) { w with receiptJobs := job :: w.receiptJobs }
  | advanced (c : ℕ) (n : ℤ) (hn : w.head c ≤ n) : w.Changed (.advanceHead c n) { w with head := update w.head c n }
  | nothing (o : Op) : w.Changed o w

theorem World.changed_of_apply {w w' : World} {o : Op} {d : o.Choice} {x : o.Reply} (h : w.apply o d = some (x, w')) :
    w.Changed o w' := by
  cases o with
  | beginTransaction =>
    obtain ⟨-, rfl⟩ := Prod.mk.inj (Option.some.inj h)
    exact .began
  | commit t | rollback t | expire t =>
    simp only [apply] at h
    split_ifs at h with hopen
    obtain ⟨-, rfl⟩ := Prod.mk.inj (Option.some.inj h)
    exact .ended _ t _ rfl
  | selectForUpdateNowait t c =>
    simp only [apply] at h
    split_ifs at h with hfree
    split at h
    · obtain ⟨-, rfl⟩ := Prod.mk.inj (Option.some.inj h)
      exact .nothing _
    · obtain ⟨-, rfl⟩ := Prod.mk.inj (Option.some.inj h)
      exact .locked t c hfree.2
  | upsertChainIndexer t c v =>
    cases t with
    | some t =>
      simp only [apply] at h
      split_ifs at h with hlock
      obtain ⟨-, rfl⟩ := Prod.mk.inj (Option.some.inj h)
      exact .wrote t c v hlock.1 hlock.2
    | none =>
      simp only [apply] at h
      split_ifs at h with hfree
      obtain ⟨-, rfl⟩ := Prod.mk.inj (Option.some.inj h)
      exact .reset c v hfree
  | createContractSubscription params =>
    simp only [apply] at h
    split_ifs at h with hfresh
    obtain ⟨-, rfl⟩ := Prod.mk.inj (Option.some.inj h)
    exact .subscribed params d
  | deleteContractSubscription id =>
    simp only [apply] at h
    split at h
    · cases h
    · obtain ⟨-, rfl⟩ := Prod.mk.inj (Option.some.inj h)
      exact .unsubscribed id
  | getBlockNumber c =>
    simp only [apply] at h
    split_ifs at h with hn
    obtain ⟨-, rfl⟩ := Prod.mk.inj (Option.some.inj h)
    exact .nothing _
  | addEventsJob job =>
    obtain ⟨-, rfl⟩ := Prod.mk.inj (Option.some.inj h)
    exact .events job
  | addReceiptsJob job =>
    obtain ⟨-, rfl⟩ := Prod.mk.inj (Option.some.inj h)
    exact .receipts job
  | advanceHead c n =>
    simp only [apply] at h
    split_ifs at h with hn
    obtain ⟨-, rfl⟩ := Prod.mk.inj (Option.some.inj h)
    exact .advanced c n hn
  | _ =>
    obtain ⟨-, rfl⟩ := Prod.mk.inj (Option.some.inj h)
    exact .nothing _

/-- A call that throws did nothing. -/
theorem World.changed_of_effect {w w' : World} {o : Op} {a : Except Err o.Choice} {r : Except Err o.Reply}
    (h : w.effect o a = some (r, w')) :
    (∃ e, r = .error e ∧ w' = w) ∨ ∃ c x, a = .ok c ∧ r = .ok x ∧ w.Changed o w' := by
  obtain ⟨e, hr, hw⟩ | ⟨c, x, ha, hr, hx⟩ := effect_cases h
  · exact Or.inl ⟨e, hr, hw⟩
  · exact Or.inr ⟨c, x, ha, hr, changed_of_apply hx⟩

end Engine.Indexer
