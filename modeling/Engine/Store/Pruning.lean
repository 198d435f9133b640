import Engine.Concurrent.Locks
import Engine.Concurrent.Sequential
import Engine.Store.Separation

/-! `TransactionDB.set` and the pruning of `worker/tasks/pruneTransactionsWorker.ts`, by their Redis
commands and pipelines. -/
namespace Engine.Pruning
open Concurrent Program Redis TransactionDB

structure World where
  store : Store := fun _ => none
  /-- The indexes that a pruning has taken an id from since its record was stored. It is not stored. -/
  pruned : Index → QueueId → Bool := fun _ _ => false

inductive Op
  /-- The pipeline of `set`. -/
  | set (t : Transaction) (timestamp : ℤ)
  | zrangeQueued (start stop : ℤ)
  | unlink (queueIds : List QueueId)
  /-- The pipeline of four `ZREMRANGEBYRANK`. -/
  | zremrangebyrankAll (start stop : ℤ)
deriving DecidableEq

@[reducible] def Op.Reply : Op → Type
  | .zrangeQueued _ _ => List QueueId
  | .unlink _ => ℕ
  | _ => Unit

inductive Thrown
  | command (e : CommandError)
  | connection
deriving DecidableEq

/-- `some n`: the connection was lost when `n` commands of the call had been carried out. -/
abbrev Calls : Interface := ⟨Op, Op.Reply, fun _ => Option ℕ, Thrown⟩

abbrev Prog (α : Type) := Program Calls α

abbrev await (o : Op) : Prog o.Reply := Program.perform (I := Calls) o

/-- The ids of an index, in the order of their ranks. -/
def listed (s : Store) (i : Index) : List QueueId :=
  match s.zset (indexKey i) with
  | .ok z => z.members
  | .error _ => []

/-- The stored record of an id. -/
def record (s : Store) (q : QueueId) : Option Transaction :=
  match s (transactionDetailsKey q) with
  | some (.string t) => some t
  | _ => none

theorem filterMap_mget (s : Store) (qs : List QueueId) :
    (s.mget (qs.map transactionDetailsKey)).filterMap id = qs.filterMap (record s) := by
  unfold Keyspace.mget
  rw [List.map_map, List.filterMap_map]
  refine List.filterMap_congr fun q _ => ?_
  unfold record
  simp only [Function.comp_apply, id_eq]
  cases s (transactionDetailsKey q) with
  | none => rfl
  | some v => cases v <;> rfl

namespace Op

/-- The commands of a call. -/
def commands : Op → List (Store → Store)
  | .set t timestamp => (Keyspace.set · (transactionDetailsKey t.queueId) t) ::
      (indexOf t.status).toList.map fun i s => s.zadd (indexKey i) timestamp t.queueId
  | .zrangeQueued _ _ => [id]
  | .unlink queueIds => [fun s => (s.unlink (queueIds.map transactionDetailsKey)).2]
  | .zremrangebyrankAll start stop =>
      [Index.queued, .mined, .cancelled, .errored].map fun i s => s.zremrangebyrank (indexKey i) start stop

def reply (s : Store) : (o : Op) → Except Thrown o.Reply
  | .set _ _ => .ok ()
  | .zrangeQueued start stop => (s.zrange (indexKey .queued) start stop).mapError .command
  | .unlink queueIds => .ok (s.unlink (queueIds.map transactionDetailsKey)).1
  | .zremrangebyrankAll _ _ => .ok ()

def answer (s : Store) (o : Op) : Option ℕ → Except Thrown o.Reply
  | none => o.reply s
  | some _ => .error .connection

/-- How many commands are carried out. -/
def executed (o : Op) : Option ℕ → ℕ
  | none => o.commands.length
  | some n => n

/-- The store after the first `n` commands. -/
def after (o : Op) (n : ℕ) (s : Store) : Store := (o.commands.take n).foldl (fun s command => command s) s

end Op

namespace World

def carryOut (w : World) (o : Op) (n : ℕ) : World where
  store := o.after n w.store
  pruned i q :=
    match o with
    | .set t _ => w.pruned i q && (n == 0 || q ≠ t.queueId)
    | .zremrangebyrankAll _ _ => w.pruned i q || decide (q ∈ listed w.store i ∧ q ∉ listed (o.after n w.store) i)
    | _ => w.pruned i q

def effect (w : World) (o : Op) : Except Thrown (Option ℕ) → Option (Except Thrown o.Reply × World)
  | .error _ => none
  | .ok lost => some (o.answer w.store lost, w.carryOut o (o.executed lost))

end World

/-- `bulkDelete`: a command for each batch. -/
def bulkDelete (batchSize : ℕ+) (queueIds : List QueueId) : Prog ℕ := do
  let numDeleted ← collect (fun ids => await (.unlink ids)) (batches batchSize queueIds.length queueIds)
  return numDeleted.sum

def pruneTransactionDetailsAndLists (batchSize : ℕ+) (keep : ℤ) : Prog ℕ := do
  let stop := -keep - 1
  let queueIds ← await (.zrangeQueued 0 stop)
  let numPruned ← bulkDelete batchSize queueIds
  await (.zremrangebyrankAll 0 stop)
  return numPruned

inductive Kind
  | set (t : Transaction) (timestamp : ℤ)
  | prune (keep : ℕ)
deriving DecidableEq

def set (t : Transaction) (timestamp : ℤ) : Prog ℕ := do
  await (.set t timestamp)
  return 0

/-- Any number of `set` calls and prunings, of any process. -/
abbrev database (batchSize : ℕ+) : Machine Calls ℕ where
  World := World
  Kind := Kind
  effect := World.effect
  start w
    | .set t timestamp => some (set t timestamp, w)
    | .prune keep => some (pruneTransactionDetailsAndLists batchSize keep, w)

/-- The runs of all calls. -/
def anyCalls (batchSize : ℕ+) : Guard (database batchSize) where
  start _ _ := true
  call _ _ _ _ := true

/-- A call is started as thread `i`, and makes `n` calls that are carried out. -/
def calls {batchSize : ℕ+} (k : Kind) (i n : ℕ) : List (Move (database batchSize)) :=
  .start k :: List.replicate n (.call i fun _ => .ok none)

/-! ### A pruning on its own -/

section
variable {batchSize : ℕ+} {w : World} {keep : ℤ}

/-- No call is cut off. -/
def completely : Effects Calls World := fun w o _ => w.effect o (.ok none)

theorem runs_await {o : Op} {r : Except Thrown o.Reply} (h : o.reply w.store = r) :
    Runs completely w (await o) r (w.carryOut o o.commands.length) := by
  rw [runs_perform]
  exact ⟨.ok none, congrArg some (Prod.ext h rfl)⟩

end

/-! ### How far a call is -/

inductive Phase
  | setting (t : Transaction) (timestamp : ℤ)
  | starting (keep : ℕ)
  /-- The batches that it has not deleted. -/
  | deleting (keep : ℕ) (rest : List (List QueueId))
  | ended
deriving DecidableEq

namespace Phase
variable (batchSize : ℕ+)

def next (l : Phase) (o : Op) (r : Except Thrown o.Reply) : Phase :=
  match l, o, r with
  | .starting keep, .zrangeQueued _ _, .ok ids => .deleting keep (batches batchSize ids.length ids)
  | .deleting keep (_ :: rest), .unlink _, .ok _ => .deleting keep rest
  | _, _, _ => .ended

inductive Allowed : Phase → Op → Prop
  | set (t : Transaction) (timestamp : ℤ) : Allowed (.setting t timestamp) (.set t timestamp)
  | zrange (keep : ℕ) : Allowed (.starting keep) (.zrangeQueued 0 (-(keep : ℤ) - 1))
  | unlink (keep : ℕ) (batch : List QueueId) (rest : List (List QueueId)) :
      Allowed (.deleting keep (batch :: rest)) (.unlink batch)
  | zremrange (keep : ℕ) : Allowed (.deleting keep []) (.zremrangebyrankAll 0 (-(keep : ℤ) - 1))

def protocol : Protocol Calls where
  Local := Phase
  next := next batchSize
  allowed := Allowed
  possible _ _ := True

theorem follows_unlinks (keep : ℕ) (rest : List (List QueueId)) :
    (collect (fun ids => await (.unlink ids)) rest).Follows (protocol batchSize)
      (fun l r => (∃ ns, r = .ok ns) → l = .deleting keep []) (.deleting keep rest) := by
  induction rest with
  | nil => exact fun _ => rfl
  | cons batch rest ih =>
    refine follows_await (P := protocol batchSize) (.unlink keep batch rest) (fun n _ => ?_) (fun e _ h => ?_)
    · refine ih.bind (fun l ns h _ => h ⟨ns, rfl⟩) (fun l e _ h => ?_)
      obtain ⟨ns, hns⟩ := h
      cases hns
    · obtain ⟨ns, hns⟩ := h
      cases hns

theorem follows_prune (keep : ℕ) : (pruneTransactionDetailsAndLists batchSize keep).Follows (protocol batchSize)
    (fun _ _ => True) (.starting keep) := by
  refine follows_await (P := protocol batchSize) (.zrange keep) (fun ids _ => ?_) (fun _ _ => trivial)
  have hunlinks := follows_unlinks batchSize keep (batches batchSize ids.length ids)
  have hdelete : (bulkDelete batchSize ids).Follows (protocol batchSize)
      (fun l r => (∃ n, r = .ok n) → l = .deleting keep []) (.deleting keep (batches batchSize ids.length ids)) := by
    refine hunlinks.bind (fun l ns h _ => h ⟨ns, rfl⟩) (fun l e _ h => ?_)
    obtain ⟨n, hn⟩ := h
    cases hn
  refine hdelete.bind (fun l n h => ?_) (fun _ _ _ => trivial)
  obtain rfl := h ⟨n, rfl⟩
  exact follows_await (P := protocol batchSize) (.zremrange keep) (fun _ _ => trivial) (fun _ _ => trivial)

theorem follows_set (t : Transaction) (timestamp : ℤ) : (Pruning.set t timestamp).Follows (protocol batchSize)
    (fun _ _ => True) (.setting t timestamp) :=
  follows_await (P := protocol batchSize) (.set t timestamp) (fun _ _ => trivial) (fun _ _ => trivial)

end Phase

def Kind.phase : Kind → Phase
  | .set t timestamp => .setting t timestamp
  | .prune keep => .starting keep

def databaseContract (batchSize : ℕ+) : Contract (database batchSize) where
  toProtocol := Phase.protocol batchSize
  init := Kind.phase
  ends _ _ := True
  answers _ _ _ _ _ _ := trivial
  starts w k p w' h := by
    cases k with
    | set t timestamp =>
      cases Option.some.inj h
      exact Phase.follows_set batchSize t timestamp
    | prune keep =>
      cases Option.some.inj h
      exact Phase.follows_prune batchSize keep

end Engine.Pruning
