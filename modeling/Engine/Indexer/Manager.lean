import Mathlib.Data.Finset.Sort
import Engine.Concurrent.Machine
import Engine.Indexer.BlockTime
import Engine.Numbers.Integral

/-! `worker/listeners/chainIndexerListener.ts`, `worker/tasks/manageChainIndexers.ts` and
`worker/indexers/chainIndexerRegistry.ts`: which chains have an indexer task. -/
namespace Engine.Manager
open Concurrent Program Numbers
open Indexer (Limits limitsOf)

structure World where
  /-- The chain ids of the contract subscriptions that are not deleted. -/
  subscribed : List ℕ
  /-- The keys of `INDEXER_REGISTRY`. -/
  registry : Finset ℕ := ∅
  processChainIndexerStarted : Bool := false

/-- The lookups, and the accesses of the registry between them. -/
inductive Op
  /-- Test and set `processChainIndexerStarted`. -/
  | begin
  | getContractSubscriptionsUniqueChainIds
  /-- The configuration, when the given chain is added. -/
  | getConfig (chainId : ℕ)
  | getBlockTimeSeconds (chainId : ℕ)
  | createChainIndexerTask (chainId : ℕ) (maxBlocksToIndex toBlockOffset : Number)
  | isRegistered (chainId : ℕ)
  /-- Start a cron task, which throws for what is no schedule, and register it. -/
  | schedule (chainId : ℕ) (cronSchedule : String)
  | registeredChainIds
  /-- Stop a task, and delete it. -/
  | unregister (chainId : ℕ)
  /-- `processChainIndexerStarted = false`. -/
  | finish
deriving DecidableEq

@[reducible] def Op.Reply : Op → Type
  | .begin => Bool
  | .getContractSubscriptionsUniqueChainIds => List ℕ
  | .getConfig _ => ℕ
  | .getBlockTimeSeconds _ => Number
  | .isRegistered _ => Bool
  | .registeredChainIds => List ℕ
  | _ => Unit

@[reducible] def Op.Choice : Op → Type
  | .getConfig _ => ℕ
  | .getBlockTimeSeconds _ => Number
  | _ => Unit

/-- A lookup may throw, and so may starting a task. -/
def Op.mayThrow : Op → Bool
  | .getContractSubscriptionsUniqueChainIds | .getConfig _ | .getBlockTimeSeconds _ | .createChainIndexerTask _ _ _
  | .schedule _ _ => true
  | _ => false

/-- The chain that a call is made for. -/
def Op.chainId? : Op → Option ℕ
  | .getConfig chainId | .getBlockTimeSeconds chainId | .createChainIndexerTask chainId _ _ | .isRegistered chainId
  | .schedule chainId _ | .unregister chainId => some chainId
  | _ => none

abbrev Calls : Interface := ⟨Op, Op.Reply, Op.Choice, Err⟩

abbrev Prog (α : Type) := Program Calls α

abbrev await (o : Op) : Prog o.Reply := Program.perform (I := Calls) o

namespace World

/-- A successful call. Integer keys are listed in their order. -/
def apply (w : World) : (o : Op) → o.Choice → o.Reply × World
  | .begin, _ => (!w.processChainIndexerStarted, { w with processChainIndexerStarted := true })
  | .getContractSubscriptionsUniqueChainIds, _ => (w.subscribed.dedup, w)
  | .getConfig _, maxBlocksToIndex => (maxBlocksToIndex, w)
  | .getBlockTimeSeconds _, blockTimeSeconds => (blockTimeSeconds, w)
  | .createChainIndexerTask _ _ _, _ => ((), w)
  | .isRegistered chainId, _ => (decide (chainId ∈ w.registry), w)
  | .schedule chainId _, _ => ((), { w with registry := insert chainId w.registry })
  | .registeredChainIds, _ => (w.registry.sort (· ≤ ·), w)
  | .unregister chainId, _ => ((), { w with registry := w.registry.erase chainId })
  | .finish, _ => ((), { w with processChainIndexerStarted := false })

def effect (w : World) (o : Op) : Except Err o.Choice → Option (Except Err o.Reply × World)
  | .error e => if o.mayThrow then some (.error e, w) else none
  | .ok c => some (.ok (w.apply o c).1, (w.apply o c).2)

end World

/-! ### The source -/

/-- `createScheduleSeconds`. -/
def createScheduleSeconds (seconds : Number) : String := "*/" ++ seconds.integerText ++ " * * * * *"

/-- `delay` is `CONTRACT_SUBSCRIPTIONS_DELAY_SECONDS`. -/
def addChainIndexer (delay : Number) (chainId : ℕ) : Prog Unit := do
  let registered ← await (.isRegistered chainId)
  if registered then pure ()
  else do
    let maxBlocksToIndex : ℕ ← await (.getConfig chainId)
    let blockTimeSeconds : Number ← await (.getBlockTimeSeconds chainId)
    let limits := limitsOf maxBlocksToIndex delay blockTimeSeconds
    await (.createChainIndexerTask chainId limits.maxBlocksToIndex limits.toBlockOffset)
    await (.schedule chainId (createScheduleSeconds limits.scheduleSeconds))

def removeChainIndexer (chainId : ℕ) : Prog Unit := await (.unregister chainId)

/-- A turn of the first loop. -/
def register (delay : Number) (chainId : ℕ) : Prog Unit := do
  let registered ← await (.isRegistered chainId)
  if registered then pure () else addChainIndexer delay chainId

/-- A turn of the second loop. -/
def unregister (chainIdsToIndex : List ℕ) (chainId : ℕ) : Prog Unit :=
  if chainId ∈ chainIdsToIndex then pure () else removeChainIndexer chainId

def manageChainIndexers (delay : Number) : Prog Unit := do
  let chainIdsToIndex : List ℕ ← await .getContractSubscriptionsUniqueChainIds
  forEach (register delay) chainIdsToIndex
  let chainIds : List ℕ ← await .registeredChainIds
  forEach (unregister chainIdsToIndex) chainIds

/-- The cron job: it is skipped while a run is in progress. -/
def cronJob (delay : Number) : Prog Unit := do
  let free ← await .begin
  if free then do
    manageChainIndexers delay
    await .finish
  else pure ()

inductive Kind
  /-- The cron job of `chainIndexerListener` fires. -/
  | firing
  /-- The chains with subscriptions become these. -/
  | subscribe (chainIds : List ℕ)
deriving DecidableEq

abbrev manager (delay : Number) : Machine Calls Unit where
  World := World
  Kind := Kind
  effect := World.effect
  start w
    | .firing => some (cronJob delay, w)
    | .subscribe chainIds => some (done (), { w with subscribed := chainIds })

/-! ### What a run may call next -/

/-- Where a manager run is: what it read, and what is left of its loops. -/
inductive Phase
  | fired
  /-- No manager run. -/
  | idle
  | reading
  | adding (chainIdsToIndex left : List ℕ)
  | removing (chainIdsToIndex left : List ℕ)
  | finished (chainIdsToIndex : List ℕ)
  | failed (chainIdsToIndex : Option (List ℕ))
deriving DecidableEq

namespace Phase

/-- The run is in progress. -/
def running : Phase → Bool
  | reading | adding _ _ | removing _ _ => true
  | _ => false

/-- What the run has read. -/
def chainIdsToIndex : Phase → Option (List ℕ)
  | adding ids _ | removing ids _ | finished ids => some ids
  | failed ids => ids
  | _ => none

def allowed : Phase → Op → Prop
  | fired, o => o = .begin
  | reading, o => o = .getContractSubscriptionsUniqueChainIds
  | adding _ (chainId :: _), .isRegistered chainId' => chainId' = chainId
  | adding _ (chainId :: _), .getConfig chainId' => chainId' = chainId
  | adding _ (chainId :: _), .getBlockTimeSeconds chainId' => chainId' = chainId
  | adding _ (chainId :: _), .createChainIndexerTask chainId' _ _ => chainId' = chainId
  | adding _ (chainId :: _), .schedule chainId' _ => chainId' = chainId
  | adding _ [], o => o = .registeredChainIds
  | removing _ (chainId :: _), o => o = .unregister chainId
  | removing _ [], o => o = .finish
  | _, _ => False

/-- A chain is done with when it is registered. -/
def next : Phase → (o : Op) → Except Err o.Reply → Phase
  | l, _, .error _ => failed l.chainIdsToIndex
  | fired, .begin, .ok free => bif free then reading else idle
  | reading, .getContractSubscriptionsUniqueChainIds, .ok ids => adding ids ids
  | adding ids (chainId :: left), .isRegistered _, .ok registered =>
    bif registered then adding ids left else adding ids (chainId :: left)
  | adding ids (_ :: left), .schedule _ _, .ok _ => adding ids left
  | adding ids [], .registeredChainIds, .ok chainIds => removing ids (chainIds.filter (· ∉ ids))
  | removing ids (_ :: left), .unregister _, .ok _ => removing ids left
  | removing ids [], .finish, .ok _ => finished ids
  | l, _, _ => l

end Phase

abbrev protocol : Protocol Calls where
  Local := Phase
  next := Phase.next
  allowed := Phase.allowed
  possible _ _ := True

section
variable {delay : Number} {ids left : List ℕ} {chainId : ℕ}

/-- How a turn of a loop ends: at the given place, or with an error. -/
def TurnEnds (next : Phase) (l : Phase) : Except Err Unit → Prop
  | .ok _ => l = next
  | .error _ => l.running = false

/-- A turn of the first loop is over when its chain is registered. -/
theorem follows_register : (register delay chainId).Follows protocol (TurnEnds (.adding ids left))
    (.adding ids (chainId :: left)) := by
  refine follows_await rfl (fun registered _ => ?_) (fun e _ => rfl)
  cases registered with
  | true => exact rfl
  | false =>
    refine follows_await rfl (fun registered _ => ?_) (fun e _ => rfl)
    cases registered with
    | true => exact rfl
    | false =>
      refine follows_await rfl (fun maxBlocksToIndex _ => ?_) (fun e _ => rfl)
      refine follows_await rfl (fun blockTimeSeconds _ => ?_) (fun e _ => rfl)
      refine follows_await rfl (fun _ _ => ?_) (fun e _ => rfl)
      refine follows_perform rfl fun r _ => ?_
      cases r <;> exact rfl

/-- A turn of the second loop is over when its chain is not registered, or subscribed. -/
theorem follows_unregister : (unregister ids chainId).Follows protocol
    (TurnEnds (.removing ids (left.filter (· ∉ ids)))) (.removing ids ((chainId :: left).filter (· ∉ ids))) := by
  unfold unregister
  split
  case isTrue hmem =>
    rw [List.filter_cons_of_neg (by simpa using hmem)]
    exact rfl
  case isFalse hmem =>
    rw [List.filter_cons_of_pos (by simpa using hmem)]
    refine follows_perform rfl fun r _ => ?_
    cases r <;> exact rfl

theorem follows_cronJob : (cronJob delay).Follows protocol (fun l _ => l.running = false) .fired := by
  have hmanage : (manageChainIndexers delay).Follows protocol
      (fun l r => match r with
        | .ok _ => ∃ ids, l = .removing ids []
        | .error _ => l.running = false) .reading := by
    refine follows_await rfl (fun ids _ => ?_) (fun e _ => rfl)
    have hadd : (forEach (register delay) ids).Follows protocol (TurnEnds (.adding ids [])) (.adding ids ids) := by
      refine follows_forEach (S := fun left l => l = Phase.adding ids left) rfl ?_ ?_
      · rintro chainId left _ rfl
        refine follows_register.mono fun l r hr => ?_
        cases r <;> exact hr
      · rintro l rfl
        exact rfl
    refine hadd.bind (fun l _ hl => ?_) (fun l e hl => hl)
    subst hl
    refine follows_await rfl (fun chainIds _ => ?_) (fun e _ => rfl)
    have hremove : (forEach (unregister ids) chainIds).Follows protocol (TurnEnds (.removing ids []))
        (.removing ids (chainIds.filter (· ∉ ids))) := by
      refine follows_forEach (S := fun left l => l = Phase.removing ids (left.filter (· ∉ ids))) rfl ?_ ?_
      · rintro chainId left _ rfl
        refine follows_unregister.mono fun l r hr => ?_
        cases r <;> exact hr
      · rintro l rfl
        exact rfl
    refine hremove.mono fun l r hr => ?_
    cases r with
    | ok _ => exact ⟨ids, hr⟩
    | error e => exact hr
  refine follows_await rfl (fun free _ => ?_) (fun e _ => rfl)
  cases free with
  | false => exact rfl
  | true =>
    refine hmanage.bind (fun l _ hl => ?_) (fun l e hl => hl)
    obtain ⟨ids, rfl⟩ := hl
    refine follows_perform rfl fun r _ => ?_
    cases r <;> exact rfl

end

def management (delay : Number) : Contract (manager delay) where
  toProtocol := protocol
  init
    | .firing => .fired
    | .subscribe _ => .idle
  ends l _ := l.running = false
  answers _ _ _ _ _ _ := trivial
  starts w k p w' h := by
    cases k with
    | firing =>
      obtain ⟨rfl, -⟩ := Prod.mk.inj (Option.some.inj h)
      exact follows_cronJob
    | subscribe chainIds =>
      obtain ⟨rfl, -⟩ := Prod.mk.inj (Option.some.inj h)
      exact rfl

end Engine.Manager
