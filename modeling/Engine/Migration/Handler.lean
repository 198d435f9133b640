import Engine.Concurrent.Sequential
import Engine.Migration.Rows
import Engine.Paging.Table
import Engine.Source.Shared

/-! The handler of `worker/tasks/migratePostgresTransactionsWorker.ts`, in a run in which no call
fails and no other transaction holds its rows. -/
namespace Engine.Migration
open Concurrent Program

/-- A record `transaction:<queueId>`. -/
inductive Record
  | queued (t : QueuedTransaction)
  | sent (t : SentTransaction)
deriving DecidableEq

def Record.queueId : Record → String
  | .queued t => t.queueId
  | .sent t => t.queueId

structure Config where
  maxTxsToUpdate : ℕ
  maxTxsToProcess : ℕ

structure World where
  transactions : Keyset.Table Transactions.id
  config : Config
  records : String → Option Record := fun _ => none
  /-- Jobs `mine.<queueId>` of the mine queue. -/
  mineJobs : String → Bool := fun _ => false
  /-- Jobs `<queueId>.<resendCount>` of the send queue. -/
  sendJobs : String → ℕ → Bool := fun _ _ => false

inductive Op
  | getConfig
  | getSentPostgresTransactions (limit : ℕ)
  | getQueuedPostgresTransactions (limit : ℕ)
  | setTransaction (t : Record)
  | mineQueueAdd (queueId : String)
  | sendQueueAdd (queueId : String) (resendCount : ℕ)
  | updateCancelledAt (ids : List String)
deriving DecidableEq

@[reducible] def Op.Reply : Op → Type
  | .getConfig => Config
  | .getSentPostgresTransactions _ | .getQueuedPostgresTransactions _ => List Transactions
  | _ => Unit

/-- The rows in the order of the query, and the date of a cancellation. -/
@[reducible] def Op.Choice : Op → Type
  | .getSentPostgresTransactions _ | .getQueuedPostgresTransactions _ => List Transactions
  | .updateCancelledAt _ => ℕ
  | _ => Unit

abbrev Calls : Interface := ⟨Op, Op.Reply, Op.Choice, Thrown⟩

abbrev Prog (α : Type) := Program Calls α

abbrev await (o : Op) : Prog o.Reply := Program.perform (I := Calls) o

/-- `"minedAt" IS NULL AND "cancelledAt" IS NULL AND "errorMessage" IS NULL`. -/
def isOpen (row : Transactions) : Bool := row.minedAt.isNone && row.cancelledAt.isNone && row.errorMessage.isNone

def isSent (row : Transactions) : Bool := row.sentAt.isSome && isOpen row

def isQueued (row : Transactions) : Bool := row.sentAt.isNone && isOpen row

/-- `ORDER BY "nonce" ASC`: `NULL` comes last. -/
def nonceLE (row row' : Transactions) : Bool :=
  match row.nonce, row'.nonce with
  | _, none => true
  | none, some _ => false
  | some n, some n' => n ≤ n'

/-- `ORDER BY "queuedAt" ASC`. -/
def queuedAtLE (row row' : Transactions) : Bool := row.queuedAt ≤ row'.queuedAt

/-- The rows that match, in the order of a query. Rows that compare equal are in any order. -/
def IsOrder (p : Transactions → Bool) (le : Transactions → Transactions → Bool) (rows l : List Transactions) : Prop :=
  l.Perm (rows.filter p) ∧ l.Pairwise fun row row' => le row row' = true

instance (p : Transactions → Bool) (le : Transactions → Transactions → Bool) (rows l : List Transactions) :
    Decidable (IsOrder p le rows l) := inferInstanceAs (Decidable (_ ∧ _))

namespace World

def cancelRow (ids : List String) (now : ℕ) (row : Transactions) : Transactions :=
  if row.id ∈ ids then { row with cancelledAt := some now } else row

theorem id_cancelRow (ids : List String) (now : ℕ) (row : Transactions) : (cancelRow ids now row).id = row.id := by
  unfold cancelRow
  split_ifs <;> rfl

/-- `UPDATE transactions SET cancelledAt`. -/
def cancelled (w : World) (ids : List String) (now : ℕ) : World :=
  { w with transactions := w.transactions.modify (cancelRow ids now) (id_cancelRow ids now) }

def stored (w : World) (t : Record) : World :=
  { w with records := fun queueId => if queueId = t.queueId then some t else w.records queueId }

def mineAdded (w : World) (queueId : String) : World :=
  { w with mineJobs := fun queueId' => queueId' = queueId || w.mineJobs queueId' }

def sendAdded (w : World) (queueId : String) (resendCount : ℕ) : World :=
  { w with sendJobs := fun queueId' n => (queueId' = queueId && n = resendCount) || w.sendJobs queueId' n }

def apply (w : World) : (o : Op) → o.Choice → Option (o.Reply × World)
  | .getConfig, _ => some (w.config, w)
  | .getSentPostgresTransactions limit, order =>
    if IsOrder isSent nonceLE w.transactions.rows order then some (order.take limit, w) else none
  | .getQueuedPostgresTransactions limit, order =>
    if IsOrder isQueued queuedAtLE w.transactions.rows order then some (order.take limit, w) else none
  | .setTransaction t, _ => some ((), w.stored t)
  | .mineQueueAdd queueId, _ => some ((), w.mineAdded queueId)
  | .sendQueueAdd queueId resendCount, _ => some ((), w.sendAdded queueId resendCount)
  | .updateCancelledAt ids, now => some ((), w.cancelled ids now)

/-- No call throws. -/
def effect (w : World) (o : Op) : Except Thrown o.Choice → Option (Except Thrown o.Reply × World)
  | .error _ => none
  | .ok c => (w.apply o c).map fun r => (.ok r.1, r.2)

end World

def migrateRow (row : Transactions) (transaction : Except Thrown α) (record : α → Record) (enqueue : α → Prog Unit) :
    Prog (List String) :=
  Shared.migrateRow row.id (ofExcept transaction) (fun t => await (.setTransaction (record t))) enqueue

def migrateSentRow (row : Transactions) : Prog (List String) :=
  migrateRow row (toSentTransaction row) .sent fun t => await (.mineQueueAdd t.queueId)

def migrateQueuedRow (row : Transactions) : Prog (List String) :=
  migrateRow row (toQueuedTransaction row) .queued fun t => await (.sendQueueAdd t.queueId 0)

def cancelPostgresTransactions (queueIds : List String) : Prog Unit :=
  if queueIds.length = 0 then return () else await (.updateCancelledAt queueIds)

/-- One of the two transactions of the handler. -/
def migrateTransactions (select : Config → Prog (List Transactions)) (migrate : Transactions → Prog (List String)) :
    Prog Unit := do
  let config ← await .getConfig
  let rows ← select config
  let toCancel ← collect migrate rows
  cancelPostgresTransactions toCancel.flatten

def migrateSentTransactions : Prog Unit :=
  migrateTransactions (fun config => await (.getSentPostgresTransactions config.maxTxsToUpdate)) migrateSentRow

def migrateQueuedTransactions : Prog Unit :=
  migrateTransactions (fun config => await (.getQueuedPostgresTransactions config.maxTxsToProcess)) migrateQueuedRow

def handler : Prog Unit := do
  migrateSentTransactions
  migrateQueuedTransactions

/-! ### What a run does to the rows -/

/-- The conversion succeeds. -/
def isOk (x : Except Thrown α) : Bool :=
  match x with
  | .ok _ => true
  | .error _ => false

/-- Records and jobs aside, nothing has changed. -/
structure SameRows (w w' : World) : Prop where
  transactions : w'.transactions = w.transactions
  config : w'.config = w.config

section
variable {w w' : World} {o : Op} {row : Transactions} {rows : List Transactions}

theorem runs_await {r : Except Thrown o.Reply} : Runs World.effect w (await o) r w' ↔
    ∃ c x, r = .ok x ∧ w.apply o c = some (x, w') := by
  rw [runs_perform]
  constructor
  · intro h
    obtain ⟨a, ha⟩ := h
    cases a with
    | error e => cases ha
    | ok c =>
      obtain ⟨⟨x, w''⟩, hx, he⟩ := Option.map_eq_some_iff.mp ha
      cases he
      exact ⟨c, x, rfl, hx⟩
  · intro h
    obtain ⟨c, x, rfl, hx⟩ := h
    refine ⟨.ok c, ?_⟩
    unfold World.effect
    simp only
    rw [hx]
    rfl

/-- A call with one outcome. -/
theorem runs_unit {w₁ : World} {r : Except Thrown o.Reply} {x : o.Reply} (c : o.Choice)
    (h : ∀ c, w.apply o c = some (x, w₁)) : Runs World.effect w (await o) r w' ↔ r = .ok x ∧ w' = w₁ := by
  rw [runs_await]
  constructor
  · intro hrun
    obtain ⟨c, y, rfl, hy⟩ := hrun
    cases (h c).symm.trans hy
    exact ⟨rfl, rfl⟩
  · intro hrun
    obtain ⟨rfl, rfl⟩ := hrun
    exact ⟨c, x, rfl, h c⟩

/-- A loop whose rounds give the ids of some rows, and leave all rows. -/
structure Rounds (f : Transactions → Prog (List String)) (ok : Transactions → Bool) : Prop where
  exists_run : ∀ w row, ∃ w', SameRows w w' ∧ Runs World.effect w (f row) (.ok (if ok row then [row.id] else [])) w'
  result : ∀ w w' row r, Runs World.effect w (f row) r w' →
    r = .ok (if ok row then [row.id] else []) ∧ SameRows w w'

theorem SameRows.trans {w₁ : World} (h : SameRows w w₁) (h' : SameRows w₁ w') : SameRows w w' where
  transactions := h'.transactions.trans h.transactions
  config := h'.config.trans h.config

/-- The outcome of one round. -/
theorem runs_migrateRow {transaction : Except Thrown α} {record : α → Record} {enqueue : α → Prog Unit}
    {added : World → α → World} {r : Except Thrown (List String)}
    (henqueue : ∀ t w w' r, Runs World.effect w (enqueue t) r w' ↔ r = .ok () ∧ w' = added w t) :
    Runs World.effect w (migrateRow row transaction record enqueue) r w' ↔
      match transaction with
      | .ok t => r = .ok [row.id] ∧ w' = added (w.stored (record t)) t
      | .error _ => r = .ok [] ∧ w' = w := by
  unfold migrateRow Shared.migrateRow
  cases transaction with
  | error e =>
    show Runs World.effect w (done [] : Prog (List String)) r w' ↔ _
    rw [runs_done]
  | ok t =>
    have hstore : ∀ w' r, Runs World.effect w (await (.setTransaction (record t))) r w' ↔
        r = .ok () ∧ w' = w.stored (record t) := fun w' r => runs_unit () fun _ => rfl
    have hbody : ∀ w' r, Runs World.effect w (Program.bind (await (.setTransaction (record t))) fun _ =>
        (enqueue t).bind fun _ => done [row.id]) r w' ↔ r = .ok [row.id] ∧ w' = added (w.stored (record t)) t := by
      intro w' r
      simp [runs_bind, hstore, henqueue]
    rw [tryCatch_eq, runs_handle]
    simp only [ofExcept, pure_eq, bind_eq, done_bind, hbody]
    simp [and_comm]

theorem rounds_migrateRow {transaction : Transactions → Except Thrown α} {record : α → Record}
    {enqueue : α → Prog Unit} (added : World → α → World)
    (henqueue : ∀ t w w' r, Runs World.effect w (enqueue t) r w' ↔ r = .ok () ∧ w' = added w t)
    (hadded : ∀ w t, SameRows w (added w t)) :
    Rounds (fun row => migrateRow row (transaction row) record enqueue) fun row => isOk (transaction row) := by
  have hstored : ∀ w t, SameRows w (added (w.stored (record t)) t) := by
    intro w t
    have hfirst : SameRows w (w.stored (record t)) := ⟨rfl, rfl⟩
    exact hfirst.trans (hadded _ t)
  constructor
  · intro w row
    cases hrow : transaction row with
    | error e =>
      refine ⟨w, ⟨rfl, rfl⟩, (runs_migrateRow henqueue).mpr ?_⟩
      exact ⟨rfl, rfl⟩
    | ok t =>
      refine ⟨_, hstored w t, (runs_migrateRow henqueue).mpr ?_⟩
      exact ⟨rfl, rfl⟩
  · intro w w' row r h
    have hrun := (runs_migrateRow henqueue).mp h
    cases hrow : transaction row with
    | error e =>
      rw [hrow] at hrun
      obtain ⟨rfl, rfl⟩ := hrun
      exact ⟨rfl, rfl, rfl⟩
    | ok t =>
      rw [hrow] at hrun
      obtain ⟨rfl, rfl⟩ := hrun
      exact ⟨rfl, hstored w t⟩

theorem rounds_migrateSentRow : Rounds migrateSentRow fun row => isOk (toSentTransaction row) :=
  rounds_migrateRow (fun w t => w.mineAdded t.queueId)
    (fun _ _ _ _ => runs_unit () fun _ => rfl) fun _ _ => ⟨rfl, rfl⟩

theorem rounds_migrateQueuedRow : Rounds migrateQueuedRow fun row => isOk (toQueuedTransaction row) :=
  rounds_migrateRow (fun w t => w.sendAdded t.queueId 0)
    (fun _ _ _ _ => runs_unit () fun _ => rfl) fun _ _ => ⟨rfl, rfl⟩

/-- The ids that a loop gives. -/
def idsOf (ok : Transactions → Bool) (rows : List Transactions) : List String := (rows.filter ok).map Transactions.id

theorem Rounds.result_collect {f : Transactions → Prog (List String)} {ok : Transactions → Bool} (h : Rounds f ok)
    {r : Except Thrown (List (List String))} (hrun : Runs World.effect w (collect f rows) r w') :
    ∃ ids, r = .ok ids ∧ ids.flatten = idsOf ok rows ∧ SameRows w w' := by
  induction rows generalizing w w' r with
  | nil =>
    obtain ⟨rfl, rfl⟩ := runs_done.mp hrun
    exact ⟨[], rfl, rfl, rfl, rfl⟩
  | cons row rows ih =>
    obtain ⟨ids, w₁, hrow, hrest⟩ | ⟨e, hrow, -⟩ := runs_bind.mp hrun
    · obtain ⟨hids, hsame⟩ := h.result _ _ _ _ hrow
      obtain ⟨rest, w₂, hrows, hdone⟩ | ⟨e, hrows, -⟩ := runs_bind.mp hrest
      · obtain ⟨rest', hrest', hflatten, hsame'⟩ := ih hrows
        cases hrest'
        obtain ⟨rfl, rfl⟩ := runs_done.mp hdone
        refine ⟨_, rfl, ?_, hsame.trans hsame'⟩
        rw [List.flatten_cons, hflatten, Except.ok.inj hids]
        unfold idsOf
        rw [List.filter_cons]
        split_ifs <;> rfl
      · obtain ⟨ids, hids, -⟩ := ih hrows
        cases hids
    · obtain ⟨hids, -⟩ := h.result _ _ _ _ hrow
      cases hids

theorem Rounds.exists_collect {f : Transactions → Prog (List String)} {ok : Transactions → Bool} (h : Rounds f ok)
    (w : World) (rows : List Transactions) : ∃ ids w', Runs World.effect w (collect f rows) (.ok ids) w' := by
  induction rows generalizing w with
  | nil => exact ⟨[], w, .done _ _⟩
  | cons row rows ih =>
    obtain ⟨w₁, -, hrow⟩ := h.exists_run w row
    obtain ⟨ids, w', hrows⟩ := ih w₁
    generalize (if ok row = true then [row.id] else []) = first at hrow
    have hrest : Runs World.effect w₁ ((collect f rows).bind fun ids => done (first :: ids)) (.ok (first :: ids)) w' :=
      runs_bind_ok.mpr ⟨ids, w', hrows, .done _ _⟩
    exact ⟨_, w', runs_bind_ok.mpr ⟨first, w₁, hrow, hrest⟩⟩

/-- The rows after a cancellation; without ids nothing is cancelled. -/
def Cancels (w w' : World) (ids : List String) : Prop :=
  ∃ now, w'.transactions.rows = w.transactions.rows.map (World.cancelRow ids now) ∧ w'.config = w.config

theorem cancels_of_runs {ids : List String} {r : Except Thrown Unit} {w₁ : World} (hsame : SameRows w w₁)
    (h : Runs World.effect w₁ (cancelPostgresTransactions ids) r w') : r = .ok () ∧ Cancels w w' ids := by
  unfold cancelPostgresTransactions at h
  split_ifs at h with hids
  · obtain ⟨rfl, rfl⟩ := runs_done.mp h
    rw [List.length_eq_zero_iff] at hids
    refine ⟨rfl, 0, ?_, hsame.config⟩
    rw [hsame.transactions, hids]
    have hid : World.cancelRow [] 0 = id := by
      funext row
      rfl
    rw [hid, List.map_id]
  · obtain ⟨now, x, rfl, hx⟩ := runs_await.mp h
    cases hx
    refine ⟨rfl, now, ?_, hsame.config⟩
    rw [← hsame.transactions]
    rfl

theorem exists_cancel (w : World) (ids : List String) :
    ∃ w', Runs World.effect w (cancelPostgresTransactions ids) (.ok ()) w' := by
  unfold cancelPostgresTransactions
  split_ifs
  · exact ⟨w, .done _ _⟩
  · exact ⟨_, runs_await.mpr ⟨(0 : ℕ), (), rfl, rfl⟩⟩

/-- A query: the first rows of any of its orders. -/
def Selects (select : Config → Prog (List Transactions)) (p : Transactions → Bool)
    (le : Transactions → Transactions → Bool) (limit : Config → ℕ) : Prop :=
  ∀ w w' r, Runs World.effect w (select w.config) r w' ↔
    ∃ l, IsOrder p le w.transactions.rows l ∧ r = .ok (l.take (limit w.config)) ∧ w' = w

theorem runs_getConfig {r : Except Thrown Config} :
    Runs World.effect w (await .getConfig) r w' ↔ r = .ok w.config ∧ w' = w := runs_unit () fun _ => rfl

theorem selects_sent : Selects (fun config => await (.getSentPostgresTransactions config.maxTxsToUpdate))
    isSent nonceLE Config.maxTxsToUpdate := by
  intro w w' r
  rw [runs_await]
  simp only [World.apply, Option.ite_none_right_eq_some, Option.some.injEq, Prod.mk.injEq]
  constructor
  · intro h
    obtain ⟨l, x, rfl, horder, rfl, rfl⟩ := h
    exact ⟨l, horder, rfl, rfl⟩
  · intro h
    obtain ⟨l, horder, rfl, rfl⟩ := h
    exact ⟨l, _, rfl, horder, rfl, rfl⟩

theorem selects_queued : Selects (fun config => await (.getQueuedPostgresTransactions config.maxTxsToProcess))
    isQueued queuedAtLE Config.maxTxsToProcess := by
  intro w w' r
  rw [runs_await]
  simp only [World.apply, Option.ite_none_right_eq_some, Option.some.injEq, Prod.mk.injEq]
  constructor
  · intro h
    obtain ⟨l, x, rfl, horder, rfl, rfl⟩ := h
    exact ⟨l, horder, rfl, rfl⟩
  · intro h
    obtain ⟨l, horder, rfl, rfl⟩ := h
    exact ⟨l, _, rfl, horder, rfl, rfl⟩

section
variable {select : Config → Prog (List Transactions)} {migrate : Transactions → Prog (List String)}
  {p ok : Transactions → Bool} {le : Transactions → Transactions → Bool} {limit : Config → ℕ}

/-- A transaction cancels, of the first rows of an order of its query, those that it converts. -/
theorem runs_migrateTransactions {r : Except Thrown Unit} (hselect : Selects select p le limit)
    (hround : Rounds migrate ok)
    (h : Runs World.effect w (migrateTransactions select migrate) r w') :
    r = .ok () ∧ ∃ l, IsOrder p le w.transactions.rows l ∧ Cancels w w' (idsOf ok (l.take (limit w.config))) := by
  unfold migrateTransactions at h
  obtain ⟨config, w₁, hconfig, h⟩ | ⟨e, hconfig, -⟩ := runs_bind.mp h
  · obtain ⟨hconfig, rfl⟩ := runs_getConfig.mp hconfig
    cases hconfig
    obtain ⟨rows, w₂, hrows, h⟩ | ⟨e, hrows, -⟩ := runs_bind.mp h
    · obtain ⟨l, horder, hrows, rfl⟩ := (hselect _ _ _).mp hrows
      cases hrows
      obtain ⟨ids, w₃, hloop, h⟩ | ⟨e, hloop, -⟩ := runs_bind.mp h
      · obtain ⟨ids', hids, hflatten, hsame⟩ := hround.result_collect hloop
        cases hids
        rw [hflatten] at h
        obtain ⟨rfl, hcancels⟩ := cancels_of_runs hsame h
        exact ⟨rfl, l, horder, hcancels⟩
      · obtain ⟨ids, hids, -⟩ := hround.result_collect hloop
        cases hids
    · obtain ⟨l, -, hrows, -⟩ := (hselect _ _ _).mp hrows
      cases hrows
  · cases (runs_getConfig.mp hconfig).1

/-- Every order of the query can be that of a run. -/
theorem exists_migrateTransactions (hselect : Selects select p le limit) (hround : Rounds migrate ok)
    {l : List Transactions} (hl : IsOrder p le w.transactions.rows l) :
    ∃ w', Runs World.effect w (migrateTransactions select migrate) (.ok ()) w' ∧
      Cancels w w' (idsOf ok (l.take (limit w.config))) := by
  obtain ⟨ids, w₁, hloop⟩ := hround.exists_collect w (l.take (limit w.config))
  obtain ⟨w', hcancel⟩ := exists_cancel w₁ ids.flatten
  obtain ⟨ids', hids, hflatten, hsame⟩ := hround.result_collect hloop
  cases hids
  have hcancels := (cancels_of_runs hsame (hflatten ▸ hcancel)).2
  have hrest : Runs World.effect w ((collect migrate (l.take (limit w.config))).bind fun toCancel =>
      cancelPostgresTransactions toCancel.flatten) (.ok ()) w' := runs_bind_ok.mpr ⟨ids, w₁, hloop, hcancel⟩
  have hrows : Runs World.effect w ((select w.config).bind fun rows => (collect migrate rows).bind fun toCancel =>
      cancelPostgresTransactions toCancel.flatten) (.ok ()) w' :=
    runs_bind_ok.mpr ⟨_, w, (hselect w w _).mpr ⟨l, hl, rfl, rfl⟩, hrest⟩
  exact ⟨w', runs_bind_ok.mpr ⟨_, w, runs_getConfig.mpr ⟨rfl, rfl⟩, hrows⟩, hcancels⟩

end

end
end Engine.Migration
