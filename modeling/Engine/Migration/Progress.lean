import Mathlib.Data.List.Perm.Subperm
import Engine.Migration.Handler

/-! Which rows the migration converts, and how many of them a run marks. -/
namespace Engine.Migration
open Concurrent Program

/-! ### The first elements of a list -/

section
variable {α : Type} {l : List α} {k : ℕ} {p q : α → Bool}

/-- As many of the first `k` elements have both properties as there could be with the first one. -/
theorem length_filter_take_eq_min : ((l.take k).filter fun x => p x && q x).length = min (l.filter p).length k ↔
    (∀ x ∈ l.take k, p x = true → q x = true) ∧
      ((∀ x ∈ l.take k, p x = true) ∨ ∀ x ∈ l.drop k, p x = false) := by
  have hboth : ((l.take k).filter fun x => p x && q x) = ((l.take k).filter p).filter q := by
    rw [List.filter_filter]
    exact List.filter_congr fun x _ => Bool.and_comm _ _
  have hsplit : (l.filter p).length = ((l.take k).filter p).length + ((l.drop k).filter p).length := by
    rw [← List.length_append, ← List.filter_append, List.take_append_drop]
  have hq : (((l.take k).filter p).filter q).length = ((l.take k).filter p).length ↔
      ∀ x ∈ l.take k, p x = true → q x = true := by
    rw [List.length_filter_eq_length_iff]
    simp only [List.mem_filter, and_imp]
  have hp : ((l.take k).filter p).length = (l.take k).length ↔ ∀ x ∈ l.take k, p x = true :=
    List.length_filter_eq_length_iff
  have hdrop : ((l.drop k).filter p).length = 0 ↔ ∀ x ∈ l.drop k, p x = false := by
    rw [List.length_eq_zero_iff, List.filter_eq_nil_iff]
    simp only [Bool.not_eq_true]
  have hle := List.length_filter_le q ((l.take k).filter p)
  have hle' := List.length_filter_le p (l.take k)
  have htake : (l.take k).length = min k l.length := List.length_take
  have hrest : ((l.drop k).filter p).length ≤ l.length - k := by
    rw [← List.length_drop]
    exact List.length_filter_le p _
  rw [hboth, hsplit, ← hq, ← hp, ← hdrop]
  omega

end

/-! ### Runs of the handler -/

/-- The rows that are to be migrated. -/
def migratable (w : World) : List Transactions := w.transactions.rows.filter isMigratable

/-- Those of them that are cancelled later. -/
def marked (w w' : World) : List Transactions :=
  (migratable w).filter fun row => (w'.transactions.find? row.id).any fun row' => row'.cancelledAt.isSome

/-- A failure-free run of the handler. -/
def Handles (w w' : World) : Prop := Runs World.effect w handler (.ok ()) w'

/-- In the order of the query, the migratable rows up to the limit are convertible, and no other
row takes a place up to the limit from a migratable one. -/
structure Fits (limit : ℕ) (l : List Transactions) : Prop where
  convertible : ∀ row ∈ l.take limit, isMigratable row = true → Convertible row
  places : (∀ row ∈ l.take limit, isMigratable row = true) ∨ ∀ row ∈ l.drop limit, isMigratable row = false

/-- Whatever order the rows with equal nonces are in. -/
def Fitting (w : World) : Prop :=
  ∀ l, IsOrder isSent nonceLE w.transactions.rows l → Fits w.config.maxTxsToUpdate l

/-- `n` failure-free runs of the handler, each from a state that fits. -/
inductive After (w : World) : ℕ → World → Prop
  | zero : After w 0 w
  | succ {n : ℕ} {w₁ w' : World} (h : After w n w₁) (hfit : Fitting w₁) (hrun : Handles w₁ w') : After w (n + 1) w'

section
variable {w w' w₁ : World} {row : Transactions} {l l' : List Transactions} {ids ids' : List String}

theorem isSent_of_isMigratable (h : isMigratable row = true) : isSent row = true := by
  simp only [isMigratable, Bool.and_eq_true] at h
  obtain ⟨⟨⟨⟨⟨⟨⟨⟨⟨hsent, hmined⟩, hcancelled⟩, herror⟩, -⟩, -⟩, -⟩, -⟩, -⟩, -⟩ := h
  simp only [isSent, isOpen, Bool.and_eq_true]
  exact ⟨hsent, ⟨hmined, hcancelled⟩, herror⟩

theorem cancelledAt_of_isMigratable (h : isMigratable row = true) : row.cancelledAt = none := by
  have hsent := isSent_of_isMigratable h
  simp only [isSent, isOpen, Bool.and_eq_true, Option.isNone_iff_eq_none] at hsent
  exact hsent.2.1.2

theorem mem_rows_of_order {p : Transactions → Bool} {le : Transactions → Transactions → Bool}
    (h : IsOrder p le w.transactions.rows l) : row ∈ l ↔ row ∈ w.transactions.rows ∧ p row = true := by
  rw [h.1.mem_iff, List.mem_filter]

/-- An id of the first rows is that of one of them only. -/
theorem mem_idsOf {p ok : Transactions → Bool} {le : Transactions → Transactions → Bool} {limit : ℕ}
    (h : IsOrder p le w.transactions.rows l) (hrow : row ∈ w.transactions.rows) :
    row.id ∈ idsOf ok (l.take limit) ↔ row ∈ l.take limit ∧ ok row = true := by
  unfold idsOf
  rw [List.mem_map]
  constructor
  · intro hid
    obtain ⟨row', hrow', hid⟩ := hid
    obtain ⟨hmem, hok⟩ := List.mem_filter.mp hrow'
    have hrows := ((mem_rows_of_order h).mp (List.mem_of_mem_take hmem)).1
    obtain rfl := w.transactions.eq_of_key_eq hrows hrow hid
    exact ⟨hmem, hok⟩
  · intro hmem
    exact ⟨row, List.mem_filter.mpr hmem, rfl⟩

/-- The row of an id after both cancellations. -/
theorem find?_of_cancels (h : Cancels w w₁ ids) (h' : Cancels w₁ w' ids') (hrow : row ∈ w.transactions.rows) :
    ∃ now now', w'.transactions.find? row.id =
      some (World.cancelRow ids' now' (World.cancelRow ids now row)) := by
  obtain ⟨now, hrows, -⟩ := h
  obtain ⟨now', hrows', -⟩ := h'
  refine ⟨now, now', Keyset.Table.find?_eq_some.mpr ⟨?_, ?_⟩⟩
  · rw [hrows', hrows]
    exact List.mem_map_of_mem (List.mem_map_of_mem hrow)
  · rw [World.id_cancelRow, World.id_cancelRow]

theorem cancelRow_of_mem {now : ℕ} (h : row.id ∈ ids) :
    World.cancelRow ids now row = { row with cancelledAt := some now } := if_pos h

theorem cancelRow_of_not_mem {now : ℕ} (h : row.id ∉ ids) : World.cancelRow ids now row = row := if_neg h

theorem sentAt_cancelRow {now : ℕ} : (World.cancelRow ids now row).sentAt = row.sentAt := by
  unfold World.cancelRow
  split_ifs <;> rfl

/-- The ids that the first transaction of a run cancels. -/
def sentIds (w : World) (l : List Transactions) : List String :=
  idsOf (fun row => isOk (toSentTransaction row)) (l.take w.config.maxTxsToUpdate)

/-- And those that the second one does. -/
def queuedIds (w : World) (l : List Transactions) : List String :=
  idsOf (fun row => isOk (toQueuedTransaction row)) (l.take w.config.maxTxsToProcess)

/-- The two transactions of a run, with the orders of their queries. -/
structure Ran (w w₁ w' : World) (l l' : List Transactions) : Prop where
  order : IsOrder isSent nonceLE w.transactions.rows l
  cancels : Cancels w w₁ (sentIds w l)
  queuedOrder : IsOrder isQueued queuedAtLE w₁.transactions.rows l'
  queuedCancels : Cancels w₁ w' (queuedIds w₁ l')

theorem Handles.ran (h : Handles w w') : ∃ w₁ l l', Ran w w₁ w' l l' := by
  obtain ⟨_, w₁, hsent, hqueued⟩ := runs_bind_ok.mp h
  obtain ⟨-, l, hl, hcancels⟩ := runs_migrateTransactions selects_sent rounds_migrateSentRow hsent
  obtain ⟨-, l', hl', hcancels'⟩ := runs_migrateTransactions selects_queued rounds_migrateQueuedRow hqueued
  exact ⟨w₁, l, l', hl, hcancels, hl', hcancels'⟩

private theorem queuedAtLE_trans (a b c : Transactions) (hab : queuedAtLE a b = true) (hbc : queuedAtLE b c = true) :
    queuedAtLE a c = true :=
  decide_eq_true (le_trans (of_decide_eq_true hab) (of_decide_eq_true hbc))

private theorem queuedAtLE_total (a b : Transactions) : (queuedAtLE a b || queuedAtLE b a) = true := by
  simp only [queuedAtLE, Bool.or_eq_true, decide_eq_true_eq]
  exact le_total _ _

/-- Every order of the sent rows can be that of a run. -/
theorem exists_ran (hl : IsOrder isSent nonceLE w.transactions.rows l) :
    ∃ w₁ w' l', Handles w w' ∧ Ran w w₁ w' l l' := by
  obtain ⟨w₁, hsent, hcancels⟩ := exists_migrateTransactions selects_sent rounds_migrateSentRow hl
  have hl' : IsOrder isQueued queuedAtLE w₁.transactions.rows
      ((w₁.transactions.rows.filter isQueued).mergeSort queuedAtLE) :=
    ⟨List.mergeSort_perm _ _, List.pairwise_mergeSort queuedAtLE_trans queuedAtLE_total _⟩
  obtain ⟨w', hqueued, hcancels'⟩ := exists_migrateTransactions selects_queued rounds_migrateQueuedRow hl'
  exact ⟨w₁, w', _, runs_bind_ok.mpr ⟨(), w₁, hsent, hqueued⟩, hl, hcancels, hl', hcancels'⟩

/-- A sent row is not among those that the second transaction cancels. -/
theorem Ran.not_mem_queuedIds (h : Ran w w₁ w' l l') (hrow : row ∈ w.transactions.rows)
    (hsent : row.sentAt.isSome = true) :
    row.id ∉ queuedIds w₁ l' := by
  intro hid
  obtain ⟨now, hrows, -⟩ := h.cancels
  have hmem : World.cancelRow (sentIds w l) now row ∈ w₁.transactions.rows := by
    rw [hrows]
    exact List.mem_map_of_mem hrow
  rw [← World.id_cancelRow (sentIds w l) now row] at hid
  have hfirst := List.mem_of_mem_take ((mem_idsOf h.queuedOrder hmem).mp hid).1
  have hqueued := ((mem_rows_of_order h.queuedOrder).mp hfirst).2
  simp only [isQueued, Bool.and_eq_true, Option.isNone_iff_eq_none, sentAt_cancelRow] at hqueued
  rw [hqueued.1] at hsent
  cases hsent

/-- A migratable row is cancelled when it is among the first ones of the order and converted. -/
theorem Ran.cancelled_iff (h : Ran w w₁ w' l l') (hrow : row ∈ w.transactions.rows) (hm : isMigratable row = true) :
    ((w'.transactions.find? row.id).any fun row' => row'.cancelledAt.isSome) = true ↔
      row ∈ l.take w.config.maxTxsToUpdate ∧ isOk (toSentTransaction row) = true := by
  obtain ⟨now, now', hfind⟩ := find?_of_cancels h.cancels h.queuedCancels hrow
  have hnot := h.not_mem_queuedIds hrow (fields_of_isMigratable hm).sentAt
  rw [← World.id_cancelRow (sentIds w l) now row] at hnot
  rw [hfind, Option.any_some, cancelRow_of_not_mem hnot]
  have hids : row.id ∈ sentIds w l ↔ row ∈ l.take w.config.maxTxsToUpdate ∧ isOk (toSentTransaction row) = true :=
    mem_idsOf h.order hrow
  rw [← hids]
  constructor
  · intro hcancelled
    by_contra hmem
    rw [cancelRow_of_not_mem hmem, cancelledAt_of_isMigratable hm] at hcancelled
    cases hcancelled
  · intro hmem
    rw [cancelRow_of_mem hmem]
    rfl

/-- The marked rows are the convertible ones among the first of the order. -/
theorem Ran.length_marked (h : Ran w w₁ w' l l') : (marked w w').length =
    ((l.take w.config.maxTxsToUpdate).filter fun row => isMigratable row && isOk (toSentTransaction row)).length := by
  have hrows : w.transactions.rows.Nodup := List.Nodup.of_map _ w.transactions.unique
  have hlist : l.Nodup := h.order.1.nodup_iff.mpr (hrows.filter _)
  have hfirst : (l.take w.config.maxTxsToUpdate).Nodup := hlist.sublist (List.take_sublist _ _)
  apply List.Perm.length_eq
  refine (List.perm_ext_iff_of_nodup ((hrows.filter _).filter _) (hfirst.filter _)).mpr fun row => ?_
  simp only [List.mem_filter, Bool.and_eq_true]
  constructor
  · intro hmarked
    obtain ⟨⟨hrow, hm⟩, hcancelled⟩ := hmarked
    obtain ⟨hmem, hok⟩ := (h.cancelled_iff hrow hm).mp hcancelled
    exact ⟨hmem, hm, hok⟩
  · intro hmarked
    obtain ⟨hmem, hm, hok⟩ := hmarked
    have hrow := ((mem_rows_of_order h.order).mp (List.mem_of_mem_take hmem)).1
    exact ⟨⟨hrow, hm⟩, (h.cancelled_iff hrow hm).mpr ⟨hmem, hok⟩⟩

theorem length_migratable (hl : IsOrder isSent nonceLE w.transactions.rows l) :
    (migratable w).length = (l.filter isMigratable).length := by
  have hperm := (hl.1.filter isMigratable).length_eq
  rw [hperm, List.filter_filter]
  unfold migratable
  congr 1
  refine List.filter_congr fun row _ => ?_
  cases hm : isMigratable row with
  | false => rfl
  | true => rw [isSent_of_isMigratable hm, Bool.and_self]

private theorem isOk_iff (hm : isMigratable row = true) : isOk (toSentTransaction row) = true ↔ Convertible row := by
  rw [← exists_toSentTransaction_iff hm]
  unfold isOk
  cases toSentTransaction row <;> simp

/-- A run marks the number of rows that it should, in an order, exactly when the order fits. -/
theorem fits_iff {limit : ℕ} : Fits limit l ↔
    ((l.take limit).filter fun row => isMigratable row && isOk (toSentTransaction row)).length =
      min (l.filter isMigratable).length limit := by
  rw [length_filter_take_eq_min]
  constructor
  · intro h
    exact ⟨fun row hrow hm => (isOk_iff hm).mpr (h.convertible row hrow hm), h.places⟩
  · intro h
    obtain ⟨hconvertible, hplaces⟩ := h
    exact ⟨fun row hrow hm => (isOk_iff hm).mp (hconvertible row hrow hm), hplaces⟩

/-- A run marks as many migratable rows as it can, whatever the order, exactly when the table fits. -/
theorem marked_iff_fitting : (∀ w', Handles w w' →
    (marked w w').length = min (migratable w).length w.config.maxTxsToUpdate) ↔ Fitting w := by
  constructor
  · intro h l hl
    obtain ⟨w₁, w', l', hrun, hran⟩ := exists_ran hl
    rw [fits_iff, ← hran.length_marked, ← length_migratable hl]
    exact h w' hrun
  · intro h w' hrun
    obtain ⟨w₁, l, l', hran⟩ := hrun.ran
    rw [hran.length_marked, length_migratable hran.order]
    exact fits_iff.mp (h l hran.order)

/-! ### Run after run -/

theorem Ran.config_eq (h : Ran w w₁ w' l l') : w'.config = w.config := by
  obtain ⟨_, _, hconfig⟩ := h.cancels
  obtain ⟨_, _, hconfig'⟩ := h.queuedCancels
  exact hconfig'.trans hconfig

/-- Cancelling makes no row migratable, and leaves what it does not cancel. -/
theorem isMigratable_cancelRow {now : ℕ} : isMigratable (World.cancelRow ids now row) =
    (isMigratable row && decide (row.id ∉ ids)) := by
  unfold World.cancelRow
  split_ifs with hid
  · simp [isMigratable, hid]
  · simp [hid]

/-- What is left is what was migratable and is not marked. -/
theorem Ran.length_left (h : Ran w w₁ w' l l') :
    (migratable w').length + (marked w w').length = (migratable w).length := by
  obtain ⟨now, hrows, -⟩ := h.cancels
  obtain ⟨now', hrows', -⟩ := h.queuedCancels
  have hrow : ∀ row ∈ w.transactions.rows,
      isMigratable (World.cancelRow (queuedIds w₁ l') now' (World.cancelRow (sentIds w l) now row)) =
        (!((w'.transactions.find? row.id).any fun row' => row'.cancelledAt.isSome) && isMigratable row) := by
    intro row hrow
    rw [isMigratable_cancelRow, isMigratable_cancelRow, World.id_cancelRow]
    cases hm : isMigratable row with
    | false => simp
    | true =>
      have hnot := h.not_mem_queuedIds hrow (fields_of_isMigratable hm).sentAt
      have hids : row.id ∈ sentIds w l ↔ row ∈ l.take w.config.maxTxsToUpdate ∧ isOk (toSentTransaction row) = true :=
        mem_idsOf h.order hrow
      have hcancelled := (h.cancelled_iff hrow hm).trans hids.symm
      cases hany : (w'.transactions.find? row.id).any fun row' => row'.cancelledAt.isSome with
      | true =>
        have hid : row.id ∈ sentIds w l := hcancelled.mp hany
        simp [hid]
      | false =>
        have hid : row.id ∉ sentIds w l := by
          intro hid
          rw [hcancelled.mpr hid] at hany
          cases hany
        simp [hid, hnot]
  have hleft : migratable w' = ((migratable w).filter fun row =>
      !((w'.transactions.find? row.id).any fun row' => row'.cancelledAt.isSome)).map fun row =>
        World.cancelRow (queuedIds w₁ l') now' (World.cancelRow (sentIds w l) now row) := by
    unfold migratable
    rw [List.filter_filter, hrows', hrows, List.map_map, List.filter_map]
    exact congrArg _ (List.filter_congr hrow)
  rw [hleft, List.length_map]
  have hsplit := List.length_eq_length_filter_add (l := migratable w)
    fun row => (w'.transactions.find? row.id).any fun row' => row'.cancelledAt.isSome
  rw [hsplit, Nat.add_comm]
  rfl

theorem After.config_eq {n : ℕ} (h : After w n w') : w'.config = w.config := by
  induction h with
  | zero => rfl
  | succ _ _ hrun ih =>
    obtain ⟨w₁, l, l', hran⟩ := hrun.ran
    exact hran.config_eq.trans ih

/-- Every run from a state that fits takes its share, so that finitely many migrate all. -/
theorem After.length_left {n : ℕ} (h : After w n w') :
    (migratable w').length = (migratable w).length - n * w.config.maxTxsToUpdate := by
  induction h with
  | zero => omega
  | @succ n w₁ w' h hfit hrun ih =>
    obtain ⟨_, l, l', hran⟩ := hrun.ran
    have hleft := hran.length_left
    have hmarked := marked_iff_fitting.mpr hfit w' hrun
    rw [h.config_eq] at hmarked
    rw [Nat.add_mul, Nat.one_mul]
    omega

/-- A migratable row becomes its record exactly when it is convertible and its chain id is a decimal
number. A failure-free run marks as many of the migratable rows as it can exactly when the table
fits, and runs from tables that fit migrate them all. -/
theorem migrates_iff (row : Transactions) (w : World) :
    (isMigratable row = true → ((∃ t, toSentTransaction row = .ok t ∧ IsRecordOf row t) ↔
      Convertible row ∧ ∃ chainId : ℕ, row.chainId.toList = Nat.toDigits 10 chainId)) ∧
    ((∀ w', Handles w w' → (marked w w').length = min (migratable w).length w.config.maxTxsToUpdate) ↔
      Fitting w) ∧
    ∀ n w', After w n w' → (migratable w').length = (migratable w).length - n * w.config.maxTxsToUpdate :=
  ⟨exists_record_iff, marked_iff_fitting, fun _ _ h => h.length_left⟩

end

/-- A sent row of an EOA with the given nonce. -/
def sentRow (nonce : ℤ) : Transactions where
  id := "id" ++ toString nonce
  idempotencyKey := "key" ++ toString nonce
  chainId := "137"
  data := some "0x01"
  value := some "5"
  nonce := some nonce
  fromAddress := some "0xAb"
  toAddress := some "0xCd"
  transactionHash := some "0xef"
  queuedAt := 1
  sentAt := some 2
  sentAtBlockNumber := some 7

theorem convertible_sentRow {nonce : ℤ} (h : nonce ≠ 0) : Convertible (sentRow nonce) := by
  have hone : Convertible (sentRow 1) := by constructor <;> decide +kernel
  exact { hone with nonce := fun hzero => h (Option.some.inj hzero) }

/-- Three rows that are to be migrated and a cancelled one, with room for two. -/
def fourRows : World where
  transactions := ⟨[sentRow 3, { sentRow 4 with cancelledAt := some 3 }, sentRow 1, sentRow 2], by decide +kernel⟩
  config := { maxTxsToUpdate := 2, maxTxsToProcess := 2 }

private theorem fitting_fourRows : Fitting fourRows := by
  have hfilter : fourRows.transactions.rows.filter isSent = [sentRow 3, sentRow 1, sentRow 2] := by decide +kernel
  intro l hl
  have hrows : ∀ row ∈ l, ∃ nonce, nonce ≠ 0 ∧ isMigratable (sentRow nonce) = true ∧ row = sentRow nonce := by
    intro row hrow
    have hmem := hl.1.mem_iff.mp hrow
    rw [hfilter] at hmem
    simp only [List.mem_cons, List.not_mem_nil, or_false] at hmem
    rcases hmem with rfl | rfl | rfl
    · exact ⟨3, by decide, by decide +kernel, rfl⟩
    · exact ⟨1, by decide, by decide +kernel, rfl⟩
    · exact ⟨2, by decide, by decide +kernel, rfl⟩
  constructor
  · intro row hrow _
    obtain ⟨nonce, hne, -, rfl⟩ := hrows row (List.mem_of_mem_take hrow)
    exact convertible_sentRow hne
  · refine Or.inl fun row hrow => ?_
    obtain ⟨nonce, -, hm, rfl⟩ := hrows row (List.mem_of_mem_take hrow)
    exact hm

/-- A run migrates two of the three rows. -/
theorem migrates_iff_fourRows : (∃ t, toSentTransaction (sentRow 1) = .ok t ∧ IsRecordOf (sentRow 1) t) ∧
    ∃ w', After fourRows 1 w' ∧ (marked fourRows w').length = 2 ∧ (migratable w').length = 1 := by
  obtain ⟨hrecord, hmarks, hleft⟩ := migrates_iff (sentRow 1) fourRows
  have hthree : (migratable fourRows).length = 3 := by decide +kernel
  have horder : IsOrder isSent nonceLE fourRows.transactions.rows [sentRow 1, sentRow 2, sentRow 3] := by
    decide +kernel
  constructor
  · refine (hrecord (by decide +kernel)).mpr ⟨convertible_sentRow (by decide), 137, ?_⟩
    decide +kernel
  · obtain ⟨_, w', _, hrun, -⟩ := exists_ran horder
    have hafter : After fourRows 1 w' := .succ .zero fitting_fourRows hrun
    refine ⟨w', hafter, ?_, ?_⟩
    · rw [hmarks.mpr fitting_fourRows w' hrun, hthree]
      rfl
    · rw [hleft 1 w' hafter, hthree]
      rfl

/-- The rows of a wallet's first two transactions, and room for one of them. -/
def firstNonces : World where
  transactions := ⟨[sentRow 0, sentRow 1], by decide +kernel⟩
  config := { maxTxsToUpdate := 1, maxTxsToProcess := 1 }

/-- The row with nonce 0 is not converted, and keeps the other one from being migrated. -/
theorem not_migrates :
    (¬ ∀ row, isMigratable row = true → ∃ t, toSentTransaction row = .ok t ∧ IsRecordOf row t) ∧
    ¬ ∀ w w', Handles w w' → (marked w w').length = min (migratable w).length w.config.maxTxsToUpdate := by
  have hm : isMigratable (sentRow 0) = true := by decide +kernel
  have hnonce : ¬ Convertible (sentRow 0) := fun h => h.nonce rfl
  constructor
  · intro hgeneral
    obtain ⟨t, ht, -⟩ := hgeneral (sentRow 0) hm
    exact hnonce ((exists_toSentTransaction_iff hm).mp ⟨t, ht⟩)
  · intro hgeneral
    have hfits := marked_iff_fitting.mp (hgeneral firstNonces)
    have horder : IsOrder isSent nonceLE firstNonces.transactions.rows [sentRow 0, sentRow 1] := by decide +kernel
    exact hnonce ((hfits _ horder).convertible (sentRow 0) List.mem_cons_self hm)

end Engine.Migration
