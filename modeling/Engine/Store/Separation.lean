import Engine.Store.TransactionDB

/-! The records and the status indexes as separate tables, and the queue ids for which the
keys keep them separate. -/
namespace Engine
open Redis Function TransactionDB

/-- What the database is for: records by queue id, and one index for each status. -/
structure Tables where
  records : QueueId → Option Transaction
  index : Index → ZSet QueueId

namespace Tables

def empty : Tables := ⟨fun _ => none, fun _ => .empty⟩

/-- How many records there were under the ids, and the others. -/
def delete (records : QueueId → Option Transaction) : List QueueId → ℕ × (QueueId → Option Transaction)
  | [] => (0, records)
  | q :: qs => ((delete (update records q none) qs).1 + (if (records q).isSome then 1 else 0),
      (delete (update records q none) qs).2)

def addToIndex (index : Index → ZSet QueueId) (timestamp : ℤ) (t : Transaction) : Index → ZSet QueueId :=
  match indexOf t.status with
  | some i => update index i ((index i).insert timestamp t.queueId)
  | none => index

/-- The ids of which a call deletes the records. -/
def deletes (t : Tables) : DbCall → List QueueId
  | .bulkDelete qs => qs
  | .prune keep => ZSet.range (t.index .queued).members 0 (-keep - 1)
  | _ => []

def step (t : Tables) : DbCall → DbReply × Tables
  | .set r timestamp => (.done, ⟨update t.records r.queueId (some r), addToIndex t.index timestamp r⟩)
  | .get q => (.transaction (t.records q), t)
  | .exists q => (.exists (t.records q).isSome, t)
  | .bulkGet qs => (.transactions (qs.filterMap t.records), t)
  | .bulkDelete qs => (.number (delete t.records qs).1, ⟨(delete t.records qs).2, t.index⟩)
  | .list status page limit =>
    let start := (page - 1) * limit
    (.page ((ZSet.range (t.index status).members.reverse start (start + limit - 1)).filterMap t.records)
      (t.index status).elems.length, t)
  | .prune keep =>
    (.number (delete t.records (t.deletes (.prune keep))).1,
      ⟨(delete t.records (t.deletes (.prune keep))).2, fun i => (t.index i).removeRange 0 (-keep - 1)⟩)

def run (t : Tables) : List DbCall → List DbReply × Tables
  | [] => ([], t)
  | c :: cs => ((t.step c).1 :: (run (t.step c).2 cs).1, (run (t.step c).2 cs).2)

end Tables

def DbCall.sets (q : QueueId) : DbCall → Bool
  | .set t _ => t.queueId == q
  | _ => false

/-- `set` was called for `q`, and its record was not deleted since. -/
def keptAfter (q : QueueId) : Tables → Bool → List DbCall → Bool
  | _, kept, [] => kept
  | t, kept, c :: cs => keptAfter q (t.step c).2 (c.sets q || (kept && decide (q ∉ t.deletes c))) cs

/-- Whatever is done with these queue ids, the records and the indexes do not interfere: all
replies and all indexes are those of separate tables, and exactly the ids that were set and
not deleted since exist. -/
def Separated (batchSize : ℕ+) (ids : Set QueueId) : Prop :=
  ∀ calls : List DbCall, (∀ c ∈ calls, ∀ q ∈ c.ids, q ∈ ids) →
    (Store.run batchSize (fun _ => none) calls).1 = (Tables.empty.run calls).1.map .ok ∧
    (∀ i, (Store.run batchSize (fun _ => none) calls).2.zset (indexKey i) = .ok ((Tables.empty.run calls).2.index i)) ∧
    ∀ q ∈ ids, TransactionDB.exists q (Store.run batchSize (fun _ => none) calls).2 = keptAfter q .empty false calls

/-- The ids whose record key is the key of an index. -/
def reservedIds : List QueueId := ["queued", "mined", "cancelled", "errored"]

section
variable {batchSize : ℕ+} {s : Store} {t : Tables} {ids : Set QueueId} {q : QueueId} {i : Index}

theorem transactionDetailsKey_inj {q q' : QueueId} :
    transactionDetailsKey q = transactionDetailsKey q' ↔ q = q' := String.append_right_inj _

/-- The status name of an index. -/
def Index.name : Index → QueueId
  | .queued => "queued"
  | .mined => "mined"
  | .cancelled => "cancelled"
  | .errored => "errored"

theorem indexKey_eq (i : Index) : indexKey i = transactionDetailsKey i.name := by
  cases i <;> decide

theorem name_mem_reservedIds (i : Index) : i.name ∈ reservedIds := by
  cases i <;> decide

theorem exists_name_of_mem (h : q ∈ reservedIds) : ∃ i : Index, i.name = q := by
  simp only [reservedIds, List.mem_cons, List.not_mem_nil, or_false] at h
  rcases h with rfl | rfl | rfl | rfl
  · exact ⟨.queued, rfl⟩
  · exact ⟨.mined, rfl⟩
  · exact ⟨.cancelled, rfl⟩
  · exact ⟨.errored, rfl⟩

theorem indexKey_ne (h : q ∉ reservedIds) (i : Index) : transactionDetailsKey q ≠ indexKey i := by
  rw [indexKey_eq, Ne, transactionDetailsKey_inj]
  intro hq
  exact h (hq ▸ name_mem_reservedIds i)

theorem indexKey_inj {i j : Index} : indexKey i = indexKey j ↔ i = j := by
  cases i <;> cases j <;> decide

/-! ### The store represents the tables -/

/-- The records of `ids` are stored as the tables have them. -/
def RecordsOf (ids : Set QueueId) (s : Store) (records : QueueId → Option Transaction) : Prop :=
  ∀ q ∈ ids, s (transactionDetailsKey q) = (records q).map .string

structure Represents (ids : Set QueueId) (s : Store) (t : Tables) : Prop where
  records : RecordsOf ids s t.records
  indexes : ∀ i, s.zset (indexKey i) = .ok (t.index i)
  members : ∀ i, ∀ q ∈ (t.index i).members, q ∈ ids

theorem batches_flatten {α : Type} (size : ℕ+) (fuel : ℕ) (l : List α) (h : l.length ≤ fuel) :
    (batches size fuel l).flatten = l := by
  induction fuel generalizing l with
  | zero =>
    obtain rfl : l = [] := List.eq_nil_of_length_eq_zero (Nat.le_zero.mp h)
    rfl
  | succ fuel ih =>
    cases l with
    | nil => rfl
    | cons a l =>
      have hpos := size.pos
      have hdrop : ((a :: l).drop size).length ≤ fuel := by
        rw [List.length_drop]
        simp only [List.length_cons] at h ⊢
        omega
      simp only [batches, List.flatten_cons]
      rw [ih _ hdrop, List.take_append_drop]

theorem bulkGet_eq (h : RecordsOf ids s t.records) {qs : List QueueId} (hqs : ∀ q ∈ qs, q ∈ ids) :
    bulkGet batchSize qs s = qs.filterMap t.records := by
  have hget : ∀ l : List QueueId, (∀ q ∈ l, q ∈ ids) →
      (s.mget (l.map transactionDetailsKey)).filterMap id = l.filterMap t.records := by
    intro l hl
    simp only [Keyspace.mget, List.map_map, List.filterMap_map]
    refine List.filterMap_congr fun q hq => ?_
    simp only [comp_apply, id_eq, h q (hl q hq)]
    cases t.records q <;> rfl
  have hmem : ∀ l ∈ batches batchSize qs.length qs, ∀ q ∈ l, q ∈ ids := by
    intro l hl q hq
    refine hqs q ?_
    rw [← batches_flatten batchSize qs.length qs (Nat.le_refl _)]
    exact List.mem_flatten.mpr ⟨l, hl, hq⟩
  unfold bulkGet
  rw [List.flatMap_congr fun l hl => hget l (hmem l hl)]
  rw [List.flatMap_def, ← List.filterMap_flatten, batches_flatten batchSize qs.length qs (Nat.le_refl _)]

theorem unlinkBatches_eq (bs : List (List QueueId)) (s : Store) :
    unlinkBatches bs s = s.unlink (bs.flatten.map transactionDetailsKey) := by
  have happend : ∀ (ks ks' : List String) (s : Store), s.unlink (ks ++ ks') =
      ((s.unlink ks).1 + ((s.unlink ks).2.unlink ks').1, ((s.unlink ks).2.unlink ks').2) := by
    intro ks ks'
    induction ks with
    | nil =>
      intro s
      simp [Keyspace.unlink]
    | cons k ks ih =>
      intro s
      simp only [List.cons_append, Keyspace.unlink, ih]
      exact Prod.ext (by omega) rfl
  induction bs generalizing s with
  | nil => rfl
  | cons b bs ih => simp only [unlinkBatches, List.flatten_cons, List.map_append, happend, ih]

theorem bulkDelete_eq (qs : List QueueId) (s : Store) :
    bulkDelete batchSize qs s = s.unlink (qs.map transactionDetailsKey) := by
  unfold bulkDelete
  rw [unlinkBatches_eq, batches_flatten batchSize qs.length qs (Nat.le_refl _)]

/-- Deleting records deletes them in both, and the indexes stay. -/
theorem unlink_records (hids : ∀ q ∈ ids, q ∉ reservedIds) {qs : List QueueId} (hqs : ∀ q ∈ qs, q ∈ ids)
    {records : QueueId → Option Transaction} (h : RecordsOf ids s records) :
    (s.unlink (qs.map transactionDetailsKey)).1 = (Tables.delete records qs).1 ∧
      RecordsOf ids (s.unlink (qs.map transactionDetailsKey)).2 (Tables.delete records qs).2 ∧
      ∀ i, (s.unlink (qs.map transactionDetailsKey)).2 (indexKey i) = s (indexKey i) := by
  induction qs generalizing s records with
  | nil => exact ⟨rfl, h, fun _ => rfl⟩
  | cons q qs ih =>
    have hq := hqs q List.mem_cons_self
    have hrec : RecordsOf ids (update s (transactionDetailsKey q) none) (update records q none) := by
      intro q' hq'
      by_cases he : q' = q
      · subst he
        simp
      · have hk : transactionDetailsKey q' ≠ transactionDetailsKey q := fun hk => he (transactionDetailsKey_inj.mp hk)
        rw [update_of_ne hk, update_of_ne he, h q' hq']
    obtain ⟨h1, h2, h3⟩ := ih (fun q' hq' => hqs q' (List.mem_cons_of_mem _ hq')) hrec
    have hexists : s.exists (transactionDetailsKey q) = (records q).isSome := by
      rw [Keyspace.exists, h q hq]
      exact Option.isSome_map
    refine ⟨?_, h2, fun i => ?_⟩
    · simp only [List.map_cons, Keyspace.unlink, Tables.delete, h1, hexists]
    · simp only [List.map_cons, Keyspace.unlink, h3 i]
      exact update_of_ne (indexKey_ne (hids q hq) i).symm _ _

theorem Represents.set (h : Represents ids s t) (hids : ∀ q ∈ ids, q ∉ reservedIds) {r : Transaction}
    (hr : r.queueId ∈ ids) (timestamp : ℤ) :
    Represents ids (TransactionDB.set r timestamp s)
      ⟨update t.records r.queueId (some r), Tables.addToIndex t.index timestamp r⟩ := by
  have hrec : RecordsOf ids (s.set (transactionDetailsKey r.queueId) r) (update t.records r.queueId (some r)) := by
    intro q hq
    by_cases he : q = r.queueId
    · subst he
      simp [Keyspace.set]
    · have hk : transactionDetailsKey q ≠ transactionDetailsKey r.queueId :=
        fun hk => he (transactionDetailsKey_inj.mp hk)
      rw [Keyspace.set, update_of_ne hk, update_of_ne he, h.records q hq]
  have hidx : ∀ i, (s.set (transactionDetailsKey r.queueId) r).zset (indexKey i) = .ok (t.index i) := by
    intro i
    rw [← h.indexes i]
    exact Keyspace.zset_congr (update_of_ne (indexKey_ne (hids _ hr) i).symm _ _)
  unfold TransactionDB.set Tables.addToIndex
  cases indexOf r.status with
  | none => exact ⟨hrec, hidx, h.members⟩
  | some i =>
    refine ⟨fun q hq => ?_, fun j => ?_, fun j q hq => ?_⟩
    · rw [← hrec q hq]
      exact Keyspace.modifyZset_of_ne (indexKey_ne (hids q hq) i)
    · by_cases hj : j = i
      · subst hj
        simp only [update_self]
        exact Keyspace.zset_modifyZset (hidx j)
      · simp only [update_of_ne hj]
        rw [← hidx j]
        exact Keyspace.zset_congr (Keyspace.modifyZset_of_ne fun hk => hj (indexKey_inj.mp hk))
    · by_cases hj : j = i
      · subst hj
        simp only [update_self] at hq
        rcases ZSet.mem_members_insert.mp hq with rfl | hq
        · exact hr
        · exact h.members j q hq
      · simp only [update_of_ne hj] at hq
        exact h.members j q hq

theorem mem_of_mem_range {α : Type} {l : List α} {a b : ℤ} {x : α} (h : x ∈ ZSet.range l a b) : x ∈ l :=
  List.mem_of_mem_take (List.mem_of_mem_drop h)

/-- The four `ZREMRANGEBYRANK`s of a pruning. -/
theorem zremrange_all {start stop : ℤ} (h : ∀ i, s.zset (indexKey i) = .ok (t.index i)) (s' : Store)
    (hs' : s' = (((s.zremrangebyrank (indexKey .queued) start stop).zremrangebyrank (indexKey .mined) start stop
      ).zremrangebyrank (indexKey .cancelled) start stop).zremrangebyrank (indexKey .errored) start stop) :
    (∀ i, s'.zset (indexKey i) = .ok ((t.index i).removeRange start stop)) ∧
      ∀ k, (∀ i, k ≠ indexKey i) → s' k = s k := by
  have hkeep : ∀ (s : Store) (i j : Index), i ≠ j →
      (s.zremrangebyrank (indexKey j) start stop).zset (indexKey i) = s.zset (indexKey i) := fun s i j hij =>
    Keyspace.zset_congr (Keyspace.modifyZset_of_ne fun hk => hij (indexKey_inj.mp hk))
  have hdone : ∀ (s : Store) (i : Index), s.zset (indexKey i) = .ok (t.index i) →
      (s.zremrangebyrank (indexKey i) start stop).zset (indexKey i) = .ok ((t.index i).removeRange start stop) :=
    fun s i hi => Keyspace.zset_modifyZset hi
  subst hs'
  constructor
  · intro i
    cases i with
    | queued =>
      rw [hkeep _ _ _ (by decide), hkeep _ _ _ (by decide), hkeep _ _ _ (by decide)]
      exact hdone _ _ (h .queued)
    | mined =>
      rw [hkeep _ _ _ (by decide), hkeep _ _ _ (by decide)]
      refine hdone _ _ ?_
      rw [hkeep _ _ _ (by decide), h]
    | cancelled =>
      rw [hkeep _ _ _ (by decide)]
      refine hdone _ _ ?_
      rw [hkeep _ _ _ (by decide), hkeep _ _ _ (by decide), h]
    | errored =>
      refine hdone _ _ ?_
      rw [hkeep _ _ _ (by decide), hkeep _ _ _ (by decide), hkeep _ _ _ (by decide), h]
  · intro k hk
    unfold Keyspace.zremrangebyrank
    rw [Keyspace.modifyZset_of_ne (hk _), Keyspace.modifyZset_of_ne (hk _), Keyspace.modifyZset_of_ne (hk _),
      Keyspace.modifyZset_of_ne (hk _)]

theorem Represents.prune (h : Represents ids s t) (hids : ∀ q ∈ ids, q ∉ reservedIds) (keep : ℤ) :
    (s.step batchSize (.prune keep)).1 = .ok (t.step (.prune keep)).1 ∧
      Represents ids (s.step batchSize (.prune keep)).2 (t.step (.prune keep)).2 := by
  have holdest : s.zrange (indexKey .queued) 0 (-keep - 1) = .ok (t.deletes (.prune keep)) := by
    rw [Keyspace.zrange, h.indexes .queued]
    rfl
  have hqs : ∀ q ∈ t.deletes (.prune keep), q ∈ ids := fun q hq => h.members .queued q (mem_of_mem_range hq)
  obtain ⟨hn, hrec, hidx⟩ := unlink_records hids hqs h.records
  simp only [Store.step, pruneTransactionDetailsAndLists, holdest, bulkDelete_eq]
  have hzset : ∀ i,
      (s.unlink ((t.deletes (.prune keep)).map transactionDetailsKey)).2.zset (indexKey i) = .ok (t.index i) :=
    fun i => (Keyspace.zset_congr (hidx i)).trans (h.indexes i)
  obtain ⟨hz, hother⟩ := zremrange_all hzset _ rfl
  refine ⟨?_, fun q hq => ?_, hz, fun i q hq => ?_⟩
  · rw [hn]
    rfl
  · rw [hother _ fun i => indexKey_ne (hids q hq) i]
    exact hrec q hq
  · exact h.members i q (ZSet.mem_members_of_removeRange hq)

/-- One call does in the store what it does in the tables. -/
theorem Represents.step (h : Represents ids s t) (hids : ∀ q ∈ ids, q ∉ reservedIds) {c : DbCall}
    (hc : ∀ q ∈ c.ids, q ∈ ids) : (s.step batchSize c).1 = .ok (t.step c).1 ∧
      Represents ids (s.step batchSize c).2 (t.step c).2 := by
  cases c with
  | set r timestamp => exact ⟨rfl, h.set hids (hc _ List.mem_cons_self) timestamp⟩
  | get q =>
    refine ⟨?_, h⟩
    simp only [Store.step, TransactionDB.get, Keyspace.get, h.records q (hc q List.mem_cons_self), Tables.step]
    cases t.records q <;> rfl
  | «exists» q =>
    refine ⟨?_, h⟩
    simp only [Store.step, TransactionDB.exists, Keyspace.exists, h.records q (hc q List.mem_cons_self), Tables.step,
      Option.isSome_map]
  | bulkGet qs =>
    have hqs : ∀ q ∈ qs, q ∈ ids := hc
    refine ⟨?_, h⟩
    simp only [Store.step, Tables.step, bulkGet_eq h.records hqs]
  | bulkDelete qs =>
    have hqs : ∀ q ∈ qs, q ∈ ids := hc
    obtain ⟨hn, hrec, hidx⟩ := unlink_records hids hqs h.records
    simp only [Store.step, Tables.step, bulkDelete_eq, hn]
    exact ⟨trivial, hrec, fun i => (Keyspace.zset_congr (hidx i)).trans (h.indexes i), h.members⟩
  | list status page limit =>
    refine ⟨?_, h⟩
    have hmem : ∀ q ∈ ZSet.range (t.index status).members.reverse ((page - 1) * limit)
        ((page - 1) * limit + limit - 1), q ∈ ids :=
      fun q hq => h.members status q (List.mem_reverse.mp (mem_of_mem_range hq))
    have hlist : getTransactionListByStatus batchSize status page limit s = .ok
        ((ZSet.range (t.index status).members.reverse ((page - 1) * limit) ((page - 1) * limit + limit - 1)).filterMap
          t.records, (t.index status).elems.length) := by
      unfold getTransactionListByStatus
      simp only [Keyspace.zrevrange, Keyspace.zcard, h.indexes status]
      rw [← (bulkGet_eq h.records hmem : bulkGet batchSize _ s = _)]
      rfl
    simp only [Store.step, hlist]
    rfl
  | prune keep => exact h.prune hids keep

/-- Whole sequences of calls. -/
theorem Represents.run (h : Represents ids s t) (hids : ∀ q ∈ ids, q ∉ reservedIds) {calls : List DbCall}
    (hcalls : ∀ c ∈ calls, ∀ q ∈ c.ids, q ∈ ids) : (s.run batchSize calls).1 = (t.run calls).1.map .ok ∧
      Represents ids (s.run batchSize calls).2 (t.run calls).2 := by
  induction calls generalizing s t with
  | nil => exact ⟨rfl, h⟩
  | cons c calls ih =>
    obtain ⟨hreply, hstep⟩ : (s.step batchSize c).1 = .ok (t.step c).1 ∧
        Represents ids (s.step batchSize c).2 (t.step c).2 := h.step hids (hcalls c List.mem_cons_self)
    obtain ⟨hreplies, hrun⟩ := ih hstep fun c' hc' => hcalls c' (List.mem_cons_of_mem _ hc')
    exact ⟨by simp only [Store.run, Tables.run, List.map_cons, hreply, hreplies], hrun⟩

theorem represents_empty : Represents ids (fun _ => none) .empty := by
  refine ⟨fun _ _ => rfl, fun _ => rfl, fun i q hq => ?_⟩
  cases hq

/-! ### What exists -/

private theorem delete_apply {records : QueueId → Option Transaction} {qs : List QueueId} :
    (Tables.delete records qs).2 q = if q ∈ qs then none else records q := by
  induction qs generalizing records with
  | nil => simp [Tables.delete]
  | cons q' qs ih =>
    simp only [Tables.delete, ih, List.mem_cons]
    by_cases hq : q = q'
    · subst hq
      simp
    · simp [hq]

theorem isSome_after_step (c : DbCall) : ((t.step c).2.records q).isSome =
    (c.sets q || ((t.records q).isSome && decide (q ∉ t.deletes c))) := by
  cases c with
  | set r timestamp =>
    simp only [Tables.step, DbCall.sets, Tables.deletes, List.not_mem_nil, not_false_eq_true, decide_true,
      Bool.and_true]
    by_cases hq : q = r.queueId
    · subst hq
      simp
    · simp [hq, Ne.symm hq]
  | bulkDelete qs =>
    simp only [Tables.step, DbCall.sets, Tables.deletes, delete_apply, Bool.false_or]
    by_cases hq : q ∈ qs <;> simp [hq]
  | prune keep =>
    simp only [Tables.step, DbCall.sets, delete_apply, Bool.false_or]
    by_cases hq : q ∈ t.deletes (.prune keep) <;> simp [hq]
  | _ => simp [Tables.step, DbCall.sets, Tables.deletes]

theorem isSome_after_run (calls : List DbCall) :
    ((t.run calls).2.records q).isSome = keptAfter q t (t.records q).isSome calls := by
  induction calls generalizing t with
  | nil => rfl
  | cons c calls ih => rw [Tables.run, ih, keptAfter, isSome_after_step]

theorem separated_of_not_reserved (hids : ∀ q ∈ ids, q ∉ reservedIds) : Separated batchSize ids := by
  intro calls hcalls
  have hempty : Represents ids (fun _ => none) .empty := represents_empty
  obtain ⟨hreplies, hrun⟩ : (Store.run batchSize (fun _ => none) calls).1 = (Tables.run .empty calls).1.map .ok ∧
      Represents ids (Store.run batchSize (fun _ => none) calls).2 (Tables.run .empty calls).2 := hempty.run hids hcalls
  refine ⟨hreplies, hrun.indexes, fun q hq => ?_⟩
  rw [TransactionDB.exists, Keyspace.exists, hrun.records q hq, Option.isSome_map, isSome_after_run]
  rfl

/-! ### What a reserved id does -/

/-- A record with a reserved id and its index's status. -/
def reservedRecord (i : Index) : Transaction :=
  { isUserOp := false, chainId := 1, «from» := 0, queueId := i.name
    status := match i with
      | .queued => .queued
      | .mined => .mined
      | .cancelled => .cancelled
      | .errored => .errored }

/-- Listing the status after the record was stored fails: its index's key holds the record. -/
theorem list_after_set (i : Index) : (Store.run batchSize (fun _ => none)
    [.set (reservedRecord i) 0, .list i 1 1]).1 = [.ok .done, .error .wrongType] := by
  cases i <;> rfl

theorem not_separated_of_reserved (hq : q ∈ ids) (hr : q ∈ reservedIds) : ¬ Separated batchSize ids := by
  intro h
  obtain ⟨i, rfl⟩ := exists_name_of_mem hr
  have hcalls : ∀ c ∈ [DbCall.set (reservedRecord i) 0, .list i 1 1], ∀ q ∈ c.ids, q ∈ ids := by
    intro c hc q' hq'
    rcases List.mem_cons.mp hc with rfl | hc
    · obtain rfl := List.mem_singleton.mp hq'
      exact hq
    · obtain rfl := List.mem_singleton.mp hc
      cases hq'
  have hreplies := (h _ hcalls).1
  rw [list_after_set] at hreplies
  cases hreplies

/-- The keys keep the records of these queue ids apart from the indexes exactly when none of
the ids is the name of an index. -/
theorem separated_iff (batchSize : ℕ+) (ids : Set QueueId) :
    Separated batchSize ids ↔ ∀ q ∈ ids, q ∉ reservedIds :=
  ⟨fun h _ hq hr => not_separated_of_reserved hq hr h, separated_of_not_reserved⟩

end

/-- Every text may be an idempotency key, the word `queued` as well. -/
theorem not_separated_header : ¬ Separated 1 {q | q ≠ ""} :=
  not_separated_of_reserved (q := "queued") (by decide) (by decide)

end Engine
