import Engine.Paging.Slices
import Engine.Records.Engine
import Engine.Store.Listed

/-! The lists of the mined, the cancelled and the errored transactions against the stored records. -/
namespace Engine.Pruning
open Concurrent Redis TransactionDB
variable {batchSize : ℕ+}

/-- The transactions after `page` pages. -/
def pageOf (batchSize : ℕ+) (i : Index) (limit : ℕ) (s : Store) (page : ℕ) : List Transaction :=
  match getTransactionListByStatus batchSize i (page + 1) limit s with
  | .ok (transactions, _) => transactions
  | .error _ => []

/-- In these states, the lists of the final statuses are right. -/
structure ListsRight (states : State (database batchSize) → Prop) : Prop where
  /-- What is listed has the status, in its stored record as well. -/
  right : ∀ s i page limit transactions total t, states s → i ≠ .queued →
    getTransactionListByStatus batchSize i page limit s.world.store = .ok (transactions, total) → t ∈ transactions →
    indexOf t.status = some i ∧ TransactionDB.get t.queueId s.world.store = .ok (some t)
  /-- A stored record with the status is on one page, and once, unless a pruning took it from the list. -/
  complete : ∀ s i limit pages q t, states s → i ≠ .queued → TransactionDB.get q s.world.store = .ok (some t) →
    indexOf t.status = some i → s.world.pruned i q = false →
    (listed s.world.store i).length ≤ pages * limit →
    ((List.range pages).flatMap (pageOf batchSize i limit s.world.store)).count t = 1

/-! ### What a `set` must not do -/

/-- The first `n` commands of `set` leave no list of a final status wrong. -/
def keepsRight (s : Store) (t : Transaction) (n : ℕ) : Bool :=
  [Index.mined, .cancelled, .errored].all fun i =>
    decide (t.queueId ≠ i.name) &&
    decide (t.queueId ∈ listed s i → indexOf t.status = some i) &&
    decide (indexOf t.status = some i → 2 ≤ n ∨ t.queueId ∈ listed s i)

/-- The runs in which every `set` leaves the lists right. -/
def keepingRight : Guard (database batchSize) where
  start _ _ := true
  call s _ o a :=
    match o, a with
    | .set t timestamp, .ok lost =>
      (Op.set t timestamp).executed lost == 0 || keepsRight s.world.store t ((Op.set t timestamp).executed lost)
    | _, _ => true

/-! ### What commands add to a list -/

section
variable {s : Store} {i : Index} {q : QueueId} {t : Transaction} {timestamp : ℤ} {n : ℕ}

theorem mem_listed_of_modifyZset {j : Index} {f : ZSet QueueId → ZSet QueueId}
    (h : q ∈ listed (s.modifyZset (indexKey j) f) i) :
    q ∈ listed s i ∨ i = j ∧ ∃ z, s.zset (indexKey i) = .ok z ∧ q ∈ (f z).members := by
  by_cases hij : i = j
  · subst hij
    cases hz : s.zset (indexKey i) with
    | ok z =>
      have hnew : (s.modifyZset (indexKey i) f).zset (indexKey i) = .ok (f z) := Keyspace.zset_modifyZset hz
      rw [listed_eq hnew] at h
      exact Or.inr ⟨rfl, z, rfl, h⟩
    | error e =>
      unfold Keyspace.modifyZset at h
      rw [hz] at h
      exact Or.inl h
  · rw [(listed_modifyZset_of_ne hij).1] at h
    exact Or.inl h

/-- Where a record is stored under the key of a list, the list is gone. -/
theorem mem_listed_of_set {p : QueueId} (h : q ∈ listed (Keyspace.set s (transactionDetailsKey p) t) i) :
    q ∈ listed s i := by
  by_cases hp : p = i.name
  · subst hp
    unfold listed Keyspace.zset Keyspace.set at h
    rw [indexKey_eq, Function.update_self] at h
    cases h
  · exact (listed_set hp).1 ▸ h

theorem mem_listed_of_after_set (h : q ∈ listed ((Op.set t timestamp).after n s) i) :
    q = t.queueId ∨ q ∈ listed s i := by
  match n with
  | 0 => exact Or.inr h
  | 1 =>
    rw [after_set_one] at h
    exact Or.inr (mem_listed_of_set h)
  | n + 2 =>
    rw [after_set] at h
    unfold TransactionDB.set at h
    cases hstatus : indexOf t.status with
    | none =>
      rw [hstatus] at h
      exact Or.inr (mem_listed_of_set h)
    | some j =>
      rw [hstatus] at h
      rcases mem_listed_of_modifyZset h with hold | ⟨-, z, hz, hnew⟩
      · exact Or.inr (mem_listed_of_set hold)
      · rcases ZSet.mem_members_insert.mp hnew with rfl | hold
        · exact Or.inl rfl
        · exact Or.inr (mem_listed_of_set (listed_eq hz ▸ hold))

theorem mem_listed_of_after_unlink {ids : List QueueId} (h : q ∈ listed ((Op.unlink ids).after n s) i) :
    q ∈ listed s i := by
  rw [after_unlink] at h
  split_ifs at h
  · exact h
  · by_cases hids : i.name ∈ ids
    · unfold listed Keyspace.zset at h
      have hkey : transactionDetailsKey i.name ∈ ids.map transactionDetailsKey := List.mem_map_of_mem hids
      rw [indexKey_eq, Keyspace.unlink_apply, if_pos hkey] at h
      cases h
    · exact (listed_unlink hids).1 ▸ h

theorem mem_listed_of_after_zremrange {start stop : ℤ}
    (h : q ∈ listed ((Op.zremrangebyrankAll start stop).after n s) i) :
    q ∈ listed s i := by
  have hcut : ∀ (is : List Index) (s : Store), q ∈ listed ((is.map fun i (s : Store) =>
      s.zremrangebyrank (indexKey i) start stop).foldl (fun s command => command s) s) i → q ∈ listed s i := by
    intro is
    induction is with
    | nil => exact fun _ h => h
    | cons j is ih =>
      intro s hmem
      rw [List.map_cons, List.foldl_cons] at hmem
      rcases mem_listed_of_modifyZset (ih _ hmem) with hold | ⟨-, z, hz, hnew⟩
      · exact hold
      · rw [listed_eq hz]
        exact ZSet.mem_members_of_removeRange hnew
  unfold Op.after Op.commands at h
  rw [← List.map_take] at h
  exact hcut _ s h

end

/-! ### Reading a list -/

section
variable {s : Store} {i : Index}

private theorem bulkGet_record (batchSize : ℕ+) (qs : List QueueId) (s : Store) :
    bulkGet batchSize qs s = qs.filterMap (record s) := by
  unfold bulkGet
  rw [List.flatMap_congr fun l _ => filterMap_mget s l, List.flatMap_def, ← List.filterMap_flatten,
    batches_flatten batchSize qs.length qs (Nat.le_refl _)]

theorem getTransactionListByStatus_eq (h : Intact s i) (page limit : ℤ) :
    getTransactionListByStatus batchSize i page limit s = .ok
      ((ZSet.range (listed s i).reverse ((page - 1) * limit) ((page - 1) * limit + limit - 1)).filterMap (record s),
        (listed s i).length) := by
  obtain ⟨z, hz, -⟩ := h
  have hlength : z.elems.length = z.members.length := (List.length_map _).symm
  rw [listed_eq hz, ← bulkGet_record batchSize, ← hlength]
  simp only [getTransactionListByStatus, Keyspace.zrevrange, Keyspace.zcard, hz]
  rfl

private theorem range_page {α : Type} (l : List α) {limit : ℕ} (hlimit : 0 < limit) (page : ℕ) :
    ZSet.range l (((page : ℤ) + 1 - 1) * limit) (((page : ℤ) + 1 - 1) * limit + limit - 1) =
      Paging.slice limit page l := by
  have hstart : ((page : ℤ) + 1 - 1) * limit = ((page * limit : ℕ) : ℤ) := by
    rw [add_sub_cancel_right]
    exact (Int.natCast_mul page limit).symm
  rw [hstart, Paging.slice_eq]
  unfold ZSet.range
  have hfirst : ¬ ((page * limit : ℕ) : ℤ) < 0 := by omega
  have hlast : ¬ ((page * limit : ℕ) : ℤ) + limit - 1 < 0 := by omega
  have hstop : (((page * limit : ℕ) : ℤ) + limit - 1 + 1).toNat = page * limit + limit := by omega
  simp only [hfirst, hlast, if_false, Int.toNat_natCast, hstop]

theorem pageOf_eq (h : Intact s i) {limit : ℕ} (hlimit : 0 < limit) (page : ℕ) :
    pageOf batchSize i limit s page = (Paging.slice limit page (listed s i).reverse).filterMap (record s) := by
  unfold pageOf
  rw [getTransactionListByStatus_eq h, range_page _ hlimit]

end

/-! ### The invariant -/

structure RightLists (s : State (database batchSize)) : Prop where
  intact : ∀ i : Index, i ≠ .queued → Intact s.world.store i
  /-- A record is under its id. -/
  ids : ∀ q t, record s.world.store q = some t → t.queueId = q
  own : ∀ (i : Index) q t, i ≠ .queued → q ∈ listed s.world.store i → record s.world.store q = some t →
    indexOf t.status = some i
  complete : ∀ (i : Index) q t, i ≠ .queued → record s.world.store q = some t → indexOf t.status = some i →
    s.world.pruned i q = false → q ∈ listed s.world.store i
  /-- No pruning deletes a list. -/
  queued : ∀ i : Index, i ≠ .queued → i.name ∉ listed s.world.store .queued
  deleting : ∀ (i : Index) j keep rest, i ≠ .queued →
    s.localOf (databaseContract batchSize) j = some (.deleting keep rest) → i.name ∉ rest.flatten

section
variable {G : Guard (database batchSize)} {s s' : State (database batchSize)} {i : ℕ} {l : Phase} {o : Op}
  {a : Except Thrown (Option ℕ)} {r : Except Thrown o.Reply}

theorem RightLists.start {n : ℕ} {k : Kind} (h : RightLists s) (st : Started (databaseContract batchSize) G s s' n k) :
    RightLists s' := by
  have hworld := world_of_started st
  constructor
  · exact hworld ▸ h.intact
  · exact hworld ▸ h.ids
  · exact hworld ▸ h.own
  · exact hworld ▸ h.complete
  · exact hworld ▸ h.queued
  · intro j i keep rest hj hl
    rcases st.localOf hl with ⟨-, hinit⟩ | ⟨-, hother⟩
    · cases k <;> cases hinit
    · exact h.deleting j i keep rest hj hother

/-- The phases of a pruning, after a call that adds no name of a list. -/
theorem RightLists.deleting_call (h : RightLists s) (st : Stepped (databaseContract batchSize) G s s' i l o a r)
    (hself : ∀ (j : Index) keep rest, j ≠ .queued → Phase.next batchSize l o r = .deleting keep rest →
      j.name ∉ rest.flatten) (j : Index) (i' keep : ℕ) (rest : List (List QueueId)) (hj : j ≠ .queued)
    (hl : s'.localOf (databaseContract batchSize) i' = some (.deleting keep rest)) : j.name ∉ rest.flatten := by
  rcases st.localOf hl with ⟨-, hnext⟩ | ⟨-, hother⟩
  · exact hself j keep rest hj hnext.symm
  · exact h.deleting j i' keep rest hj hother

private theorem keepsRight_iff {s : Store} {t : Transaction} {n : ℕ} : keepsRight s t n = true ↔
    ∀ j : Index, j ≠ .queued →
      t.queueId ≠ j.name ∧ (t.queueId ∈ listed s j → indexOf t.status = some j) ∧
        (indexOf t.status = some j → 2 ≤ n ∨ t.queueId ∈ listed s j) := by
  have hfinal : ∀ j : Index, j ∈ [Index.mined, .cancelled, .errored] ↔ j ≠ .queued := by
    intro j
    cases j <;> decide
  unfold keepsRight
  simp only [List.all_eq_true, hfinal, Bool.and_eq_true, decide_eq_true_iff, and_assoc]

theorem RightLists.set {t : Transaction} {timestamp : ℤ} {r : Except Thrown Unit} (h : RightLists s)
    (st : Stepped (databaseContract batchSize) keepingRight s s' i l (.set t timestamp) a r) : RightLists s' := by
  obtain ⟨lost, rfl, -, hworld⟩ : ∃ lost, a = .ok lost ∧ r = (Op.set t timestamp).answer s.world.store lost ∧
    s'.world = s.world.carryOut (.set t timestamp) ((Op.set t timestamp).executed lost) := effect_cases st.performed
  set n := (Op.set t timestamp).executed lost
  have hgranted : (n == 0 || keepsRight s.world.store t n) = true := st.granted
  have hguard : n ≠ 0 → ∀ j : Index, j ≠ .queued → t.queueId ≠ j.name ∧
      (t.queueId ∈ listed s.world.store j → indexOf t.status = some j) ∧
      (indexOf t.status = some j → 2 ≤ n ∨ t.queueId ∈ listed s.world.store j) := by
    intro hn
    exact keepsRight_iff.mp (by simpa [hn] using hgranted)
  have hstore : s'.world.store = (Op.set t timestamp).after n s.world.store := congrArg World.store hworld
  have hrecord : ∀ q t', record s'.world.store q = some t' →
      (n ≠ 0 ∧ q = t.queueId ∧ t' = t) ∨ ((n = 0 ∨ q ≠ t.queueId) ∧ record s.world.store q = some t') := by
    intro q t' hq
    rw [hstore, record_after_set] at hq
    split_ifs at hq with hif
    · exact Or.inl ⟨hif.1, hif.2, (Option.some.inj hq).symm⟩
    · exact Or.inr ⟨by rwa [← not_ne_iff, ← not_and_or], hq⟩
  have hlisted : ∀ j : Index, j ≠ .queued → Intact s'.world.store j ∧ ∀ q, q ∈ listed s'.world.store j ↔
      (indexOf t.status = some j ∧ 2 ≤ n ∧ q = t.queueId) ∨ q ∈ listed s.world.store j := by
    intro j hj
    obtain ⟨hlist, hintact⟩ := listed_after_set t timestamp n (h.intact j hj)
      (fun hn => (hguard hn j hj).1)
    rw [hstore]
    refine ⟨hintact, fun q => ?_⟩
    rw [hlist]
    exact mem_listedAfterSet (h.intact j hj)
  have hpruned : ∀ j q, s'.world.pruned j q = (s.world.pruned j q && (n == 0 || decide (q ≠ t.queueId))) :=
    fun j q => congrFun (congrFun (congrArg World.pruned hworld) j) q
  constructor
  · exact fun j hj => (hlisted j hj).1
  · intro q t' hq
    rcases hrecord q t' hq with ⟨-, rfl, rfl⟩ | ⟨-, hold⟩
    · rfl
    · exact h.ids q t' hold
  · intro j q t' hj hq hr
    rw [(hlisted j hj).2] at hq
    rcases hrecord q t' hr with ⟨hn, rfl, rfl⟩ | ⟨hother, hold⟩
    · rcases hq with hq | hq
      · exact hq.1
      · exact (hguard hn j hj).2.1 hq
    · rcases hq with ⟨-, htwo, rfl⟩ | hq
      · rcases hother with hzero | hne
        · omega
        · exact absurd rfl hne
      · exact h.own j q t' hj hq hold
  · intro j q t' hj hr hstatus hnot
    rw [(hlisted j hj).2]
    rcases hrecord q t' hr with ⟨hn, rfl, rfl⟩ | ⟨hother, hold⟩
    · rcases (hguard hn j hj).2.2 hstatus with htwo | hin
      · exact Or.inl ⟨hstatus, htwo, rfl⟩
      · exact Or.inr hin
    · rw [hpruned] at hnot
      have hkeeps : (n == 0 || decide (q ≠ t.queueId)) = true := by simpa using hother
      rw [hkeeps, Bool.and_true] at hnot
      exact Or.inr (h.complete j q t' hj hold hstatus hnot)
  · intro j hj hmem
    rw [hstore] at hmem
    by_cases hn : n = 0
    · rw [hn] at hmem
      exact h.queued j hj hmem
    · rcases mem_listed_of_after_set hmem with hname | hold
      · exact (hguard hn j hj).1 hname.symm
      · exact h.queued j hj hold
  · apply h.deleting_call st
    intro j keep rest hj hnext
    cases st.allowed
    cases hnext

/-- A call that adds nothing: the records and the lists that are left are as before. -/
theorem RightLists.call (h : RightLists s) (st : Stepped (databaseContract batchSize) G s s' i l o a r)
    (hintact : ∀ j : Index, j ≠ .queued → Intact s'.world.store j)
    (hrecord : ∀ q t, record s'.world.store q = some t → record s.world.store q = some t)
    (hmem : ∀ j q, q ∈ listed s'.world.store j → q ∈ listed s.world.store j)
    (hcomplete : ∀ (j : Index) q, j ≠ .queued → s'.world.pruned j q = false → s.world.pruned j q = false ∧
      (q ∈ listed s.world.store j → q ∈ listed s'.world.store j))
    (hself : ∀ (j : Index) keep rest, j ≠ .queued → Phase.next batchSize l o r = .deleting keep rest →
      j.name ∉ rest.flatten) : RightLists s' := by
  constructor
  · exact hintact
  · exact fun q t hq => h.ids q t (hrecord q t hq)
  · exact fun j q t hj hq hr => h.own j q t hj (hmem j q hq) (hrecord q t hr)
  · intro j q t hj hr hstatus hnot
    obtain ⟨hnot', hstays⟩ := hcomplete j q hj hnot
    exact hstays (h.complete j q t hj (hrecord q t hr) hstatus hnot')
  · exact fun j hj hq => h.queued j hj (hmem .queued _ hq)
  · exact h.deleting_call st hself

theorem RightLists.zrange {start stop : ℤ} {r : Except Thrown (List QueueId)} (h : RightLists s)
    (st : Stepped (databaseContract batchSize) G s s' i l (.zrangeQueued start stop) a r) : RightLists s' := by
  obtain ⟨lost, rfl, hr, hworld⟩ : ∃ lost, a = .ok lost ∧ r = (Op.zrangeQueued start stop).answer s.world.store lost ∧
    s'.world = s.world.carryOut (.zrangeQueued start stop) ((Op.zrangeQueued start stop).executed lost) :=
    effect_cases st.performed
  have hstore : s'.world.store = s.world.store := (congrArg World.store hworld).trans (after_zrange _ _ _ _)
  have hpruned : s'.world.pruned = s.world.pruned := by
    rw [hworld]
    rfl
  apply h.call st
  · exact hstore ▸ h.intact
  · exact fun q t hq => hstore ▸ hq
  · exact fun j q hq => hstore ▸ hq
  · exact fun j q _ hnot => ⟨hpruned ▸ hnot, fun hq => hstore ▸ hq⟩
  · intro j keep rest hj hnext
    cases st.allowed with
    | zrange keep₀ =>
      cases r with
      | error e => cases hnext
      | ok ids =>
        cases hnext
        obtain ⟨-, hreply⟩ := answer_of_ok hr.symm
        rw [batches_flatten batchSize _ _ (Nat.le_refl _)]
        intro hmem
        exact h.queued j hj (mem_listed_of_reply hreply hmem)

theorem RightLists.unlink {ids : List QueueId} {r : Except Thrown ℕ} (h : RightLists s)
    (st : Stepped (databaseContract batchSize) G s s' i l (.unlink ids) a r) : RightLists s' := by
  obtain ⟨lost, rfl, -, hworld⟩ : ∃ lost, a = .ok lost ∧ r = (Op.unlink ids).answer s.world.store lost ∧
    s'.world = s.world.carryOut (.unlink ids) ((Op.unlink ids).executed lost) := effect_cases st.performed
  have hstore : s'.world.store = (Op.unlink ids).after ((Op.unlink ids).executed lost) s.world.store :=
    congrArg World.store hworld
  have hpruned : s'.world.pruned = s.world.pruned := by
    rw [hworld]
    rfl
  cases st.allowed with
  | unlink keep batch rest =>
    have hnames : ∀ j : Index, j ≠ .queued → j.name ∉ ids := fun j hj hmem =>
      h.deleting j i keep (ids :: rest) hj st.caller (List.mem_flatten_of_mem List.mem_cons_self hmem)
    have hlisted : ∀ j : Index, j ≠ .queued → listed s'.world.store j = listed s.world.store j ∧
        Intact s'.world.store j := by
      intro j hj
      rw [hstore]
      exact listed_after_unlink (h.intact j hj) (hnames j hj)
    apply h.call st
    · exact fun j hj => (hlisted j hj).2
    · intro q t hq
      rw [hstore, record_after_unlink] at hq
      split_ifs at hq
      exact hq
    · intro j q hq
      rw [hstore] at hq
      exact mem_listed_of_after_unlink hq
    · exact fun j q hj hnot => ⟨hpruned ▸ hnot, fun hq => (hlisted j hj).1 ▸ hq⟩
    · intro j keep' rest' hj hnext
      cases r with
      | error e => cases hnext
      | ok m =>
        cases hnext
        have hall := h.deleting j i keep (ids :: rest) hj st.caller
        rw [List.flatten_cons, List.mem_append, not_or] at hall
        exact hall.2

theorem RightLists.zremrange {start stop : ℤ} {r : Except Thrown Unit} (h : RightLists s)
    (st : Stepped (databaseContract batchSize) G s s' i l (.zremrangebyrankAll start stop) a r) : RightLists s' := by
  obtain ⟨lost, rfl, -, hworld⟩ : ∃ lost, a = .ok lost ∧ r =
    (Op.zremrangebyrankAll start stop).answer s.world.store lost ∧
    s'.world = s.world.carryOut (.zremrangebyrankAll start stop) ((Op.zremrangebyrankAll start stop).executed lost) :=
    effect_cases st.performed
  set n := (Op.zremrangebyrankAll start stop).executed lost
  have hstore : s'.world.store = (Op.zremrangebyrankAll start stop).after n s.world.store := congrArg World.store hworld
  have hpruned : ∀ j q, s'.world.pruned j q = (s.world.pruned j q || decide (q ∈ listed s.world.store j ∧
      q ∉ listed s'.world.store j)) := by
    intro j q
    rw [hworld]
    rfl
  apply h.call st
  · intro j hj
    rw [hstore]
    cases st.allowed with
    | zremrange keep => exact (listed_after_zremrange (h.intact j hj) keep n).2
  · intro q t hq
    rw [hstore, record_after_zremrange] at hq
    exact hq
  · intro j q hq
    rw [hstore] at hq
    exact mem_listed_of_after_zremrange hq
  · intro j q _ hnot
    rw [hpruned, Bool.or_eq_false_iff, decide_eq_false_iff_not, not_and_not_right] at hnot
    exact hnot
  · intro j keep rest hj hnext
    cases st.allowed
    cases hnext

private theorem rightLists (h : Reachable keepingRight (State.initial {}) s) : RightLists s := by
  refine h.invariant (databaseContract batchSize) RightLists ?_ (fun _ _ _ _ _ ih st => ih.start st) ?_
  · constructor
    · exact fun j _ => intact_empty j
    · intro q t hq
      cases hq
    · intro j q t _ hq
      cases hq
    · intro j q t _ hq
      cases hq
    · exact fun j _ => List.not_mem_nil
    · intro j i keep rest _ hl
      cases hl
  · intro s s' i l o a r _ ih st
    cases o with
    | set t timestamp => exact ih.set st
    | zrangeQueued start stop => exact ih.zrange st
    | unlink ids => exact ih.unlink st
    | zremrangebyrankAll start stop => exact ih.zremrange st

end

/-- In the runs whose `set`s leave the lists right, they are right. -/
theorem listsRight_keepingRight (batchSize : ℕ+) :
    ListsRight (Reachable (keepingRight : Guard (database batchSize)) (State.initial {})) := by
  constructor
  · intro s i page limit transactions total t hs hi hpage ht
    have h := rightLists hs
    rw [getTransactionListByStatus_eq (h.intact i hi)] at hpage
    obtain ⟨rfl, -⟩ := Prod.mk.inj (Except.ok.inj hpage)
    obtain ⟨q, hq, hrecord⟩ := List.mem_filterMap.mp ht
    obtain rfl := h.ids q t hrecord
    have hlisted := List.mem_reverse.mp (mem_of_mem_range hq)
    exact ⟨h.own i _ t hi hlisted hrecord, get_eq_some.mpr hrecord⟩
  · intro s i limit pages q t hs hi hq hstatus hpruned hpages
    have h := rightLists hs
    have hrecord := get_eq_some.mp hq
    have hlisted : q ∈ listed s.world.store i := h.complete i q t hi hrecord hstatus hpruned
    have hlimit : 0 < limit := by
      refine Nat.pos_of_ne_zero fun hzero => ?_
      have hpos := List.length_pos_of_mem hlisted
      rw [hzero, Nat.mul_zero] at hpages
      omega
    have hall : (List.range pages).flatMap (pageOf batchSize i limit s.world.store) =
        (listed s.world.store i).reverse.filterMap (record s.world.store) := by
      rw [List.flatMap_congr fun page _ => pageOf_eq (h.intact i hi) hlimit page]
      exact Paging.flatMap_filterMap_slice _ (by rwa [List.length_reverse])
    have hnodup : ((listed s.world.store i).reverse.filterMap (record s.world.store)).Nodup := by
      refine (List.nodup_reverse.mpr (h.intact i hi).nodup).filterMap fun q q' t ht ht' => ?_
      exact (h.ids q t ht).symm.trans (h.ids q' t ht')
    rw [hall]
    exact List.count_eq_one_of_mem hnodup (List.mem_filterMap.mpr ⟨q, List.mem_reverse.mpr hlisted, hrecord⟩)

/-! ### A retried transaction -/

/-- The record of a `set` that was carried out. -/
def setCall : Event Calls → Option Transaction
  | ⟨_, .set t _, .ok none, _⟩ => some t
  | _ => none

/-- The calls are the `set`s of a run of the service, in their order. -/
def OfService (s : State (database batchSize)) : Prop :=
  Reachable (anyCalls batchSize) (State.initial {}) s ∧ ∃ s₁ : State engine,
    Reachable anyRun (State.initial World.empty) s₁ ∧ s.trace.map setCall = (s₁.trace.filterMap stores).map some

/-- The transaction cannot be populated, so it is errored; it is retried and sent. -/
def erroredThenSent : List (Move engine) :=
  starts (.insertTransaction transfer none false) :: proceeds 0 4 ++
    starts (.sendJob transferId 0) :: proceeds 1 2 ++ answered 1 [throwing connectionClosed] ++ proceeds 1 4 ++
    starts (.retryFailed transferId) :: proceeds 2 6 ++ starts (.sendJob transferId 0) :: proceeds 3 21

/-- One `set` after the other. -/
def replayed (ts : List Transaction) : List (Move (database batchSize)) :=
  ts.zipIdx.flatMap fun x => calls (.set x.1 x.2) x.2 1

def emptyDatabase : State (database batchSize) := State.initial {}

/-- A transaction that is queued, sent and mined. -/
example : ((State.initial World.empty).run anyRun sentAndMined).any (fun s₁ =>
    ((emptyDatabase : State (database 1)).run keepingRight (replayed (s₁.trace.filterMap stores).reverse)).any fun s =>
      (pageOf 1 .mined 1 s.world.store 0).length == 1) = true := by decide +kernel

private theorem mem_of_mem_pageOf {i : Index} {limit page : ℕ} {s : Store} {t : Transaction}
    (h : t ∈ pageOf batchSize i limit s page) : ∃ transactions total,
      getTransactionListByStatus batchSize i (page + 1) limit s = .ok (transactions, total) ∧ t ∈ transactions := by
  unfold pageOf at h
  split at h
  case h_1 transactions total hpage => exact ⟨transactions, total, hpage, h⟩
  case h_2 => cases h

/-- The calls are these, and a sent transaction is listed as an errored one. -/
def listsSent (ts : List Transaction) (s : State (database batchSize)) : Bool :=
  decide (s.trace.map setCall = ts.map some) && (pageOf batchSize .errored 1 s.world.store 0).any
    fun t => decide (t.status = .sent)

/-- The sent transaction is still listed as an errored one. -/
theorem not_listsRight : ¬ ListsRight (OfService : State (database 1) → Prop) := by
  intro hgeneral
  obtain ⟨s₁, hs₁, hcheck⟩ := exists_reachable_of_run anyRun World.empty erroredThenSent (fun s₁ =>
    ((emptyDatabase : State (database 1)).run (anyCalls 1) (replayed (s₁.trace.filterMap stores).reverse)).any
      (listsSent (s₁.trace.filterMap stores))) (by decide +kernel)
  obtain ⟨s, hs, hcheck⟩ := (Option.any_eq_true _ _).mp hcheck
  unfold listsSent at hcheck
  rw [Bool.and_eq_true, decide_eq_true_iff] at hcheck
  obtain ⟨t, ht, hsent⟩ := List.any_eq_true.mp hcheck.2
  obtain ⟨transactions, total, hpage, hmem⟩ := mem_of_mem_pageOf ht
  have hstates : OfService s := ⟨reachable_of_run hs, s₁, hs₁, hcheck.1⟩
  have hright := (hgeneral.right s .errored _ _ transactions total t hstates (by decide) hpage hmem).1
  rw [of_decide_eq_true hsent] at hright
  cases hright

end Engine.Pruning
