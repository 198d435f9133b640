import Mathlib.Data.List.Nodup
import Engine.Store.Pruning

/-! What the commands of the transaction database do to the records and to the lists. -/
namespace Engine.Pruning
open Concurrent Redis Function TransactionDB

/-! ### Lists by rank -/

section
variable {α : Type} {l : List α} {keep n : ℕ} {x : α}

/-- All but the last `keep`. -/
def oldest (keep : ℕ) (l : List α) : List α := l.take (l.length - keep)

/-- The last `keep`. -/
def newest (keep : ℕ) (l : List α) : List α := l.drop (l.length - keep)

theorem oldest_append_newest (keep : ℕ) (l : List α) : oldest keep l ++ newest keep l = l :=
  List.take_append_drop _ l

theorem mem_of_mem_oldest (h : x ∈ oldest keep l) : x ∈ l := List.mem_of_mem_take h

theorem mem_of_mem_newest (h : x ∈ newest keep l) : x ∈ l := List.mem_of_mem_drop h

theorem mem_newest_of_not_mem_oldest (h : x ∈ l) (hold : x ∉ oldest keep l) : x ∈ newest keep l := by
  rw [← oldest_append_newest keep l, List.mem_append] at h
  exact h.resolve_left hold

theorem not_mem_newest (hl : l.Nodup) (h : x ∈ oldest keep l) : x ∉ newest keep l := by
  have hsplit : (oldest keep l ++ newest keep l).Nodup := (oldest_append_newest keep l).symm ▸ hl
  exact fun hnew => List.disjoint_of_nodup_append hsplit h hnew

theorem newest_newest (keep : ℕ) (l : List α) : newest keep (newest keep l) = newest keep l := by
  have hlength : (newest keep l).length - keep = 0 := by
    unfold newest
    rw [List.length_drop]
    omega
  calc newest keep (newest keep l) = (newest keep l).drop ((newest keep l).length - keep) := rfl
    _ = newest keep l := by rw [hlength, List.drop_zero]

/-- Cutting a list does not change which of the ids that stay are old. -/
theorem mem_oldest_newest (hl : l.Nodup) {keep' : ℕ} (h : x ∈ newest keep' l) :
    x ∈ oldest keep (newest keep' l) ↔ x ∈ oldest keep l := by
  have hcut : oldest keep (newest keep' l) = (oldest keep l).drop (l.length - keep') := by
    unfold oldest newest
    rw [List.length_drop, List.drop_take]
    exact congrArg (fun n => (l.drop (l.length - keep')).take n) (by omega)
  rw [hcut]
  constructor
  · intro hx
    exact List.mem_of_mem_drop hx
  · intro hx
    have hsplit := List.take_append_drop (l.length - keep') (oldest keep l)
    rw [← hsplit, List.mem_append] at hx
    refine hx.resolve_left fun hfirst => ?_
    have hold : x ∈ oldest keep' l := by
      unfold oldest at hfirst ⊢
      rw [List.take_take] at hfirst
      exact List.take_subset_take_left _ (Nat.min_le_left _ _) hfirst
    exact not_mem_newest hl hold h

/-- The ranks up to `-keep - 1`. -/
theorem range_keep (l : List α) (keep : ℕ) : ZSet.range l 0 (-(keep : ℤ) - 1) = oldest keep l := by
  have hlast : (-(keep : ℤ) - 1 + l.length + 1).toNat = l.length - keep := by omega
  have hneg : -(keep : ℤ) - 1 < 0 := by omega
  unfold ZSet.range
  simp only [lt_irrefl, if_false, hneg, if_true, hlast]
  rfl

/-- A list without its first elements. -/
theorem filter_not_mem_oldest [DecidableEq α] (h : l.Nodup) (keep : ℕ) :
    l.filter (· ∉ oldest keep l) = newest keep l := by
  have hfirst : (oldest keep l).filter (· ∉ oldest keep l) = [] := by
    rw [List.filter_eq_nil_iff]
    intro x hx
    simpa using hx
  have hrest : (newest keep l).filter (· ∉ oldest keep l) = newest keep l := by
    rw [List.filter_eq_self]
    intro x hx
    simpa using fun hold => not_mem_newest h hold hx
  calc l.filter (· ∉ oldest keep l)
      = (oldest keep l ++ newest keep l).filter (· ∉ oldest keep l) := by rw [oldest_append_newest]
    _ = newest keep l := by rw [List.filter_append, hfirst, hrest, List.nil_append]

end

/-! ### Sorted sets whose members have one score -/

section
variable {z : ZSet QueueId} {score : ℤ} {m : QueueId} {x : ℤ ×ₗ QueueId} {l : List (ℤ ×ₗ QueueId)} {keep : ℕ}

private theorem nodup_map_insertElem (hl : (l.map fun x => (ofLex x).2).Nodup)
    (hx : (ofLex x).2 ∉ l.map fun x => (ofLex x).2) :
    ((SortedSet.insertElem x l).map fun x => (ofLex x).2).Nodup := by
  induction l with
  | nil => simp [SortedSet.insertElem]
  | cons y l ih =>
    rw [List.map_cons, List.nodup_cons] at hl
    rw [List.map_cons, List.mem_cons, not_or] at hx
    unfold SortedSet.insertElem
    split_ifs with hlt heq
    · rw [List.map_cons, List.map_cons, List.nodup_cons, List.nodup_cons, List.mem_cons, not_or]
      exact ⟨hx, hl⟩
    · exact absurd (congrArg (fun x => (ofLex x).2) heq) hx.1
    · rw [List.map_cons, List.nodup_cons]
      refine ⟨?_, ih hl.2 hx.2⟩
      intro hy
      obtain ⟨x', hx', heq'⟩ := List.mem_map.mp hy
      rcases SortedSet.mem_insertElem.mp hx' with rfl | hx'
      · exact hx.1 heq'
      · exact hl.1 (List.mem_map.mpr ⟨x', hx', heq'⟩)

theorem nodup_members_insert (h : z.members.Nodup) : (ZSet.insert z score m).members.Nodup := by
  have hothers : ((z.elems.filter fun x => (ofLex x).2 ≠ m).map fun x => (ofLex x).2).Nodup :=
    h.sublist (List.filter_sublist.map _)
  have hm : m ∉ (z.elems.filter fun x => (ofLex x).2 ≠ m).map fun x => (ofLex x).2 := by
    intro hm
    obtain ⟨x, hx, rfl⟩ := List.mem_map.mp hm
    simpa using (List.mem_filter.mp hx).2
  exact nodup_map_insertElem (x := toLex (score, m)) hothers hm

theorem members_removeRange_of_range {start stop : ℤ} (h : ZSet.range z.elems start stop = oldest keep z.elems) :
    (z.removeRange start stop).members = newest keep z.members := by
  have hnodup : z.elems.Nodup := z.sorted.imp fun h => ne_of_lt h
  have hlength : z.members.length = z.elems.length := List.length_map _
  have hcut : (z.removeRange start stop).elems = newest keep z.elems := by
    rw [← filter_not_mem_oldest hnodup, ← h]
    exact List.filter_congr fun x _ => decide_eq_decide.mpr Iff.rfl
  calc (z.removeRange start stop).members
      = ((z.elems.drop (z.elems.length - keep)).map fun x => (ofLex x).2) := congrArg (List.map _) hcut
    _ = newest keep z.members := by
      rw [List.map_drop, ← hlength]
      rfl

theorem members_removeRange (keep : ℕ) : (z.removeRange 0 (-(keep : ℤ) - 1)).members = newest keep z.members :=
  members_removeRange_of_range (range_keep z.elems keep)

end

/-! ### Records and lists -/

section
variable {s s' : Store} {i j : Index} {p q : QueueId} {t : Transaction} {timestamp : ℤ} {n keep : ℕ} {z : ZSet QueueId}

/-- The key of an index holds a sorted set, and an id is in it once. -/
def Intact (s : Store) (i : Index) : Prop := ∃ z, s.zset (indexKey i) = .ok z ∧ z.members.Nodup

theorem listed_eq (h : s.zset (indexKey i) = .ok z) : listed s i = z.members := by
  unfold listed
  rw [h]

theorem Intact.nodup (h : Intact s i) : (listed s i).Nodup := by
  obtain ⟨z, hz, hnodup⟩ := h
  rw [listed_eq hz]
  exact hnodup

theorem intact_empty (i : Index) : Intact (fun _ => none) i := ⟨.empty, rfl, List.nodup_nil⟩

theorem get_eq_some : TransactionDB.get q s = .ok (some t) ↔ record s q = some t := by
  unfold TransactionDB.get Keyspace.get record
  cases s (transactionDetailsKey q) with
  | none => simp
  | some v => cases v <;> simp

/-- What another key holds does not matter. -/
theorem listed_congr (h : s' (indexKey i) = s (indexKey i)) :
    listed s' i = listed s i ∧ (Intact s i → Intact s' i) := by
  have hzset : s'.zset (indexKey i) = s.zset (indexKey i) := Keyspace.zset_congr h
  unfold listed Intact
  rw [hzset]
  exact ⟨rfl, id⟩

theorem record_set : record (Keyspace.set s (transactionDetailsKey p) t) q = if q = p then some t else record s q := by
  unfold record Keyspace.set
  by_cases hq : q = p
  · subst hq
    rw [update_self, if_pos rfl]
  · have hkey : transactionDetailsKey q ≠ transactionDetailsKey p := fun h => hq (transactionDetailsKey_inj.mp h)
    rw [update_of_ne hkey, if_neg hq]

/-- A key that an index can be changed under holds no record. -/
theorem record_modifyZset {f : ZSet QueueId → ZSet QueueId} : record (s.modifyZset (indexKey i) f) q = record s q := by
  unfold record
  by_cases hkey : transactionDetailsKey q = indexKey i
  · rw [hkey]
    unfold Keyspace.modifyZset Keyspace.zset
    cases hi : s (indexKey i) with
    | none =>
      dsimp only
      unfold Keyspace.putZset
      rw [update_self]
      split_ifs <;> rfl
    | some v =>
      cases v with
      | string a => simp [hi]
      | zset z =>
        dsimp only
        unfold Keyspace.putZset
        rw [update_self]
        split_ifs <;> rfl
  · rw [Keyspace.modifyZset_of_ne hkey]

theorem record_unlink {ids : List QueueId} :
    record (s.unlink (ids.map transactionDetailsKey)).2 q = if q ∈ ids then none else record s q := by
  have hmem : transactionDetailsKey q ∈ ids.map transactionDetailsKey ↔ q ∈ ids := by
    rw [List.mem_map]
    constructor
    · intro h
      obtain ⟨q', hq', hkey⟩ := h
      exact transactionDetailsKey_inj.mp hkey ▸ hq'
    · intro h
      exact ⟨q, h, rfl⟩
  unfold record
  rw [Keyspace.unlink_apply]
  by_cases hq : q ∈ ids <;> simp [hmem, hq]

/-- A record is not the list of an index, unless it is stored under its key. -/
theorem listed_set (h : p ≠ i.name) :
    listed (Keyspace.set s (transactionDetailsKey p) t) i = listed s i ∧
      (Intact s i → Intact (Keyspace.set s (transactionDetailsKey p) t) i) := by
  refine listed_congr (update_of_ne ?_ _ _)
  rw [indexKey_eq]
  exact fun hkey => h (transactionDetailsKey_inj.mp hkey).symm

theorem listed_unlink {ids : List QueueId} (h : i.name ∉ ids) :
    listed (s.unlink (ids.map transactionDetailsKey)).2 i = listed s i ∧
      (Intact s i → Intact (s.unlink (ids.map transactionDetailsKey)).2 i) := by
  refine listed_congr ?_
  rw [Keyspace.unlink_apply, if_neg]
  rw [indexKey_eq]
  intro hmem
  obtain ⟨q, hq, hkey⟩ := List.mem_map.mp hmem
  exact h (transactionDetailsKey_inj.mp hkey ▸ hq)

theorem listed_modifyZset_of_ne {f : ZSet QueueId → ZSet QueueId} (h : i ≠ j) :
    listed (s.modifyZset (indexKey j) f) i = listed s i ∧ (Intact s i → Intact (s.modifyZset (indexKey j) f) i) :=
  listed_congr (Keyspace.modifyZset_of_ne fun hkey => h (indexKey_inj.mp hkey))

theorem listed_modifyZset {f : ZSet QueueId → ZSet QueueId} (h : s.zset (indexKey i) = .ok z)
    (hf : (f z).members.Nodup) :
    listed (s.modifyZset (indexKey i) f) i = (f z).members ∧ Intact (s.modifyZset (indexKey i) f) i := by
  have hz : (s.modifyZset (indexKey i) f).zset (indexKey i) = .ok (f z) := Keyspace.zset_modifyZset h
  exact ⟨listed_eq hz, f z, hz, hf⟩

/-! ### Calls of which only some commands were carried out -/

/-- The ids of an index when one is added. -/
def ranked (s : Store) (i : Index) (timestamp : ℤ) (q : QueueId) : List QueueId :=
  match s.zset (indexKey i) with
  | .ok z => (ZSet.insert z timestamp q).members
  | .error _ => []

theorem mem_ranked (h : Intact s i) : q ∈ ranked s i timestamp p ↔ q = p ∨ q ∈ listed s i := by
  obtain ⟨z, hz, -⟩ := h
  unfold ranked
  rw [hz, listed_eq hz]
  exact ZSet.mem_members_insert

theorem after_set_one (t : Transaction) (timestamp : ℤ) (s : Store) :
    (Op.set t timestamp).after 1 s = Keyspace.set s (transactionDetailsKey t.queueId) t := by
  unfold Op.after Op.commands
  rfl

/-- Without the second command there is only the record. -/
theorem after_set (t : Transaction) (timestamp : ℤ) (s : Store) (n : ℕ) :
    (Op.set t timestamp).after (n + 2) s = TransactionDB.set t timestamp s := by
  unfold Op.after Op.commands TransactionDB.set
  cases hstatus : indexOf t.status <;> simp [hstatus]

theorem record_after_set (t : Transaction) (timestamp : ℤ) (s : Store) (n : ℕ) (q : QueueId) :
    record ((Op.set t timestamp).after n s) q = if n ≠ 0 ∧ q = t.queueId then some t else record s q := by
  match n with
  | 0 => simp [Op.after]
  | 1 => simp [after_set_one, record_set]
  | n + 2 =>
    rw [after_set]
    unfold TransactionDB.set
    cases indexOf t.status with
    | none => simp [record_set]
    | some i =>
      have hrecord := record_modifyZset (s := Keyspace.set s (transactionDetailsKey t.queueId) t) (i := i) (q := q)
        (f := (ZSet.insert · timestamp t.queueId))
      rw [record_set] at hrecord
      rw [if_congr (and_iff_right (Nat.succ_ne_zero _)) rfl rfl]
      exact hrecord

/-- The ids of an index after `n` commands of `set`. -/
def listedAfterSet (s : Store) (t : Transaction) (timestamp : ℤ) (n : ℕ) (i : Index) : List QueueId :=
  if indexOf t.status = some i ∧ 2 ≤ n then ranked s i timestamp t.queueId else listed s i

theorem mem_listedAfterSet (h : Intact s i) : q ∈ listedAfterSet s t timestamp n i ↔
    (indexOf t.status = some i ∧ 2 ≤ n ∧ q = t.queueId) ∨ q ∈ listed s i := by
  unfold listedAfterSet
  split_ifs with hi
  · rw [mem_ranked h]
    simp [hi]
  · simp only [← and_assoc, hi, false_and, false_or]

theorem listed_after_set (t : Transaction) (timestamp : ℤ) (n : ℕ) (h : Intact s i) (hq : n ≠ 0 → t.queueId ≠ i.name) :
    listed ((Op.set t timestamp).after n s) i = listedAfterSet s t timestamp n i ∧
      Intact ((Op.set t timestamp).after n s) i := by
  match n with
  | 0 => simpa [Op.after, listedAfterSet] using h
  | 1 =>
    obtain ⟨hlisted, hintact⟩ := listed_set (s := s) (t := t) (hq Nat.one_ne_zero)
    rw [after_set_one]
    exact ⟨by simp [hlisted, listedAfterSet], hintact h⟩
  | n + 2 =>
    obtain ⟨hlisted, hintact⟩ := listed_set (s := s) (t := t) (hq (Nat.succ_ne_zero _))
    obtain ⟨z, hz, hnodup⟩ := h
    rw [after_set]
    unfold TransactionDB.set listedAfterSet
    cases hstatus : indexOf t.status with
    | none => exact ⟨by simp [hlisted], hintact ⟨z, hz, hnodup⟩⟩
    | some j =>
      by_cases hij : i = j
      · subst hij
        have hset : (Keyspace.set s (transactionDetailsKey t.queueId) t).zset (indexKey i) = .ok z := by
          rw [← hz]
          refine Keyspace.zset_congr (update_of_ne ?_ _ _)
          rw [indexKey_eq]
          exact fun hkey => hq (Nat.succ_ne_zero _) (transactionDetailsKey_inj.mp hkey).symm
        have hadd := listed_modifyZset (f := (ZSet.insert · timestamp t.queueId)) hset (nodup_members_insert hnodup)
        refine ⟨hadd.1.trans ?_, hadd.2⟩
        unfold ranked
        simp [hz]
      · have hother := listed_modifyZset_of_ne (s := Keyspace.set s (transactionDetailsKey t.queueId) t)
          (f := (ZSet.insert · timestamp t.queueId)) hij
        refine ⟨hother.1.trans ?_, hother.2 (hintact ⟨z, hz, hnodup⟩)⟩
        have hji : ¬ j = i := fun h => hij h.symm
        simp [hlisted, hji]

theorem after_unlink (ids : List QueueId) (s : Store) (n : ℕ) :
    (Op.unlink ids).after n s = if n = 0 then s else (s.unlink (ids.map transactionDetailsKey)).2 := by
  cases n with
  | zero => rfl
  | succ n => simp [Op.after, Op.commands]

theorem record_after_unlink (ids : List QueueId) (s : Store) (n : ℕ) (q : QueueId) :
    record ((Op.unlink ids).after n s) q = if n ≠ 0 ∧ q ∈ ids then none else record s q := by
  rw [after_unlink]
  by_cases hn : n = 0
  · simp [hn]
  · simp [hn, record_unlink]

theorem listed_after_unlink {ids : List QueueId} (h : Intact s i) (hids : i.name ∉ ids) :
    listed ((Op.unlink ids).after n s) i = listed s i ∧ Intact ((Op.unlink ids).after n s) i := by
  obtain ⟨hlisted, hintact⟩ := listed_unlink (s := s) hids
  rw [after_unlink]
  split_ifs
  · exact ⟨rfl, h⟩
  · exact ⟨hlisted, hintact h⟩

private theorem record_zremrangebyranks (is : List Index) (start stop : ℤ) (s : Store) (q : QueueId) :
    record ((is.map fun i (s : Store) => s.zremrangebyrank (indexKey i) start stop).foldl
      (fun s command => command s) s) q = record s q := by
  induction is generalizing s with
  | nil => rfl
  | cons i is ih =>
    rw [List.map_cons, List.foldl_cons, ih]
    exact record_modifyZset

private theorem listed_zremrangebyranks (is : List Index) (keep : ℕ) (h : Intact s i) :
    let s' := (is.map fun i (s : Store) => s.zremrangebyrank (indexKey i) 0 (-(keep : ℤ) - 1)).foldl
      (fun s command => command s) s
    (listed s' i = listed s i ∨ listed s' i = newest keep (listed s i)) ∧ Intact s' i := by
  induction is generalizing s with
  | nil => exact ⟨Or.inl rfl, h⟩
  | cons j is ih =>
    dsimp only at ih ⊢
    rw [List.map_cons, List.foldl_cons]
    by_cases hij : i = j
    · subst hij
      obtain ⟨z, hz, hnodup⟩ := h
      have hcut : (z.removeRange 0 (-(keep : ℤ) - 1)).members.Nodup := by
        rw [members_removeRange]
        exact hnodup.sublist (List.drop_sublist _ _)
      obtain ⟨hlisted, hintact⟩ := listed_modifyZset (f := (ZSet.removeRange · 0 (-(keep : ℤ) - 1))) hz hcut
      rw [members_removeRange, ← listed_eq hz] at hlisted
      obtain ⟨hrest, hintact'⟩ := ih hintact
      refine ⟨Or.inr ?_, hintact'⟩
      rcases hrest with hrest | hrest
      · exact hrest.trans hlisted
      · calc _ = newest keep _ := hrest
          _ = newest keep (newest keep (listed s i)) := congrArg (newest keep) hlisted
          _ = newest keep (listed s i) := newest_newest _ _
    · obtain ⟨hlisted, hintact⟩ := listed_modifyZset_of_ne (s := s) (f := (ZSet.removeRange · 0 (-(keep : ℤ) - 1))) hij
      obtain ⟨hrest, hintact'⟩ := ih (hintact h)
      refine ⟨?_, hintact'⟩
      rcases hrest with hrest | hrest
      · exact Or.inl (hrest.trans hlisted)
      · exact Or.inr (hrest.trans (congrArg (newest keep) hlisted))

theorem record_after_zremrange (start stop : ℤ) (s : Store) (n : ℕ) (q : QueueId) :
    record ((Op.zremrangebyrankAll start stop).after n s) q = record s q := by
  unfold Op.after Op.commands
  rw [← List.map_take]
  exact record_zremrangebyranks _ start stop s q

/-- A list is cut to its newest ids, or stays. -/
theorem listed_after_zremrange (h : Intact s i) (keep n : ℕ) :
    (listed ((Op.zremrangebyrankAll 0 (-(keep : ℤ) - 1)).after n s) i = listed s i ∨
      listed ((Op.zremrangebyrankAll 0 (-(keep : ℤ) - 1)).after n s) i = newest keep (listed s i)) ∧
    Intact ((Op.zremrangebyrankAll 0 (-(keep : ℤ) - 1)).after n s) i := by
  unfold Op.after Op.commands
  rw [← List.map_take]
  exact listed_zremrangebyranks _ keep h

theorem after_zrange (start stop : ℤ) (s : Store) (n : ℕ) : (Op.zrangeQueued start stop).after n s = s := by
  cases n with
  | zero => rfl
  | succ n => simp [Op.after, Op.commands]

/-- The ids that were read are listed. -/
theorem mem_listed_of_reply {start stop : ℤ} {ids : List QueueId} (h : (Op.zrangeQueued start stop).reply s = .ok ids)
    (hq : q ∈ ids) : q ∈ listed s .queued := by
  cases hz : s.zset (indexKey .queued) with
  | error e =>
    simp only [Op.reply, Keyspace.zrange, hz] at h
    cases h
  | ok z =>
    simp only [Op.reply, Keyspace.zrange, hz] at h
    cases h
    rw [listed_eq hz]
    exact mem_of_mem_range hq

end

/-! ### Steps -/

section
variable {batchSize : ℕ+} {o : Op} {a : Except Thrown (Option ℕ)} {r : Except Thrown o.Reply}

/-- What a call does. -/
theorem effect_cases {w w' : World} (h : w.effect o a = some (r, w')) :
    ∃ lost, a = .ok lost ∧ r = o.answer w.store lost ∧ w' = w.carryOut o (o.executed lost) := by
  cases a with
  | error e => cases h
  | ok lost =>
    cases Option.some.inj h
    exact ⟨lost, rfl, rfl, rfl⟩

theorem answer_of_ok {w : Store} {lost : Option ℕ} {x : o.Reply} (h : o.answer w lost = .ok x) :
    lost = none ∧ o.reply w = .ok x := by
  cases lost with
  | none => exact ⟨rfl, h⟩
  | some n => cases h

theorem world_of_started {G : Guard (database batchSize)} {s s' : State (database batchSize)} {n : ℕ} {k : Kind}
    (st : Started (databaseContract batchSize) G s s' n k) : s'.world = s.world := by
  obtain ⟨p, hp⟩ := st.started
  cases k <;> exact (congrArg Prod.snd (Option.some.inj hp)).symm

end
end Engine.Pruning
