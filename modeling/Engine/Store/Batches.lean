import Mathlib.Data.Finset.Card
import Mathlib.Data.Finset.Image
import Engine.Numbers.Slices
import Engine.Store.Pruned

/-! `bulkGet` and `bulkDelete` of the transaction database, for any number as the size of their batches. -/
namespace Engine.Batches
open Redis Numbers Number
open TransactionDB (transactionDetailsKey unlinkBatches)
open Pruning (record filterMap_mget)

/-- What a command may throw. -/
inductive CallError
  /-- The reply of Redis to a command without keys. -/
  | wrongNumberOfArguments
  /-- `...keys` are more arguments than fit on the stack. -/
  | rangeError
deriving DecidableEq

/-- A call with `...keys`. The engine allows `maxArguments` in one call. -/
def spread {α : Type} (maxArguments : ℕ) (command : List String → α) (keys : List String) : Except CallError α :=
  if maxArguments < keys.length then .error .rangeError
  else if keys = [] then .error .wrongNumberOfArguments
  else .ok (command keys)

/-- `redis.mget(...keys)`. -/
def mgetKeys (maxArguments : ℕ) (s : Store) (keys : List String) : Except CallError (List (Option Transaction)) :=
  spread maxArguments s.mget keys

/-- `redis.unlink(...keys)`. -/
def unlinkKeys (maxArguments : ℕ) (s : Store) (keys : List String) : Except CallError (ℕ × Store) :=
  spread maxArguments s.unlink keys

/-- `size` is `env.__EXPERIMENTAL_REDIS_BATCH_SIZE`; `none`: the fuel runs out. -/
def bulkGet (maxArguments : ℕ) (size : Number) (queueIds : List QueueId) (s : Store) (fuel : ℕ) :
    Option (Except CallError (List Transaction)) :=
  if queueIds.length = 0 then some (.ok [])
  else forSlices (fun result batch => do
    let vals ← mgetKeys maxArguments s (batch.map transactionDetailsKey)
    pure (result ++ vals.filterMap id)) size queueIds fuel (ofNat 0) []

def bulkDelete (maxArguments : ℕ) (size : Number) (queueIds : List QueueId) (s : Store) (fuel : ℕ) :
    Option (Except CallError (ℕ × Store)) :=
  if queueIds.length = 0 then some (.ok (0, s))
  else forSlices (fun deleted batch => do
    let reply ← unlinkKeys maxArguments deleted.2 (batch.map transactionDetailsKey)
    pure (deleted.1 + reply.1, reply.2)) size queueIds fuel (ofNat 0) (0, s)

/-- Both end without a command that has no keys, and do what one command on all keys does. -/
structure Unbatched (maxArguments : ℕ) (size : Number) (queueIds : List QueueId) (s : Store) : Prop where
  gets : ∃ fuel, bulkGet maxArguments size queueIds s fuel = some (.ok (queueIds.filterMap (record s)))
  deletes : ∃ fuel s', bulkDelete maxArguments size queueIds s fuel =
      some (.ok ((queueIds.toFinset.filter fun q => TransactionDB.exists q s = true).card, s')) ∧
    ∀ key, s' key = if key ∈ queueIds.map transactionDetailsKey then none else s key

section
variable {maxArguments : ℕ} {size : Number} {queueIds : List QueueId} {s : Store} {bs : List (List QueueId)}

private theorem spread_eq_ok {α : Type} {command : List String → α} {keys : List String} (hne : keys ≠ [])
    (hlength : keys.length ≤ maxArguments) : spread maxArguments command keys = .ok (command keys) := by
  unfold spread
  rw [if_neg (not_lt.mpr hlength), if_neg hne]

theorem length_of_spread {α : Type} {command : List String → α} {keys : List String} {a : α}
    (h : spread maxArguments command keys = .ok a) : keys.length ≤ maxArguments := by
  by_contra hlong
  unfold spread at h
  rw [if_pos (not_le.mp hlong)] at h
  cases h

/-- The command of a batch. -/
theorem spread_batch {α : Type} {command : List String → α} {b : List QueueId} (hne : b ≠ [])
    (hlength : b.length ≤ maxArguments) :
    spread maxArguments command (b.map transactionDetailsKey) = .ok (command (b.map transactionDetailsKey)) := by
  have hkeys : b.map transactionDetailsKey ≠ [] := fun hmap => hne (List.map_eq_nil_iff.mp hmap)
  exact spread_eq_ok hkeys (by simpa using hlength)

theorem foldlM_get (h : ∀ b ∈ bs, b ≠ [] ∧ b.length ≤ maxArguments) (result : List Transaction) :
    bs.foldlM (fun result batch => do
      let vals ← mgetKeys maxArguments s (batch.map transactionDetailsKey)
      pure (result ++ vals.filterMap id)) result = .ok (result ++ bs.flatten.filterMap (record s)) := by
  induction bs generalizing result with
  | nil => rw [List.flatten_nil, List.filterMap_nil, List.append_nil]; rfl
  | cons b bs ih =>
    obtain ⟨hne, hlength⟩ := h b List.mem_cons_self
    have hrest := ih (fun b hb => h b (List.mem_cons_of_mem _ hb))
    rw [List.foldlM_cons]
    show ((mgetKeys maxArguments s (b.map transactionDetailsKey)).bind fun vals => _).bind _ = _
    unfold mgetKeys
    rw [spread_batch hne hlength]
    refine (hrest (result ++ (s.mget (b.map transactionDetailsKey)).filterMap id)).trans ?_
    rw [filterMap_mget, List.append_assoc, List.flatten_cons, List.filterMap_append]

/-- Reading ends well only if every batch fits in one call. -/
theorem length_of_foldlM_get {result records : List Transaction} (h : bs.foldlM (fun result batch => do
      let vals ← mgetKeys maxArguments s (batch.map transactionDetailsKey)
      pure (result ++ vals.filterMap id)) result = .ok records) : ∀ b ∈ bs, b.length ≤ maxArguments := by
  induction bs generalizing result with
  | nil => exact fun b hb => absurd hb List.not_mem_nil
  | cons b bs ih =>
    rw [List.foldlM_cons] at h
    have hbind : ((mgetKeys maxArguments s (b.map transactionDetailsKey)).bind fun vals =>
        Except.ok (result ++ vals.filterMap id)).bind _ = .ok records := h
    cases hvals : mgetKeys maxArguments s (b.map transactionDetailsKey) with
    | error e =>
      rw [hvals] at hbind
      cases hbind
    | ok vals =>
      rw [hvals] at hbind
      have hlength : (b.map transactionDetailsKey).length ≤ maxArguments := length_of_spread hvals
      rw [List.length_map] at hlength
      intro b' hb'
      rcases List.mem_cons.mp hb' with rfl | hb'
      · exact hlength
      · exact ih hbind b' hb'

theorem foldlM_delete (h : ∀ b ∈ bs, b ≠ [] ∧ b.length ≤ maxArguments) (n : ℕ) :
    bs.foldlM (fun deleted batch => do
      let reply ← unlinkKeys maxArguments deleted.2 (batch.map transactionDetailsKey)
      pure (deleted.1 + reply.1, reply.2)) (n, s) =
      .ok (n + (unlinkBatches bs s).1, (unlinkBatches bs s).2) := by
  induction bs generalizing n s with
  | nil => rfl
  | cons b bs ih =>
    obtain ⟨hne, hlength⟩ := h b List.mem_cons_self
    rw [List.foldlM_cons]
    show ((unlinkKeys maxArguments s (b.map transactionDetailsKey)).bind fun reply => _).bind _ = _
    unfold unlinkKeys
    rw [spread_batch hne hlength]
    refine (ih (fun b hb => h b (List.mem_cons_of_mem _ hb)) _).trans ?_
    simp only [unlinkBatches, Nat.add_assoc]

/-- `UNLINK` counts each key that exists once. -/
theorem unlink_card (keys : List String) :
    (s.unlink keys).1 = (keys.toFinset.filter fun k => s.exists k = true).card := by
  induction keys generalizing s with
  | nil => rfl
  | cons k keys ih =>
    have hrest : (keys.toFinset.filter fun k' => Keyspace.exists (Function.update s k none) k' = true) =
        (keys.toFinset.filter fun k' => s.exists k' = true).erase k := by
      ext k'
      rw [Finset.mem_erase, Finset.mem_filter, Finset.mem_filter]
      unfold Keyspace.exists
      by_cases hk : k' = k
      · subst hk
        rw [Function.update_self]
        simp
      · rw [Function.update_of_ne hk]
        simp [hk]
    rw [Keyspace.unlink, ih, hrest, List.toFinset_cons, Finset.filter_insert]
    by_cases hk : s.exists k = true
    · have hinsert : insert k ((keys.toFinset.filter fun k' => s.exists k' = true).erase k) =
          insert k (keys.toFinset.filter fun k' => s.exists k' = true) := by
        ext k'
        by_cases hkey : k' = k <;> simp [hkey]
      rw [if_pos hk, if_pos hk, ← hinsert, Finset.card_insert_of_notMem (Finset.notMem_erase k _)]
    · have hnot : k ∉ keys.toFinset.filter fun k' => s.exists k' = true := by
        rw [Finset.mem_filter]
        exact fun hmem => hk hmem.2
      rw [if_neg hk, if_neg hk, Finset.erase_eq_of_notMem hnot, Nat.add_zero]

theorem card_exists (qs : List QueueId) :
    ((qs.map transactionDetailsKey).toFinset.filter fun k => s.exists k = true).card =
      (qs.toFinset.filter fun q => TransactionDB.exists q s = true).card := by
  have hinj : Function.Injective transactionDetailsKey := fun _ _ h => transactionDetailsKey_inj.mp h
  have himage : ((qs.map transactionDetailsKey).toFinset.filter fun k => s.exists k = true) =
      (qs.toFinset.filter fun q => TransactionDB.exists q s = true).image transactionDetailsKey := by
    ext k
    simp only [Finset.mem_filter, List.mem_toFinset, List.mem_map, Finset.mem_image]
    constructor
    · intro h
      obtain ⟨⟨q, hq, rfl⟩, hexists⟩ := h
      exact ⟨q, ⟨hq, hexists⟩, rfl⟩
    · intro h
      obtain ⟨q, ⟨hq, hexists⟩, rfl⟩ := h
      exact ⟨⟨q, hq, rfl⟩, hexists⟩
  rw [himage, Finset.card_image_of_injective _ hinj]

private theorem mgetKeys_nil (s : Store) (result : List Transaction) : ∃ e, (do
    let vals ← mgetKeys maxArguments s (([] : List QueueId).map transactionDetailsKey)
    pure (result ++ vals.filterMap id) : Except CallError (List Transaction)) = .error e :=
  ⟨.wrongNumberOfArguments, rfl⟩

/-- With a step below one the first or the second command has no keys. -/
theorem bulkGet_below_one (hlength : queueIds.length < 2 ^ 32) (hne : queueIds ≠ []) (hsize : le (ofNat 1) size = false)
    {fuel : ℕ} {r : Except CallError (List Transaction)} (h : bulkGet maxArguments size queueIds s fuel = some r) :
    ∃ e, r = .error e := by
  have hpos : queueIds.length ≠ 0 := fun hzero => hne (List.eq_nil_of_length_eq_zero hzero)
  unfold bulkGet at h
  rw [if_neg hpos] at h
  exact forSlices_of_lt (by omega) hne hsize (mgetKeys_nil s) h

/-- Every batch fits in one call. -/
def Fits (maxArguments : ℕ) (size : Number) (queueIds : List QueueId) : Prop :=
  ∀ k, (turn size queueIds k).length ≤ maxArguments

/-- For a whole number that is the case if the first batch fits. -/
theorem fits_ofNat_iff {n : ℕ} (hn : 1 ≤ n) (hn' : n ≤ 2 ^ 52) (hlength : queueIds.length < 2 ^ 32) :
    Fits maxArguments (ofNat n) queueIds ↔ Nat.min n queueIds.length ≤ maxArguments :=
  length_turn_ofNat_le_iff hn hn' (by omega)

private theorem unbatched_of_le (hlength : queueIds.length < 2 ^ 32) (hsize : le (ofNat 1) size = true)
    (hfits : Fits maxArguments size queueIds) : Unbatched maxArguments size queueIds s := by
  have hdone : ∀ bs : List (List QueueId), bs.flatten = queueIds →
      unlinkBatches bs s = s.unlink (queueIds.map transactionDetailsKey) := by
    intro bs hflatten
    rw [unlinkBatches_eq, hflatten]
  have hdeleted : ∀ key, (s.unlink (queueIds.map transactionDetailsKey)).2 key =
      if key ∈ queueIds.map transactionDetailsKey then none else s key := fun key => Keyspace.unlink_apply
  have hcount : (s.unlink (queueIds.map transactionDetailsKey)).1 =
      (queueIds.toFinset.filter fun q => TransactionDB.exists q s = true).card :=
    (unlink_card _).trans (card_exists queueIds)
  by_cases hempty : queueIds.length = 0
  · obtain rfl : queueIds = [] := List.eq_nil_of_length_eq_zero hempty
    exact ⟨⟨0, rfl⟩, 0, s, rfl, hdeleted⟩
  · constructor
    · obtain ⟨bs, hflatten, hmem, hrun⟩ := forSlices_of_le (l := queueIds) (by omega) hsize
      have hbatches : ∀ b ∈ bs, b ≠ [] ∧ b.length ≤ maxArguments := by
        intro b hb
        obtain ⟨hne, k, rfl⟩ := (hmem b).mp hb
        exact ⟨hne, hfits k⟩
      refine ⟨queueIds.length + 1, ?_⟩
      unfold bulkGet
      rw [if_neg hempty, hrun, foldlM_get hbatches, hflatten]
      rfl
    · obtain ⟨bs, hflatten, hmem, hrun⟩ := forSlices_of_le (l := queueIds) (by omega) hsize
      have hbatches : ∀ b ∈ bs, b ≠ [] ∧ b.length ≤ maxArguments := by
        intro b hb
        obtain ⟨hne, k, rfl⟩ := (hmem b).mp hb
        exact ⟨hne, hfits k⟩
      refine ⟨queueIds.length + 1, _, ?_, hdeleted⟩
      unfold bulkDelete
      rw [if_neg hempty, hrun, foldlM_delete hbatches, hdone bs hflatten, hcount, Nat.zero_add]

/-- Reading works only if the batches fit. -/
theorem fits_of_gets (hlength : queueIds.length < 2 ^ 32) (hne : queueIds ≠ []) (hsize : le (ofNat 1) size = true)
    {fuel : ℕ} {records : List Transaction} (h : bulkGet maxArguments size queueIds s fuel = some (.ok records)) :
    Fits maxArguments size queueIds := by
  have hpos : queueIds.length ≠ 0 := fun hzero => hne (List.eq_nil_of_length_eq_zero hzero)
  unfold bulkGet at h
  rw [if_neg hpos] at h
  obtain ⟨bs, -, hmem, hrun⟩ := forSlices_of_le (l := queueIds) (by omega) hsize
  have hfold := forSlices_fuel (hrun _ []) h
  intro k
  by_cases hempty : turn size queueIds k = []
  · rw [hempty]
    exact Nat.zero_le _
  · exact length_of_foldlM_get hfold _ ((hmem _).mpr ⟨hempty, k, rfl⟩)

/-- The batches make no difference exactly for the empty list, and for sizes of one at least whose batches fit in one
call. An array has less than `2 ^ 32` elements. -/
theorem unbatched_iff (maxArguments : ℕ) (size : Number) (queueIds : List QueueId) (hlength : queueIds.length < 2 ^ 32)
    (s : Store) : Unbatched maxArguments size queueIds s ↔
      queueIds = [] ∨ le (ofNat 1) size = true ∧ Fits maxArguments size queueIds := by
  constructor
  · intro h
    by_cases hne : queueIds = []
    · exact Or.inl hne
    · obtain ⟨fuel, hget⟩ := h.gets
      cases hsize : le (ofNat 1) size with
      | true => exact Or.inr ⟨rfl, fits_of_gets hlength hne hsize hget⟩
      | false =>
        obtain ⟨e, he⟩ := bulkGet_below_one hlength hne hsize hget
        cases he
  · intro h
    rcases h with rfl | ⟨hsize, hfits⟩
    · exact ⟨⟨0, rfl⟩, 0, s, rfl, fun key => rfl⟩
    · exact unbatched_of_le hlength hsize hfits

/-- Ids with and without a record, one of them twice. -/
def someIds : List QueueId := ["a", "c", "b", "a", "d"]

theorem unbatched_iff_pairs : Unbatched 2 (ofNat 2) someIds Pruning.twoQueued ∧
    someIds.filterMap (record Pruning.twoQueued) =
      [Pruning.queuedWithId "a", Pruning.queuedWithId "b", Pruning.queuedWithId "a"] := by
  have hlength : someIds.length < 2 ^ 32 := by decide
  have hfits : Fits 2 (ofNat 2) someIds := (fits_ofNat_iff (by omega) (by omega) hlength).mpr (by decide)
  have hsize : le (ofNat 1) (ofNat 2) = true := le_ofNat (by omega) (by omega)
  exact ⟨(unbatched_iff 2 (ofNat 2) someIds hlength Pruning.twoQueued).mpr (Or.inr ⟨hsize, hfits⟩), by decide +kernel⟩

/-- A batch size of zero. -/
theorem not_unbatched : ¬ Unbatched 100000 (ofNat 0) ["a"] (fun _ => none) := by
  intro h
  obtain ⟨zero, hzero, hzeroval⟩ := ofNat_eq 0 (by decide)
  obtain ⟨one, hone, honeval⟩ := ofNat_eq 1 (by decide)
  have hsize : le (ofNat 1) (ofNat 0) = false := by
    rw [hzero, hone]
    simp [le, lt, hzeroval, honeval]
  obtain ⟨fuel, hget⟩ := h.gets
  obtain ⟨e, he⟩ := bulkGet_below_one (by decide) (List.cons_ne_nil _ _) hsize hget
  cases he

end
end Engine.Batches
