import Engine.Nonces.UsedWallets

/-! `POST /backend-wallet/reset-nonces`: the nonces are deleted, and taken from the chain again. -/
namespace Engine.Nonces
open Concurrent Program

/-- `deleteAllNonces`. -/
def deleteAllNonces : AdminProg Unit := do
  let lastUsed ← keys "nonce:*"
  let recycled ← keys "nonce-recycled:*"
  let sent ← keys "sent-nonce:*"
  let keys := lastUsed ++ recycled ++ sent
  if keys.length > 0 then del keys else pure ()

/-- The `getUsedBackendWallets` of `resetNonces.ts`. -/
def resetNoncesWallets : AdminProg (List Wallet) := do
  let keys ← keys "nonce:*:*"
  walletsOf keys

def resetBackendWalletNonces : AdminProg Unit := do
  let backendWallets ← resetNoncesWallets
  deleteAllNonces
  let _ ← settle (fun k => (syncLatestNonceFromOnchain k).extend) backendWallets
  pure ()

/-- Only the count of the chain is left of a wallet, and the next nonces go up from it; nothing is left where
the lookup failed. -/
def IsReset (x : Outside) (s : Keyspace) (k : Wallet) : Prop :=
  match x.count k with
  | .ok c => s.readZset (recycledNoncesKey k) = .ok .empty ∧ s.readSet (sentNoncesKey k) = .ok ∅ ∧
    ∀ queueIds, ∃ s', (collect (fun queueId => acquireNonce queueId k) queueIds).runWith Keyspace.effect x.calls s =
      some (.ok ((List.range queueIds.length).map fun i => ⟨c + i, false⟩), s')
  | .error _ => s.lookup (lastUsedNonceKey k) = none ∧ s.lookup (recycledNoncesKey k) = none ∧
    s.lookup (sentNoncesKey k) = none

section
variable {s s' : Keyspace} {x : Outside} {k k' : Wallet} {key : String} {c : ℕ} {n : ℤ}

/-! ### What is deleted -/

/-- The key matches one of the three patterns. -/
def isDeleted (key : String) : Bool :=
  globMatches "nonce:*" key || globMatches "nonce-recycled:*" key || globMatches "sent-nonce:*" key

private theorem lookup_del (keys : List String) : (s.del keys).lookup key =
    if key ∈ keys then none else s.lookup key := by
  unfold Keyspace.del
  induction keys generalizing s with
  | nil => rfl
  | cons key' keys ih =>
    rw [List.foldl_cons, ih]
    by_cases hkey : key = key'
    · subst hkey
      rw [AList.lookup_erase, if_pos List.mem_cons_self, ite_self]
    · rw [AList.lookup_erase_ne hkey]
      have hmem : key ∈ key' :: keys ↔ key ∈ keys := List.mem_cons.trans (or_iff_right hkey)
      simp only [hmem]

theorem keys_run (x : Outside) (s : Keyspace) (pattern : String) :
    ∃ found, (keys pattern).runWith Keyspace.adminEffect x.admin s = some (.ok found, s) ∧
      ∀ key, key ∈ found ↔ key ∈ s ∧ globMatches pattern key = true := by
  refine ⟨x.keyOrder.apply (s.keys.filter (globMatches pattern)), runWith_perform _, fun key => ?_⟩
  rw [(x.keyOrder.perm _).mem_iff, List.mem_filter, ← AList.mem_keys]

theorem deleteAllNonces_run (x : Outside) (s : Keyspace) :
    ∃ s', deleteAllNonces.runWith Keyspace.adminEffect x.admin s = some (.ok (), s') ∧
      ∀ key, s'.lookup key = if isDeleted key then none else s.lookup key := by
  obtain ⟨lastUsed, hlast, hlastMem⟩ := keys_run x s "nonce:*"
  obtain ⟨recycled, hrecycled, hrecycledMem⟩ := keys_run x s "nonce-recycled:*"
  obtain ⟨sent, hsent, hsentMem⟩ := keys_run x s "sent-nonce:*"
  have hmem : ∀ key, key ∈ lastUsed ++ recycled ++ sent ↔ key ∈ s ∧ isDeleted key = true := by
    intro key
    rw [List.mem_append, List.mem_append, hlastMem, hrecycledMem, hsentMem]
    simp only [isDeleted, Bool.or_eq_true, and_or_left]
  have hlookup : ∀ key, (s.del (lastUsed ++ recycled ++ sent)).lookup key =
    if isDeleted key then none else s.lookup key := by
    intro key
    rw [lookup_del]
    by_cases hkey : key ∈ s
    · simp only [hmem, hkey, true_and]
    · rw [AList.lookup_eq_none.mpr hkey, ite_self, ite_self]
  have hrun : deleteAllNonces.runWith Keyspace.adminEffect x.admin s =
      (if (lastUsed ++ recycled ++ sent).length > 0 then del (lastUsed ++ recycled ++ sent) else pure ()).runWith
        Keyspace.adminEffect x.admin s :=
    (runWith_bind_ok hlast).trans ((runWith_bind_ok hrecycled).trans (runWith_bind_ok hsent))
  refine ⟨s.del (lastUsed ++ recycled ++ sent), ?_, hlookup⟩
  rw [hrun]
  split
  case isTrue => exact runWith_perform _
  case isFalse hnil =>
    have hempty : lastUsed ++ recycled ++ sent = [] := List.length_eq_zero_iff.mp (Nat.eq_zero_of_not_pos hnil)
    rw [hempty]
    rfl

/-- A pattern of one kind matches the keys of that kind, and no others. -/
theorem globMatches_keyOf (kind : String) {kind' : String} (hstar : '*' ∉ kind.toList) (hkind : ':' ∉ kind.toList)
    (hkind' : ':' ∉ kind'.toList) : globMatches (kind ++ ":" ++ "*") (keyOf kind' k) = true ↔ kind' = kind := by
  have hw : '*' ∉ (kind ++ ":").toList := by
    rw [String.toList_append, List.mem_append]
    exact fun h => h.elim hstar (by decide)
  have hcons : ∀ rest, (kind ++ ":").toList ++ rest = kind.toList ++ ':' :: rest := by
    intro rest
    rw [String.toList_append, List.append_assoc]
    rfl
  rw [globMatches_star hw, toList_keyOf]
  constructor
  · intro h
    obtain ⟨rest, heq⟩ := h
    rw [hcons, append_cons_inj_of_not_mem hkind' hkind] at heq
    exact String.toList_inj.mp heq.1
  · rintro rfl
    exact ⟨_, (hcons _).symm⟩

/-- The keys of the last used and of the recycled nonces are deleted; those of the sent nonces are not. -/
theorem isDeleted_key (kind : KeyKind) (k : Wallet) :
    isDeleted (kind.key k) = true ↔ kind = .lastUsed ∨ kind = .recycled := by
  have hlast : globMatches "nonce:*" (kind.key k) = true ↔ kind.text = "nonce" := by
    rw [KeyKind.key_eq]
    exact globMatches_keyOf "nonce" (by decide) (by decide) kind.not_mem_text
  have hrecycled : globMatches "nonce-recycled:*" (kind.key k) = true ↔ kind.text = "nonce-recycled" := by
    rw [KeyKind.key_eq]
    exact globMatches_keyOf "nonce-recycled" (by decide) (by decide) kind.not_mem_text
  have hsent : globMatches "sent-nonce:*" (kind.key k) = true ↔ kind.text = "sent-nonce" := by
    rw [KeyKind.key_eq]
    exact globMatches_keyOf "sent-nonce" (by decide) (by decide) kind.not_mem_text
  rw [isDeleted, Bool.or_eq_true, Bool.or_eq_true, hlast, hrecycled, hsent]
  cases kind <;> decide

/-! ### What the lookups set -/

theorem lookup_resync_ne (h : key ≠ lastUsedNonceKey k) : (resync x s k).lookup key = s.lookup key := by
  unfold resync
  split
  · exact Keyspace.lookup_setString h _
  · rfl

theorem lookup_resyncs_ne {ws : List Wallet} (h : ∀ k ∈ ws, key ≠ lastUsedNonceKey k) :
    (ws.foldl (resync x) s).lookup key = s.lookup key := by
  induction ws generalizing s with
  | nil => rfl
  | cons k ws ih =>
    rw [List.foldl_cons, ih fun k hk => h k (List.mem_cons_of_mem _ hk), lookup_resync_ne (h k List.mem_cons_self)]

/-- Each wallet's lookup sets the wallet's own key. -/
theorem lookup_resyncs {ws : List Wallet} (hnodup : ws.Nodup) (hk : k ∈ ws) :
    (ws.foldl (resync x) s).lookup (lastUsedNonceKey k) = (resync x s k).lookup (lastUsedNonceKey k) := by
  induction ws generalizing s with
  | nil => cases hk
  | cons k' ws ih =>
    obtain ⟨hnot, hnodup⟩ := List.nodup_cons.mp hnodup
    rw [List.foldl_cons]
    obtain rfl | hk := List.mem_cons.mp hk
    · exact lookup_resyncs_ne fun k' hk' heq => hnot (lastUsedNonceKey_inj heq ▸ hk')
    · have hne : lastUsedNonceKey k ≠ lastUsedNonceKey k' := fun heq => hnot (lastUsedNonceKey_inj heq ▸ hk)
      rw [ih hnodup hk]
      unfold resync
      cases x.count k with
      | ok c => simp only [Keyspace.setString, AList.lookup_insert]
      | error e => exact lookup_resync_ne hne

/-! ### The nonces that are acquired next -/

/-- No nonce is recycled, and the next ones count on from `n`. -/
structure Counting (s : Keyspace) (k : Wallet) (n : ℤ) : Prop where
  lastUsed : s.readString (lastUsedNonceKey k) = .ok (some n)
  recycled : s.readZset (recycledNoncesKey k) = .ok .empty
  nonceMap : ∃ z, s.readNonceMap (nonceMapKey k) = .ok z

namespace Counting

theorem setString (h : Counting s k n) (m : ℤ) : Counting (s.setString (lastUsedNonceKey k) m) k m := by
  have hrecycled : recycledNoncesKey k ≠ lastUsedNonceKey k := KeyKind.key_ne .recycled .lastUsed (by decide)
  have hmap : nonceMapKey k ≠ lastUsedNonceKey k := KeyKind.key_ne .nonceMap .lastUsed (by decide)
  obtain ⟨z, hz⟩ := h.nonceMap
  constructor
  · exact Keyspace.readString_setString m
  · exact (Keyspace.readZset_congr (Keyspace.lookup_setString hrecycled m)).trans h.recycled
  · exact ⟨z, (Keyspace.readNonceMap_congr (Keyspace.lookup_setString hmap m)).trans hz⟩

theorem putZset (h : Counting s k n) : Counting (s.putZset (recycledNoncesKey k) .empty) k n := by
  have hlast : lastUsedNonceKey k ≠ recycledNoncesKey k := KeyKind.key_ne .lastUsed .recycled (by decide)
  have hmap : nonceMapKey k ≠ recycledNoncesKey k := KeyKind.key_ne .nonceMap .recycled (by decide)
  obtain ⟨z, hz⟩ := h.nonceMap
  constructor
  · exact (Keyspace.readString_congr (Keyspace.lookup_putZset hlast _)).trans h.lastUsed
  · exact Keyspace.readZset_putZset _
  · exact ⟨z, (Keyspace.readNonceMap_congr (Keyspace.lookup_putZset hmap _)).trans hz⟩

theorem insert_nonceMap (h : Counting s k n) (z : Redis.ZSet QueueId) :
    Counting (s.insert (nonceMapKey k) (.nonceMap z)) k n := by
  have hlast : lastUsedNonceKey k ≠ nonceMapKey k := KeyKind.key_ne .lastUsed .nonceMap (by decide)
  have hrecycled : recycledNoncesKey k ≠ nonceMapKey k := KeyKind.key_ne .recycled .nonceMap (by decide)
  constructor
  · exact (Keyspace.readString_congr (AList.lookup_insert_ne hlast)).trans h.lastUsed
  · exact (Keyspace.readZset_congr (AList.lookup_insert_ne hrecycled)).trans h.recycled
  · refine ⟨z, ?_⟩
    unfold Keyspace.readNonceMap
    rw [AList.lookup_insert]

end Counting

/-- What `INCR` and its special value 1 come to. -/
def nextNonce (c : ℕ) (n : ℤ) : ℤ := if n = 0 then c else n + 1

private theorem incrementNonce_run (hc : x.count k = .ok c) (h : Counting s k n) :
    ∃ s', (incrementNonce k).runWith Keyspace.effect x.calls s = some (.ok (nextNonce c n), s') ∧
      Counting s' k (nextNonce c n) := by
  have hincr : ∀ {s : Keyspace} {n m : ℤ}, Counting s k n → n + 1 = m →
      (await (.incrNonce k)).runWith Keyspace.effect x.calls s = some (.ok m, s.setString (lastUsedNonceKey k) m) := by
    rintro s n m h rfl
    rw [runWith_perform]
    show some (s.respond (s.readString (lastUsedNonceKey k)) _) = _
    rw [h.lastUsed]
    rfl
  have hnext : n + 1 = 1 ↔ n = 0 := by omega
  unfold incrementNonce nextNonce
  by_cases hn : n = 0
  · have hsync := syncLatestNonceFromOnchain_run x k (s.setString (lastUsedNonceKey k) (n + 1))
    have hresync : resync x (s.setString (lastUsedNonceKey k) (n + 1)) k =
        (s.setString (lastUsedNonceKey k) (n + 1)).setString (lastUsedNonceKey k) (c - 1) := by
      unfold resync
      rw [hc]
    rw [hc, hresync] at hsync
    have hcounting := (h.setString (n + 1)).setString ((c : ℤ) - 1)
    have hagain := hincr hcounting (Int.sub_add_cancel c 1)
    rw [if_pos hn]
    refine ⟨_, (runWith_bind_ok (hincr h rfl)).trans ?_, hcounting.setString c⟩
    rw [if_pos (hnext.mpr hn)]
    exact (runWith_bind_ok hsync).trans hagain
  · rw [if_neg hn]
    refine ⟨_, (runWith_bind_ok (hincr h rfl)).trans ?_, h.setString (n + 1)⟩
    rw [if_neg fun heq => hn (hnext.mp heq)]
    rfl

theorem acquireNonce_run (queueId : QueueId) (hc : x.count k = .ok c) (h : Counting s k n) :
    ∃ s', (acquireNonce queueId k).runWith Keyspace.effect x.calls s = some (.ok ⟨nextNonce c n, false⟩, s') ∧
      Counting s' k (nextNonce c n) := by
  have hpop : (acquireRecycledNonce k).runWith Keyspace.effect x.calls s =
      some (.ok none, s.putZset (recycledNoncesKey k) .empty) := by
    unfold acquireRecycledNonce
    rw [runWith_perform]
    show some (s.respond (s.readZset (recycledNoncesKey k)) _) = _
    rw [h.recycled]
    rfl
  obtain ⟨s₁, hincr, h₁⟩ := incrementNonce_run hc h.putZset
  obtain ⟨z, hz⟩ := h₁.nonceMap
  have hmap : (updateNonceMap k (nextNonce c n) queueId).runWith Keyspace.effect x.calls s₁ =
      some (.ok (), s₁.insert (nonceMapKey k) (.nonceMap (Redis.ZSet.insert z (nextNonce c n) queueId))) := by
    unfold updateNonceMap
    rw [runWith_perform]
    show some (s₁.respond (s₁.readNonceMap (nonceMapKey k)) _) = _
    rw [hz]
    rfl
  refine ⟨_, ?_, h₁.insert_nonceMap (Redis.ZSet.insert z (nextNonce c n) queueId)⟩
  exact (runWith_bind_ok hpop).trans ((runWith_bind_ok hincr).trans (runWith_bind_ok hmap))

theorem acquireNonces_run (hc : x.count k = .ok c) (hpos : c ≠ 0) (queueIds : List QueueId) (i : ℕ)
    (h : Counting s k ((c : ℤ) - 1 + i)) :
    ∃ s', (collect (fun queueId => acquireNonce queueId k) queueIds).runWith Keyspace.effect x.calls s =
      some (.ok ((List.range' i queueIds.length).map fun i => ⟨c + i, false⟩), s') := by
  induction queueIds generalizing s i with
  | nil => exact ⟨s, rfl⟩
  | cons queueId queueIds ih =>
    have hnext : nextNonce c ((c : ℤ) - 1 + i) = c + i := by
      unfold nextNonce
      split
      · omega
      · omega
    obtain ⟨s₁, hacquire, h₁⟩ := acquireNonce_run queueId hc h
    rw [hnext] at hacquire h₁
    have hcount : (c : ℤ) - 1 + (i + 1 : ℕ) = c + i := by omega
    obtain ⟨s₂, hrest⟩ := ih (i + 1) (hcount ▸ h₁)
    exact ⟨s₂, (runWith_bind_ok hacquire).trans (runWith_bind_ok hrest)⟩

/-- From the count 0 on, the nonce 0 is given out again and again. -/
theorem acquireNonces_zero (hc : x.count k = .ok 0) (queueId : QueueId) (h : Counting s k (-1)) :
    ∃ s', (collect (fun queueId => acquireNonce queueId k) [queueId, queueId]).runWith Keyspace.effect x.calls s =
      some (.ok [⟨0, false⟩, ⟨0, false⟩], s') := by
  obtain ⟨s₁, hfirst, h₁⟩ := acquireNonce_run queueId hc h
  obtain ⟨s₂, hsecond, -⟩ := acquireNonce_run queueId hc h₁
  have hnil : (collect (fun queueId => acquireNonce queueId k) []).runWith Keyspace.effect x.calls s₂ =
    some (.ok [], s₂) := rfl
  exact ⟨s₂, (runWith_bind_ok hfirst).trans (runWith_bind_ok ((runWith_bind_ok hsecond).trans (runWith_bind_ok hnil)))⟩

/-! ### After the reset -/

/-- What the lookup of a wallet finds, as the last used nonce. -/
def onchainValue (x : Outside) (k : Wallet) : Option Value :=
  match x.count k with
  | .ok c => some (.string (c - 1))
  | .error _ => none

/-- What is left of a wallet by the deletion and the lookups. -/
structure AfterReset (x : Outside) (s s' : Keyspace) (k : Wallet) : Prop where
  lastUsed : s'.lookup (lastUsedNonceKey k) = onchainValue x k
  recycled : s'.lookup (recycledNoncesKey k) = none
  sent : s'.lookup (sentNoncesKey k) = s.lookup (sentNoncesKey k)
  nonceMap : s'.lookup (nonceMapKey k) = s.lookup (nonceMapKey k)

theorem resetBackendWalletNonces_run (x : Outside) (h : WellFormed s) :
    ∃ s', resetBackendWalletNonces.runWith Keyspace.adminEffect x.admin s = some (.ok (), s') ∧
      ∀ k, lastUsedNonceKey k ∈ s → AfterReset x s s' k := by
  obtain ⟨ws, hws, hnodup, hmem⟩ := getUsedBackendWallets_run x none none h
  obtain ⟨s₁, hdelete, hlookup⟩ := deleteAllNonces_run x s
  have hsync : ∀ k ∈ ws, ∀ s, ((syncLatestNonceFromOnchain k).extend : AdminProg Unit).runWith Keyspace.adminEffect
      x.admin s = some ((x.count k).map fun _ => (), resync x s k) :=
    fun k _ s => (runWith_extend fun _ _ => rfl).trans (syncLatestNonceFromOnchain_run x k s)
  refine ⟨ws.foldl (resync x) s₁, ?_, fun k hk => ?_⟩
  · exact (runWith_bind_ok hws).trans ((runWith_bind_ok hdelete).trans (runWith_bind_ok (runWith_settle hsync)))
  · have hother : ∀ kind : KeyKind, kind ≠ .lastUsed →
        (ws.foldl (resync x) s₁).lookup (kind.key k) = if kind = .recycled then none else s.lookup (kind.key k) := by
      intro kind hkind
      have hdeleted : isDeleted (kind.key k) = true ↔ kind = .recycled :=
        (isDeleted_key kind k).trans (or_iff_right hkind)
      rw [lookup_resyncs_ne fun k' _ => KeyKind.key_ne kind .lastUsed hkind, hlookup]
      simp only [hdeleted]
    constructor
    · have hdeleted : s₁.lookup (lastUsedNonceKey k) = none :=
        (hlookup _).trans (if_pos ((isDeleted_key .lastUsed k).mpr (Or.inl rfl)))
      rw [lookup_resyncs hnodup ((hmem k).mpr ⟨hk, fits_none k⟩)]
      unfold resync onchainValue
      cases x.count k with
      | ok c => exact AList.lookup_insert _
      | error e => exact hdeleted
    · exact hother .recycled (by decide)
    · exact hother .sent (by decide)
    · exact hother .nonceMap (by decide)

theorem WellFormed.readSet_eq_empty (h : WellFormed s) :
    s.readSet (sentNoncesKey k) = .ok ∅ ↔ s.lookup (sentNoncesKey k) = none := by
  unfold Keyspace.readSet
  cases hv : s.lookup (sentNoncesKey k) with
  | none => exact iff_of_true rfl rfl
  | some v =>
    have hholds := h.typed .sent k v hv
    cases v with
    | set members => exact iff_of_false (fun heq => hholds (Except.ok.inj heq)) (Option.some_ne_none _)
    | _ => exact hholds.elim

theorem AfterReset.counting (h : AfterReset x s s' k) (hs : WellFormed s) (hc : x.count k = .ok c) :
    Counting s' k ((c : ℤ) - 1) := by
  obtain ⟨z, hz⟩ := hs.readNonceMap k
  have hlast : s'.lookup (lastUsedNonceKey k) = some (.string ((c : ℤ) - 1)) := by
    rw [h.lastUsed, onchainValue, hc]
  constructor
  · unfold Keyspace.readString
    rw [hlast]
  · unfold Keyspace.readZset
    rw [h.recycled]
  · exact ⟨z, (Keyspace.readNonceMap_congr h.nonceMap).trans hz⟩

theorem AfterReset.isReset_iff (h : AfterReset x s s' k) (hs : WellFormed s) :
    IsReset x s' k ↔ s.lookup (sentNoncesKey k) = none ∧ x.count k ≠ .ok 0 := by
  have hsent : s'.readSet (sentNoncesKey k) = .ok ∅ ↔ s.lookup (sentNoncesKey k) = none := by
    rw [Keyspace.readSet_congr h.sent, hs.readSet_eq_empty]
  unfold IsReset
  cases hc : x.count k with
  | error e =>
    have hlast : s'.lookup (lastUsedNonceKey k) = none := by
      rw [h.lastUsed, onchainValue, hc]
    simp only [hlast, h.recycled, h.sent, true_and]
    exact (and_iff_left nofun).symm
  | ok c =>
    have hcounting := h.counting hs hc
    simp only [hcounting.recycled, hsent, true_and]
    refine and_congr_right fun _ => ?_
    constructor
    · intro hacquire hzero
      obtain rfl := Except.ok.inj hzero
      obtain ⟨s₁, hgiven⟩ := acquireNonces_zero hc "" hcounting
      obtain ⟨s₂, hpromised⟩ := hacquire ["", ""]
      rw [hgiven] at hpromised
      cases hpromised
    · intro hpos queueIds
      have hstart : Counting s' k ((c : ℤ) - 1 + (0 : ℕ)) := by
        show Counting s' k ((c : ℤ) - 1 + 0)
        rw [Int.add_zero]
        exact hcounting
      rw [List.range_eq_range']
      exact acquireNonces_run hc (fun hzero => hpos (congrArg Except.ok hzero)) queueIds 0 hstart

/-- A wallet is reset if and only if none of its nonces is in the sent set and its count on the chain is not 0. -/
theorem resets_iff (x : Outside) (h : WellFormed s) (hk : lastUsedNonceKey k ∈ s) :
    ∃ s', resetBackendWalletNonces.runWith Keyspace.adminEffect x.admin s = some (.ok (), s') ∧
      (IsReset x s' k ↔ s.lookup (sentNoncesKey k) = none ∧ x.count k ≠ .ok 0) := by
  obtain ⟨s', hrun, hafter⟩ := resetBackendWalletNonces_run x h
  exact ⟨s', hrun, (hafter k hk).isReset_iff h⟩

end

/-- The wallet used the nonces up to 5. -/
def usedState : Keyspace := Keyspace.setString ∅ (lastUsedNonceKey usedWallet) 5

theorem wellFormed_usedState : WellFormed usedState := WellFormed.empty.setString 5

theorem resets_iff_used : ∃ s', resetBackendWalletNonces.runWith Keyspace.adminEffect (countIs 7).admin usedState =
    some (.ok (), s') ∧ IsReset (countIs 7) s' usedWallet := by
  obtain ⟨s', hrun, hiff⟩ := resets_iff (countIs 7) wellFormed_usedState ((AList.mem_insert _).mpr (Or.inl rfl))
  have hsent : usedState.lookup (sentNoncesKey usedWallet) = none :=
    Keyspace.lookup_setString (KeyKind.key_ne .sent .lastUsed (by decide)) 5
  exact ⟨s', hrun, hiff.mpr ⟨hsent, by decide⟩⟩

/-- The nonce 5 was sent and is still in the set after the reset; and a wallet whose count is 0 gets
the nonce 0 twice. -/
theorem not_resets :
    (¬ ∀ s', resetBackendWalletNonces.runWith Keyspace.adminEffect (countIs 7).admin
        (usedState.putSet (sentNoncesKey usedWallet) {5}) = some (.ok (), s') → IsReset (countIs 7) s' usedWallet) ∧
      ¬ ∀ s', resetBackendWalletNonces.runWith Keyspace.adminEffect (countIs 0).admin usedState = some (.ok (), s') →
        IsReset (countIs 0) s' usedWallet := by
  have hused : lastUsedNonceKey usedWallet ∈ usedState := (AList.mem_insert _).mpr (Or.inl rfl)
  constructor
  · intro hall
    have hwf : WellFormed (usedState.putSet (sentNoncesKey usedWallet) {5}) := wellFormed_usedState.putSet {5}
    obtain ⟨s', hrun, hafter⟩ := resetBackendWalletNonces_run (countIs 7) hwf
    have hmem : lastUsedNonceKey usedWallet ∈ usedState.putSet (sentNoncesKey usedWallet) {5} :=
      (AList.mem_insert _).mpr (Or.inr hused)
    have hnone := (((hafter usedWallet hmem).isReset_iff hwf).mp (hall s' hrun)).1
    have hsome : (usedState.putSet (sentNoncesKey usedWallet) {5}).lookup (sentNoncesKey usedWallet) =
      some (.set {5}) :=
      AList.lookup_insert _
    rw [hsome] at hnone
    cases hnone
  · intro hall
    obtain ⟨s', hrun, hafter⟩ := resetBackendWalletNonces_run (countIs 0) wellFormed_usedState
    exact (((hafter usedWallet hused).isReset_iff wellFormed_usedState).mp (hall s' hrun)).2 rfl

end Engine.Nonces
