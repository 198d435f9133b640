import Engine.Nonces.UsedWallets

/-! `GET /admin/nonces`: the nonces of every wallet in use, read by one pipeline. -/
namespace Engine.Nonces
open Concurrent Program

structure NonceDetails where
  walletAddress : Address
  chainId : ℕ
  onchainNonce : Option ℤ
  /-- `none` is `NaN`. -/
  lastUsedNonce : Option ℤ
  sentNonces : List ℤ
  recycledNonces : List ℤ

def getLastUsedOnchainNonce (k : Wallet) : Prog ℤ := do
  let _ ← getChain k.chainId
  let transactionCount ← await (.ethGetTransactionCount k)
  pure ((transactionCount : ℤ) - 1)

/-- The three commands of a wallet. -/
def nonceCommands (k : Wallet) : List Command :=
  [.get (lastUsedNonceKey k), .smembers (sentNoncesKey k), .smembers (recycledNoncesKey k)]

def typeError : Err := { name := "TypeError", message := some "Cannot read properties of undefined (reading 'map')" }

/-- `parseInt(result[1]) ?? 0`. What is not a number stays so. -/
def parsedNonce : Option (Except Err Reply) → Option ℤ
  | some (.ok (.string n)) => n
  | _ => none

/-- `result[1].map((nonce) => parseInt(nonce)).sort((a, b) => b - a)`. The entry of an error has no reply. -/
def sortedNonces : Option (Except Err Reply) → Except Err (List ℤ)
  | some (.ok (.array members)) => .ok (members.mergeSort fun a b => decide (b ≤ a))
  | _ => .error typeError

/-- The entry of a wallet, from its three results. -/
def detailsOf (results : List (Except Err Reply)) (onchainNonce : Option ℤ) (k : Wallet) : Except Err NonceDetails := do
  let sentNonces ← sortedNonces results[1]?
  let recycledNonces ← sortedNonces results[2]?
  pure
    { walletAddress := k.walletAddress
      chainId := k.chainId
      onchainNonce
      lastUsedNonce := parsedNonce results[0]?
      sentNonces
      recycledNonces }

/-- `pipelineResults.slice(pipelineOffset, pipelineOffset + 3)`. -/
def resultsAt (pipelineResults : List (Except Err Reply)) (index : ℕ) : List (Except Err Reply) :=
  (pipelineResults.drop (index * 3)).take 3

def getNonceDetails (chainId : Option ℕ) (walletAddress : Option Address) : AdminProg (List NonceDetails) := do
  let usedBackendWallets ← getUsedBackendWallets chainId walletAddress
  let pipelineResults ← perform (I := AdminCalls) (.inr (.pipeline (usedBackendWallets.flatMap nonceCommands)))
  let onchainNonces ← collect (fun k => (getLastUsedOnchainNonce k).extend) usedBackendWallets
  ofExcept (usedBackendWallets.zipIdx.mapM fun entry =>
    detailsOf (resultsAt pipelineResults entry.2) onchainNonces[entry.2]? entry.1)

/-! ### What the route is for -/

def NonceDetails.wallet (d : NonceDetails) : Wallet := ⟨d.chainId, d.walletAddress⟩

/-- An entry shows what the allocator has. -/
structure Agrees (x : Outside) (s : Keyspace) (d : NonceDetails) : Prop where
  lastUsed : ∃ n, d.lastUsedNonce = some n ∧
    (inspectNonce d.wallet).runWith Keyspace.effect x.calls s = some (.ok n, s)
  sent : ∃ members, s.readSet (sentNoncesKey d.wallet) = .ok members ∧ ∀ n, n ∈ d.sentNonces ↔ n ∈ members
  sentSorted : d.sentNonces.Pairwise (· > ·)
  recycled : ∃ members, s.readZset (recycledNoncesKey d.wallet) = .ok members ∧ ∀ n, n ∈ d.recycledNonces ↔ n ∈ members
  recycledSorted : d.recycledNonces.Pairwise (· > ·)

/-- The answer has one entry for each wallet that fits, and each agrees with the allocator. -/
def Inspects (x : Outside) (s : Keyspace) (chainId : Option ℕ) (walletAddress : Option Address)
    (answer : Except Err (List NonceDetails)) : Prop :=
  ∃ details, answer = .ok details ∧ (details.map NonceDetails.wallet).Nodup ∧
    (∀ k, k ∈ details.map NonceDetails.wallet ↔ lastUsedNonceKey k ∈ s ∧ Fits chainId walletAddress k) ∧
    ∀ d ∈ details, Agrees x s d

/-! ### Replies by their place -/

section
variable {α β : Type} {f : α → List β} {l : List α} {a : α} {n i : ℕ}

/-- Blocks of one length are found by their place. -/
theorem slice_flatMap (hf : ∀ a, (f a).length = n) (h : l[i]? = some a) :
    ((l.flatMap f).drop (i * n)).take n = f a := by
  induction l generalizing i with
  | nil => cases h
  | cons b l ih =>
    rw [List.flatMap_cons]
    cases i with
    | zero =>
      obtain rfl := Option.some.inj h
      rw [Nat.zero_mul, List.drop_zero]
      exact List.take_left' (hf b)
    | succ i =>
      have hskip : (i + 1) * n = (f b).length + i * n := by
        rw [hf, Nat.succ_mul, Nat.add_comm]
      rw [hskip, List.drop_length_add_append]
      exact ih h

theorem mem_sorted [LinearOrder α] (order : Arrangement α) (members : Finset α) (n : α) :
    n ∈ (order.apply members.sort).mergeSort (fun a b => decide (b ≤ a)) ↔ n ∈ members := by
  rw [(List.mergeSort_perm _ _).mem_iff, (order.perm _).mem_iff, Finset.mem_sort]

private theorem sorted_descending [LinearOrder α] (order : Arrangement α) (members : Finset α) :
    ((order.apply members.sort).mergeSort fun a b => decide (b ≤ a)).Pairwise (· > ·) := by
  have hsorted : ((order.apply members.sort).mergeSort fun a b => decide (b ≤ a)).Pairwise
    fun a b => decide (b ≤ a) = true := by
    apply List.pairwise_mergeSort
    · intro a b c hab hbc
      exact decide_eq_true (le_trans (of_decide_eq_true hbc) (of_decide_eq_true hab))
    · intro a b
      rw [Bool.or_eq_true, decide_eq_true_iff, decide_eq_true_iff]
      exact le_total b a
  have hnodup : ((order.apply members.sort).mergeSort fun a b => decide (b ≤ a)).Nodup :=
    ((List.mergeSort_perm _ _).trans (order.perm _)).nodup_iff.mpr (Finset.sort_nodup _ _)
  refine (hsorted.and hnodup).imp fun h => ?_
  exact lt_of_le_of_ne (of_decide_eq_true h.1) h.2.symm

end

/-! ### The entry of a wallet -/

section
variable {s : Keyspace} {x : Outside} {k : Wallet} {onchainNonce : Option ℤ}

private theorem inspectNonce_run {n : ℤ} (h : s.readString (lastUsedNonceKey k) = .ok (some n)) :
    (inspectNonce k).runWith Keyspace.effect x.calls s = some (.ok n, s) := by
  have hget : (await (.getNonce k)).runWith Keyspace.effect x.calls s = some (.ok (some n), s) := by
    rw [runWith_perform]
    show some (s.respond (s.readString (lastUsedNonceKey k)) _) = _
    rw [h]
    rfl
  exact runWith_bind_ok hget

/-- Without a recycled nonce the three replies make an entry that agrees. -/
theorem WellFormed.detailsOf_ok (h : WellFormed s) (hk : lastUsedNonceKey k ∈ s)
    (hrecycled : s.lookup (recycledNoncesKey k) = none) :
    ∃ d, detailsOf ((nonceCommands k).map (s.command x.memberOrder)) onchainNonce k = .ok d ∧ d.wallet = k ∧
      Agrees x s d := by
  obtain ⟨n, hn⟩ := h.readString hk
  obtain ⟨members, hsent⟩ := h.readSet k
  have hempty : s.readSet (recycledNoncesKey k) = .ok ∅ := by
    unfold Keyspace.readSet
    rw [hrecycled]
  have hzset : s.readZset (recycledNoncesKey k) = .ok .empty := by
    unfold Keyspace.readZset
    rw [hrecycled]
  have hblock : (nonceCommands k).map (s.command x.memberOrder) = [.ok (.string (some n)),
      .ok (.array (x.memberOrder.apply members.sort)), .ok (.array (x.memberOrder.apply (∅ : Finset ℤ).sort))] := by
    simp only [nonceCommands, List.map_cons, List.map_nil, Keyspace.command, hn, hsent, hempty, Except.map]
  rw [hblock]
  refine ⟨_, rfl, rfl, ⟨n, rfl, inspectNonce_run hn⟩, ⟨members, hsent, mem_sorted _ _⟩, sorted_descending _ _,
    ⟨.empty, hzset, ?_⟩, sorted_descending _ _⟩
  intro n
  exact (mem_sorted _ _ _).trans (iff_of_false (Finset.notMem_empty n) (SortedSet.not_mem_empty n))

/-- With one, the third reply is an error. -/
theorem WellFormed.detailsOf_error (h : WellFormed s) (hrecycled : s.lookup (recycledNoncesKey k) ≠ none) :
    detailsOf ((nonceCommands k).map (s.command x.memberOrder)) onchainNonce k = .error typeError := by
  obtain ⟨members, hsent⟩ := h.readSet k
  have hblock : (nonceCommands k).map (s.command x.memberOrder) = [(s.readString (lastUsedNonceKey k)).map .string,
      .ok (.array (x.memberOrder.apply members.sort)), .error wrongType] := by
    simp only [nonceCommands, List.map_cons, List.map_nil, Keyspace.command, hsent, h.readSet_recycled hrecycled,
      Except.map]
  rw [hblock]
  rfl

theorem getLastUsedOnchainNonce_run (x : Outside) (k : Wallet) (s : Keyspace) :
    (getLastUsedOnchainNonce k).runWith Keyspace.effect x.calls s = some ((x.count k).map fun c => (c : ℤ) - 1, s) := by
  have hlookup : getLastUsedOnchainNonce k = withCount k fun c => pure ((c : ℤ) - 1) := rfl
  rw [hlookup]
  cases h : x.count k with
  | ok c => exact withCount_ok h
  | error e => exact withCount_error h

/-! ### The whole answer -/

/-- The wallet's entry can be made. -/
def Readable (x : Outside) (s : Keyspace) (k : Wallet) : Prop :=
  (∃ c, x.count k = .ok c) ∧ s.lookup (recycledNoncesKey k) = none

/-- The three replies of a wallet are found by its place. -/
theorem resultsAt_pipeline {ws : List Wallet} {i : ℕ} (h : ws[i]? = some k) :
    resultsAt ((ws.flatMap nonceCommands).map (s.command x.memberOrder)) i =
      (nonceCommands k).map (s.command x.memberOrder) := by
  have hlength : ∀ k, ((nonceCommands k).map (s.command x.memberOrder)).length = 3 := fun k => List.length_map _
  unfold resultsAt
  rw [List.map_flatMap]
  exact slice_flatMap hlength h

/-- What the route answers for the wallets that it found. -/
def answerOf (x : Outside) (s : Keyspace) (ws : List Wallet) : Except Err (List NonceDetails) := do
  let onchainNonces ← ws.mapM fun k => (x.count k).map fun c => (c : ℤ) - 1
  ws.zipIdx.mapM fun entry =>
    let results := resultsAt ((ws.flatMap nonceCommands).map (s.command x.memberOrder)) entry.2
    detailsOf results onchainNonces[entry.2]? entry.1

theorem getNonceDetails_run {chainId : Option ℕ} {walletAddress : Option Address} {ws : List Wallet}
    (hws : (getUsedBackendWallets chainId walletAddress).runWith Keyspace.adminEffect x.admin s = some (.ok ws, s)) :
    (getNonceDetails chainId walletAddress).runWith Keyspace.adminEffect x.admin s = some (answerOf x s ws, s) := by
  have hpipeline : (perform (I := AdminCalls) (.inr (.pipeline (ws.flatMap nonceCommands)))).runWith
      Keyspace.adminEffect x.admin s =
        some (.ok ((ws.flatMap nonceCommands).map (s.command x.memberOrder)), s) := runWith_perform _
  have hlookup : ∀ k ∈ ws, ((getLastUsedOnchainNonce k).extend : AdminProg ℤ).runWith Keyspace.adminEffect x.admin s =
      some ((x.count k).map fun c => (c : ℤ) - 1, s) :=
    fun k _ => (runWith_extend fun _ _ => rfl).trans (getLastUsedOnchainNonce_run x k s)
  have honchain := runWith_collect hlookup
  have hexcept : ∀ {α : Type} (r : Except Err α),
      (ofExcept r).runWith Keyspace.adminEffect x.admin s = some (r, s) := by
    intro α r
    cases r with
    | ok a => rfl
    | error e => rfl
  refine (runWith_bind_ok hws).trans ((runWith_bind_ok hpipeline).trans ?_)
  unfold answerOf
  cases hns : ws.mapM fun k => (x.count k).map fun c => (c : ℤ) - 1 with
  | error e =>
    rw [hns] at honchain
    exact runWith_bind_error honchain
  | ok ns =>
    rw [hns] at honchain
    exact (runWith_bind_ok honchain).trans (hexcept _)

theorem WellFormed.answerOf_ok (h : WellFormed s) {ws : List Wallet} (hused : ∀ k ∈ ws, lastUsedNonceKey k ∈ s)
    (hread : ∀ k ∈ ws, Readable x s k) :
    ∃ details, answerOf x s ws = .ok details ∧ details.map NonceDetails.wallet = ws ∧ ∀ d ∈ details, Agrees x s d := by
  have hcount : ∀ k ∈ ws, ∃ n, ((x.count k).map fun c => (c : ℤ) - 1) = .ok n ∧ () = () ∧ True := by
    intro k hk
    obtain ⟨c, hc⟩ := (hread k hk).1
    rw [hc]
    exact ⟨_, rfl, rfl, trivial⟩
  obtain ⟨ns, hns, -, -⟩ := mapM_of_forall hcount
  have hentry : ∀ entry ∈ ws.zipIdx, ∃ d,
      detailsOf (resultsAt ((ws.flatMap nonceCommands).map (s.command x.memberOrder)) entry.2)
        ns[entry.2]? entry.1 = .ok d ∧ d.wallet = entry.1 ∧ Agrees x s d := by
    intro entry hentry
    have hk := List.mem_zipIdx_iff_getElem?.mp hentry
    have hmem := List.mem_of_getElem? hk
    rw [resultsAt_pipeline hk]
    exact h.detailsOf_ok (hused _ hmem) (hread _ hmem).2
  obtain ⟨details, hdetails, hwallets, hagrees⟩ := mapM_of_forall hentry
  refine ⟨details, ?_, hwallets.trans (List.zipIdx_map_fst 0 ws), hagrees⟩
  unfold answerOf
  rw [hns]
  exact hdetails

theorem WellFormed.readable_of_answerOf (h : WellFormed s) {ws : List Wallet} {details : List NonceDetails}
    (hanswer : answerOf x s ws = .ok details) : ∀ k ∈ ws, Readable x s k := by
  unfold answerOf at hanswer
  cases hns : ws.mapM fun k => (x.count k).map fun c => (c : ℤ) - 1 with
  | error e =>
    rw [hns] at hanswer
    cases hanswer
  | ok ns =>
    rw [hns] at hanswer
    intro k hk
    constructor
    · obtain ⟨n, hn⟩ := exists_of_mapM hns k hk
      cases hc : x.count k with
      | ok c => exact ⟨c, rfl⟩
      | error e =>
        rw [hc] at hn
        cases hn
    · by_contra hrecycled
      obtain ⟨i, hi⟩ := List.getElem?_of_mem hk
      obtain ⟨d, hd⟩ := exists_of_mapM hanswer (k, i) (List.mem_zipIdx_iff_getElem?.mpr hi)
      rw [resultsAt_pipeline hi, h.detailsOf_error hrecycled] at hd
      cases hd

theorem WellFormed.getNonceDetails_inspects (h : WellFormed s) (x : Outside) (chainId : Option ℕ)
    (walletAddress : Option Address) :
    ∃ answer, (getNonceDetails chainId walletAddress).runWith Keyspace.adminEffect x.admin s = some (answer, s) ∧
      (Inspects x s chainId walletAddress answer ↔
        ∀ k, lastUsedNonceKey k ∈ s → Fits chainId walletAddress k → Readable x s k) := by
  obtain ⟨ws, hws, hnodup, hmem⟩ := getUsedBackendWallets_run x chainId walletAddress h
  refine ⟨answerOf x s ws, getNonceDetails_run hws, ?_⟩
  constructor
  · rintro ⟨details, hanswer, -, -, -⟩ k hk hfits
    exact h.readable_of_answerOf hanswer k ((hmem k).mpr ⟨hk, hfits⟩)
  · intro hread
    obtain ⟨details, hanswer, hwallets, hagrees⟩ := h.answerOf_ok (fun k hk => ((hmem k).mp hk).1)
      fun k hk => hread k ((hmem k).mp hk).1 ((hmem k).mp hk).2
    refine ⟨details, hanswer, ?_, ?_, hagrees⟩
    · rw [hwallets]
      exact hnodup
    · rw [hwallets]
      exact hmem

/-- In every state that the allocator reaches the route shows what the allocator has if and only if every lookup of
a wallet that fits succeeds, and none of these wallets has a recycled nonce. -/
theorem inspects_iff {G : Guard allocator} {s : State allocator} (h : Reachable G (State.initial ∅) s) (x : Outside)
    (chainId : Option ℕ) (walletAddress : Option Address) :
    ∃ answer, (getNonceDetails chainId walletAddress).runWith Keyspace.adminEffect x.admin s.world =
      some (answer, s.world) ∧
      (Inspects x s.world chainId walletAddress answer ↔
        ∀ k, lastUsedNonceKey k ∈ s.world → Fits chainId walletAddress k → Readable x s.world k) := by
  have hwf := wellFormed_of_reachable h WellFormed.empty
  exact hwf.getNonceDetails_inspects x chainId walletAddress

end

/-! ### A wallet with a recycled nonce -/

def anyCall : Guard allocator := ⟨fun _ _ => true, fun _ _ _ _ => true⟩

/-- The state after one resync. -/
def resyncedState : Keyspace := resync (countIs 7) ∅ usedWallet

theorem reachable_resynced : ∃ s, Reachable anyCall (State.initial ∅) s ∧ s.world = resyncedState :=
  reachable_of_runWith (M := allocator) (s := State.initial ∅) (.syncLatestNonceFromOnchain usedWallet) rfl rfl
    (fun _ _ _ => rfl) (syncLatestNonceFromOnchain_run (countIs 7) usedWallet ∅)

theorem used_resynced : lastUsedNonceKey usedWallet ∈ resyncedState := (AList.mem_insert _).mpr (Or.inl rfl)

theorem inspects_iff_resynced : ∃ s : State allocator, lastUsedNonceKey usedWallet ∈ s.world ∧
    ∃ answer, (getNonceDetails none none).runWith Keyspace.adminEffect (countIs 7).admin s.world =
      some (answer, s.world) ∧
      Inspects (countIs 7) s.world none none answer := by
  obtain ⟨s, hreach, hworld⟩ := reachable_resynced
  obtain ⟨answer, hrun, hiff⟩ := inspects_iff hreach (countIs 7) none none
  have hread : ∀ k, Readable (countIs 7) s.world k := by
    intro k
    rw [hworld]
    exact ⟨⟨7, rfl⟩, Keyspace.lookup_setString (KeyKind.key_ne .recycled .lastUsed (by decide)) 6⟩
  have hused : lastUsedNonceKey usedWallet ∈ s.world := by
    rw [hworld]
    exact used_resynced
  exact ⟨s, hused, answer, hrun, hiff.mpr fun k _ _ => hread k⟩

/-- The nonce 3 was recycled. -/
def recycledState : Keyspace := resyncedState.putZset (recycledNoncesKey usedWallet) (SortedSet.empty.add 3)

private theorem readZset_resynced : resyncedState.readZset (recycledNoncesKey usedWallet) = .ok .empty := by
  have hnone : resyncedState.lookup (recycledNoncesKey usedWallet) = none :=
    Keyspace.lookup_setString (KeyKind.key_ne .recycled .lastUsed (by decide)) 6
  unfold Keyspace.readZset
  rw [hnone]

private theorem reachable_recycled : ∃ s, Reachable anyCall (State.initial ∅) s ∧ s.world = recycledState := by
  obtain ⟨s, hreach, hworld⟩ := reachable_resynced
  have hrecycle : (recycleNonce usedWallet (some 3)).runWith Keyspace.effect (countIs 7).calls resyncedState =
      some (.ok (), recycledState) := by
    unfold recycleNonce
    rw [runWith_perform]
    show some (resyncedState.respond (resyncedState.readZset (recycledNoncesKey usedWallet)) _) = _
    rw [readZset_resynced]
    rfl
  rw [← hworld] at hrecycle
  obtain ⟨s', hreach', hworld'⟩ := reachable_of_runWith (M := allocator) (G := anyCall)
    (.recycleNonce usedWallet (some 3)) rfl rfl (fun _ _ _ => rfl) hrecycle
  exact ⟨s', hreach.trans hreach', hworld'⟩

/-- With a recycled nonce the route throws. -/
theorem not_inspects : ¬ ∀ s, Reachable anyCall (State.initial ∅) s → ∀ answer,
    (getNonceDetails none none).runWith Keyspace.adminEffect (countIs 7).admin s.world = some (answer, s.world) →
      Inspects (countIs 7) s.world none none answer := by
  intro hall
  obtain ⟨s, hreach, hworld⟩ := reachable_recycled
  have hwf := wellFormed_of_reachable hreach WellFormed.empty
  obtain ⟨answer, hrun, hiff⟩ := hwf.getNonceDetails_inspects (countIs 7) none none
  have hused : lastUsedNonceKey usedWallet ∈ s.world := by
    rw [hworld]
    exact (AList.mem_insert _).mpr (Or.inr used_resynced)
  have hnone := (hiff.mp (hall s hreach answer hrun) usedWallet hused (fits_none _)).2
  have hsome : s.world.lookup (recycledNoncesKey usedWallet) = some (.zset (SortedSet.empty.add 3)) := by
    rw [hworld]
    exact AList.lookup_insert _
  rw [hsome] at hnone
  cases hnone

end Engine.Nonces
