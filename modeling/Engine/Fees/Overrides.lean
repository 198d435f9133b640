import Engine.Concurrent.Sequential
import Engine.Fees.Cancellation
import Engine.Records.Engine

/-! `POST /transaction/retry` with fees of the caller, and the send attempt that follows it. -/
namespace Engine.Fees
open Concurrent Program

/-- What `maybeBigInt` makes of the text of a fee. -/
def overrideOf (fee : String) : Option ℤ :=
  if fee = "" then none else parseTrimmed ((fee.toList.dropWhile isStrWhiteSpace).rdropWhile isStrWhiteSpace)

/-- The broadcast is not accepted, because its nonce is used or its fee is too low. -/
def Skipped (x : Replies Calls) (t : Transaction) (tx : SerializableTransaction) : Prop :=
  ∃ e, x (.accountSendTransaction (.transaction t.queueId) t.from tx) = .error e ∧
    (isNonceAlreadyUsedError e || isReplacementGasFeeTooLow e) = true

/-- The fees are those of the caller. -/
def HasFees (maxFeePerGas maxPriorityFeePerGas : String) (tx : SerializableTransaction) : Prop :=
  tx.maxFeePerGas = overrideOf maxFeePerGas ∧ tx.maxPriorityFeePerGas = overrideOf maxPriorityFeePerGas

/-- A worker can take the job of the retry, and what its attempt broadcasts has the caller's fees or is skipped. -/
structure TakesEffect (w : World) (x : Replies Calls) (t : Transaction) (maxFeePerGas maxPriorityFeePerGas : String) :
    Prop where
  attempt : (engine.start w (.sendJob t.queueId (t.resendCount + 1))).isSome = true
  fees : ∀ tx ∈ broadcasts x (sendTransactionHandler t.queueId (t.resendCount + 1)),
    HasFees maxFeePerGas maxPriorityFeePerGas tx ∨ Skipped x t tx

/-- No job has the id of the retry, or the one that has it was not taken yet. -/
def isFree : Option Job → Bool
  | none => true
  | some ⟨.waiting, _⟩ => true
  | some ⟨.delayed, _⟩ => true
  | _ => false

/-- Whenever the attempt gets so far, twice the fees that it is given are those of the caller, or it is skipped. -/
def Coincides (x : Replies Calls) (t : Transaction) (maxFeePerGas maxPriorityFeePerGas : String) : Prop :=
  ∀ config populated, x .getConfig = .ok config → x (.toSerializableTransaction (resendRequest t)) = .ok populated →
    x (.getAccount t.chainId t.from) = .ok () →
      HasFees maxFeePerGas maxPriorityFeePerGas (withDoubledFees populated) ∨ Skipped x t (withDoubledFees populated)

section
variable {x : Replies Calls} {w w' : World} {t sent : Transaction} {resendCount : ℕ} {tx : SerializableTransaction}
  {maxFeePerGas maxPriorityFeePerGas : String}

/-! ### What the attempt broadcasts -/

/-- A resend broadcasts the populated transaction with its fees doubled, if it gets so far. -/
theorem mem_broadcasts_resend (heoa : sent.isUserOp = false) : tx ∈ broadcasts x (resendTransaction sent resendCount) ↔
    ∃ config populated, x .getConfig = .ok config ∧
      x (.toSerializableTransaction (resendRequest sent)) = .ok populated ∧
      x (.getAccount sent.chainId sent.from) = .ok () ∧ tx = withDoubledFees populated := by
  have hassert : (assert (!sent.isUserOp)).outcome x = .ok () := by
    rw [heoa]
    rfl
  have hchain : ∀ {config}, x .getConfig = .ok config → (getChain sent.chainId).outcome x = .ok sent.chainId := by
    intro config hconfig
    unfold getChain
    exact outcome_bind_ok ((outcome_perform _).trans hconfig)
  constructor
  · intro h
    cases hpopulated : x (.toSerializableTransaction (resendRequest sent)) with
    | error e =>
      unfold resendTransaction at h
      obtain h | ⟨_, -, h⟩ := mem_broadcasts_bind.mp h
      · cases not_mem_broadcasts_of_only (only_assert _) h
      obtain h | ⟨chain, -, h⟩ := mem_broadcasts_bind.mp h
      · cases not_mem_broadcasts_of_only (only_getChain _) h
      obtain h | ⟨populated', hp', h⟩ := mem_broadcasts_bind.mp h
      · cases mem_broadcasts_await.mp h
      · cases (outcome_perform _).symm.trans hp' |>.symm.trans hpopulated
    | ok populated =>
      have htx := eq_of_mem_broadcasts_resend hpopulated h
      unfold resendTransaction at h
      obtain h | ⟨_, -, h⟩ := mem_broadcasts_bind.mp h
      · cases not_mem_broadcasts_of_only (only_assert _) h
      obtain h | ⟨chain, hc, h⟩ := mem_broadcasts_bind.mp h
      · cases not_mem_broadcasts_of_only (only_getChain _) h
      obtain ⟨config, hconfig, -⟩ := outcome_bind_eq_ok.mp hc
      rw [outcome_perform] at hconfig
      obtain h | ⟨populated', -, h⟩ := mem_broadcasts_bind.mp h
      · cases mem_broadcasts_await.mp h
      obtain h | ⟨result, -, h⟩ := mem_broadcasts_bind.mp h
      · obtain h | ⟨e, -, h⟩ := mem_broadcasts_handle.mp h
        · obtain h | ⟨account, haccount, -⟩ := mem_broadcasts_bind.mp h
          · cases mem_broadcasts_await.mp h
          · rw [outcome_perform] at haccount
            exact ⟨config, populated, hconfig, rfl, haccount, htx⟩
        · split at h <;> cases h
      · cases result with
        | none => cases h
        | some transactionHash =>
          obtain h | ⟨block, -, h⟩ := mem_broadcasts_bind.mp h
          · cases not_mem_broadcasts_of_only (only_getBlockNumberish _) h
          obtain h | ⟨hashes, -, h⟩ := mem_broadcasts_bind.mp h
          · cases not_mem_broadcasts_of_only (only_defined _) h
          · cases h
  · intro h
    obtain ⟨config, populated, hconfig, hpopulated, haccount, rfl⟩ := h
    unfold resendTransaction
    refine mem_broadcasts_bind.mpr (Or.inr ⟨(), hassert, ?_⟩)
    refine mem_broadcasts_bind.mpr (Or.inr ⟨_, hchain hconfig, ?_⟩)
    refine mem_broadcasts_bind.mpr (Or.inr ⟨populated, (outcome_perform _).trans hpopulated, ?_⟩)
    refine mem_broadcasts_bind.mpr (Or.inl ?_)
    refine mem_broadcasts_handle.mpr (Or.inl ?_)
    refine mem_broadcasts_bind.mpr (Or.inr ⟨(), (outcome_perform _).trans haccount, ?_⟩)
    exact mem_broadcasts_bind.mpr (Or.inl (mem_broadcasts_await.mpr rfl))

/-- The attempt of a job broadcasts what the resend of the stored record does. -/
theorem mem_broadcasts_handler {queueId : QueueId} (hread : x (.getTransaction queueId) = .ok (some sent))
    (hsent : sent.status = .sent) : tx ∈ broadcasts x (sendTransactionHandler queueId resendCount) ↔
      tx ∈ broadcasts x (resendTransaction sent resendCount) := by
  have hkept : manuallyRetried sent resendCount = sent := by
    unfold manuallyRetried
    rw [hsent]
    exact if_neg fun h => by cases h.1
  have hhandler : tx ∈ broadcasts x (sendTransactionHandler queueId resendCount) ↔
      tx ∈ broadcasts x (sendFound sent resendCount) := by
    unfold sendTransactionHandler
    constructor
    · intro h
      obtain h | ⟨found, hfound, h⟩ := mem_broadcasts_bind.mp h
      · cases mem_broadcasts_await.mp h
      · rw [outcome_perform, hread] at hfound
        cases hfound
        rw [← hkept]
        exact h
    · intro h
      refine mem_broadcasts_bind.mpr (Or.inr ⟨some sent, (outcome_perform _).trans hread, ?_⟩)
      show tx ∈ broadcasts x (sendFound (manuallyRetried sent resendCount) resendCount)
      rw [hkept]
      exact h
  rw [hhandler]
  unfold sendFound
  rw [hsent]
  constructor
  · intro h
    obtain h | ⟨result, -, h⟩ := mem_broadcasts_bind.mp h
    · exact h
    · cases result with
      | none => cases h
      | some result => cases not_mem_broadcasts_storeSendResult _ _ h
  · intro h
    exact mem_broadcasts_bind.mpr (Or.inl h)

/-! ### What the route leaves -/

theorem apply_of_runs_await {o : Op} {r : o.Reply} (h : Runs World.effect w (await o) (.ok r) w') :
    ∃ c, w.apply o c = some (r, w') := by
  obtain ⟨a, ha⟩ := runs_perform.mp h
  obtain ⟨e, he, -⟩ | ⟨c, r', -, hr, -, happly⟩ := World.effect_cases ha
  · cases he
  · cases hr
    exact ⟨c, happly⟩

private theorem eq_of_runs_maybeBigInt {val : Option String} {n : Option ℤ}
    (h : Runs World.effect w (maybeBigInt val) (.ok n) w') : w' = w := by
  unfold maybeBigInt at h
  split at h
  · exact (runs_done.mp h).2
  · split at h
    · exact (runs_done.mp h).2
    · cases (runs_raise.mp h).1

/-- After the route the job was added, and the stored record is the old one up to its fees. -/
theorem retryTransaction_runs (hstored : w.transactions t.queueId = some t) (hsent : t.status = .sent)
    (h : Runs World.effect w (retryTransaction t.queueId (some maxFeePerGas) (some maxPriorityFeePerGas)) (.ok ()) w') :
    (∃ maxFee maxPriorityFee, w'.transactions t.queueId = some t ∨
        w'.transactions t.queueId = some (retriedTransaction t maxFee maxPriorityFee)) ∧
      w'.sendJobs t.queueId (t.resendCount + 1) = addJob (w.sendJobs t.queueId (t.resendCount + 1)) := by
  unfold retryTransaction at h
  obtain ⟨found, w₁, hget, hrest⟩ := runs_bind_ok.mp h
  obtain ⟨c, hget⟩ := apply_of_runs_await hget
  cases hget
  rw [hstored] at hrest
  simp only [hsent, ne_eq, not_true_eq_false, if_false] at hrest
  obtain ⟨maxFee, w₂, hmax, hpriority⟩ := runs_bind_ok.mp hrest
  rw [eq_of_runs_maybeBigInt hmax] at hpriority
  obtain ⟨maxPriorityFee, w₃, hmaxPriority, hwrite⟩ := runs_bind_ok.mp hpriority
  rw [eq_of_runs_maybeBigInt hmaxPriority] at hwrite
  obtain ⟨_, w₄, hset, hadd⟩ := runs_bind_ok.mp hwrite
  obtain ⟨applied, hset⟩ := apply_of_runs_await hset
  obtain ⟨c, hadd⟩ := apply_of_runs_await hadd
  cases hset
  cases hadd
  refine ⟨⟨maxFee, maxPriorityFee, ?_⟩, ?_⟩
  · cases applied with
    | true => exact Or.inr (Function.update_self _ _ _)
    | false => exact Or.inl hstored
  · cases applied with
    | true => exact (congrFun (Function.update_self _ _ _) _).trans (Function.update_self _ _ _)
    | false => exact (congrFun (Function.update_self _ _ _) _).trans (Function.update_self _ _ _)

theorem isSome_takeJob_addJob (j : Option Job) : (takeJob (addJob j)).isSome = isFree j := by
  cases j with
  | none => rfl
  | some j =>
    obtain ⟨state, n⟩ := j
    cases state <;> rfl

/-- A retry takes effect exactly where its job can be added or waits already, and the fees that the attempt is given
are by chance half of the caller's. -/
theorem retry_takesEffect_iff (hstored : w.transactions t.queueId = some t) (hsent : t.status = .sent)
    (heoa : t.isUserOp = false)
    (hretry : Runs World.effect w (retryTransaction t.queueId (some maxFeePerGas) (some maxPriorityFeePerGas))
      (.ok ()) w')
    (hread : x (.getTransaction t.queueId) = .ok (w'.transactions t.queueId)) :
    TakesEffect w' x t maxFeePerGas maxPriorityFeePerGas ↔
      isFree (w.sendJobs t.queueId (t.resendCount + 1)) = true ∧ Coincides x t maxFeePerGas maxPriorityFeePerGas := by
  obtain ⟨⟨maxFee, maxPriorityFee, hrecord⟩, hjob⟩ := retryTransaction_runs hstored hsent hretry
  have hattempt : (engine.start w' (.sendJob t.queueId (t.resendCount + 1))).isSome =
      isFree (w.sendJobs t.queueId (t.resendCount + 1)) := by
    rw [← isSome_takeJob_addJob, ← hjob]
    exact Option.isSome_map
  have hbroadcasts : ∀ tx, tx ∈ broadcasts x (sendTransactionHandler t.queueId (t.resendCount + 1)) ↔
      ∃ config populated, x .getConfig = .ok config ∧ x (.toSerializableTransaction (resendRequest t)) = .ok populated ∧
        x (.getAccount t.chainId t.from) = .ok () ∧ tx = withDoubledFees populated := by
    intro tx
    obtain hrecord | hrecord := hrecord
    · rw [hrecord] at hread
      exact (mem_broadcasts_handler hread hsent).trans (mem_broadcasts_resend heoa)
    · rw [hrecord] at hread
      have hresend : tx ∈ broadcasts x (resendTransaction (retriedTransaction t maxFee maxPriorityFee)
        (t.resendCount + 1)) ↔ _ :=
        mem_broadcasts_resend heoa
      exact (mem_broadcasts_handler hread hsent).trans hresend
  constructor
  · intro h
    refine ⟨hattempt.symm.trans h.attempt, fun config populated hconfig hpopulated haccount => ?_⟩
    exact h.fees _ ((hbroadcasts _).mpr ⟨config, populated, hconfig, hpopulated, haccount, rfl⟩)
  · intro h
    refine ⟨hattempt.trans h.1, fun tx htx => ?_⟩
    obtain ⟨config, populated, hconfig, hpopulated, haccount, rfl⟩ := (hbroadcasts tx).mp htx
    exact h.2 config populated hconfig hpopulated haccount

end

/-! ### A retry at 60 and 2 -/

def sentTransfer : Transaction :=
  { transfer with
    status := .sent, queueId := transferId, nonce := some 0, sentTransactionHashes := some [transferHash 0] }

/-- The transfer was sent, and never resent. -/
def sentWorld : World :=
  { World.empty with transactions := Function.update World.empty.transactions transferId (some sentTransfer) }

/-- The transfer is read as it is stored in `w`, and populated with the given fees. -/
def populatedWith (w : World) (maxFeePerGas maxPriorityFeePerGas : ℤ) : Replies Calls
  | .getTransaction q => .ok (w.transactions q)
  | o => populating (nullTransaction none (some maxFeePerGas) (some maxPriorityFeePerGas)) o

theorem sentWorld_transactions : sentWorld.transactions sentTransfer.queueId = some sentTransfer := by
  show Function.update World.empty.transactions transferId (some sentTransfer) transferId = some sentTransfer
  rw [Function.update_self]

theorem retryTransaction_sent :
    ∃ w', Runs World.effect sentWorld (retryTransaction transferId (some "60") (some "2")) (.ok ()) w' := by
  have hexec : (retryTransaction transferId (some "60") (some "2")).exec World.effect sentWorld [usual, usual, usual] =
    some (.ok (), _) := rfl
  exact ⟨_, runs_of_exec hexec⟩

theorem retry_takesEffect_sent : ∃ w',
    Runs World.effect sentWorld (retryTransaction transferId (some "60") (some "2")) (.ok ()) w' ∧
      TakesEffect w' (populatedWith w' 30 1) sentTransfer "60" "2" := by
  obtain ⟨w', hrun⟩ := retryTransaction_sent
  have hiff := retry_takesEffect_iff (x := populatedWith w' 30 1) sentWorld_transactions rfl rfl hrun rfl
  refine ⟨w', hrun, hiff.mpr ⟨rfl, fun config populated _ hpopulated _ => Or.inl ?_⟩⟩
  cases hpopulated
  exact ⟨by decide, by decide⟩

/-- The attempt broadcasts at twice the fees that the chain proposes, 200 and 2. -/
theorem not_retry_takesEffect : ¬ ∀ w' x,
    Runs World.effect sentWorld (retryTransaction transferId (some "60") (some "2")) (.ok ()) w' →
      x (.getTransaction transferId) = .ok (w'.transactions transferId) → TakesEffect w' x sentTransfer "60" "2" := by
  intro hall
  obtain ⟨w', hrun⟩ := retryTransaction_sent
  have hmem : withDoubledFees (nullTransaction none (some 100) (some 1)) ∈
      broadcasts (populatedWith w' 100 1) (sendTransactionHandler sentTransfer.queueId 1) := by
    obtain ⟨⟨maxFee, maxPriorityFee, hrecord⟩, -⟩ := retryTransaction_runs sentWorld_transactions rfl hrun
    obtain hrecord | hrecord := hrecord
    · refine (mem_broadcasts_handler (congrArg Except.ok hrecord) rfl).mpr ((mem_broadcasts_resend rfl).mpr ?_)
      exact ⟨⟨0, 0⟩, _, rfl, rfl, rfl, rfl⟩
    · refine (mem_broadcasts_handler (congrArg Except.ok hrecord) rfl).mpr ((mem_broadcasts_resend rfl).mpr ?_)
      exact ⟨⟨0, 0⟩, _, rfl, rfl, rfl, rfl⟩
  obtain hfees | ⟨e, he, -⟩ := (hall w' (populatedWith w' 100 1) hrun rfl).fees _ hmem
  · exact absurd hfees.1 (by decide)
  · cases he

end Engine.Fees
