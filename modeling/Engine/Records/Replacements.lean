import Engine.Records.Invariants

/-! The hashes of a record are replacements of one another: every one was broadcast
for its call, with its nonce. -/
namespace Engine
open Concurrent Program

/-- The hash was accepted for the record: its call, signed by its sender, with nonce `n`. -/
structure Replacement (w : World) (t : Transaction) (n : ℤ) (hash : TransactionHash) : Prop where
  accepted : .broadcast (.transaction t.queueId) hash ∈ w.accepted
  carries : Carries t t.to hash
  nonce : hash.nonce = n

/-- What the hashes of a sent or mined EOA record say. -/
structure Replacements (w : World) (t : Transaction) (n : ℤ) (hashes : List TransactionHash) : Prop where
  nonce : t.nonce = some n
  recorded : t.sentTransactionHashes = some hashes
  replacement : ∀ hash ∈ hashes, Replacement w t n hash
  mined : t.status = .mined → ∃ hash ∈ hashes, t.transactionHash = some hash ∧
    w.chain t.wallet n = some (.broadcast hash)

/-- A record as the service keeps it, when no EOA transaction has a separate target. -/
structure OneCall (w : World) (t : Transaction) : Prop where
  target : t.target = none
  replacements : t.status = .sent ∨ t.status = .mined → ∃ n hashes, Replacements w t n hashes

/-- Inserted EOA transactions carry no separate target. -/
def withoutTarget : Guard engine where
  start _
    | .insertTransaction tx _ _ => tx.isUserOp || tx.target.isNone
    | _ => true
  call _ _ _ _ := true

section
variable {s : State engine} {w w' : World} {i : ℕ} {l : Local} {t r : Transaction} {q : QueueId}
  {hash : TransactionHash} {n : ℤ} {hashes : List TransactionHash}

theorem Replacement.grows (h : Replacement w t n hash) (hg : w.Grows w') : Replacement w' t n hash :=
  ⟨hg.accepted _ h.accepted, h.carries, h.nonce⟩

theorem Replacement.wallet (h : Replacement w t n hash) : hash.wallet = t.wallet := by
  simp [TransactionHash.wallet, Transaction.wallet, h.carries.signer, h.carries.chainId]

theorem OneCall.grows (h : OneCall w t) (hg : w.Grows w') : OneCall w' t := by
  refine ⟨h.target, fun hst => ?_⟩
  obtain ⟨n, hashes, hr⟩ := h.replacements hst
  refine ⟨n, hashes, hr.nonce, hr.recorded, fun hash hm => (hr.replacement hash hm).grows hg, fun hm => ?_⟩
  obtain ⟨hash, hmem, hth, hc⟩ := hr.mined hm
  exact ⟨hash, hmem, hth, hg.chain _ _ _ hc⟩

/-- The two records are of one transaction and carry one call. -/
structure SameCall (r t : Transaction) : Prop where
  queueId : t.queueId = r.queueId
  «from» : t.from = r.from
  chainId : t.chainId = r.chainId
  «to» : t.to = r.to
  data : t.data = r.data
  value : t.value = r.value
  target : t.target = r.target

theorem Replacement.of_sameCall (h : Replacement w r n hash) (hs : SameCall r t) : Replacement w t n hash := by
  refine ⟨hs.queueId ▸ h.accepted, ?_, h.nonce⟩
  have hc := h.carries
  exact ⟨hc.signer.trans hs.from.symm, hc.chainId.trans hs.chainId.symm, hc.to.trans hs.to.symm,
    hc.data.trans hs.data.symm, hc.value.trans hs.value.symm⟩

/-- A record that is neither sent nor mined has nothing to say about hashes. -/
theorem oneCall_of_status (ht : t.target = none) (hs : t.status ≠ .sent) (hm : t.status ≠ .mined) : OneCall w t :=
  ⟨ht, fun h => by rcases h with h | h <;> contradiction⟩

/-- The hashes of a record that is not mined, as replacements for the record it was computed from. -/
theorem oneCall_of_hashes (hs : SameCall r t) (htarget : r.target = none) (hm : t.status ≠ .mined)
    (hn : t.nonce = some n) (hh : t.sentTransactionHashes = some hashes)
    (hrep : ∀ hash ∈ hashes, Replacement w r n hash) : OneCall w t :=
  ⟨hs.target.trans htarget, fun _ => ⟨n, hashes, hn, hh, fun hash hmem => (hrep hash hmem).of_sameCall hs,
    fun h => absurd h hm⟩⟩

/-- A hash broadcast again for a sent record replaces the others. -/
theorem Replacements.append (h : Replacements w r n hashes) (hsend : SendAgain l r hash)
    (hacc : .broadcast (.transaction r.queueId) hash ∈ w.accepted) :
    ∀ hash' ∈ hashes ++ [hash], Replacement w r n hash' := by
  intro hash' hm
  rcases List.mem_append.mp hm with hm | hm
  · exact h.replacement hash' hm
  · obtain rfl := List.mem_singleton.mp hm
    exact ⟨hacc, hsend.carries, hsend.nonce n h.nonce⟩

/-- A write keeps what the record it was computed from says. -/
theorem oneCall_of_writes (h : Writes l t) (hreq : ∀ tx key simulate, l.request = .insertTransaction tx key simulate →
      tx.isUserOp = false → tx.target = none) (hsound : l.Sound w)
    (hr : ∀ r, l.read = some r → r.isUserOp = false → OneCall w r) (heoa : t.isUserOp = false) : OneCall w t := by
  cases h with
  | queued tx key simulate q hreq' =>
    exact oneCall_of_status (hreq tx key simulate hreq' heoa) (by simp [queuedTransaction])
      (by simp [queuedTransaction])
  | unpopulated r q k message hreq' hheld hread =>
    have hr := hr r hread (by simpa [erroredTransaction] using heoa)
    exact oneCall_of_status (by simpa [erroredTransaction] using hr.target) (by simp [erroredTransaction])
      (by simp [erroredTransaction])
  | sent r q k hash block hphase hsend =>
    have hr := hr r hsend.read hsend.eoa
    refine oneCall_of_hashes (r := r) (n := hash.nonce) ?_ hr.target (by simp [sentTransaction]) rfl rfl
      fun hash' hm => ?_
    · constructor <;> simp [sentTransaction]
    · obtain rfl := List.mem_singleton.mp hm
      have hcarries := hsend.carries
      rw [hr.target, Option.or_none] at hcarries
      exact ⟨hsound.submitted hsend.read (Or.inr hphase), hcarries, rfl⟩
  | sentUserOp => cases heoa
  | resent r q k hashes hash block hreq' hphase hsend hhashes =>
    have hr := hr r hsend.read hsend.eoa
    obtain ⟨n, hashes', hrep⟩ := hr.replacements (Or.inl hsend.sent)
    obtain rfl := Option.some.inj (hhashes.symm.trans hrep.recorded)
    exact oneCall_of_hashes (r := r) ⟨rfl, rfl, rfl, rfl, rfl, rfl, rfl⟩ hr.target
      (by simp [resentTransaction, hsend.sent]) hrep.nonce rfl
      (hrep.append hsend (hsound.submitted hsend.read (Or.inl hphase)))
  | syncRetried r q a b hashes hash block hreq' hphase hsend hhashes =>
    have hr := hr r hsend.read hsend.eoa
    obtain ⟨n, hashes', hrep⟩ := hr.replacements (Or.inl hsend.sent)
    obtain rfl := Option.some.inj (hhashes.symm.trans hrep.recorded)
    exact oneCall_of_hashes (r := r) ⟨rfl, rfl, rfl, rfl, rfl, rfl, rfl⟩ hr.target
      (by simp [syncRetriedTransaction, hsend.sent]) hrep.nonce rfl
      (hrep.append hsend (hsound.submitted hsend.read (Or.inl hphase)))
  | failed r q k message hreq' hheld hexhausted hread =>
    exact oneCall_of_status (hr r hread heoa).target (by simp [erroredTransaction]) (by simp [erroredTransaction])
  | mined r q hashes receipt hreq' hheld hread hphase hsent heoa' hhashes hmem hfound =>
    have hr := hr r hread heoa'
    obtain ⟨n, hashes', hrep⟩ := hr.replacements (Or.inl hsent)
    obtain rfl := Option.some.inj (hhashes.symm.trans hrep.recorded)
    have hhash := hrep.replacement _ hmem
    have hexec := hsound.receipts receipt hfound
    rw [hhash.wallet, hhash.nonce] at hexec
    exact ⟨hr.target, fun _ => ⟨n, hashes, hrep.nonce, hhashes, fun hash' hm =>
      (hrep.replacement hash' hm).of_sameCall ⟨rfl, rfl, rfl, rfl, rfl, rfl, rfl⟩,
      fun _ => ⟨_, hmem, rfl, hexec⟩⟩⟩
  | minedUserOp r q raw receipt message hreq' hheld hread hidle hsent huser =>
    exact absurd (huser.symm.trans heoa) (by decide)
  | timedOut r q hreq' hheld hexhausted hread =>
    exact oneCall_of_status (hr r hread heoa).target (by simp [timedOutTransaction]) (by simp [timedOutTransaction])
  | cancelledQueued r q block hreq' hread hidle hqueued heoa' =>
    exact oneCall_of_status (hr r hread heoa').target (by simp [cancelledQueued]) (by simp [cancelledQueued])
  | cancelledSent r q hash hreq' hread =>
    exact oneCall_of_status (hr r hread heoa).target (by simp [cancelledSent]) (by simp [cancelledSent])
  | retried r q a b fee priority hreq' hread hidle hsent =>
    have hr := hr r hread heoa
    obtain ⟨n, hashes, hrep⟩ := hr.replacements (Or.inl hsent)
    exact oneCall_of_hashes (r := r) ⟨rfl, rfl, rfl, rfl, rfl, rfl, rfl⟩ hr.target
      (by simp [retriedTransaction, hsent]) hrep.nonce hrep.recorded hrep.replacement

private theorem oneCall (hw : ∀ q, w.transactions q = none) (h : Reachable withoutTarget (State.initial w) s)
    (ht : s.world.transactions q = some t) (heoa : t.isUserOp = false) : OneCall s.world t := by
  refine (each_record (P := fun w t => t.isUserOp = false → OneCall w t) h
    (fun w w' t hg ht heoa => (ht heoa).grows hg) (fun q t ht => by simp [hw q] at ht) ?_).1 q t ht heoa
  intro s i l t hs hl hwrites hr
  refine oneCall_of_writes hwrites (fun tx key simulate hreq heoa => ?_) (sound hs hl) hr
  obtain ⟨s₀, hg⟩ := granted hs hl
  simpa [withoutTarget, hreq, heoa] using hg

/-- Every hash of a sent or mined EOA record was accepted for the record's call, with the
record's nonce; a mined record names the one of them that consumed the nonce. -/
theorem hashes_are_replacements (hw : ∀ q, w.transactions q = none)
    (h : Reachable withoutTarget (State.initial w) s) (ht : s.world.transactions q = some t)
    (heoa : t.isUserOp = false) (hst : t.status = .sent ∨ t.status = .mined) :
    ∃ n hashes, Replacements s.world t n hashes := (oneCall hw h ht heoa).replacements hst

end

theorem hashes_are_replacements_mined : ∃ (s : State engine) (t : Transaction),
    s.world.transactions transferId = some t ∧ t.status = .mined ∧
      ∃ n hashes, Replacements s.world t n hashes := by
  obtain ⟨s, hs, hr⟩ := exists_reachable_of_run withoutTarget World.empty sentAndMined
    (fun s => (s.world.transactions transferId).any fun t => t.status == .mined && !t.isUserOp) (by decide +kernel)
  obtain ⟨t, ht, hst⟩ := (Option.any_eq_true _ _).mp hr
  simp only [Bool.and_eq_true, beq_iff_eq, Bool.not_eq_true'] at hst
  exact ⟨s, t, ht, hst.1, hashes_are_replacements (fun _ => rfl) hs ht hst.2 (Or.inr hst.1)⟩

end Engine
