import Engine.Records.Sending

/-! The mine worker keeps to the contract. -/
namespace Engine
open Concurrent Program

section
variable {l : Local} {r : Transaction} {q : QueueId}

/-- A mine attempt that has just read a sent record. -/
structure Mining (l : Local) (q : QueueId) (r : Transaction) : Prop where
  request : l.request = .mineJob q
  held : l.held = true
  read : l.read = some r
  idle : l.phase = .idle
  sent : r.status = .sent

/-- Receipts were added, nothing else. -/
structure Receipts (l l' : Local) : Prop where
  request : l'.request = l.request
  held : l'.held = l.held
  exhausted : l'.exhausted = l.exhausted
  read : l'.read = l.read
  phase : l'.phase = l.phase

theorem Mining.mono (h : Mining l q r) {l' : Local} (hl : Receipts l l') : Mining l' q r :=
  ⟨hl.request.trans h.request, hl.held.trans h.held, hl.read.trans h.read, hl.phase.trans h.idle, h.sent⟩

theorem receipts_refl (l : Local) : Receipts l l := ⟨rfl, rfl, rfl, rfl, rfl⟩

/-- The lookups of receipts; every receipt that is returned is of one of the hashes. -/
theorem follows_receipts (hf : l.phase.unfinished = false) (chainId : ℕ) (hashes : List TransactionHash) :
    (settle (fun hash => await (.ethGetTransactionReceipt chainId hash)) hashes).Follows records
      (fun l' x => ∃ results, x = .ok results ∧ Receipts l l' ∧
        ∀ receipt, .ok receipt ∈ results → receipt.transactionHash ∈ hashes ∧ receipt ∈ l'.receipts) l := by
  refine follows_settle (P := records) (S := fun l' ds results => Receipts l l' ∧
    ∀ receipt, .ok receipt ∈ results → receipt.transactionHash ∈ ds ∧ receipt ∈ l'.receipts)
    ⟨receipts_refl l, by simp⟩ (fun hash _ l' ds results hS => ?_)
  obtain ⟨hl, hS⟩ := hS
  refine follows_perform (.receipt chainId hash) fun x hx => ?_
  cases x with
  | ok receipt =>
    have hhash : receipt.transactionHash = hash := hx
    refine ⟨⟨hl.request, hl.held, hl.exhausted, hl.read, hl.phase⟩, fun receipt' hr => ?_⟩
    rcases List.mem_append.mp hr with hr | hr
    · obtain ⟨h1, h2⟩ := hS receipt' hr
      exact ⟨List.mem_append_left _ h1, List.mem_cons_of_mem _ h2⟩
    · cases List.mem_singleton.mp hr
      exact ⟨by simp [hhash], List.mem_cons_self⟩
  | error e =>
    have hn : records.next l' (.ethGetTransactionReceipt chainId hash) (.error e) = l' :=
      Local.next_error_of_finished (by rw [hl.phase]; exact hf) (.ethGetTransactionReceipt chainId hash) e
    rw [hn]
    refine ⟨hl, fun receipt' hr => ?_⟩
    rcases List.mem_append.mp hr with hr | hr
    · obtain ⟨h1, h2⟩ := hS receipt' hr
      exact ⟨List.mem_append_left _ h1, h2⟩
    · cases List.mem_singleton.mp hr

theorem firstReceipt_mem {results : List (Except Err TransactionReceipt)} {receipt : TransactionReceipt}
    (h : firstReceipt results = some receipt) : .ok receipt ∈ results := by
  induction results with
  | nil => cases h
  | cons x results ih =>
    cases x with
    | ok receipt' =>
      cases Option.some.inj h
      exact List.mem_cons_self
    | error e => exact List.mem_cons_of_mem _ (ih h)

/-- A mine attempt's record is found mined and may be stored, or it is not; or the handler threw. -/
structure Polled (l' : Local) (q : QueueId) (x : Except Err (Option Transaction)) : Prop where
  request : l'.request = .mineJob q
  held : l'.held = true
  writes : ∀ t, x = .ok (some t) → Writes l' t
  finished : (∀ t, x ≠ .ok (some t)) → l'.phase.unfinished = false

theorem Mining.polled (h : Mining l q r) {x : Except Err (Option Transaction)} (hx : ∀ t, x ≠ .ok (some t)) :
    Polled l q x :=
  ⟨h.request, h.held, fun t ht => absurd ht (hx t), fun _ => Local.idle_finished h.idle⟩

theorem Mining.ignores (h : Mining l q r) : ∀ o : Op, o.ignored = true → records.Ignores l o :=
  fun _ ho => Local.ignores (Local.idle_finished h.idle) ho

theorem follows_resendIfDue (h : Mining l q r) :
    (resendIfDue r).Follows records (fun l' _ => l' = l) l := by
  have hf := Local.idle_finished h.idle
  refine (quiet_await rfl).follows_bind h.ignores (fun config => ?_) (fun e => rfl)
  refine (only_getBlockNumberish _).follows_bind h.ignores (fun block => ?_) (fun e => rfl)
  refine (only_defined _).follows_bind h.ignores (fun sentAt => ?_) (fun e => rfl)
  split_ifs
  · refine follows_perform (P := records)
      (.addSend _ _ (.resend r h.read rfl h.sent (Or.inl ⟨q, h.request⟩))) fun x _ => ?_
    cases x with
    | ok u => rfl
    | error e => exact Local.next_error_of_finished hf (.sendQueueAdd r.queueId (r.resendCount + 1)) e
  · rfl

theorem follows_mineTransaction (h : Mining l q r) (heoa : r.isUserOp = false) :
    (mineTransaction r).Follows records (fun l' x => Polled l' q x) l := by
  have hf := Local.idle_finished h.idle
  refine (only_assert _).follows_bind h.ignores (fun _ => ?_) (fun e => h.polled (by simp))
  refine (only_getChain _).follows_bind h.ignores (fun chain => ?_) (fun e => h.polled (by simp))
  cases hhashes : r.sentTransactionHashes with
  | none => exact h.polled (by simp)
  | some hashes =>
    refine (follows_receipts hf chain hashes).bind (fun l' results hl => ?_) (fun l' e hl => ?_)
    · obtain ⟨results', hx, hl, hmem⟩ := hl
      cases hx
      have h' := h.mono hl
      cases hfirst : firstReceipt results with
      | none =>
        refine (follows_resendIfDue h').bind (fun l'' _ hl => ?_) (fun l'' e hl => ?_)
        · obtain rfl : l'' = l' := hl
          exact h'.polled (by simp)
        · obtain rfl : l'' = l' := hl
          exact h'.polled (by simp)
      | some receipt =>
        cases hnonce : r.nonce with
        | none => exact h'.polled (by simp)
        | some m =>
          refine follows_await_finished (Local.idle_finished h'.idle)
            (.unmark r q m h'.request h'.held h'.read h'.idle h'.sent heoa hnonce) (fun _ _ => ?_)
            (fun e => h'.polled (by simp))
          obtain ⟨hhash, hfound⟩ := hmem receipt (firstReceipt_mem hfirst)
          refine ⟨h'.request, h'.held, fun t ht => ?_, fun hx => absurd rfl (hx _)⟩
          cases ht
          exact .mined r q hashes receipt h'.request h'.held h'.read (by simp [Local.next, h'.held]) h'.sent heoa
            hhashes hhash hfound
    · obtain ⟨results', hx, -⟩ := hl
      cases hx

theorem follows_mineUserOp (h : Mining l q r) (huser : r.isUserOp = true) :
    (mineUserOp r).Follows records (fun l' x => Polled l' q x) l := by
  have hf := Local.idle_finished h.idle
  refine (only_assert _).follows_bind h.ignores (fun _ => ?_) (fun e => h.polled (by simp))
  refine (only_getChain _).follows_bind h.ignores (fun chain => ?_) (fun e => h.polled (by simp))
  refine (only_defined _).follows_bind h.ignores (fun hash => ?_) (fun e => h.polled (by simp))
  refine (quiet_await rfl).follows_bind h.ignores (fun raw => ?_) (fun e => h.polled (by simp))
  cases raw with
  | none => exact h.polled (by simp)
  | some raw =>
    refine (quiet_await rfl).follows_bind h.ignores (fun hash' => ?_) (fun e => h.polled (by simp))
    refine follows_await_finished hf (.receipt chain hash') (fun receipt _ => ?_) (fun e => h.polled (by simp))
    have h' : Mining (l.next (.ethGetTransactionReceipt chain hash') (.ok receipt)) q r :=
      h.mono ⟨rfl, rfl, rfl, rfl, rfl⟩
    have hdone : ∀ message, Polled (l.next (.ethGetTransactionReceipt chain hash') (.ok receipt)) q
        (.ok (some (minedUserOp r raw receipt message))) := fun message =>
      ⟨h'.request, h'.held, fun t ht => by
        cases ht
        exact .minedUserOp r q raw receipt message h'.request h'.held h'.read h'.idle h'.sent huser,
        fun hx => absurd rfl (hx _)⟩
    dsimp only
    split
    · exact hdone none
    · exact (only_userOpError _).follows_bind h'.ignores (fun message => hdone message)
        (fun e => h'.polled (by simp))

/-- The attempt is over, or its handler threw. -/
structure PollDone (q : QueueId) (l : Local) : Prop where
  request : l.request = .mineJob q
  held : l.held = true
  finished : l.phase.unfinished = false

theorem Polled.done {l' : Local} {x : Except Err (Option Transaction)} (h : Polled l' q x)
    (hx : ∀ t, x ≠ .ok (some t)) : PollDone q l' := ⟨h.request, h.held, h.finished hx⟩

/-- A result is stored and announced. -/
theorem follows_storeMined {l' : Local} {mined : Transaction} (h : Polled l' q (.ok (some mined))) :
    ((await (.setTransaction mined)).bind fun _ => (enqueueTransactionWebhook mined).bind fun _ =>
      (getChain mined.chainId).bind fun _ =>
        await (.recordMetrics (.transactionMined mined.chainId mined.from))).Follows
          records (fun l _ => PollDone q l) l' := by
  have hstored : PollDone q (l'.at .stored) := ⟨h.request, h.held, rfl⟩
  have hignores : ∀ o : Op, o.ignored = true → records.Ignores (l'.at .stored) o := fun o ho => Local.ignores rfl ho
  refine follows_await (P := records) (.set _ (h.writes mined rfl)) (fun _ _ => ?_) (fun e _ => ?_)
  · have hn : ∀ u, records.next l' (.setTransaction mined) (.ok u) = l'.at .stored := fun _ => by
      simp [records, Local.next, h.request, h.held, Local.at]
    rw [hn]
    refine (quiet_enqueueTransactionWebhook _).follows_bind hignores (fun _ => ?_) (fun e => hstored)
    refine (only_getChain _).follows_bind hignores (fun _ => ?_) (fun e => hstored)
    exact (quiet_await rfl).follows_last hignores fun _ => hstored
  · have hn : records.next l' (.setTransaction mined) (.error e) = l'.threw := rfl
    rw [hn]
    cases hp : l'.phase.unfinished with
    | true =>
      rw [Local.threw_of_unfinished hp]
      exact ⟨h.request, h.held, rfl⟩
    | false =>
      rw [Local.threw_of_finished hp]
      exact ⟨h.request, h.held, hp⟩

theorem follows_mineTransactionHandler (q : QueueId) : (mineTransactionHandler q).Follows records
    (fun l _ => PollDone q l) { request := .mineJob q, queueId := some q, held := true } := by
  refine follows_await_finished rfl (.get q rfl rfl) (fun t _ => ?_) (fun e => ⟨rfl, rfl, rfl⟩)
  cases t with
  | none => exact ⟨rfl, rfl, rfl⟩
  | some r =>
    dsimp only
    split_ifs with hsent huser
    · have h : Mining { request := .mineJob q, queueId := some q, held := true, read := some r } q r :=
        ⟨rfl, rfl, rfl, rfl, hsent⟩
      refine (follows_mineUserOp h (by simpa using huser)).bind (fun l result hl => ?_)
        (fun l e hl => hl.done (by simp))
      cases result with
      | none => exact hl.done (by simp)
      | some mined => exact follows_storeMined hl
    · have h : Mining { request := .mineJob q, queueId := some q, held := true, read := some r } q r :=
        ⟨rfl, rfl, rfl, rfl, hsent⟩
      refine (follows_mineTransaction h (by simpa using huser)).bind (fun l result hl => ?_)
        (fun l e hl => hl.done (by simp))
      cases result with
      | none => exact hl.done (by simp)
      | some mined => exact follows_storeMined hl
    · exact ⟨rfl, rfl, rfl⟩

/-- The `failed` listener of an attempt that made `made` attempts in all. -/
theorem follows_mineFailedHandler (made : ℕ) (hreq : l.request = .mineJob q) :
    (mineFailedHandler q made).Follows records (fun l _ => l.held = false ∧ l.Settled)
      (l.attempted (made = mineAttempts)) := by
  unfold mineFailedHandler
  split
  case isFalse => exact ⟨rfl, Or.inl rfl⟩
  case isTrue hmade =>
    refine follows_await_finished rfl (.get q (by simp [Local.attempted, hreq, Request.queueId]) rfl)
      (fun t _ => ?_) (fun e => ⟨rfl, Or.inl rfl⟩)
    cases t with
    | none => exact ⟨rfl, Or.inl rfl⟩
    | some r =>
      set l₁ : Local := { l.attempted true with read := some r } with hl₁
      have hl : (l.attempted (made = mineAttempts)).next (.getTransaction q) (.ok (some r)) = l₁ := by
        simp [Local.next, Local.attempted, hmade, hl₁]
      rw [hl]
      dsimp only
      split_ifs with hsent huser
      · refine follows_await_finished rfl (.set _ (.timedOut r q hreq rfl rfl rfl rfl hsent)) (fun _ _ => ?_)
          (fun e => ⟨rfl, Or.inl rfl⟩)
        have hn : ∀ u, l₁.next (.setTransaction (timedOutTransaction r)) (.ok u) = l₁.at .stored := fun _ => by
          simp [Local.next, hl₁, Local.attempted, hreq, Local.at, timedOutTransaction, huser]
        rw [hn]
        refine (quiet_enqueueTransactionWebhook _).follows_bind (fun o ho => Local.ignores rfl ho)
          (fun _ => ⟨rfl, Or.inl rfl⟩) (fun _ => ⟨rfl, Or.inl rfl⟩)
      · refine follows_await_finished rfl (.set _ (.timedOut r q hreq rfl rfl rfl rfl hsent)) (fun _ _ => ?_)
          (fun e => ⟨rfl, Or.inl rfl⟩)
        have hn : ∀ u, l₁.next (.setTransaction (timedOutTransaction r)) (.ok u) = l₁.at .timedOut := fun _ => by
          simp [Local.next, hl₁, Local.attempted, hreq, Local.at, timedOutTransaction, huser]
        rw [hn]
        have hlost : (l₁.at .lost).held = false ∧ (l₁.at .lost).Settled := ⟨rfl, Or.inl rfl⟩
        refine follows_await (P := records) (.ignore _ rfl) (fun _ _ => ?_) (fun e _ => hlost)
        cases hnonce : r.nonce with
        | none => exact ⟨rfl, Or.inr ⟨r, rfl, by simpa using huser, hsent, Or.inr ⟨hnonce, rfl⟩⟩⟩
        | some m =>
          refine follows_await (P := records) (.ignore _ rfl) (fun _ _ => ?_) (fun e _ => hlost)
          refine follows_await (P := records) (.release r q m hreq rfl rfl rfl (by simpa using huser) hnonce)
            (fun _ _ => ⟨rfl, Or.inl rfl⟩) (fun e _ => hlost)
      · exact ⟨rfl, Or.inl rfl⟩

/-- A mine job's process from its start. -/
theorem follows_mineTransactionWorker (q : QueueId) : (mineTransactionWorker q).Follows records
    (fun l _ => l.held = false ∧ l.Settled) { request := .mineJob q, queueId := some q, held := true } := by
  have hresult : (attempt (mineTransactionHandler q)).Follows records
      (fun l x => ∃ x', x = .ok x' ∧ PollDone q l) { request := .mineJob q, queueId := some q, held := true } :=
    (follows_mineTransactionHandler q).attempt fun l x hl => ⟨x, rfl, hl⟩
  refine hresult.bind ?_ ?_
  · rintro l x ⟨x', hx, hl⟩
    cases hx
    cases x with
    | ok u =>
      refine follows_perform (.mineCompleted q hl.request hl.held hl.finished) fun y hy => ?_
      cases y with
      | ok u => exact ⟨rfl, Or.inl rfl⟩
      | error e => cases hy
    | error e =>
      refine follows_await (.mineFailed q hl.request hl.held hl.finished) (fun made _ => ?_) (fun e he => by cases he)
      exact follows_mineFailedHandler _ hl.request
  · rintro l e ⟨x', hx, -⟩
    cases hx

end
end Engine
