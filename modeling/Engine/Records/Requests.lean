import Engine.Records.Mining

/-! Insertion and the routes keep to the contract. -/
namespace Engine
open Concurrent Program

/-- How a request ends: it never held a job, and left nothing unfinished. -/
structure RequestDone (l : Local) : Prop where
  held : l.held = false
  settled : l.Settled

theorem requestDone_of_finished {l : Local} (hheld : l.held = false) (hf : l.phase.unfinished = false) :
    RequestDone l := ⟨hheld, Or.inl hf⟩

theorem requestDone_threw {l : Local} (hheld : l.held = false) : RequestDone l.threw := by
  cases hp : l.phase.unfinished with
  | true =>
    rw [Local.threw_of_unfinished hp]
    exact ⟨hheld, Or.inl rfl⟩
  | false =>
    rw [Local.threw_of_finished hp]
    exact ⟨hheld, Or.inl hp⟩

theorem ignores_of_idle {l : Local} (h : l.phase = .idle) : ∀ o : Op, o.ignored = true → records.Ignores l o :=
  fun _ ho => Local.ignores (Local.idle_finished h) ho

/-- A record is stored by a request that is not the mine worker's. -/
theorem follows_store {l : Local} {t : Transaction} {f : Unit → Prog β} {R : Local → Except Err β → Prop}
    (hw : Writes l t) (hreq : ∀ q, l.request ≠ .mineJob q) (hok : (f ()).Follows records R (l.at .stored))
    (herr : ∀ e, R l.threw (.error e)) : ((await (.setTransaction t)).bind f).Follows records R l := by
  refine follows_await (P := records) (.set t hw) (fun _ _ => ?_) (fun e _ => herr e)
  have hn : ∀ u, records.next l (.setTransaction t) (.ok u) = l.at .stored := fun _ => by
    simp only [records, Local.next]
    rfl
  rw [hn]
  exact hok

section
variable {l : Local} {tx : InsertedTransaction} {key : Option String} {simulate : Bool}

theorem follows_insertQueued (q : QueueId) (hreq : l.request = .insertTransaction tx key simulate)
    (hq : l.queueId = some q) (hidle : l.phase = .idle) (hheld : l.held = false) :
    (insertQueued (queuedTransaction tx q) simulate).Follows records (fun l _ => RequestDone l) l := by
  have hdone := requestDone_of_finished hheld (Local.idle_finished hidle)
  have hstored : RequestDone (l.at .stored) := requestDone_of_finished hheld rfl
  have hset : ((await (.setTransaction (queuedTransaction tx q))).bind fun _ =>
      (await (.sendQueueAdd q 0)).bind fun _ =>
        (await (.recordMetrics (.transactionQueued tx.chainId tx.from))).bind fun _ => done q).Follows
      records (fun l _ => RequestDone l) l := by
    refine follows_store (.queued tx key simulate q hreq hq hidle) (by simp [hreq]) ?_
      (fun e => requestDone_threw hheld)
    refine follows_await_finished rfl (.addSend q 0 (.inserted tx key simulate hreq hq rfl)) (fun _ _ => ?_)
      (fun e => hstored)
    exact (quiet_await rfl).follows_bind (fun o ho => Local.ignores rfl ho) (fun _ => hstored) (fun e => hstored)
  unfold insertQueued
  split
  · exact (only_assertSimulates _).follows_bind (ignores_of_idle hidle) (fun _ => hset) (fun e => hdone)
  · exact hset

theorem follows_insertTransaction : (insertTransaction tx key simulate).Follows records
    (fun l _ => RequestDone l) { request := .insertTransaction tx key simulate } := by
  refine follows_await_finished rfl (.uuid tx key simulate rfl rfl) (fun q _ => ?_)
    (fun e => requestDone_of_finished rfl rfl)
  dsimp only
  split
  · exact follows_insertQueued q rfl rfl rfl rfl
  · rename_i q' _
    refine follows_await_finished rfl (.exists tx key simulate q' rfl rfl) (fun found _ => ?_)
      (fun e => requestDone_of_finished rfl rfl)
    cases found with
    | true => exact requestDone_of_finished rfl rfl
    | false => exact follows_insertQueued q' rfl rfl rfl rfl

end

section
variable {l : Local} {r : Transaction} {q : QueueId}

/-- A request that has just read its record. -/
structure Requesting (l : Local) (request : Request) (r : Transaction) : Prop where
  request : l.request = request
  held : l.held = false
  read : l.read = some r
  idle : l.phase = .idle

theorem Requesting.done {request : Request} (h : Requesting l request r) : RequestDone l :=
  requestDone_of_finished h.held (Local.idle_finished h.idle)

theorem Requesting.ignores {request : Request} (h : Requesting l request r) :
    ∀ o : Op, o.ignored = true → records.Ignores l o := ignores_of_idle h.idle

/-- A request reads its record; without one it throws. -/
theorem follows_read {request : Request} (hq : request.queueId = some q) {f : Option Transaction → Prog β}
    (hnone : ∀ l, RequestDone l → (f none).Follows records (fun l _ => RequestDone l) l)
    (hsome : ∀ l r, Requesting l request r → (f (some r)).Follows records (fun l _ => RequestDone l) l) :
    ((await (.getTransaction q)).bind f).Follows records (fun l _ => RequestDone l)
      { request := request, queueId := some q } := by
  refine follows_await_finished rfl (.get q hq rfl) (fun t _ => ?_) (fun e => requestDone_of_finished rfl rfl)
  cases t with
  | none => exact hnone _ (requestDone_of_finished rfl rfl)
  | some r => exact hsome _ r ⟨rfl, rfl, rfl, rfl⟩

theorem follows_removeSendJob {request : Request} (h : Requesting l request r)
    (hreq : ∃ q', l.request = .cancel q' ∨ l.request = .retryFailed q') (q : QueueId) (n : ℕ) :
    (removeSendJob q n).Follows records (fun l' _ => l' = l) l := by
  refine Follows.handle (P := records) (Q := fun l' _ => l' = l) ?_ (fun l' u hl => hl) (fun l' e hl => ?_)
  · refine follows_perform (.removeSend q n hreq h.idle) fun x _ => ?_
    cases x with
    | ok u => rfl
    | error e => exact Local.next_error_of_finished (Local.idle_finished h.idle) (.sendQueueRemove q n) e
  · exact hl

theorem follows_cancelQueued (h : Requesting l (.cancel q) r) (hqueued : r.status = .queued)
    (heoa : r.isUserOp = false) : (cancelQueued r).Follows records
      (fun l' x => l' = l ∧ ∀ t, x = .ok t → Writes l t) l := by
  refine (quiet_await rfl).follows_bind h.ignores (fun config => ?_) (fun e => ⟨rfl, by simp⟩)
  refine Follows.bind (Q := fun l' _ => l' = l) ?_ (fun l' _ hl => ?_) (fun l' e hl => ⟨hl, by simp⟩)
  · refine follows_forEach (S := fun _ l' => l' = l) rfl (fun n ns l' hl => ?_) (fun l' hl => hl)
    obtain rfl : l' = l := hl
    exact (follows_removeSendJob h ⟨q, Or.inl h.request⟩ _ _).mono fun l'' x hl => by cases x <;> exact hl
  · obtain rfl : l' = l := hl
    refine (only_getBlockNumberish _).follows_bind h.ignores (fun block => ⟨rfl, fun t ht => ?_⟩)
      (fun e => ⟨rfl, by simp⟩)
    cases ht
    exact .cancelledQueued r q block h.request h.read h.idle hqueued heoa

theorem follows_cancelSent (h : Requesting l (.cancel q) r) (hsent : r.status = .sent)
    (heoa : r.isUserOp = false) : (cancelSent r).Follows records
      (fun l' x => l' = l ∧ ∀ t, x = .ok t → Writes l t) l := by
  refine (quiet_sendCancellationTransaction _ _).follows_bind h.ignores (fun hash => ⟨rfl, fun t ht => ?_⟩)
    (fun e => ⟨rfl, by simp⟩)
  cases ht
  exact .cancelledSent r q hash h.request h.read h.idle hsent heoa

theorem follows_cancelTransaction (q : QueueId) : (cancelTransaction q).Follows records
    (fun l _ => RequestDone l) { request := .cancel q, queueId := some q } := by
  refine follows_read rfl (fun l hl => hl) (fun l r h => ?_)
  have hstore : ∀ (l' : Local) (t : Transaction),
      (l' = l ∧ ∀ t', (.ok t : Except Err Transaction) = .ok t' → Writes l t') →
      ((await (.setTransaction t)).bind fun _ => (enqueueTransactionWebhook t).bind fun _ =>
        (getChain t.chainId).bind fun _ => done (⟨q, "success", "Transaction successfully cancelled.",
          t.sentTransactionHashes.bind List.getLast?⟩ : CancelReply)).Follows records
        (fun l _ => RequestDone l) l' := by
    rintro l' t ⟨rfl, hw⟩
    have hstored : RequestDone (l'.at .stored) := requestDone_of_finished h.held rfl
    refine follows_store (hw t rfl) (by simp [h.request]) ?_ (fun e => requestDone_threw h.held)
    refine (quiet_enqueueTransactionWebhook _).follows_bind (fun o ho => Local.ignores rfl ho) (fun _ => ?_)
      (fun e => hstored)
    exact (only_getChain _).follows_bind (fun o ho => Local.ignores rfl ho) (fun _ => hstored) (fun e => hstored)
  dsimp only
  split
  · exact h.done
  · rename_i heoa
    split
    · rename_i hqueued
      exact (follows_cancelQueued h hqueued (by simpa using heoa)).bind hstore (fun l' e hl => hl.1 ▸ h.done)
    · rename_i hsent
      exact (follows_cancelSent h hsent (by simpa using heoa)).bind hstore (fun l' e hl => hl.1 ▸ h.done)
    · exact h.done

theorem follows_retryTransaction (q : QueueId) (a b : Option String) : (retryTransaction q a b).Follows records
    (fun l _ => RequestDone l) { request := .retry q a b, queueId := some q } := by
  refine follows_read rfl (fun l hl => hl) (fun l r h => ?_)
  dsimp only
  split_ifs with hsent
  · exact h.done
  · refine (only_maybeBigInt _).follows_bind h.ignores (fun fee => ?_) (fun e => h.done)
    refine (only_maybeBigInt _).follows_bind h.ignores (fun priority => ?_) (fun e => h.done)
    refine follows_store (.retried r q a b fee priority h.request h.read h.idle (not_not.mp hsent))
      (by simp [h.request]) ?_ (fun e => requestDone_threw h.held)
    refine follows_perform (P := records) (.addSend _ _
      (.resend r h.read rfl (not_not.mp hsent) (Or.inr ⟨q, a, b, h.request⟩))) fun x _ => ?_
    cases x <;> exact requestDone_of_finished h.held rfl

theorem follows_syncRetrySend {a b : Option String} (h : Requesting l (.syncRetry q a b) r)
    (hsent : r.status = .sent) (heoa : r.isUserOp = false) : (syncRetrySend r a b).Follows records
      (Prepared l) l := by
  have hf := Local.idle_finished h.idle
  refine (only_getChain _).follows_bind h.ignores (fun _ => ?_) (fun e => prepared_threw hf)
  refine (only_maybeBigInt _).follows_bind h.ignores (fun fee => ?_) (fun e => prepared_threw hf)
  refine (only_maybeBigInt _).follows_bind h.ignores (fun priority => ?_) (fun e => prepared_threw hf)
  refine follows_await_finished hf (.ignore _ rfl) (fun populated hp => ?_) (fun e => prepared_threw hf)
  obtain ⟨p, rfl⟩ := hp
  have hsend := sendAgain_of_populate (p := p)
    { r.request r.from with maxFeePerGas := fee, maxPriorityFeePerGas := priority }
    (Or.inr ⟨q, a, b, h.request⟩) h.read hsent heoa rfl
  generalize TransactionRequest.populate _ _ = tx at hsend ⊢
  refine (quiet_await rfl).follows_bind h.ignores (fun _ => ?_) (fun e => prepared_threw hf)
  refine follows_await_finished hf (.sendAgain r r.from _ h.idle hsend) (fun hash hhash => ?_)
    (fun e => prepared_threw hf)
  obtain rfl : hash = ⟨r.from, tx⟩ := hhash
  refine follows_record_hash hsend (fun block hashes hhashes => ?_) (fun l' e hl => hl)
  refine ⟨⟨_, rfl⟩, fun t ht => ?_, by simp⟩
  cases ht
  exact Writes.syncRetried (l := l.at _) r q a b hashes ⟨r.from, tx⟩ block h.request rfl (hsend.at _) hhashes

theorem follows_syncRetryTransaction (q : QueueId) (a b : Option String) :
    (syncRetryTransaction q a b).Follows records (fun l _ => RequestDone l)
      { request := .syncRetry q a b, queueId := some q } := by
  refine follows_read rfl (fun l hl => hl) (fun l r h => ?_)
  dsimp only
  split_ifs with hcond
  · exact h.done
  · have hsent : r.status = .sent := not_not.mp fun hs => hcond (Or.inl hs)
    have heoa : r.isUserOp = false := by
      cases hu : r.isUserOp with
      | false => rfl
      | true => exact absurd (Or.inr hu) hcond
    refine (follows_syncRetrySend h hsent heoa).bind (fun l' t hp => ?_) (fun l' e hp => ?_)
    · have hw := hp.writes t rfl
      obtain ⟨p, rfl⟩ := hp.moved
      have hstored : RequestDone (l.at .stored) := requestDone_of_finished h.held rfl
      refine follows_store hw (by simp [h.request]) ?_ (fun e => requestDone_threw h.held)
      refine follows_await_finished rfl (.addMine _ rfl) (fun _ _ => ?_) (fun e => hstored)
      exact (quiet_enqueueTransactionWebhook _).follows_bind (fun o ho => Local.ignores rfl ho)
        (fun _ => hstored) (fun e => hstored)
    · have hs := hp.settled e rfl
      obtain ⟨p, rfl⟩ := hp.moved
      exact ⟨h.held, hs⟩

theorem Requesting.mono {request : Request} (h : Requesting l request r) {l' : Local} (hl : Receipts l l') :
    Requesting l' request r :=
  ⟨hl.request.trans h.request, hl.held.trans h.held, hl.read.trans h.read, hl.phase.trans h.idle⟩

theorem follows_findMinedReceipt (h : Requesting l (.retryFailed q) r) (chainId : ℕ) :
    (findMinedReceipt r chainId).Follows records (fun l' _ => Receipts l l') l := by
  unfold findMinedReceipt
  split
  · exact receipts_refl l
  · refine (follows_receipts (Local.idle_finished h.idle) chainId _).bind (fun l' results hl => ?_) (fun l' e hl => ?_)
    · obtain ⟨_, _, hl, _⟩ := hl
      exact hl
    · obtain ⟨_, hx, _⟩ := hl
      cases hx

theorem follows_removeJobs (h : Requesting l (.retryFailed q) r) (q' : QueueId) :
    (removeJobs q').Follows records (fun l' _ => l' = l) l := by
  have hf := Local.idle_finished h.idle
  have hmine : ((await (.mineQueueGetJob q')).bind fun found =>
      if found then await (.mineQueueRemove q') else done ()).Follows records (fun l' _ => l' = l) l := by
    refine (quiet_await rfl).follows_bind h.ignores (fun found => ?_) (fun e => rfl)
    split
    · refine follows_perform (P := records) (.removeMine q' ⟨q, h.request⟩ h.idle) fun x _ => ?_
      cases x with
      | ok u => rfl
      | error e => exact Local.next_error_of_finished hf (.mineQueueRemove q') e
    · rfl
  refine (quiet_await rfl).follows_bind h.ignores (fun found => ?_) (fun e => rfl)
  dsimp only
  split
  · exact follows_await_finished hf (.removeSend q' 0 ⟨q, Or.inr h.request⟩ h.idle) (fun _ _ => hmine) (fun e => rfl)
  · exact hmine

theorem follows_retryFailedTransaction (q : QueueId) : (retryFailedTransaction q).Follows records
    (fun l _ => RequestDone l) { request := .retryFailed q, queueId := some q } := by
  refine follows_read rfl (fun l hl => hl) (fun l r h => ?_)
  dsimp only
  split_ifs with herrored huser
  · exact h.done
  · exact h.done
  · refine (only_getChain _).follows_bind h.ignores (fun chain => ?_) (fun e => h.done)
    refine (follows_findMinedReceipt h chain).bind (fun l' receipt hl => ?_) (fun l' e hl => (h.mono hl).done)
    have h' := h.mono hl
    cases receipt with
    | some receipt => exact h'.done
    | none =>
      refine (follows_removeJobs h' _).bind (fun l'' _ hl => ?_) (fun l'' e hl => ?_)
      · obtain rfl : l'' = l' := hl
        refine follows_perform (P := records) (.addSend _ _ (.retryFailed r h'.read rfl (not_not.mp herrored)
          (by simpa using huser) ⟨q, h'.request⟩)) fun x _ => ?_
        cases x with
        | ok u => exact h'.done
        | error e => exact requestDone_threw h'.held
      · obtain rfl : l'' = l' := hl
        exact h'.done

end

/-- Where each process starts, and that it ends without a job and with nothing unfinished. -/
def recordContract : Contract engine where
  toProtocol := records
  init k := {
    request := k, queueId := k.queueId
    held := match k with
      | .sendJob _ _ | .mineJob _ => true
      | _ => false }
  ends l _ := RequestDone l
  answers := possible_of_effect
  starts w k p w' h := by
    cases k with
    | insertTransaction tx key simulate =>
      cases Option.some.inj h
      exact follows_insertTransaction.bind (fun l _ hl => hl) (fun l e hl => hl)
    | sendJob q n =>
      obtain ⟨j, -, hj⟩ := Option.map_eq_some_iff.mp h
      cases hj
      exact (follows_sendTransactionWorker q n).mono fun l x hl => ⟨hl.1, Or.inl hl.2⟩
    | mineJob q =>
      obtain ⟨j, -, hj⟩ := Option.map_eq_some_iff.mp h
      cases hj
      exact (follows_mineTransactionWorker q).mono fun l x hl => ⟨hl.1, hl.2⟩
    | cancel q =>
      cases Option.some.inj h
      exact (follows_cancelTransaction q).bind (fun l _ hl => hl) (fun l e hl => hl)
    | retry q a b =>
      cases Option.some.inj h
      exact follows_retryTransaction q a b
    | syncRetry q a b =>
      cases Option.some.inj h
      exact (follows_syncRetryTransaction q a b).bind (fun l _ hl => hl) (fun l e hl => hl)
    | retryFailed q =>
      cases Option.some.inj h
      exact follows_retryFailedTransaction q
    | cancelRecycledNonces =>
      cases Option.some.inj h
      exact quiet_cancelRecycledNoncesHandler.follows_last (ignores_of_idle rfl)
        fun _ => requestDone_of_finished rfl rfl
    | chainExecutes c h' =>
      cases Option.some.inj h
      refine follows_perform (P := records) (.execute c h' rfl) fun x _ => ?_
      cases x <;> exact requestDone_of_finished rfl rfl
    | chainConsumes k n =>
      cases Option.some.inj h
      refine follows_perform (P := records) (.consume k n rfl) fun x _ => ?_
      cases x <;> exact requestDone_of_finished rfl rfl

end Engine
