import Engine.Concurrent.Product
import Engine.Records.Invariants

/-! What a process still has to announce: the status that it stored last. -/
namespace Engine
open Concurrent Program

/-- The type of the webhook for a status. -/
def Status.webhookType : Status → Option WebhooksEventTypes
  | .queued => none
  | .sent => some .sentTx
  | .mined => some .minedTx
  | .cancelled => some .cancelledTx
  | .errored => some .erroredTx

/-- The call does not store a record. -/
def Op.storesNothing : Op → Bool
  | .setTransaction _ => false
  | _ => true

/-- What a process has to announce. -/
inductive Owing
  /-- It announces nothing, and stores records of one status only. -/
  | silent (status : Status)
  | nothing
  /-- It stored a record with a status, and has not enqueued the webhook yet. -/
  | owes (q : QueueId) (status : Status)
deriving DecidableEq

namespace Owing

/-- After a record was stored. -/
def stored (t : Transaction) : Owing := if t.status = .queued then .nothing else .owes t.queueId t.status

def next : Owing → (o : Op) → Except Err o.Reply → Owing
  | .silent status, _, _ => .silent status
  | .nothing, .setTransaction t, .ok _ => stored t
  | .nothing, _, _ => .nothing
  | .owes _ _, .enqueueWebhook _ _, _ => .nothing
  | .owes _ _, _, .error _ => .nothing
  | .owes q status, _, .ok _ => .owes q status

def Allowed : Owing → Op → Prop
  | .silent status, .setTransaction t => t.status = status
  | .silent _, _ => True
  | .nothing, _ => True
  | .owes q status, .enqueueWebhook type q' => q' = q ∧ status.webhookType = some type
  | .owes _ _, .mineQueueAdd _ => True
  | .owes _ _, _ => False

abbrev protocol : Protocol Calls where
  Local := Owing
  next := next
  allowed := Allowed
  possible := Op.possible

/-- All is announced, or lost. -/
def Settled : Owing → Prop
  | .owes _ _ => False
  | _ => True

variable {t : Transaction} {q : QueueId} {o : Op} {l : Owing} {status : Status} {α : Type}

theorem ignores_of_storesNothing (ho : o.storesNothing = true) : protocol.Ignores .nothing o := by
  cases o <;> first
    | exact absurd ho Bool.false_ne_true
    | exact ⟨trivial, fun r _ => by cases r <;> rfl⟩

/-! ### What stores nothing -/

abbrev Storeless (p : Prog α) : Prop := p.Only fun o : Op => o.storesNothing = true

instance : HasLookups fun o : Op => o.storesNothing = true where
  isLookup o ho := by cases o <;> first | rfl | cases ho

instance : HasCounters fun o : Op => o.storesNothing = true where
  counts o ho := by cases o <;> first | rfl | cases ho

theorem storeless_await (ho : o.storesNothing = true) : Storeless (await o) := only_perform ho

theorem storeless_cancelSent (sent : Transaction) : Storeless (cancelSent sent) :=
  (only_sendCancellationTransaction (fun _ _ => rfl) _ _).bind fun _ => only_done _

theorem storeless_retryFailedTransaction (q : QueueId) : Storeless (retryFailedTransaction q) := by
  refine (storeless_await rfl).bind fun found => ?_
  cases found with
  | none => exact only_raise _
  | some t =>
    dsimp only
    split_ifs
    · exact only_raise _
    · exact only_raise _
    · refine (only_getChain _).bind fun chain => (only_findMinedReceipt (fun _ _ => rfl) t chain).bind fun receipt => ?_
      cases receipt with
      | some receipt => exact only_raise _
      | none => exact (only_removeJobs (fun _ _ => rfl) (fun _ => rfl) _).bind fun _ => storeless_await rfl

/-! ### Storing and announcing -/

theorem follows_storeless {p : Prog α} (hp : Storeless p) : p.Follows protocol (fun l _ => l = .nothing) .nothing :=
  hp.follows_last (fun _ ho => ignores_of_storesNothing ho) fun _ => rfl

theorem follows_enqueueTransactionWebhook (t : Transaction) :
    (enqueueTransactionWebhook t).Follows protocol (fun l _ => l = .nothing) (stored t) := by
  unfold enqueueTransactionWebhook stored
  cases hstatus : t.status with
  | queued => rfl
  | _ => exact follows_perform (P := protocol) ⟨rfl, rfl⟩ fun r _ => rfl

/-- A record is stored and announced, and nothing is stored after that. -/
theorem follows_announced {t : Transaction} {f : Unit → Prog α} (hf : Storeless (f ())) :
    ((await (.setTransaction t)).bind fun _ => (enqueueTransactionWebhook t).bind f).Follows protocol
      (fun l _ => l = .nothing) .nothing := by
  refine follows_await (P := protocol) trivial (fun _ _ => ?_) (fun _ _ => rfl)
  exact (follows_enqueueTransactionWebhook t).bind (fun l _ hl => hl ▸ follows_storeless hf) fun _ _ hl => hl

theorem follows_storeSendResult (t result : Transaction) :
    (storeSendResult t result).Follows protocol (fun l _ => l = .nothing) .nothing := by
  refine follows_announced ?_
  split
  · refine (storeless_await rfl).bind fun _ => ?_
    split
    · exact (only_getChain _).bind fun _ => storeless_await rfl
    · exact only_done _
  · split
    · exact storeless_await rfl
    · exact only_done _

theorem follows_sendFound (t : Transaction) (n : ℕ) :
    (sendFound t n).Follows protocol (fun l _ => l = .nothing) .nothing := by
  have hstored : ∀ {p : Prog Transaction}, Storeless p →
      (p.bind fun result => storeSendResult t result).Follows protocol (fun l _ => l = .nothing) .nothing :=
    fun hp => (follows_storeless hp).bind (fun l result hl => hl ▸ follows_storeSendResult t result) fun _ _ hl => hl
  unfold sendFound
  split
  · split
    · exact hstored (only_sendUserOp (fun _ _ => rfl) t)
    · exact hstored (only_sendTransaction (fun _ _ _ => rfl) (fun _ _ _ => rfl) (fun _ _ => rfl) t)
  · refine (follows_storeless (only_resendTransaction (fun _ _ _ => rfl) t n)).bind (fun l result hl => ?_)
      fun _ _ hl => hl
    subst hl
    cases result with
    | none => rfl
    | some result => exact follows_storeSendResult t result
  · rfl

theorem follows_sendTransactionWorker (q : QueueId) (n : ℕ) :
    (sendTransactionWorker q n).Follows protocol (fun l _ => l.Settled) .nothing := by
  have hhandler : (sendTransactionHandler q n).Follows protocol (fun l _ => l = .nothing) .nothing := by
    refine follows_await (P := protocol) trivial (fun found _ => ?_) (fun _ _ => rfl)
    cases found with
    | none => rfl
    | some t => exact follows_sendFound (manuallyRetried t n) n
  have hlistener : ∀ made e, (sendFailedHandler q made e).Follows protocol (fun l _ => l = .nothing) .nothing := by
    intro made e
    unfold sendFailedHandler
    split
    · refine follows_await (P := protocol) trivial (fun found _ => ?_) (fun _ _ => rfl)
      cases found with
      | none => rfl
      | some t =>
        refine (follows_storeless (only_prettifyError t e)).bind (fun l message hl => ?_)
          fun _ _ hl => hl
        subst hl
        refine follows_await (P := protocol) trivial (fun _ _ => ?_) (fun _ _ => rfl)
        exact follows_enqueueTransactionWebhook (erroredTransaction t message)
    · rfl
  have hresult : (attempt (sendTransactionHandler q n)).Follows protocol (fun l _ => l = .nothing) .nothing :=
    hhandler.attempt fun _ _ hl => hl
  have hall : (sendTransactionWorker q n).Follows protocol (fun l _ => l = .nothing) .nothing := by
    refine hresult.bind (fun l x hl => ?_) fun _ _ hl => hl
    subst hl
    cases x with
    | ok u => exact follows_storeless (storeless_await rfl)
    | error e =>
      refine follows_await (P := protocol) trivial (fun made _ => ?_) (fun _ _ => rfl)
      exact hlistener made e
  exact hall.mono fun l _ hl => by rw [hl]; trivial

theorem follows_mineTransactionWorker (q : QueueId) :
    (mineTransactionWorker q).Follows protocol (fun l _ => l.Settled) .nothing := by
  have hhandler : (mineTransactionHandler q).Follows protocol (fun l _ => l = .nothing) .nothing := by
    refine follows_await (P := protocol) trivial (fun found _ => ?_) (fun _ _ => rfl)
    cases found with
    | none => rfl
    | some sent =>
      have hmined : ∀ mined : Transaction, Storeless ((getChain mined.chainId).bind fun _ =>
          await (.recordMetrics (.transactionMined mined.chainId mined.from))) :=
        fun mined => (only_getChain _).bind fun _ => storeless_await rfl
      dsimp only
      split
      · split
        · refine (follows_storeless (only_mineUserOp (fun _ _ => rfl) sent)).bind (fun l result hl => ?_)
            fun _ _ hl => hl
          subst hl
          cases result with
          | none => rfl
          | some mined => exact follows_announced (hmined mined)
        · refine (follows_storeless (only_mineTransaction (fun _ _ => rfl) (fun _ _ => rfl)
            (fun _ _ => rfl) sent)).bind (fun l result hl => ?_) fun _ _ hl => hl
          subst hl
          cases result with
          | none => rfl
          | some mined => exact follows_announced (hmined mined)
      · rfl
  have hlistener : ∀ made, (mineFailedHandler q made).Follows protocol (fun l _ => l = .nothing) .nothing := by
    intro made
    unfold mineFailedHandler
    split
    · refine follows_await (P := protocol) trivial (fun found _ => ?_) (fun _ _ => rfl)
      cases found with
      | none => rfl
      | some sent =>
        dsimp only
        split
        · refine follows_announced ?_
          split
          · exact only_done _
          · refine (only_recycleNonce _ _).bind fun _ => ?_
            refine (only_defined _).bind fun nonce => ?_
            exact (storeless_await rfl).bind fun _ => only_done _
        · rfl
    · rfl
  have hresult : (attempt (mineTransactionHandler q)).Follows protocol (fun l _ => l = .nothing) .nothing :=
    hhandler.attempt fun _ _ hl => hl
  have hall : (mineTransactionWorker q).Follows protocol (fun l _ => l = .nothing) .nothing := by
    refine hresult.bind (fun l x hl => ?_) fun _ _ hl => hl
    subst hl
    cases x with
    | ok u => exact follows_storeless (storeless_await rfl)
    | error e =>
      refine follows_await (P := protocol) trivial (fun made _ => ?_) (fun _ _ => rfl)
      exact hlistener made
  exact hall.mono fun l _ hl => by rw [hl]; trivial

theorem follows_cancelTransaction (q : QueueId) :
    (cancelTransaction q).Follows protocol (fun l _ => l = .nothing) .nothing := by
  refine follows_await (P := protocol) trivial (fun found _ => ?_) (fun _ _ => rfl)
  cases found with
  | none => rfl
  | some t =>
    have hcancelled : ∀ (cancelled : Transaction) (reply : CancelReply),
        Storeless ((getChain cancelled.chainId).bind fun _ => done reply) :=
      fun cancelled reply => (only_getChain _).bind fun _ => only_done _
    dsimp only
    split
    · rfl
    · split
      · refine (follows_storeless (only_cancelQueued (fun _ _ => rfl) t)).bind (fun l cancelled hl => ?_)
          fun _ _ hl => hl
        subst hl
        exact follows_announced (hcancelled cancelled _)
      · refine (follows_storeless (storeless_cancelSent t)).bind (fun l cancelled hl => ?_) fun _ _ hl => hl
        subst hl
        exact follows_announced (hcancelled cancelled _)
      · rfl

/-- The mine job of a record that was just stored. -/
theorem mineQueueAdd_stored (t : Transaction) : protocol.allowed (stored t) (.mineQueueAdd t.queueId) ∧
    (∀ u, protocol.next (stored t) (.mineQueueAdd t.queueId) (.ok u) = stored t) ∧
    ∀ e, protocol.next (stored t) (.mineQueueAdd t.queueId) (.error e) = .nothing := by
  unfold stored
  split_ifs
  · exact ⟨trivial, fun _ => rfl, fun _ => rfl⟩
  · exact ⟨trivial, fun _ => rfl, fun _ => rfl⟩

theorem follows_syncRetryTransaction (q : QueueId) (fee priority : Option String) :
    (syncRetryTransaction q fee priority).Follows protocol (fun l _ => l = .nothing) .nothing := by
  refine follows_await (P := protocol) trivial (fun found _ => ?_) (fun _ _ => rfl)
  cases found with
  | none => rfl
  | some t =>
    dsimp only
    split
    · rfl
    · refine (follows_storeless (only_syncRetrySend (fun _ _ _ => rfl) t fee priority)).bind (fun l sent hl => ?_)
        fun _ _ hl => hl
      subst hl
      refine follows_await (P := protocol) trivial (fun u _ => ?_) (fun _ _ => rfl)
      have hset : protocol.next .nothing (.setTransaction sent) (.ok u) = stored sent := rfl
      rw [hset]
      obtain ⟨hallowed, hok, herr⟩ := mineQueueAdd_stored sent
      refine follows_await hallowed (fun u _ => ?_) (fun e _ => herr e)
      rw [hok u]
      exact (follows_enqueueTransactionWebhook sent).bind (fun _ _ hl => hl) fun _ _ hl => hl

/-- A process that stores records of one status and announces nothing. -/
theorem follows_silent {p : Prog α} (hp : p.Only fun o : Op => ∀ t, o = .setTransaction t → t.status = status) :
    p.Follows protocol (fun l _ => l.Settled) (.silent status) := by
  refine (hp.follows_in (P := protocol) (F := fun l => l = .silent status) (fun l o hl ho => ?_)
    (fun l o r hl _ => ?_) rfl).mono fun l _ hl => by rw [hl]; trivial
  · subst hl
    cases o with
    | setTransaction t => exact ho t rfl
    | _ => trivial
  · subst hl
    rfl

theorem silent_of_storeless {p : Prog α} (hp : Storeless p) :
    p.Only fun o : Op => ∀ t, o = .setTransaction t → t.status = status := by
  refine hp.mono fun o ho t heq => ?_
  subst heq
  cases ho

theorem silent_retryTransaction (q : QueueId) (fee priority : Option String) :
    (retryTransaction q fee priority).Only fun o : Op => ∀ t, o = .setTransaction t → t.status = .sent := by
  refine (silent_of_storeless (storeless_await rfl)).bind fun found => ?_
  cases found with
  | none => exact only_raise _
  | some t =>
    dsimp only
    split
    · exact only_raise _
    · rename_i hsent
      have hsent : t.status = .sent := by simpa using hsent
      refine (silent_of_storeless (only_maybeBigInt _)).bind fun _ => ?_
      refine (silent_of_storeless (only_maybeBigInt _)).bind fun _ => ?_
      refine (only_perform fun stored hstored => ?_).bind fun _ => silent_of_storeless (storeless_await rfl)
      cases hstored
      exact hsent

theorem silent_insertTransaction (tx : InsertedTransaction) (key : Option String) (simulate : Bool) :
    (insertTransaction tx key simulate).Only fun o : Op => ∀ t, o = .setTransaction t → t.status = .queued := by
  have hinsert : ∀ q, (insertQueued (queuedTransaction tx q) simulate).Only fun o : Op =>
      ∀ t, o = .setTransaction t → t.status = .queued := by
    intro q
    have hset : ((await (.setTransaction (queuedTransaction tx q))).bind fun _ =>
        (await (.sendQueueAdd q 0)).bind fun _ =>
          (await (.recordMetrics (.transactionQueued tx.chainId tx.from))).bind fun _ => done q).Only fun o : Op =>
        ∀ t, o = .setTransaction t → t.status = .queued := by
      refine (only_perform fun stored hstored => ?_).bind fun _ => silent_of_storeless ?_
      · cases hstored
        rfl
      · exact (storeless_await rfl).bind fun _ => (storeless_await rfl).bind fun _ => only_done _
    unfold insertQueued
    split
    · exact (silent_of_storeless (only_assertSimulates _)).bind fun _ => hset
    · exact hset
  refine (silent_of_storeless (storeless_await rfl)).bind fun q => ?_
  split
  · exact hinsert q
  · refine (silent_of_storeless (storeless_await rfl)).bind fun found => ?_
    split
    · exact only_done _
    · exact hinsert _

end Owing

/-- Where a process starts. -/
def Request.owing : Request → Owing
  | .insertTransaction _ _ _ => .silent .queued
  | .retry _ _ _ => .silent .sent
  | _ => .nothing

def owingContract : Contract engine where
  toProtocol := Owing.protocol
  init := Request.owing
  ends l _ := l.Settled
  answers := possible_of_effect
  starts w k p w' h := by
    have hsettled : ∀ {p : Prog Unit}, p.Follows Owing.protocol (fun l _ => l = .nothing) .nothing →
        p.Follows Owing.protocol (fun l _ => l.Settled) .nothing :=
      fun hp => hp.mono fun l _ hl => by rw [hl]; trivial
    cases k with
    | insertTransaction tx key simulate =>
      cases Option.some.inj h
      exact Owing.follows_silent ((Owing.silent_insertTransaction tx key simulate).bind fun _ => only_done _)
    | sendJob q n =>
      obtain ⟨j, -, hp⟩ := Option.map_eq_some_iff.mp h
      cases hp
      exact Owing.follows_sendTransactionWorker q n
    | mineJob q =>
      obtain ⟨j, -, hp⟩ := Option.map_eq_some_iff.mp h
      cases hp
      exact Owing.follows_mineTransactionWorker q
    | cancel q =>
      cases Option.some.inj h
      exact hsettled ((Owing.follows_cancelTransaction q).bind (fun l _ hl => hl) fun _ _ hl => hl)
    | retry q fee priority =>
      cases Option.some.inj h
      exact Owing.follows_silent (Owing.silent_retryTransaction q fee priority)
    | syncRetry q fee priority =>
      cases Option.some.inj h
      exact hsettled ((Owing.follows_syncRetryTransaction q fee priority).bind (fun l _ hl => hl) fun _ _ hl => hl)
    | retryFailed q =>
      cases Option.some.inj h
      exact hsettled (Owing.follows_storeless (Owing.storeless_retryFailedTransaction q))
    | cancelRecycledNonces =>
      cases Option.some.inj h
      exact hsettled (Owing.follows_storeless (only_cancelRecycledNoncesHandler rfl (fun _ => rfl) fun _ _ => rfl))
    | chainExecutes c hash =>
      cases Option.some.inj h
      exact hsettled (Owing.follows_storeless (Owing.storeless_await rfl))
    | chainConsumes k n =>
      cases Option.some.inj h
      exact hsettled (Owing.follows_storeless (Owing.storeless_await rfl))

end Engine
