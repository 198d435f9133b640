import Engine.Records.Engine
import Engine.Records.Sending
import Engine.Source.MigratePostgresTransactionsWorker

/-! The processes that store sent transactions or watch them, and what each of them still owes
the watch. -/
namespace Engine
open Concurrent Program

inductive Watcher
  | insertTransaction (tx : InsertedTransaction) (idempotencyKey : Option String) (shouldSimulate : Bool)
  | sendJob (q : QueueId) (resendCount : ℕ)
  | mineJob (q : QueueId)
  | syncRetry (q : QueueId) (maxFeePerGas maxPriorityFeePerGas : Option String)
  /-- The rows that the migration selected as sent. -/
  | migrateSent (rows : List Row)
  | migrateQueued (rows : List Row)
  | chainExecutes (c : Caller) (h : TransactionHash)
  | chainConsumes (k : Wallet) (n : ℤ)

/-- What the conversion of a row gives has the status, if it gives something. -/
def Row.hasStatus (row : Row) (status : Status) : Bool :=
  match row.converted with
  | .ok t => t.status == status
  | .error _ => true

abbrev watchers : Machine Calls Unit where
  World := World
  Kind := Watcher
  effect := World.effect
  start w
    | .insertTransaction tx key simulate => some (discard (insertTransaction tx key simulate), w)
    | .sendJob q n =>
      (takeJob (w.sendJobs q n)).map fun j => (sendTransactionWorker q n, w.setSendJob q n (some j))
    | .mineJob q => (takeJob (w.mineJobs q)).map fun j => (mineTransactionWorker q, w.setMineJob q (some j))
    | .syncRetry q maxFeePerGas maxPriorityFeePerGas =>
      some (discard (syncRetryTransaction q maxFeePerGas maxPriorityFeePerGas), w)
    | .migrateSent rows =>
      if rows.all (·.hasStatus .sent) then some (discard (migrateSentTransactions rows), w) else none
    | .migrateQueued rows =>
      if rows.all (·.hasStatus .queued) then some (discard (migrateQueuedTransactions rows), w) else none
    | .chainExecutes c h => some (await (.chainExecutes c h), w)
    | .chainConsumes k n => some (await (.chainConsumes k n), w)

namespace Watcher

/-- Whose record a job or a request is about. -/
def queueId : Watcher → Option QueueId
  | .sendJob q _ | .mineJob q | .syncRetry q _ _ => some q
  | _ => none

/-- The job that an attempt is an attempt of. -/
def job : Watcher → Option Request
  | .sendJob q n => some (.sendJob q n)
  | .mineJob q => some (.mineJob q)
  | _ => none

/-- The process may store a sent record of `q`, or polls it. -/
def worksOn (q : QueueId) : Watcher → Bool
  | .migrateSent rows => rows.any fun row => row.converted.toOption.any (·.queueId == q)
  | k => k.queueId == some q

end Watcher

/-- What a process has to do before it may end. -/
inductive Duty
  | nothing
  /-- The record may be sent without a mine job: the attempt adds one, or it fails. -/
  | resend
  /-- A sent record was stored, and its mine job is to be added. -/
  | add (q : QueueId)
  /-- The job failed for the last time, and the record is to be errored. -/
  | error
deriving DecidableEq

/-- A send attempt that throws is tried again. -/
def Duty.thrown (held : Bool) : Duty → Duty
  | .resend => .resend
  | .add _ => if held then .resend else .nothing
  | _ => .nothing

structure Watching where
  request : Watcher
  /-- The job is held. -/
  held : Bool := false
  read : Option Transaction := none
  duty : Duty := .nothing

/-- The calls that neither touch a record nor a mine job, nor end or remove a job. -/
def Op.unwatched : Op → Bool
  | .getTransaction _ | .setTransaction _ | .mineQueueAdd _ | .mineQueueRemove _ | .sendQueueRemove _ _ => false
  | .sendJobCompleted _ _ | .sendJobFailed _ _ | .mineJobCompleted _ | .mineJobFailed _ => false
  | _ => true

/-- The calls of the `try` block of a resend. -/
def Op.submits : Op → Bool
  | .getAccount _ _ | .accountSendTransaction _ _ _ => true
  | _ => false

/-- What throws here becomes the message that is stored. -/
def Op.isSimulation : Op → Bool
  | .simulateTransaction _ => true
  | _ => false

/-- The simulation throws before it starts. -/
def Transaction.unsimulatable (t : Transaction) : Bool := t.data.isNone || (t.to.or t.target).isNone

namespace Watching

def threw (l : Watching) : Watching := { l with duty := l.duty.thrown l.held }

/-- The attempt is over; when it was the last one, the record is to be errored. -/
def attempted (l : Watching) (last : Bool) : Watching :=
  { l with held := false, read := none, duty := if last then .error else .nothing }

/-- The listener may throw because the record cannot be simulated. -/
def stranded (l : Watching) : Bool := l.duty == .error && l.read.any (·.unsimulatable)

def next (l : Watching) : (o : Op) → Except Err o.Reply → Watching
  | .getTransaction _, .ok t =>
    { l with read := t, duty := if t.any (·.status == .sent) then l.duty else .nothing }
  | .setTransaction t, .ok _ => { l with duty := if t.status = .sent then .add t.queueId else .nothing }
  | .mineQueueAdd _, .ok _ => { l with duty := .nothing }
  | .sendJobCompleted _ _, .ok _ => l.attempted false
  | .mineJobCompleted _, .ok _ => l.attempted false
  | .sendJobFailed _ _, .ok n => l.attempted (n = sendAttempts)
  | .mineJobFailed _, .ok n => l.attempted (n = mineAttempts)
  | .getConfig, .ok _ => if l.stranded then { l with duty := .nothing } else l
  | o, .error e =>
    if o.isSimulation then l
    else if o.submits && saysUsed e then { l with duty := .nothing }
    else l.threw
  | _, .ok _ => l

/-- The records that a process may store. -/
inductive Writes (l : Watching) (t : Transaction) : Prop
  | computed (r : Transaction) (hread : l.read = some r) (hq : t.queueId = r.queueId)
      (hresend : l.duty = .resend → t.status = .sent) (herror : l.duty = .error → t.status ≠ .sent)
      (hadd : ∀ q, l.duty ≠ .add q)
  | row (rows : List Row) (row : Row) (hreq : l.request = .migrateSent rows) (hrow : row ∈ rows)
      (ht : row.converted = .ok t) (hduty : l.duty = .nothing)
  | queued (hst : t.status ≠ .sent) (hduty : l.duty = .nothing)

inductive Allowed (l : Watching) : Op → Prop
  | other (o : Op) (h : o.unwatched = true) : Allowed l o
  | get (q : QueueId) (hq : l.request.queueId = some q) (hadd : ∀ q', l.duty ≠ .add q') : Allowed l (.getTransaction q)
  | set (t : Transaction) (h : l.Writes t) : Allowed l (.setTransaction t)
  | addMine (q : QueueId) (h : l.duty = .add q) : Allowed l (.mineQueueAdd q)
  | sendCompleted (q : QueueId) (n : ℕ) (hreq : l.request = .sendJob q n) (hheld : l.held = true)
      (hduty : l.duty = .nothing) : Allowed l (.sendJobCompleted q n)
  | sendFailed (q : QueueId) (n : ℕ) (hreq : l.request = .sendJob q n) (hheld : l.held = true)
      (hduty : l.duty = .nothing ∨ l.duty = .resend) : Allowed l (.sendJobFailed q n)
  | mineCompleted (q : QueueId) (hreq : l.request = .mineJob q) (hheld : l.held = true) (hduty : l.duty = .nothing) :
      Allowed l (.mineJobCompleted q)
  | mineFailed (q : QueueId) (hreq : l.request = .mineJob q) (hheld : l.held = true) (hduty : l.duty = .nothing) :
      Allowed l (.mineJobFailed q)

def protocol : Protocol Calls where
  Local := Watching
  next := next
  allowed := Allowed
  possible := Op.possible

variable {l : Watching} {o : Op} {r : Transaction} {q : QueueId} {n : ℕ}

theorem next_error (l : Watching) (o : Op) (e : Err) : l.next o (.error e) =
    if o.isSimulation then l else if o.submits && saysUsed e then { l with duty := .nothing } else l.threw := by
  cases o <;> rfl

theorem next_threw (l : Watching) (hsubmits : o.submits = false) (hsimulates : o.isSimulation = false) (e : Err) :
    l.next o (.error e) = l.threw := by
  rw [next_error, hsubmits, hsimulates]
  simp

theorem not_stranded (h : l.duty ≠ .error) : l.stranded = false := by simp [stranded, h]

theorem next_unwatched (h : l.duty ≠ .error) (ho : o.unwatched = true) (x : o.Reply) : l.next o (.ok x) = l := by
  cases o with
  | getConfig => simp [next, not_stranded h]
  | _ => first | rfl | cases ho

theorem with_nothing (h : l.duty = .nothing) : { l with duty := .nothing } = l := by
  obtain ⟨request, held, read, duty⟩ := l
  have h : duty = .nothing := h
  subst h
  rfl

theorem threw_of_nothing (h : l.duty = .nothing) : l.threw = l := by
  unfold threw
  rw [h]
  exact with_nothing h

theorem threw_of_resend (h : l.duty = .resend) : l.threw = l := by
  obtain ⟨request, held, read, duty⟩ := l
  have h : duty = .resend := h
  subst h
  rfl

/-- What throws in a process that owes nothing leaves it so. -/
theorem next_error_of_nothing (h : l.duty = .nothing) (o : Op) (e : Err) : l.next o (.error e) = l := by
  rw [next_error, threw_of_nothing h, with_nothing h]
  simp

theorem ignores (h : l.duty = .nothing) (ho : o.unwatched = true) : protocol.Ignores l o := by
  refine ⟨.other o ho, fun r _ => ?_⟩
  cases r with
  | ok x => exact next_unwatched (by simp [h]) ho x
  | error e => exact next_error_of_nothing h o e

/-- Outside of the `try` block a resend that throws is tried again. -/
theorem ignores_resend (h : l.duty = .resend) (ho : o.unwatched = true) (hsubmits : o.submits = false) :
    protocol.Ignores l o := by
  refine ⟨.other o ho, fun r _ => ?_⟩
  cases r with
  | ok x => exact next_unwatched (by simp [h]) ho x
  | error e =>
    have hnext : protocol.next l o (.error e) = _ := next_error l o e
    rw [hnext, hsubmits, threw_of_resend h]
    simp
    rfl

end Watching

/-- A program that neither touches a record nor a mine job. -/
abbrev Unwatched (p : Prog α) : Prop := p.Only fun o : Op => o.unwatched = true

section
variable {q : QueueId} {n : ℕ}

instance : HasLookups fun o : Op => o.unwatched = true where
  isLookup o ho := by cases o <;> first | rfl | cases ho

instance : HasCounters fun o : Op => o.unwatched = true where
  counts o ho := by cases o <;> first | rfl | cases ho

theorem unwatched_await {o : Op} (h : o.unwatched = true) : Unwatched (await o) := only_perform h

/-! ### What the handlers prepare -/

/-- The program touches no record, and what it returns satisfies `Q`. -/
abbrev Prepares (p : Prog α) (Q : α → Prop) : Prop :=
  p.Follows (.only (fun o : Op => o.unwatched = true) Op.possible) (fun _ x => ∀ a, x = .ok a → Q a) ()

theorem Prepares.after {p : Prog α} {f : α → Prog β} {Q : β → Prop} (hp : Unwatched p) (hf : ∀ a, Prepares (f a) Q) :
    Prepares (p.bind f) Q := by
  unfold Prepares at hf ⊢
  refine hp.follows_bind (fun o ho => ⟨ho, fun _ _ => rfl⟩) (fun a => hf a) (fun e b hb => ?_)
  cases hb

theorem prepares_done {a : α} {Q : α → Prop} (h : Q a) : Prepares (done a) Q := by
  intro b hb
  cases hb
  exact h

theorem unwatched_getPopulatedOrErrored (queued : Transaction) {f : Except Transaction SerializableTransaction → Prog β}
    {Q : β → Prop} (hf : ∀ x, PopulatedOrErrored queued x → Prepares (f x) Q) :
    Prepares ((getPopulatedOrErroredTransaction queued).bind f) Q := by
  refine (populates queued).bind (fun _ x hx => ?_) (fun _ e hx b hb => ?_)
  · obtain ⟨x', hx', hp⟩ := hx
    cases hx'
    exact hf x hp
  · cases hb

theorem prepares_sendUserOp (queued : Transaction) : Prepares (sendUserOp queued)
    fun t => t.queueId = queued.queueId := by
  refine Prepares.after (only_assert _) fun _ => ?_
  refine Prepares.after (only_getChain _) fun _ => ?_
  refine unwatched_getPopulatedOrErrored queued fun x hx => ?_
  cases x with
  | error errored =>
    obtain ⟨message, rfl⟩ := hx
    exact prepares_done rfl
  | ok populated =>
    refine Prepares.after (only_generateSignedUserOperation _ _) fun u => ?_
    refine Prepares.after (unwatched_await rfl) fun hash => ?_
    exact Prepares.after (only_getBlockNumberish _) fun block => prepares_done rfl

theorem prepares_sendTransaction (queued : Transaction) :
    Prepares (sendTransaction queued) fun t => t.queueId = queued.queueId := by
  refine Prepares.after (only_assert _) fun _ => ?_
  refine unwatched_getPopulatedOrErrored queued fun x hx => ?_
  cases x with
  | error errored =>
    obtain ⟨message, rfl⟩ := hx
    exact prepares_done rfl
  | ok populated =>
    refine Prepares.after (only_acquireNonce (fun _ _ _ => rfl) _ _) fun acquired => ?_
    refine Prepares.after (only_broadcast (fun _ _ _ => rfl) _ _) fun hash => ?_
    refine Prepares.after (unwatched_await rfl) fun _ => ?_
    exact Prepares.after (only_getBlockNumberish _) fun block => prepares_done rfl

/-- A mined record is of the transaction that was polled. -/
def MinedOf (sent : Transaction) (t : Option Transaction) : Prop :=
  ∀ t', t = some t' → t'.queueId = sent.queueId ∧ t'.status ≠ .sent

theorem prepares_mineTransaction (sent : Transaction) : Prepares (mineTransaction sent) (MinedOf sent) := by
  refine Prepares.after (only_assert _) fun _ => ?_
  refine Prepares.after (only_getChain _) fun chain => ?_
  refine Prepares.after (only_defined _) fun hashes => ?_
  refine Prepares.after (only_receipts (fun _ _ => rfl) _ _) fun results => ?_
  split
  · refine Prepares.after (only_defined _) fun nonce => ?_
    refine Prepares.after (unwatched_await rfl) fun removed => prepares_done (Q := MinedOf sent) ?_
    intro t ht
    cases ht
    exact ⟨rfl, by simp [minedTransaction]⟩
  · exact Prepares.after (only_resendIfDue (fun _ _ => rfl) sent) fun _ => prepares_done (by simp [MinedOf])

theorem prepares_mineUserOp (sent : Transaction) : Prepares (mineUserOp sent) (MinedOf sent) := by
  refine Prepares.after (only_assert _) fun _ => ?_
  refine Prepares.after (only_getChain _) fun chain => ?_
  refine Prepares.after (only_defined _) fun userOpHash => ?_
  refine Prepares.after (unwatched_await rfl) fun raw => ?_
  cases raw with
  | none => exact prepares_done (by simp [MinedOf])
  | some raw =>
    refine Prepares.after (unwatched_await rfl) fun hash => ?_
    refine Prepares.after (unwatched_await rfl) fun receipt => ?_
    have hdone : ∀ message, Prepares (done (some (minedUserOp sent raw receipt message))) (MinedOf sent) := by
      intro message
      refine prepares_done fun t ht => ?_
      cases ht
      exact ⟨rfl, by simp [minedUserOp]⟩
    dsimp only
    split
    · exact hdone none
    · exact Prepares.after (only_userOpError _) hdone

theorem prepares_syncRetrySend (sent : Transaction) (a b : Option String) :
    Prepares (syncRetrySend sent a b) fun t => t.queueId = sent.queueId ∧ t.status = sent.status := by
  refine Prepares.after (only_getChain _) fun _ => ?_
  refine Prepares.after (only_maybeBigInt _) fun fee => ?_
  refine Prepares.after (only_maybeBigInt _) fun priority => ?_
  refine Prepares.after (unwatched_await rfl) fun populated => ?_
  refine Prepares.after (unwatched_await rfl) fun _ => ?_
  refine Prepares.after (unwatched_await rfl) fun hash => ?_
  refine Prepares.after (only_getBlockNumberish _) fun block => ?_
  exact Prepares.after (only_defined _) fun hashes => prepares_done ⟨rfl, rfl⟩

end
end Engine
