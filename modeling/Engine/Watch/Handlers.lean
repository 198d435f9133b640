import Engine.Watch.Contract

/-! What the workers and requests store, and that each of them pays what it owes. -/
namespace Engine
open Concurrent Program

section
variable {q : QueueId} {n : ℕ}

namespace Watching
variable {l : Watching} {r : Transaction}

/-- A program that prepares what is stored next, in a process that owes nothing. -/
theorem follows_prepared {p : Prog α} {Q : α → Prop} {f : α → Prog β} {R : Watching → Except Err β → Prop}
    (hp : Prepares p Q) (hl : l.duty = .nothing) (hf : ∀ a, Q a → (f a).Follows protocol R l)
    (hR : ∀ e, R l (.error e)) : (p.bind f).Follows protocol R l := by
  have hresult : p.Follows protocol (fun l' x => l' = l ∧ ∀ a, x = .ok a → Q a) l :=
    hp.of_only (fun o ho => ignores hl ho) (fun _ _ hx => hx)
  refine hresult.bind (fun l' a hx => ?_) (fun l' e hx => ?_)
  · obtain ⟨rfl, ha⟩ := hx
    exact hf a (ha a rfl)
  · obtain ⟨rfl, -⟩ := hx
    exact hR e

/-- How a send attempt stands that can still fail. -/
structure Sending (q : QueueId) (n : ℕ) (l : Watching) : Prop where
  request : l.request = .sendJob q n
  held : l.held = true
  duty : l.duty = .nothing ∨ l.duty = .resend

/-- The handler of a send job: it returns only when nothing is owed. -/
def Handled (q : QueueId) (n : ℕ) (l : Watching) (x : Except Err Unit) : Prop :=
  Sending q n l ∧ (x = .ok () → l.duty = .nothing)

theorem handled_of_nothing (hreq : l.request = .sendJob q n) (hheld : l.held = true) (hduty : l.duty = .nothing)
    (x : Except Err Unit) : Handled q n l x := ⟨⟨hreq, hheld, Or.inl hduty⟩, fun _ => hduty⟩

theorem handled_of_resend (hreq : l.request = .sendJob q n) (hheld : l.held = true) (hduty : l.duty = .resend)
    (e : Err) : Handled q n l (.error e) := ⟨⟨hreq, hheld, Or.inr hduty⟩, nofun⟩

/-- The result is stored; when it is sent the mine job is added, or the attempt fails. -/
theorem follows_storeSendResult (hl : Sending q n l) {t result : Transaction} (hw : l.Writes result) :
    (storeSendResult t result).Follows protocol (Handled q n) l := by
  have herror : ∀ e, Handled q n (l.next (.setTransaction result) (.error e)) (.error e) := by
    intro e
    have hthrew : l.next (.setTransaction result) (.error e) = l.threw := rfl
    rw [hthrew]
    rcases hl.duty with hduty | hduty
    · rw [threw_of_nothing hduty]
      exact ⟨hl, nofun⟩
    · rw [threw_of_resend hduty]
      exact ⟨hl, nofun⟩
  refine follows_await (P := protocol) (.set _ hw) (fun _ _ => ?_) (fun e _ => herror e)
  by_cases hsent : result.status = .sent
  · set l₁ : Watching := { l with duty := .add result.queueId } with hl₁
    have hstored : protocol.next l (.setTransaction result) (.ok ()) = l₁ := by
      simp [protocol, next, hsent, hl₁]
    have hthrown : ∀ o : Op, ∀ e, o.submits = false → o.isSimulation = false →
        Handled q n (protocol.next l₁ o (.error e)) (.error e) := by
      intro o e hsubmits hsimulates
      have hthrew : protocol.next l₁ o (.error e) = l₁.threw := next_threw l₁ hsubmits hsimulates e
      have hduty : l₁.threw.duty = .resend := by simp [threw, hl₁, Duty.thrown, hl.held]
      rw [hthrew]
      exact handled_of_resend (l := l₁.threw) hl.request hl.held hduty e
    have hsettled : ∀ x, Handled q n { l₁ with duty := .nothing } x := handled_of_nothing hl.request hl.held rfl
    rw [hstored]
    unfold enqueueTransactionWebhook
    rw [hsent]
    refine follows_await (P := protocol) (.other _ rfl) (fun _ _ => ?_) (fun e _ => hthrown _ e rfl rfl)
    refine follows_await (P := protocol) (.addMine _ rfl) (fun _ _ => ?_) (fun e _ => hthrown _ e rfl rfl)
    have hignores : ∀ o : Op, o.unwatched = true → protocol.Ignores { l₁ with duty := .nothing } o :=
      fun o ho => ignores rfl ho
    split
    · exact (only_getChain _).follows_bind hignores
        (fun _ => (unwatched_await rfl).follows_last hignores hsettled) (fun e => hsettled _)
    · exact hsettled _
  · set l₁ : Watching := { l with duty := .nothing } with hl₁
    have hstored : protocol.next l (.setTransaction result) (.ok ()) = l₁ := by
      simp [protocol, next, hsent, hl₁]
    have hsettled : ∀ x, Handled q n l₁ x := handled_of_nothing hl.request hl.held rfl
    have hignores : ∀ o : Op, o.unwatched = true → protocol.Ignores l₁ o := fun o ho => ignores rfl ho
    rw [hstored]
    refine (only_enqueueTransactionWebhook (fun _ _ => rfl) _).follows_bind hignores (fun _ => ?_)
      (fun e => hsettled _)
    rw [if_neg hsent]
    split
    · exact (unwatched_await rfl).follows_last hignores hsettled
    · exact hsettled _

/-- What a resend comes to: it gives up when the nonce is used; when it throws otherwise it is
tried again. -/
inductive Resent (sent : Transaction) (l l' : Watching) : Except Err (Option Transaction) → Prop
  | accepted (t : Transaction) (hl : l' = l) (hq : t.queueId = sent.queueId) (hst : t.status = sent.status) :
      Resent sent l l' (.ok (some t))
  | gaveUp (hl : l' = { l with duty := .nothing }) : Resent sent l l' (.ok none)
  | threw (e : Err) (hl : l' = l) : Resent sent l l' (.error e)

/-- A program of unwatched calls outside of the `try` block. -/
abbrev Outside (p : Prog α) : Prop := p.Only fun o : Op => o.unwatched = true ∧ o.submits = false

theorem outside_await {o : Op} (h : o.unwatched = true) (hsubmits : o.submits = false) : Outside (await o) :=
  only_perform ⟨h, hsubmits⟩

instance : HasChainCalls fun o : Op => o.unwatched = true ∧ o.submits = false where
  asksChain o ho := by cases o <;> first | exact ⟨rfl, rfl⟩ | cases ho

/-- The `try` block of a resend and its `catch`. -/
theorem follows_resubmit (hl : l.duty = .resend) (sent : Transaction) (populated : SerializableTransaction) :
    (((await (.getAccount sent.chainId sent.from)).bind fun _ =>
      (await (.accountSendTransaction (.transaction sent.queueId) sent.from populated)).bind fun hash =>
        (done (some hash) : Prog (Option TransactionHash))).handle fun e =>
          if isNonceAlreadyUsedError e || isReplacementGasFeeTooLow e then done none else raise e).Follows protocol
      (fun l' x => (∀ hash, x = .ok (some hash) → l' = l) ∧ (x = .ok none → l' = { l with duty := .nothing }) ∧
        ∀ e, x = .error e → l' = l) l := by
  have hthrown : ∀ o : Op, ∀ e, o.submits = true → o.isSimulation = false →
      protocol.next l o (.error e) = if saysUsed e then { l with duty := .nothing } else l := by
    intro o e hsubmits hsimulates
    have hnext : protocol.next l o (.error e) = _ := next_error l o e
    rw [hnext, hsubmits, hsimulates, threw_of_resend hl, Bool.true_and]
    rfl
  refine Follows.handle (Q := fun l' x => (∀ hash, x = .ok hash → l' = l ∧ hash ≠ none) ∧ ∀ e, x = .error e →
    l' = if saysUsed e then { l with duty := .nothing } else l) ?_ (fun l' hash hx => ?_) (fun l' e hx => ?_)
  · refine follows_await (P := protocol) (.other _ rfl) (fun u _ => ?_) (fun e _ => ⟨by simp, fun e' he => ?_⟩)
    · have hsame : protocol.next l (.getAccount sent.chainId sent.from) (.ok u) = l := rfl
      rw [hsame]
      refine follows_await (P := protocol) (.other _ rfl) (fun hash _ => ?_) (fun e _ => ⟨by simp, fun e' he => ?_⟩)
      · refine ⟨fun hash' hh => ⟨rfl, ?_⟩, by simp⟩
        cases hh
        intro h
        cases h
      · cases he
        exact hthrown _ e rfl rfl
    · cases he
      exact hthrown _ e rfl rfl
  · obtain ⟨rfl, hne⟩ := hx.1 hash rfl
    exact ⟨fun _ _ => rfl, fun hnone => absurd (Except.ok.inj hnone) hne, by simp⟩
  · have hx := hx.2 e rfl
    unfold saysUsed at hx
    split
    · rename_i hused
      rw [hused] at hx
      exact ⟨by simp, fun _ => hx, by simp⟩
    · rename_i hused
      rw [if_neg hused] at hx
      exact ⟨by simp, by simp, fun _ _ => hx⟩

theorem follows_resendTransaction (hl : l.duty = .resend) (sent : Transaction) (resendCount : ℕ) :
    (resendTransaction sent resendCount).Follows protocol (Resent sent l) l := by
  have hquiet : ∀ o : Op, o.unwatched = true ∧ o.submits = false → protocol.Ignores l o :=
    fun o ho => ignores_resend hl ho.1 ho.2
  have hthrew : ∀ e, Resent sent l l (.error e) := fun e => .threw e rfl
  refine (only_assert _).follows_bind hquiet (fun _ => ?_) hthrew
  refine (only_getChain _).follows_bind hquiet (fun _ => ?_) hthrew
  refine (outside_await rfl rfl).follows_bind hquiet (fun populated => ?_) hthrew
  refine (follows_resubmit hl sent (withDoubledFees populated)).bind (fun l' result hx => ?_) (fun l' e hx => ?_)
  · cases result with
    | none => exact .gaveUp (hx.2.1 rfl)
    | some hash =>
      obtain rfl := hx.1 hash rfl
      refine (only_getBlockNumberish _).follows_bind hquiet (fun block => ?_) hthrew
      exact (only_defined _).follows_bind hquiet (fun hashes => .accepted _ rfl rfl rfl) hthrew
  · exact .threw e (hx.2.2 e rfl)

/-- What a first send prepares is stored. -/
theorem follows_firstSend {p : Prog Transaction} {t : Transaction} (hp : Prepares p fun t' => t'.queueId = t.queueId)
    (hread : l.read = some r) (hq : t.queueId = r.queueId) (hreq : l.request = .sendJob q n) (hheld : l.held = true)
    (hduty : l.duty = .nothing) : (p.bind fun result => storeSendResult t result).Follows protocol (Handled q n) l := by
  have hsending : Sending q n l := ⟨hreq, hheld, Or.inl hduty⟩
  refine follows_prepared hp hduty (fun result hresult => ?_) (fun e => handled_of_nothing hreq hheld hduty _)
  exact follows_storeSendResult hsending (.computed r hread (hresult.trans hq) (by simp [hduty]) (by simp [hduty])
    (by simp [hduty]))

theorem follows_sendTransactionHandler (q : QueueId) (n : ℕ) : (sendTransactionHandler q n).Follows protocol
    (Handled q n) { request := .sendJob q n, held := true, duty := .resend } := by
  refine follows_await (P := protocol) (.get q rfl (by simp)) (fun t _ => ?_)
    (fun e _ => handled_of_resend rfl rfl rfl e)
  cases t with
  | none => exact handled_of_nothing rfl rfl rfl _
  | some r =>
    set l : Watching :=
      { request := .sendJob q n, held := true, read := some r
        duty := if r.status = .sent then .resend else .nothing } with hl
    have hread : protocol.next { request := .sendJob q n, held := true, duty := .resend } (.getTransaction q)
      (.ok (some r)) = l := by
      simp [protocol, next, hl]
    rw [hread]
    by_cases hsent : r.status = .sent
    · have hsame : manuallyRetried r n = r := manuallyRetried_of_ne_queued (by simp [manuallyRetried, hsent])
      have hduty : l.duty = .resend := by simp [hl, hsent]
      dsimp only
      unfold sendFound
      rw [hsame, hsent]
      refine (follows_resendTransaction hduty r n).bind (fun l' result hx => ?_) (fun l' e hx => ?_)
      · cases hx with
        | accepted t hl' hq hst =>
          subst hl'
          refine follows_storeSendResult ⟨rfl, rfl, Or.inr hduty⟩ ?_
          exact .computed r rfl hq (fun _ => hst.trans hsent) (by simp [hduty]) (by simp [hduty])
        | gaveUp hl' =>
          subst hl'
          exact handled_of_nothing rfl rfl rfl _
      · cases hx with
        | threw e hl' =>
          subst hl'
          exact handled_of_resend rfl rfl hduty e
    · have hduty : l.duty = .nothing := by simp [hl, hsent]
      have hid : (manuallyRetried r n).queueId = r.queueId := manuallyRetried_queueId
      dsimp only
      unfold sendFound
      split
      · split
        · exact follows_firstSend (prepares_sendUserOp _) (r := r) rfl hid rfl rfl hduty
        · exact follows_firstSend (prepares_sendTransaction _) (r := r) rfl hid rfl rfl hduty
      · rename_i hstatus
        refine absurd ?_ hsent
        have hne : (manuallyRetried r n).status ≠ .queued := by
          rw [hstatus]
          intro h
          cases h
        rw [manuallyRetried_of_ne_queued hne] at hstatus
        exact hstatus
      · exact handled_of_nothing rfl rfl hduty _

/-- Nothing is owed any more. -/
def Settled (l : Watching) (_ : Except Err Unit) : Prop := l.duty = .nothing

/-- The `failed` listener has read the record, and is about to store an error over it. -/
structure Listening (r : Transaction) (l : Watching) : Prop where
  read : l.read = some r
  duty : l.duty = .error ∨ l.duty = .nothing

/-- The listener throws only after nothing is owed. -/
def Listened (r : Transaction) (l : Watching) (x : Except Err α) : Prop :=
  Listening r l ∧ ∀ e, x = .error e → l.duty = .nothing

theorem Listening.ok (h : Listening r l) {o : Op} (ho : o.unwatched = true) (x : o.Reply) :
    Listening r (protocol.next l o (.ok x)) := by
  by_cases hduty : l.duty = .error
  · cases o with
    | getConfig =>
      have hnext : protocol.next l .getConfig (.ok x) = if l.stranded then { l with duty := .nothing } else l := rfl
      rw [hnext]
      split
      · exact ⟨h.read, Or.inr rfl⟩
      · exact h
    | _ => first | exact h | cases ho
  · have hsame : protocol.next l o (.ok x) = l := next_unwatched hduty ho x
    rw [hsame]
    exact h

theorem Listening.error (h : Listening r l) {o : Op} (ho : o.isSimulation = false) (e : Err) :
    Listened r (protocol.next l o (.error e)) (.error e : Except Err α) := by
  have hthrown : l.duty.thrown l.held = .nothing := by
    rcases h.duty with hduty | hduty <;> simp [hduty, Duty.thrown]
  have hnext : protocol.next l o (.error e) = _ := next_error l o e
  rw [hnext, ho]
  simp only [Bool.false_eq_true, ↓reduceIte]
  split
  · exact ⟨⟨h.read, Or.inr rfl⟩, fun _ _ => rfl⟩
  · exact ⟨⟨h.read, Or.inr hthrown⟩, fun _ _ => hthrown⟩

/-- One call of the listener and what comes after it. -/
theorem follows_listening (h : Listening r l) {o : Op} (ho : o.unwatched = true) (hsimulates : o.isSimulation = false)
    {f : o.Reply → Prog β} (hf : ∀ l' x, Listening r l' → (f x).Follows protocol (Listened r) l') :
    ((await o).bind f).Follows protocol (Listened r) l :=
  follows_await (P := protocol) (.other o ho) (fun x _ => hf _ x (h.ok ho x)) (fun e _ => h.error hsimulates e)

theorem listened_done (h : Listening r l) (a : β) : Listened r l (.ok a) := ⟨h, nofun⟩

theorem follows_simulate (h : Listening r l) : (tryCatch ((await (.simulateTransaction r)).bind fun _ => done none)
    fun e => done (some (e.name ++ ": " ++ e.message.getD "undefined")) : Prog (Option String)).Follows protocol
      (Listened r) l := by
  refine Follows.handle (Q := fun l' _ => l' = l) ?_ (fun l' x hx => ?_) (fun l' e hx => ?_)
  · exact follows_await (P := protocol) (.other _ rfl) (fun _ _ => rfl) (fun e _ => rfl)
  · subst hx
    exact listened_done h x
  · subst hx
    exact listened_done h _

/-- A record that cannot be simulated is known before the listener throws. -/
theorem follows_doSimulateTransaction (h : Listening r l) :
    (doSimulateTransaction r).Follows protocol (Listened r) l := by
  refine follows_getChain (P := protocol) (.other _ rfl) (fun c _ => ?_) (fun e _ => h.error rfl e)
  have h' : Listening r (protocol.next l .getConfig (.ok c)) := h.ok (o := .getConfig) rfl c
  dsimp only
  split
  case isTrue hunsimulatable =>
    refine ⟨h', fun e he => ?_⟩
    have hnext : protocol.next l .getConfig (.ok c) = if l.stranded then { l with duty := .nothing } else l := rfl
    rw [hnext]
    rcases h.duty with hduty | hduty
    · have hstranded : l.stranded = true := by
        simpa [stranded, hduty, h.read, Transaction.unsimulatable] using hunsimulatable
      rw [hstranded]
      rfl
    · have hstranded : l.stranded = false := not_stranded (by simp [hduty])
      rw [hstranded]
      exact hduty
  case isFalse =>
    split
    · exact follows_listening h' rfl rfl fun l' _ hl' => follows_simulate hl'
    · exact follows_listening h' rfl rfl fun l' _ hl' => follows_simulate hl'

theorem follows_prettifyError (h : Listening r l) (e : Err) : (prettifyError r e).Follows protocol (Listened r) l := by
  unfold prettifyError
  split
  · exact listened_done h _
  · split
    · refine follows_getChain (P := protocol) (.other _ rfl) (fun c _ => ?_) (fun e _ => h.error rfl e)
      have h' : Listening r (protocol.next l .getConfig (.ok c)) := h.ok (o := .getConfig) rfl c
      refine follows_listening (o := .getChainMetadata r.chainId) h' rfl rfl fun l' metadata hl' => ?_
      exact listened_done hl' _
    · split
      · exact (follows_doSimulateTransaction h).bind (fun l' x hx => listened_done hx.1 _)
          (fun l' e hx => ⟨hx.1, fun _ _ => hx.2 e rfl⟩)
      · exact listened_done h _

/-- An error is stored over the record. -/
theorem follows_storeErrored (h : Listening r l) {errored : Transaction} (hq : errored.queueId = r.queueId)
    (hst : errored.status ≠ .sent) {f : Unit → Prog Unit} (hf : ∀ x, Unwatched (f x)) :
    ((await (.setTransaction errored)).bind f).Follows protocol Settled l := by
  have hwrites : l.Writes errored := by
    refine .computed r h.read hq ?_ (fun _ => hst) ?_
    · rcases h.duty with hduty | hduty <;> simp [hduty]
    · rcases h.duty with hduty | hduty <;> simp [hduty]
  refine follows_await (P := protocol) (.set _ hwrites) (fun x _ => ?_) (fun e _ => ?_)
  · have hstored : protocol.next l (.setTransaction errored) (.ok x) = { l with duty := .nothing } := by
      simp [protocol, next, hst]
    rw [hstored]
    exact (hf x).follows_last (fun o ho => ignores rfl ho) fun _ => rfl
  · exact (h.error (α := Unit) rfl e).2 e rfl

/-- What a listener reads. -/
theorem listening_of_read (l : Watching) (q : QueueId) (r : Transaction) :
    Listening r (protocol.next (l.attempted true) (.getTransaction q) (.ok (some r))) := by
  refine ⟨rfl, ?_⟩
  by_cases hsent : r.status = .sent <;> simp [protocol, next, attempted, hsent]

/-- The `failed` listener of a send job. -/
theorem follows_sendFailedHandler (hreq : l.request = .sendJob q n) (made : ℕ) (e : Err) :
    (sendFailedHandler q made e).Follows protocol Settled (l.attempted (made = sendAttempts)) := by
  unfold sendFailedHandler
  split
  case isFalse hmade =>
    have hnothing : (l.attempted (made = sendAttempts)).duty = .nothing := by simp [attempted, hmade]
    exact hnothing
  case isTrue hmade =>
    have hq : l.request.queueId = some q := by simp [hreq, Watcher.queueId]
    simp only [hmade, decide_true]
    refine follows_await (P := protocol) (.get q hq (by simp [attempted])) (fun t _ => ?_) (fun e _ => ?_)
    · cases t with
      | none => exact (rfl : (Duty.nothing) = .nothing)
      | some r =>
        refine (follows_prettifyError (listening_of_read l q r) e).bind (fun l' message hl' => ?_) (fun l' e hl' => ?_)
        · have herrored : (erroredTransaction r message).status ≠ .sent := by simp [erroredTransaction]
          have hid : (erroredTransaction r message).queueId = r.queueId := rfl
          exact follows_storeErrored hl'.1 hid herrored fun _ => only_enqueueTransactionWebhook (fun _ _ => rfl) _
        · exact hl'.2 e rfl
    · exact (rfl : (Duty.nothing) = .nothing)

/-- A send job's process from its start. -/
theorem follows_sendTransactionWorker (q : QueueId) (n : ℕ) : (sendTransactionWorker q n).Follows protocol Settled
    { request := .sendJob q n, held := true, duty := .resend } := by
  have hresult : (attempt (sendTransactionHandler q n)).Follows protocol
      (fun l x => ∃ x', x = .ok x' ∧ Handled q n l x') { request := .sendJob q n, held := true, duty := .resend } :=
    (follows_sendTransactionHandler q n).attempt fun l x hl => ⟨x, rfl, hl⟩
  refine hresult.bind (fun l x hx => ?_) (fun l e hx => ?_)
  · obtain ⟨x', hx', hl⟩ := hx
    cases hx'
    cases x with
    | ok u =>
      refine follows_perform (.sendCompleted q n hl.1.request hl.1.held (hl.2 rfl)) fun y hy => ?_
      cases y with
      | ok u => exact (rfl : (Duty.nothing) = .nothing)
      | error e => cases hy
    | error e =>
      refine follows_await (.sendFailed q n hl.1.request hl.1.held hl.1.duty) (fun made _ => ?_)
        (fun e he => by cases he)
      exact follows_sendFailedHandler hl.1.request made e
  · obtain ⟨x', hx', -⟩ := hx
    cases hx'

/-- What a mine attempt does with the outcome of its poll. -/
def storePolled : Option Transaction → Prog Unit
  | none => throw (Err.new "NOT_CONFIRMED_YET")
  | some mined => do
    await (.setTransaction mined)
    enqueueTransactionWebhook mined
    let _ ← getChain mined.chainId
    await (.recordMetrics (.transactionMined mined.chainId mined.from))

/-- A mine attempt. -/
structure Polling (q : QueueId) (l : Watching) : Prop where
  request : l.request = .mineJob q
  held : l.held = true
  duty : l.duty = .nothing

theorem follows_storeMined (h : Polling q l) (hread : l.read = some r) {mined : Transaction}
    (hmined : mined.queueId = r.queueId ∧ mined.status ≠ .sent) {f : Unit → Prog Unit} (hf : ∀ x, Unwatched (f x)) :
    ((await (.setTransaction mined)).bind f).Follows protocol (fun l' _ => Polling q l') l := by
  have hwrites : l.Writes mined :=
    .computed r hread hmined.1 (by simp [h.duty]) (by simp [h.duty]) (by simp [h.duty])
  refine follows_await (P := protocol) (.set _ hwrites) (fun x _ => ?_) (fun e _ => ?_)
  · have hstored : protocol.next l (.setTransaction mined) (.ok x) = l := by
      have hnext : protocol.next l (.setTransaction mined) (.ok x) = { l with duty := .nothing } := by
        simp [protocol, next, hmined.2]
      exact hnext.trans (with_nothing h.duty)
    rw [hstored]
    exact (hf x).follows_last (fun o ho => ignores h.duty ho) fun _ => h
  · have hthrew : protocol.next l (.setTransaction mined) (.error e) = l :=
      next_error_of_nothing h.duty (.setTransaction mined) e
    rw [hthrew]
    exact h

theorem follows_mineTransactionHandler (q : QueueId) : (mineTransactionHandler q).Follows protocol
    (fun l' _ => Polling q l') { request := .mineJob q, held := true } := by
  refine follows_await (P := protocol) (.get q rfl (by simp)) (fun t _ => ?_) (fun e _ => ⟨rfl, rfl, rfl⟩)
  cases t with
  | none => exact ⟨rfl, rfl, rfl⟩
  | some r =>
    set l : Watching := { request := .mineJob q, held := true, read := some r } with hl
    have hread : protocol.next { request := .mineJob q, held := true } (.getTransaction q) (.ok (some r)) = l := by
      simp [protocol, next, hl]
    have h : Polling q l := ⟨rfl, rfl, rfl⟩
    rw [hread]
    -- what the poll found is stored
    have hstore : ∀ p : Prog (Option Transaction), Prepares p (MinedOf r) →
        (p.bind storePolled).Follows protocol (fun l' _ => Polling q l') l := by
      intro p hp
      refine follows_prepared hp h.duty (fun result hresult => ?_) (fun e => h)
      cases result with
      | none => exact h
      | some mined =>
        refine follows_storeMined h rfl (hresult mined rfl) fun _ => ?_
        exact (only_enqueueTransactionWebhook (fun _ _ => rfl) _).bind fun _ =>
          (only_getChain _).bind fun _ => unwatched_await rfl
    dsimp only
    split
    · split
      · exact hstore _ (prepares_mineUserOp r)
      · exact hstore _ (prepares_mineTransaction r)
    · exact h

/-- The `failed` listener of a mine job. -/
theorem follows_mineFailedHandler (hreq : l.request = .mineJob q) (made : ℕ) :
    (mineFailedHandler q made).Follows protocol Settled (l.attempted (made = mineAttempts)) := by
  unfold mineFailedHandler
  split
  case isFalse hmade =>
    have hnothing : (l.attempted (made = mineAttempts)).duty = .nothing := by simp [attempted, hmade]
    exact hnothing
  case isTrue hmade =>
    have hq : l.request.queueId = some q := by simp [hreq, Watcher.queueId]
    simp only [hmade, decide_true]
    refine follows_await (P := protocol) (.get q hq (by simp [attempted])) (fun t _ => ?_) (fun e _ => ?_)
    · cases t with
      | none => exact (rfl : (Duty.nothing) = .nothing)
      | some r =>
        have hlistening := listening_of_read l q r
        dsimp only
        split
        · have hid : (timedOutTransaction r).queueId = r.queueId := rfl
          have htimedOut : (timedOutTransaction r).status ≠ .sent := by simp [timedOutTransaction]
          refine follows_storeErrored hlistening hid htimedOut fun _ => ?_
          refine (only_enqueueTransactionWebhook (fun _ _ => rfl) _).bind fun _ => ?_
          split
          · exact only_done _
          · exact (only_recycleNonce _ _).bind fun _ =>
              (only_defined _).bind fun _ => (unwatched_await rfl).bind fun _ => only_done _
        · rename_i hsent
          have hnothing : (protocol.next (l.attempted true) (.getTransaction q) (.ok (some r))).duty = .nothing := by
            simp [protocol, next, hsent]
          exact hnothing
    · exact (rfl : (Duty.nothing) = .nothing)

/-- A mine job's process from its start. -/
theorem follows_mineTransactionWorker (q : QueueId) : (mineTransactionWorker q).Follows protocol Settled
    { request := .mineJob q, held := true } := by
  have hresult : (attempt (mineTransactionHandler q)).Follows protocol (fun l _ => Polling q l)
      { request := .mineJob q, held := true } :=
    (follows_mineTransactionHandler q).attempt fun l x hl => hl
  refine hresult.bind (fun l x hl => ?_) (fun l e hl => hl.duty)
  cases x with
  | ok u =>
    refine follows_perform (.mineCompleted q hl.request hl.held hl.duty) fun y hy => ?_
    cases y with
    | ok u => exact (rfl : (Duty.nothing) = .nothing)
    | error e => cases hy
  | error e =>
    refine follows_await (.mineFailed q hl.request hl.held hl.duty) (fun made _ => ?_) (fun e he => by cases he)
    exact follows_mineFailedHandler hl.request made

/-- The mine job of what was stored is added; a process that holds no job ends when that throws. -/
theorem follows_addMine (hduty : l.duty = .nothing) (hheld : l.held = false) (q : QueueId) :
    (await (.mineQueueAdd q)).Follows protocol (fun l' _ => l' = l) { l with duty := .add q } := by
  refine follows_perform (P := protocol) (.addMine q rfl) fun x _ => ?_
  cases x with
  | ok u => exact with_nothing hduty
  | error e =>
    set l₁ : Watching := { l with duty := .add q } with hl₁
    have hnext : l₁.next (.mineQueueAdd q) (.error e) = l₁.threw := next_threw (o := .mineQueueAdd q) l₁ rfl rfl e
    have hthrown : l₁.threw = { l with duty := .nothing } := by simp [threw, hl₁, Duty.thrown, hheld]
    exact hnext.trans (hthrown.trans (with_nothing hduty))

theorem follows_storeSent (hduty : l.duty = .nothing) {sent : Transaction} (hst : sent.status = .sent)
    (hw : l.Writes sent) {p : Prog β} {R : Watching → Except Err β → Prop}
    (hp : p.Follows protocol R { l with duty := .add sent.queueId }) (hR : ∀ e, R l (.error e)) :
    ((await (.setTransaction sent)).bind fun _ => p).Follows protocol R l := by
  refine follows_await (P := protocol) (.set _ hw) (fun x _ => ?_) (fun e _ => ?_)
  · have hstored : protocol.next l (.setTransaction sent) (.ok x) = { l with duty := .add sent.queueId } := by
      simp [protocol, next, hst]
    rw [hstored]
    exact hp
  · have hthrew : protocol.next l (.setTransaction sent) (.error e) = l :=
      next_error_of_nothing hduty (.setTransaction sent) e
    rw [hthrew]
    exact hR e

theorem follows_syncRetryTransaction (q : QueueId) (a b : Option String) : (syncRetryTransaction q a b).Follows protocol
    (fun l' _ => l'.duty = .nothing) { request := .syncRetry q a b } := by
  refine follows_await (P := protocol) (.get q rfl (by simp)) (fun t _ => ?_) (fun e _ => rfl)
  cases t with
  | none => exact (rfl : (Duty.nothing) = .nothing)
  | some r =>
    set l : Watching := { request := .syncRetry q a b, read := some r } with hl
    have hread : protocol.next { request := .syncRetry q a b } (.getTransaction q) (.ok (some r)) = l := by
      simp [protocol, next, hl]
    rw [hread]
    dsimp only
    split
    · exact (rfl : l.duty = .nothing)
    · rename_i hrefused
      have hsent : r.status = .sent := by
        by_contra hne
        exact hrefused (Or.inl hne)
      refine follows_prepared (prepares_syncRetrySend r a b) rfl (fun sent hresult => ?_) (fun e => rfl)
      have hwrites : l.Writes sent :=
        .computed r rfl hresult.1 (fun h => by cases h) (fun h => by cases h) (fun _ h => by cases h)
      refine follows_storeSent rfl (hresult.2.trans hsent) hwrites ?_ (fun e => rfl)
      refine (follows_addMine (l := l) rfl rfl sent.queueId).bind (fun l' _ hl' => ?_) (fun l' e hl' => ?_)
      · subst hl'
        exact (only_enqueueTransactionWebhook (fun _ _ => rfl) _).follows_bind (fun o ho => ignores rfl ho)
          (fun _ => rfl) (fun e => rfl)
      · subst hl'
        exact (rfl : l.duty = .nothing)

/-- A process that stores nothing but queued records. -/
theorem follows_storeQueued (hduty : l.duty = .nothing) {queued : Transaction} (hst : queued.status ≠ .sent)
    {f : Unit → Prog β} {R : Watching → Except Err β → Prop} (hf : ∀ x, (f x).Follows protocol R l)
    (hR : ∀ e, R l (.error e)) : ((await (.setTransaction queued)).bind f).Follows protocol R l := by
  refine follows_await (P := protocol) (.set _ (.queued hst hduty)) (fun x _ => ?_) (fun e _ => ?_)
  · have hstored : protocol.next l (.setTransaction queued) (.ok x) = l := by
      have hnext : protocol.next l (.setTransaction queued) (.ok x) = { l with duty := .nothing } := by
        simp [protocol, next, hst]
      exact hnext.trans (with_nothing hduty)
    rw [hstored]
    exact hf x
  · have hthrew : protocol.next l (.setTransaction queued) (.error e) = l :=
      next_error_of_nothing hduty (.setTransaction queued) e
    rw [hthrew]
    exact hR e

theorem follows_insertTransaction (hduty : l.duty = .nothing) (tx : InsertedTransaction) (key : Option String)
    (simulate : Bool) : (insertTransaction tx key simulate).Follows protocol (fun l' _ => l' = l) l := by
  have hignores : ∀ o : Op, o.unwatched = true → protocol.Ignores l o := fun o ho => ignores hduty ho
  have hqueued : ∀ q, (insertQueued (queuedTransaction tx q) simulate).Follows protocol (fun l' _ => l' = l) l := by
    intro q
    have hstore : ((await (.setTransaction (queuedTransaction tx q))).bind fun _ =>
        (await (.sendQueueAdd (queuedTransaction tx q).queueId 0)).bind fun _ =>
          (await (.recordMetrics (.transactionQueued (queuedTransaction tx q).chainId
            (queuedTransaction tx q).from))).bind
            fun _ => (done (queuedTransaction tx q).queueId : Prog QueueId)).Follows protocol
              (fun l' _ => l' = l) l := by
      refine follows_storeQueued hduty (by simp [queuedTransaction]) (fun _ => ?_) (fun e => rfl)
      have hrest : Unwatched ((await (.sendQueueAdd (queuedTransaction tx q).queueId 0)).bind fun _ =>
          (await (.recordMetrics (.transactionQueued (queuedTransaction tx q).chainId
            (queuedTransaction tx q).from))).bind
            fun _ => (done (queuedTransaction tx q).queueId : Prog QueueId)) :=
        (unwatched_await rfl).bind fun _ => (unwatched_await rfl).bind fun _ => only_done _
      exact hrest.follows_last hignores fun _ => rfl
    unfold insertQueued
    split
    · exact (only_assertSimulates _).follows_bind hignores (fun _ => hstore) (fun e => rfl)
    · exact hstore
  refine (unwatched_await rfl).follows_bind hignores (fun q => ?_) (fun e => rfl)
  split
  · exact hqueued q
  · refine (unwatched_await rfl).follows_bind hignores (fun found => ?_) (fun e => rfl)
    split
    · exact rfl
    · exact hqueued _

/-- The rows one after the other: what throws is caught. -/
theorem follows_migrateRows {enqueue : Transaction → Prog Unit} (rows : List Row)
    (hrow : ∀ row ∈ rows, ∀ t, row.converted = .ok t →
      (Program.bind (await (.setTransaction t)) fun _ => enqueue t).Follows protocol (fun l' _ => l' = l) l) :
    (migrateRows rows enqueue).Follows protocol (fun l' _ => l' = l) l := by
  have hround : ∀ row ∈ rows, (migrateRow row enqueue).Follows protocol (fun l' _ => l' = l) l := by
    intro row hmem
    unfold migrateRow Shared.migrateRow
    refine Follows.handle (Q := fun l' _ => l' = l) ?_ (fun l' _ hl => hl) (fun l' e hl => ?_)
    rotate_left
    · obtain rfl : l' = l := hl
      exact rfl
    cases hc : row.converted with
    | error e => exact rfl
    | ok t =>
      have hkept : (Program.bind (Program.bind (await (.setTransaction t)) fun _ => enqueue t)
        fun _ => done [row.id]).Follows
          protocol (fun l' _ => l' = l) l := (hrow row hmem t hc).bind (fun l' _ hl => hl) (fun l' e hl => hl)
      rw [bind_bind] at hkept
      exact hkept
  exact (follows_collect hround).bind (fun l' _ hl => hl) (fun l' e hl => hl)

theorem status_of_row {rows : List Row} {status : Status} (h : rows.all (·.hasStatus status) = true) {row : Row}
    (hrow : row ∈ rows) {t : Transaction} (ht : row.converted = .ok t) : t.status = status := by
  have hrow := List.all_eq_true.mp h row hrow
  unfold Row.hasStatus at hrow
  rw [ht] at hrow
  exact eq_of_beq hrow

theorem follows_migrateSentTransactions (rows : List Row) (h : rows.all (·.hasStatus .sent) = true) :
    (migrateSentTransactions rows).Follows protocol (fun l' _ => l'.duty = .nothing)
    { request := .migrateSent rows } := by
  set l : Watching := { request := .migrateSent rows } with hl
  have hrows : (migrateSentTransactions rows).Follows protocol (fun l' _ => l' = l) l := by
    refine follows_migrateRows rows fun row hrow t ht => ?_
    have hwrites : l.Writes t := .row rows row rfl hrow ht rfl
    exact follows_storeSent rfl (status_of_row h hrow ht) hwrites (follows_addMine rfl rfl t.queueId) (fun e => rfl)
  exact hrows.mono fun l' _ hl' => hl' ▸ rfl

theorem follows_migrateQueuedTransactions (hduty : l.duty = .nothing) (rows : List Row)
    (h : rows.all (·.hasStatus .queued) = true) :
    (migrateQueuedTransactions rows).Follows protocol (fun l' _ => l' = l) l := by
  refine follows_migrateRows rows fun row hrow t ht => ?_
  have hqueued := status_of_row h hrow ht
  refine follows_storeQueued hduty (by simp [hqueued]) (fun _ => ?_) (fun e => rfl)
  exact (unwatched_await rfl).follows_last (fun o ho => ignores hduty ho) fun _ => rfl

/-- What a request returns does not matter. -/
theorem follows_discard {p : Prog α} (hp : p.Follows protocol (fun l' _ => l'.duty = .nothing) l) :
    (discard p).Follows protocol Settled l := hp.bind (fun _ _ hl => hl) (fun _ _ hl => hl)

end Watching

open Watching

def Watcher.init : Watcher → Watching
  | .sendJob q n => { request := .sendJob q n, held := true, duty := .resend }
  | .mineJob q => { request := .mineJob q, held := true }
  | k => { request := k }

def watchContract : Contract watchers where
  toProtocol := Watching.protocol
  init := Watcher.init
  ends := Settled
  answers := possible_of_effect
  starts w k p w' h := by
    cases k with
    | insertTransaction tx key simulate =>
      cases Option.some.inj h
      exact Watching.follows_discard ((Watching.follows_insertTransaction rfl tx key simulate).mono
        fun l' _ hl => hl ▸ rfl)
    | sendJob q n =>
      obtain ⟨j, -, hp⟩ := Option.map_eq_some_iff.mp h
      cases hp
      exact Watching.follows_sendTransactionWorker q n
    | mineJob q =>
      obtain ⟨j, -, hp⟩ := Option.map_eq_some_iff.mp h
      cases hp
      exact Watching.follows_mineTransactionWorker q
    | syncRetry q a b =>
      cases Option.some.inj h
      exact Watching.follows_discard (Watching.follows_syncRetryTransaction q a b)
    | migrateSent rows =>
      simp only [watchers] at h
      split at h
      · cases Option.some.inj h
        exact Watching.follows_discard (Watching.follows_migrateSentTransactions rows ‹_›)
      · cases h
    | migrateQueued rows =>
      simp only [watchers] at h
      split at h
      · cases Option.some.inj h
        exact Watching.follows_discard ((Watching.follows_migrateQueuedTransactions rfl rows ‹_›).mono
          fun l' _ hl => hl ▸ rfl)
      · cases h
    | chainExecutes c hash =>
      cases Option.some.inj h
      exact (unwatched_await rfl).follows_last (fun o ho => ignores rfl ho) fun _ => rfl
    | chainConsumes k m =>
      cases Option.some.inj h
      exact (unwatched_await rfl).follows_last (fun o ho => ignores rfl ho) fun _ => rfl

end
end Engine
