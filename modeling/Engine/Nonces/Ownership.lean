import Engine.Concurrent.Ownership
import Engine.Nonces.Acquire
import Engine.Source.CancelRecycledNoncesWorker
import Engine.Source.SendTransactionWorker

/-! Send attempts, cancellation runs and counter syncs over shared wallets: every nonce
that a wallet in use has handed out is in exactly one place. -/
namespace Engine
open Concurrent Program Function

inductive NonceUser
  /-- `_sendTransaction` of a transaction. -/
  | sendAttempt (queued : Transaction)
  | cancelRecycledNonces
  | syncLatestNonceFromOnchainIfHigher (k : Wallet)
deriving DecidableEq

abbrev nonceUsers : Machine Calls Unit where
  World := World
  Kind := NonceUser
  effect := World.effect
  start w
    | .sendAttempt queued => some ((sendTransaction queued).bind fun _ => done (), w)
    | .cancelRecycledNonces => some (cancelRecycledNoncesHandler, w)
    | .syncLatestNonceFromOnchainIfHigher k =>
      some ((syncLatestNonceFromOnchainIfHigher k).bind fun _ => done (), w)

def Op.isRedis : Op → Bool
  | .zpopminRecycled _ | .zaddRecycled _ _ | .keysRecycled | .multiZrangeDelRecycled _ => true
  | .incrNonce _ | .setNonce _ _ | .evalNonceIfHigher _ _ => true
  | .saddSent _ _ | .sremSent _ _ | .zaddNonceMap _ _ _ => true
  | .sismemberSent _ _ | .keysSent | .getNonce _ => true
  | .getTransaction _ | .setTransaction _ | .existsTransaction _ | .getLatestBlock _ => true
  | _ => false

/-- The calls that neither take nor release a nonce. -/
def Op.keepsNonces : Op → Bool
  | .getConfig | .getAccount _ _ | .toSerializableTransaction _ => true
  | .ethGetTransactionCount _ | .ethBlockNumber _ | .getLatestBlock _ => true
  | .keysRecycled | .evalNonceIfHigher _ _ | .saddSent _ _ | .zaddNonceMap _ _ _ => true
  | _ => false

/-- The nonces a process took: what it still holds, the one in use first, and what
became of the others that it did not give back. -/
structure Holding where
  /-- A run of the cancel handler, not a send attempt. -/
  cancelling : Bool
  held : List (Wallet × ℤ) := []
  finished : List (Wallet × ℤ) := []
  /-- `INCR` replied 1 for this wallet. -/
  unset : Option Wallet := none
  /-- A Redis command threw. -/
  broken : Bool := false
deriving DecidableEq

namespace Holding

def take (l : Holding) (k : Wallet) (n : ℤ) : Holding :=
  { l with held := (k, n) :: l.held, unset := none }

/-- The nonce in use is given back. -/
def release (l : Holding) : Holding := { l with held := l.held.tail }

/-- The nonce in use is used up. -/
def finish (l : Holding) : Holding :=
  { l with held := l.held.tail, finished := l.held.head?.toList ++ l.finished }

/-- The error says that the nonce in use is used already. -/
def reportsUsed (l : Holding) (e : Err) : Bool :=
  isNonceAlreadyUsedError e || (!l.cancelling && isReplacementGasFeeTooLow e)

def next (l : Holding) : (o : Op) → Except Err o.Reply → Holding
  | .zpopminRecycled k, .ok (some n) => l.take k n
  | .incrNonce k, .ok n => if n = 1 ∧ l.unset ≠ some k then { l with unset := some k } else l.take k n
  | .multiZrangeDelRecycled k, .ok (some ns) => { l with held := ns.map (k, ·) ++ l.held }
  | .zaddRecycled _ _, .ok _ => l.release
  | .accountSendTransaction _ _ _, .ok _ => l.finish
  | o, .error e =>
    if o.isRedis then { l with broken := true } else if l.reportsUsed e then l.finish else l
  | _, .ok _ => l

/-- A nonce is taken by who holds none, and only the nonce in use is given back or broadcast. -/
inductive Allowed (l : Holding) : Op → Prop
  | keep (o : Op) (h : o.keepsNonces = true) : Allowed l o
  | pop (k : Wallet) (h : l.held = []) : Allowed l (.zpopminRecycled k)
  | incr (k : Wallet) (h : l.held = []) : Allowed l (.incrNonce k)
  | set (k : Wallet) (v : ℤ) (h : l.unset = some k) : Allowed l (.setNonce k v)
  | drain (k : Wallet) (h : l.held = []) : Allowed l (.multiZrangeDelRecycled k)
  | recycle (k : Wallet) (n : ℤ) (h : l.held.head? = some (k, n)) : Allowed l (.zaddRecycled k n)
  | broadcast (c : Caller) (a : Address) (tx : SerializableTransaction)
      (h : l.held.head? = some (⟨tx.chainId, a⟩, tx.nonce)) : Allowed l (.accountSendTransaction c a tx)

def protocol : Protocol Calls where
  Local := Holding
  next := next
  allowed := Allowed
  possible := Op.possible

/-- Nothing is held at the end, unless Redis failed. -/
def Ends (l : Holding) : Prop := l.broken = true ∨ l.held = []

variable {l : Holding} {k : Wallet} {n : ℤ} {rest : List (Wallet × ℤ)} {β : Type}
  {R : Holding → Except Err β → Prop}

theorem next_keep {o : Op} (ho : o.keepsNonces = true) (r : o.Reply) : l.next o (.ok r) = l := by
  cases o <;> first | rfl | cases ho

theorem next_error (o : Op) (e : Err) : l.next o (.error e) =
    if o.isRedis then { l with broken := true } else if l.reportsUsed e then l.finish else l := by
  cases o <;> rfl

theorem finish_of_nil (h : l.held = []) : l.finish = l := by
  obtain ⟨c, held, finished, unset, broken⟩ := l
  obtain rfl : held = [] := h
  rfl

theorem ends_error (h : l.held = []) (o : Op) (e : Err) : (l.next o (.error e)).Ends := by
  rw [next_error, finish_of_nil h]
  split_ifs
  · exact Or.inl rfl
  · exact Or.inr h
  · exact Or.inr h

theorem ends_redis {o : Op} (ho : o.isRedis = true) (e : Err) : (l.next o (.error e)).Ends := by
  rw [next_error, if_pos ho]
  exact Or.inl rfl

/-- A process that holds nothing is not affected by calls that take nothing, also when they throw. -/
theorem ignores (h : l.held = []) {o : Op} (ho : o.keepsNonces = true) (hr : o.isRedis = false) :
    protocol.Ignores l o := by
  refine ⟨.keep o ho, fun r _ => ?_⟩
  cases r with
  | ok r => exact next_keep ho r
  | error e =>
    refine (next_error o e).trans ?_
    rw [finish_of_nil h, hr]
    simp

/-- One call of a process that holds nothing. -/
theorem follows_keep (h : l.held = []) {o : Op} (ho : o.keepsNonces = true) {f : o.Reply → Prog β}
    (hok : ∀ r, o.possible (.ok r) → (f r).Follows protocol R l)
    (herr : ∀ l e, l.Ends → R l (.error e)) : ((await o).bind f).Follows protocol R l := by
  refine follows_await (.keep o ho) (fun r hr => ?_) (fun e _ => herr _ e (ends_error h o e))
  have hn : protocol.next l o (.ok r) = l := next_keep ho r
  rw [hn]
  exact hok r hr

theorem follows_sync (h : l.held = []) (k : Wallet) :
    (syncLatestNonceFromOnchainIfHigher k).Follows protocol (fun l _ => l.Ends) l := by
  refine follows_getChain (.keep _ rfl) (fun _ _ => ?_) (fun e _ => ends_error h _ e)
  refine follows_keep h rfl (fun count _ => ?_) (fun l e hl => hl)
  refine follows_perform (.keep _ rfl) fun r _ => ?_
  cases r with
  | ok r => exact Or.inr h
  | error e => exact ends_error h _ e

theorem follows_incrementNonce (h : l.held = []) (hu : l.unset = none) :
    (incrementNonce k).Follows protocol
      (fun l' r => (∀ n, r = .ok n → l' = l.take k n) ∧ ∀ e, r = .error e → l'.Ends) l := by
  refine follows_await (.incr k h) (fun n _ => ?_) (fun e _ => ⟨by simp, fun _ _ => ends_error h _ e⟩)
  by_cases hn : n = 1
  · simp only [hn, protocol, next, hu, ↓reduceIte, true_and, ne_eq, reduceCtorEq, not_false_eq_true]
    set l₁ : Holding := { l with unset := some k } with hl₁
    have h₁ : l₁.held = [] := h
    refine Follows.bind (Q := fun (l' : Holding) r => (r = .ok () → l' = l₁) ∧ ∀ e, r = .error e → l'.Ends) ?_
      (fun l' _ hl => ?_) (fun l' e hl => ⟨by simp, fun _ _ => hl.2 e rfl⟩)
    · refine follows_getChain (.keep _ rfl) (fun _ _ => ?_) (fun e _ => ⟨by simp, fun _ _ => ends_error h₁ _ e⟩)
      refine follows_keep h₁ rfl (fun count _ => ?_) (fun l e hl => ⟨by simp, fun _ _ => hl⟩)
      refine follows_perform (.set k _ rfl) fun r _ => ?_
      cases r with
      | ok r => exact ⟨fun _ => rfl, by simp⟩
      | error e => exact ⟨by simp, fun _ _ => ends_error h₁ _ e⟩
    · obtain rfl := hl.1 rfl
      refine follows_perform (.incr k h₁) fun r _ => ?_
      cases r with
      | ok m => exact ⟨fun m' hm => by cases hm; simp [next, l₁, take], by simp⟩
      | error e => exact ⟨by simp, fun _ _ => ends_error h₁ _ e⟩
  · simp only [hn, protocol, next, ↓reduceIte, false_and]
    exact ⟨fun m hm => by cases hm; rfl, by simp⟩

theorem follows_acquireNonce (h : l.held = []) (hu : l.unset = none) (q : QueueId) :
    (acquireNonce q k).Follows protocol
      (fun l' r => (∀ a, r = .ok a → l' = l.take k a.nonce) ∧ ∀ e, r = .error e → l'.Ends) l := by
  have hmap : ∀ n, ((updateNonceMap k n q).bind fun _ => done (⟨n, false⟩ : AcquiredNonce)).Follows protocol
      (fun l' r => (∀ a, r = .ok a → l' = l.take k a.nonce) ∧ ∀ e, r = .error e → l'.Ends) (l.take k n) := by
    intro n
    refine follows_await (.keep _ rfl) (fun _ _ => ⟨fun a ha => by cases ha; rfl, by simp⟩) (fun e _ => ?_)
    exact ⟨by simp, fun _ _ => ends_redis rfl e⟩
  refine follows_await (.pop k h) (fun r _ => ?_) (fun e _ => ⟨by simp, fun _ _ => ends_error h _ e⟩)
  cases r with
  | some n => exact hmap n
  | none =>
    refine (follows_incrementNonce h hu).bind (fun l' n hl => ?_) (fun l' e hl => ⟨by simp, fun _ _ => hl.2 e rfl⟩)
    obtain rfl := hl.1 n rfl
    exact hmap n

/-- What an error of the call in progress does to the nonce in use. -/
theorem next_error_held (h : l.held = (k, n) :: rest) {o : Op} (ho : o.isRedis = false) (e : Err) :
    (l.next o (.error e)).held = if l.reportsUsed e then rest else (k, n) :: rest := by
  rw [next_error, if_neg (by simp [ho])]
  split_ifs with hu
  · simp [finish, h]
  · exact h

theorem next_cancelling (o : Op) (r : Except Err o.Reply) : (l.next o r).cancelling = l.cancelling := by
  unfold next
  split <;> first | rfl | (split_ifs <;> rfl)

/-- The nonce in use after a call that threw `e`. -/
structure Threw (k : Wallet) (n : ℤ) (rest : List (Wallet × ℤ)) (cancelling : Bool) (e : Err)
    (l : Holding) : Prop where
  cancelling : l.cancelling = cancelling
  held : l.held = if l.reportsUsed e then rest else (k, n) :: rest

theorem threw (h : l.held = (k, n) :: rest) (o : Op) (ho : o.isRedis = false) (e : Err) :
    Threw k n rest l.cancelling e (l.next o (.error e)) := by
  refine ⟨next_cancelling o _, ?_⟩
  have hr : (l.next o (.error e)).reportsUsed e = l.reportsUsed e := by
    simp only [reportsUsed, next_cancelling]
  rw [hr]
  exact next_error_held h ho e

/-- One call of a process that holds a nonce, before its broadcast. -/
theorem follows_inUse (h : l.held = (k, n) :: rest) {o : Op} (ho : o.keepsNonces = true)
    (hr : o.isRedis = false) {f : o.Reply → Prog β}
    (hok : ∀ r, o.possible (.ok r) → (f r).Follows protocol R l)
    (herr : ∀ l' e, Threw k n rest l.cancelling e l' → R l' (.error e)) :
    ((await o).bind f).Follows protocol R l := by
  refine follows_await (.keep o ho) (fun r hr => ?_) (fun e _ => herr _ e (threw h o hr e))
  have hn : protocol.next l o (.ok r) = l := next_keep ho r
  rw [hn]
  exact hok r hr

/-- The broadcast itself. -/
theorem follows_accountSendTransaction (h : l.held = (k, n) :: rest) (c : Caller)
    {a : Address} {tx : SerializableTransaction} (hk : k = ⟨tx.chainId, a⟩) (hn : n = tx.nonce) :
    (await (.accountSendTransaction c a tx)).Follows protocol
      (fun l' r => (∀ hash, r = .ok hash → l' = l.finish) ∧
        ∀ e, r = .error e → Threw k n rest l.cancelling e l') l := by
  subst hk hn
  refine follows_perform (.broadcast c a tx (by simp [h])) fun r _ => ?_
  cases r with
  | ok hash => exact ⟨fun _ _ => rfl, by simp⟩
  | error e =>
    refine ⟨by simp, fun e' he => ?_⟩
    cases he
    exact threw h (.accountSendTransaction c a tx) rfl e

/-- Giving the nonce in use back. -/
theorem follows_recycleNonce (h : l.held = (k, n) :: rest) :
    (recycleNonce k (some n)).Follows protocol
      (fun l' r => (r = .ok () → l' = l.release) ∧ ∀ e, r = .error e → l'.Ends) l := by
  refine follows_perform (.recycle k n (by simp [h])) fun r _ => ?_
  cases r with
  | ok r => exact ⟨fun _ => rfl, by simp⟩
  | error e => exact ⟨by simp, fun _ _ => ends_redis rfl e⟩

theorem follows_broadcast {queued : Transaction} {tx : SerializableTransaction}
    (h : l.held = [(queued.wallet, tx.nonce)]) (hc : l.cancelling = false) (hchain : tx.chainId = queued.chainId) :
    (broadcast queued tx).Follows protocol
      (fun l' r => (∀ hash, r = .ok hash → l'.held = []) ∧ ∀ e, r = .error e → l'.Ends) l := by
  refine Follows.handle (Q := fun (l' : Holding) r => (∀ hash, r = .ok hash → l' = l.finish) ∧
    ∀ e, r = .error e → Threw queued.wallet tx.nonce [] l.cancelling e l') ?_
    (fun l' hash hl => ⟨fun _ _ => by rw [hl.1 hash rfl]; simp [finish, h], by simp⟩) (fun l' e hl => ?_)
  · refine follows_inUse h rfl rfl (fun _ _ => ?_) (fun l' e hl => ⟨by simp, fun _ he => by cases he; exact hl⟩)
    exact follows_accountSendTransaction h _ (by rw [hchain]; rfl) rfl
  · obtain ⟨hc', hheld⟩ := hl.2 e rfl
    have hused : l'.reportsUsed e = (isNonceAlreadyUsedError e || isReplacementGasFeeTooLow e) := by
      simp [reportsUsed, hc', hc]
    rw [hused] at hheld
    split_ifs at hheld ⊢ with hu
    · exact (follows_sync hheld _).bind (fun l _ hl => ⟨by simp, fun _ _ => hl⟩)
        (fun l e hl => ⟨by simp, fun _ _ => hl⟩)
    · refine (follows_recycleNonce hheld).bind (fun l _ hl => ⟨by simp, fun _ _ => ?_⟩)
        (fun l e hl => ⟨by simp, fun _ _ => hl.2 e rfl⟩)
      obtain rfl := hl.1 rfl
      exact Or.inr (by simp [release, hheld])

theorem follows_getBlockNumberish (h : l.held = []) (chainId : ℕ) :
    (getBlockNumberish chainId).Follows protocol (fun l' r => l'.Ends ∧ (∀ b, r = .ok b → l'.held = [])) l := by
  refine follows_getChain (.keep _ rfl) (fun _ _ => ?_) (fun e _ => ⟨ends_error h _ e, by simp⟩)
  refine Follows.handle (Q := fun l' _ => l' = l) ?_ (fun l' b hl => hl ▸ ⟨Or.inr h, fun _ _ => h⟩) (fun l' e hl => ?_)
  · exact follows_perform (.keep _ rfl) (ignores h rfl rfl).next
  · subst hl
    refine follows_keep h rfl (fun cached _ => ?_) (fun l e hl => ⟨hl, by simp⟩)
    cases cached with
    | some b => exact ⟨Or.inr h, fun _ _ => h⟩
    | none => exact ⟨Or.inr h, by simp⟩

theorem follows_sendTransaction (h : l.held = []) (hu : l.unset = none) (hc : l.cancelling = false)
    (queued : Transaction) : (sendTransaction queued).Follows protocol (fun l' _ => l'.Ends) l := by
  have hignores : ∀ o : Op, (o.keepsNonces = true ∧ o.isRedis = false) → protocol.Ignores l o :=
    fun o ho => ignores h ho.1 ho.2
  unfold sendTransaction assert
  split
  case isFalse => exact Or.inr h
  case isTrue =>
    refine (follows_getPopulatedOrErrored ⟨rfl, rfl⟩ (fun _ => ⟨rfl, rfl⟩) queued).only_bind hignores
      (fun _ _ hp => hp) (fun x hx => ?_) (fun e _ => Or.inr h)
    obtain ⟨x', hx', hpop⟩ := hx
    cases hx'
    cases x with
    | error errored => exact Or.inr h
    | ok populated =>
      refine (follows_acquireNonce h hu queued.queueId).bind (fun l' acquired hl => ?_) (fun l' e hl => hl.2 e rfl)
      obtain rfl := hl.1 acquired rfl
      have hheld : (l.take queued.wallet acquired.nonce).held =
          [(queued.wallet, acquired.nonce)] := by simp [take, h]
      have hbroadcast : (broadcast queued { populated with nonce := acquired.nonce }).Follows protocol _ _ :=
        follows_broadcast hheld hc hpop.1
      refine hbroadcast.bind (fun l' hash hl => ?_) (fun l' e hl => hl.2 e rfl)
      have hfree := hl.1 hash rfl
      refine follows_keep hfree rfl (fun _ _ => ?_) (fun l e hl => hl)
      exact (follows_getBlockNumberish hfree _).bind (fun l b hl => hl.1) (fun l e hl => hl.1)

theorem follows_sendCancellationTransaction (h : l.held = (k, n) :: rest) :
    (sendCancellationTransaction k (some n)).Follows protocol
      (fun l' r => (∀ hash, r = .ok hash → l' = l.finish) ∧
        ∀ e, r = .error e → Threw k n rest l.cancelling e l') l := by
  have herr : ∀ (l' : Holding) (e : Err), Threw k n rest l.cancelling e l' →
      (∀ hash : TransactionHash, Except.error e = .ok hash → l' = l.finish) ∧
        ∀ e', (Except.error e : Except Err TransactionHash) = .error e' → Threw k n rest l.cancelling e' l' :=
    fun l' e hl => ⟨by simp, fun _ he => by cases he; exact hl⟩
  refine follows_getChain (.keep _ rfl) (fun _ _ => ?_) (fun e _ => herr _ e (threw h .getConfig rfl e))
  refine follows_inUse h rfl rfl (fun populated hp => ?_) herr
  obtain ⟨p, rfl⟩ := hp
  refine follows_inUse h rfl rfl (fun _ _ => ?_) herr
  exact follows_accountSendTransaction h _ rfl rfl

theorem follows_cancelNonce (h : l.held = (k, n) :: rest) (hc : l.cancelling = true) :
    (cancelNonce k n).Follows protocol (fun l' r => (r = .ok () → l'.held = rest ∧ l'.cancelling = true) ∧
      ∀ e, r = .error e → l'.Ends) l := by
  refine Follows.handle (Q := fun (l' : Holding) r => (r = .ok () → l' = l.finish) ∧
    ∀ e, r = .error e → Threw k n rest l.cancelling e l') ?_ (fun l' _ hl => ⟨fun _ => ?_, by simp⟩) (fun l' e hl => ?_)
  · refine (follows_sendCancellationTransaction h).bind (fun l' hash hl => ⟨fun _ => hl.1 hash rfl, by simp⟩)
      (fun l' e hl => ⟨by simp, fun _ he => by cases he; exact hl.2 e rfl⟩)
  · rw [hl.1 rfl]
    exact ⟨by simp [finish, h], hc⟩
  · obtain ⟨hc', hheld⟩ := hl.2 e rfl
    have hused : l'.reportsUsed e = isNonceAlreadyUsedError e := by
      simp [reportsUsed, hc', hc]
    rw [hused] at hheld
    split_ifs at hheld ⊢ with hu
    · exact ⟨fun _ => ⟨hheld, hc'.trans hc⟩, by simp⟩
    · refine (follows_recycleNonce hheld).mono fun l r hl => ⟨fun hr => ?_, hl.2⟩
      obtain rfl := hl.1 hr
      exact ⟨by simp [release, hheld], hc'.trans hc⟩

theorem follows_getAndDeleteRecycledNonces (h : l.held = []) (hc : l.cancelling = true) (k : Wallet) :
    (getAndDeleteRecycledNonces k).Follows protocol
      (fun l' r => (∀ ns, r = .ok ns → l'.held = ns.map (k, ·) ∧ l'.cancelling = true) ∧
        ∀ e, r = .error e → l'.Ends) l := by
  refine follows_await (.drain k h) (fun r _ => ?_) (fun e _ => ⟨by simp, fun _ _ => ends_redis rfl e⟩)
  cases r with
  | none => exact ⟨by simp, fun _ _ => Or.inr h⟩
  | some ns =>
    refine ⟨fun ns' he => ?_, by simp⟩
    cases he
    exact ⟨by simp [protocol, next, h], hc⟩

theorem follows_cancelRecycledNoncesHandler (h : l.held = []) (hc : l.cancelling = true) :
    cancelRecycledNoncesHandler.Follows protocol (fun l' _ => l'.Ends) l := by
  refine follows_keep h rfl (fun keys _ => ?_) (fun l e hl => hl)
  refine follows_forEach (S := fun _ (l : Holding) => l.held = [] ∧ l.cancelling = true) ⟨h, hc⟩ (fun k ks l hl => ?_)
    (fun l hl => Or.inr hl.1)
  refine (follows_getAndDeleteRecycledNonces hl.1 hl.2 k).bind (fun l ns hl => ?_) (fun l e hl => hl.2 e rfl)
  refine follows_forEach (S := fun ns (l : Holding) => l.held = ns.map (k, ·) ∧ l.cancelling = true) (hl.1 ns rfl)
    (fun n ns l hl => ?_) (fun l hl => hl)
  refine (follows_cancelNonce hl.1 hl.2).mono fun l r hl => ?_
  cases r with
  | ok r => exact hl.1 rfl
  | error e => exact hl.2 e rfl

end Holding

/-- The cancel handler's runs cancel; who holds a nonce at the end lost Redis. -/
def nonceContract : Contract nonceUsers where
  toProtocol := Holding.protocol
  init
    | .cancelRecycledNonces => { cancelling := true }
    | _ => { cancelling := false }
  ends l _ := l.Ends
  answers := possible_of_effect
  starts w k p w' h := by
    cases k with
    | sendAttempt queued =>
      cases Option.some.inj h
      exact (Holding.follows_sendTransaction rfl rfl rfl queued).bind (fun l _ hl => hl) (fun l e hl => hl)
    | cancelRecycledNonces =>
      cases Option.some.inj h
      exact Holding.follows_cancelRecycledNoncesHandler rfl rfl
    | syncLatestNonceFromOnchainIfHigher k =>
      cases Option.some.inj h
      exact (Holding.follows_sync rfl k).bind (fun l _ hl => hl) (fun l e hl => hl)

end Engine
