import Engine.Nonces.Places
import Engine.Source.Calls

/-! Send attempts that fail anywhere: a nonce that an attempt took is given back or used, as
long as no call throws where the attempt has nothing to catch it. -/
namespace Engine
open Concurrent Program Function

/-- Any number of `_sendTransaction` calls, retries among them. -/
abbrev senders : Machine Calls Unit where
  World := World
  Kind := Transaction
  effect := World.effect
  start w queued := some ((sendTransaction queued).bind fun _ => done (), w)

/-- The calls of an attempt that has no nonce. -/
def Op.asks : Op → Bool
  | .getConfig | .toSerializableTransaction _ | .ethGetTransactionCount _ => true
  | .evalNonceIfHigher _ _ | .saddSent _ _ | .ethBlockNumber _ | .getLatestBlock _ => true
  | _ => false

/-- What a send attempt has in hand. -/
inductive Attempt
  | start
  /-- `INCR` replied 1, and the counter was not reset since. -/
  | unset (k : Wallet)
  | synced (k : Wallet)
  /-- The nonce was taken. -/
  | drew (k : Wallet) (n : ℤ)
  /-- And noted in the nonce map; what throws now is caught. -/
  | trying (k : Wallet) (n : ℤ)
  /-- It is to be given back. -/
  | failed (k : Wallet) (n : ℤ)
  | ended
deriving DecidableEq

namespace Attempt

/-- What the `catch` around the broadcast makes of an error. -/
def caught (k : Wallet) (n : ℤ) (e : Err) : Attempt := if saysUsed e then .ended else .failed k n

/-- Before a nonce is taken. -/
def taken : (o : Op) → Except Err o.Reply → Attempt
  | .zpopminRecycled k, .ok (some n) => .drew k n
  | .incrNonce k, .ok n => if n = 1 then .unset k else .drew k n
  | _, _ => .start

/-- While the counter is reset. -/
def reset (k : Wallet) : (o : Op) → Except Err o.Reply → Attempt
  | .setNonce _ _, .ok _ => .synced k
  | _, .ok _ => .unset k
  | _, .error _ => .ended

def takenAgain (k : Wallet) : (o : Op) → Except Err o.Reply → Attempt
  | .incrNonce _, .ok n => .drew k n
  | _, _ => .ended

/-- In the `try` block. -/
def tried (k : Wallet) (n : ℤ) : (o : Op) → Except Err o.Reply → Attempt
  | .accountSendTransaction _ _ _, .ok _ => .ended
  | _, .ok _ => .trying k n
  | _, .error e => caught k n e

def next (l : Attempt) (o : Op) (r : Except Err o.Reply) : Attempt :=
  match l with
  | .start => taken o r
  | .unset k => reset k o r
  | .synced k => takenAgain k o r
  | .drew k n => if r.isOk then .trying k n else .ended
  | .trying k n => tried k n o r
  | .failed _ _ => .ended
  | .ended => .ended

inductive Allowed : Attempt → Op → Prop
  | prepare (o : Op) (h : o.asks = true) : Allowed .start o
  | pop (k : Wallet) : Allowed .start (.zpopminRecycled k)
  | incr (k : Wallet) : Allowed .start (.incrNonce k)
  | count (k : Wallet) (o : Op) (h : o.asks = true) : Allowed (.unset k) o
  | set (k : Wallet) (v : ℤ) : Allowed (.unset k) (.setNonce k v)
  | incrAgain (k : Wallet) : Allowed (.synced k) (.incrNonce k)
  | map (k : Wallet) (n : ℤ) (q : QueueId) : Allowed (.drew k n) (.zaddNonceMap k n q)
  | account (k : Wallet) (n : ℤ) (c : ℕ) (a : Address) : Allowed (.trying k n) (.getAccount c a)
  | broadcast (c : Caller) (a : Address) (tx : SerializableTransaction) :
      Allowed (.trying ⟨tx.chainId, a⟩ tx.nonce) (.accountSendTransaction c a tx)
  | recycle (k : Wallet) (n : ℤ) : Allowed (.failed k n) (.zaddRecycled k n)
  | finish (o : Op) (h : o.asks = true) : Allowed .ended o

def protocol : Protocol Calls where
  Local := Attempt
  next := next
  allowed := Allowed
  possible := Op.possible

variable {k : Wallet} {n : ℤ} {l : Attempt}

theorem next_trying_error (o : Op) (e : Err) : protocol.next (.trying k n) o (.error e) = caught k n e := by
  cases o <;> rfl

theorem asks_start {o : Op} (ho : o.asks = true) : protocol.Ignores .start o := by
  refine ⟨.prepare o ho, fun r _ => ?_⟩
  cases o <;> first | rfl | cases ho

theorem asks_ended {o : Op} (ho : o.asks = true) : protocol.Ignores .ended o := ⟨.finish o ho, fun _ _ => rfl⟩

instance : HasChainCalls fun o : Op => o.asks = true where
  asksChain o ho := by cases o <;> first | rfl | cases ho

/-- Reset the counter: it is reset, or a call threw. -/
theorem follows_sync : (syncLatestNonceFromOnchain k).Follows protocol
    (fun l r => (r = .ok () → l = .synced k) ∧ ∀ e, r = .error e → l = .ended) (.unset k) := by
  refine follows_getChain (.count k _ rfl) (fun _ _ => ?_) (fun e _ => ⟨by simp, fun _ _ => rfl⟩)
  refine follows_await (.count k _ rfl) (fun c _ => ?_) (fun e _ => ⟨by simp, fun _ _ => rfl⟩)
  refine follows_perform (.set k _) fun r _ => ?_
  cases r with
  | ok u => exact ⟨fun _ => rfl, by simp⟩
  | error e => exact ⟨by simp, fun _ _ => rfl⟩

/-- An attempt that throws has nothing left in hand. -/
def Empty (l : Attempt) : Prop := l = .start ∨ l = .ended

theorem follows_incrementNonce : (incrementNonce k).Follows protocol
    (fun l r => (∀ n, r = .ok n → l = .drew k n) ∧ ∀ e, r = .error e → l.Empty) .start := by
  refine follows_await (.incr k) (fun n _ => ?_) (fun e _ => ⟨by simp, fun _ _ => Or.inl rfl⟩)
  by_cases hn : n = 1
  · simp only [hn, protocol, next, taken, ↓reduceIte]
    refine follows_sync.bind (fun l u hl => ?_) (fun l e hl => ⟨by simp, fun _ _ => Or.inr (hl.2 e rfl)⟩)
    obtain rfl := hl.1 rfl
    refine follows_perform (.incrAgain k) fun r _ => ?_
    cases r with
    | ok m => exact ⟨fun m' hm => by cases hm; rfl, by simp⟩
    | error e => exact ⟨by simp, fun _ _ => Or.inr rfl⟩
  · simp only [hn, protocol, next, taken, ↓reduceIte]
    exact ⟨fun m hm => by cases hm; rfl, by simp⟩

theorem follows_acquireNonce (q : QueueId) : (acquireNonce q k).Follows protocol
    (fun l r => (∀ a, r = .ok a → l = .trying k a.nonce) ∧ ∀ e, r = .error e → l.Empty) .start := by
  have hmap : ∀ n, ((updateNonceMap k n q).bind fun _ => done (⟨n, false⟩ : AcquiredNonce)).Follows protocol
      (fun l r => (∀ a, r = .ok a → l = .trying k a.nonce) ∧ ∀ e, r = .error e → l.Empty) (.drew k n) := by
    intro n
    refine follows_await (.map k n q) (fun _ _ => ⟨fun a ha => by cases ha; rfl, by simp⟩) (fun e _ => ?_)
    exact ⟨by simp, fun _ _ => Or.inr rfl⟩
  refine follows_await (.pop k) (fun r _ => ?_) (fun e _ => ⟨by simp, fun _ _ => Or.inl rfl⟩)
  cases r with
  | some n => exact hmap n
  | none =>
    refine follows_incrementNonce.bind (fun l n hl => ?_) (fun l e hl => ⟨by simp, fun _ _ => hl.2 e rfl⟩)
    obtain rfl := hl.1 n rfl
    exact hmap n

theorem follows_broadcast {queued : Transaction} {tx : SerializableTransaction} (hchain : tx.chainId = queued.chainId) :
    (broadcast queued tx).Follows protocol (fun (l : Attempt) _ => l = .ended) (.trying queued.wallet tx.nonce) := by
  have hwallet : queued.wallet = ⟨tx.chainId, queued.from⟩ := by rw [hchain]; rfl
  refine Follows.handle (Q := fun (l : Attempt) r => (∀ hash, r = .ok hash → l = .ended) ∧
    ∀ e, r = .error e → l = caught queued.wallet tx.nonce e) ?_ (fun l hash hl => hl.1 hash rfl) (fun l e hl => ?_)
  · have herror : ∀ (o : Op) (e : Err), (∀ hash : TransactionHash, Except.error e = .ok hash →
        protocol.next (.trying queued.wallet tx.nonce) o (.error e) = .ended) ∧
          ∀ e', (Except.error e : Except Err TransactionHash) = .error e' →
        protocol.next (.trying queued.wallet tx.nonce) o (.error e) = caught queued.wallet tx.nonce e' := by
      intro o e
      refine ⟨by simp, fun e' he => ?_⟩
      cases he
      exact next_trying_error o e
    refine follows_await (.account _ _ _ _) (fun u _ => ?_) (fun e _ => herror _ e)
    have hsame : protocol.next (.trying queued.wallet tx.nonce) (.getAccount queued.chainId queued.from) (.ok u) =
        .trying queued.wallet tx.nonce := rfl
    have hallowed : Allowed (.trying queued.wallet tx.nonce)
        (.accountSendTransaction (.transaction queued.queueId) queued.from tx) := by
      rw [hwallet]
      exact .broadcast _ _ _
    rw [hsame]
    refine follows_perform hallowed fun r _ => ?_
    cases r with
    | ok hash => exact ⟨fun _ _ => rfl, by simp⟩
    | error e => exact herror _ e
  · rw [hl.2 e rfl]
    unfold caught saysUsed
    split
    · exact (only_syncLatestNonceFromOnchainIfHigher (fun _ _ => rfl) _).follows_bind (fun _ ho => asks_ended ho)
        (fun _ => rfl) (fun e => rfl)
    · exact follows_await (.recycle _ _) (fun _ _ => rfl) (fun e _ => rfl)

theorem follows_sendTransaction (queued : Transaction) :
    (sendTransaction queued).Follows protocol (fun l _ => l.Empty) .start := by
  unfold sendTransaction assert
  split
  case isFalse => exact Or.inl rfl
  case isTrue =>
    have hpopulate := follows_getPopulatedOrErrored (S := fun o : Op => o.asks = true) rfl (fun _ => rfl) queued
    refine hpopulate.only_bind (fun _ ho => asks_start ho) (fun _ _ hp => hp) (fun x hx => ?_) (fun e _ => Or.inl rfl)
    obtain ⟨x', hx', hpop⟩ := hx
    cases hx'
    cases x with
    | error errored => exact Or.inl rfl
    | ok populated =>
      refine (follows_acquireNonce queued.queueId).bind (fun l acquired hl => ?_) (fun l e hl => hl.2 e rfl)
      obtain rfl := hl.1 acquired rfl
      have hbroadcast : (broadcast queued { populated with nonce := acquired.nonce }).Follows protocol _ _ :=
        follows_broadcast hpop.1
      refine hbroadcast.bind (fun l hash hl => ?_) (fun l e hl => Or.inr hl)
      subst hl
      refine (only_perform (S := fun o : Op => o.asks = true) rfl).follows_bind (fun _ ho => asks_ended ho)
        (fun _ => ?_)
        (fun e => Or.inr rfl)
      exact (only_getBlockNumberish _).follows_bind (fun _ ho => asks_ended ho) (fun _ => Or.inr rfl)
        (fun e => Or.inr rfl)

end Attempt

def sendContract : Contract senders where
  toProtocol := Attempt.protocol
  init _ := .start
  ends l _ := l.Empty
  answers := possible_of_effect
  starts w queued p w' h := by
    cases Option.some.inj h
    exact (Attempt.follows_sendTransaction queued).bind (fun l _ hl => hl) (fun l e hl => hl)

/-- `INCR` replied 1 for the wallet. -/
def repliesOne (k : Wallet) : Event Calls → Bool
  | ⟨_, .incrNonce k', _, .ok n⟩ => k' == k && n == 1
  | _ => false

/-- The nonce was popped from `nonce-recycled` or replied by `INCR`. A reply 1 that the attempt
follows up by resetting the counter hands out nothing. -/
def HandedOut (k : Wallet) (tr : List (Event Calls)) (n : ℤ) : Prop :=
  (∃ i, (i, n) ∈ drawn k tr) ∨ n = 1 ∧ ∃ e ∈ tr, repliesOne k e = true ∧ resynced e.thread tr = false

/-- A broadcast with the nonce was rejected because the nonce is used. -/
def reportsUsed (k : Wallet) (n : ℤ) : Event Calls → Bool
  | ⟨_, .accountSendTransaction _ a tx, _, .error e⟩ =>
    decide ((⟨tx.chainId, a⟩ : Wallet) = k ∧ tx.nonce = n) && saysUsed e
  | _ => false

/-- The nonce leaves no gap. -/
inductive Kept (s : State senders) (k : Wallet) (n : ℤ) : Prop
  | recycled (h : n ∈ s.world.recycled k)
  | sent (h : n ∈ s.world.sent k)
  | accepted (c : Caller) (hash : TransactionHash) (h : .broadcast c hash ∈ s.world.accepted)
      (hk : hash.wallet = k) (hn : hash.nonce = n)
  | reported (e : Event Calls) (he : e ∈ s.trace) (h : reportsUsed k n e = true)

/-- Any attempts, with any failures. -/
def anySends : Guard senders where
  start _ _ := true
  call _ _ _ _ := true

/-- A throw that loses what the attempt has in hand. -/
def Attempt.loses (l : Attempt) (o : Op) (e : Err) : Bool :=
  match l with
  | .unset _ | .drew _ _ | .failed _ _ => true
  | .trying _ _ =>
    match o with
    | .getAccount _ _ => saysUsed e
    | _ => false
  | _ => false

/-- Nothing throws between `INCR` replying 1 and the reset of the counter, in the nonce map
update, and where the nonce is given back; and the account lookup does not throw an error
that reads like a used nonce. An `INCR` or a pop that throws took no nonce (`World.effect`). -/
def losesNothing : Guard senders where
  start _ _ := true
  call s i o a :=
    match a with
    | .ok _ => true
    | .error e => !(s.localOf sendContract i).any fun l => l.loses o e

section
variable {s s' : State senders} {w : World} {i : ℕ} {l : Attempt} {o : Op} {a : Except Err o.Choice}
  {r : Except Err o.Reply} {k : Wallet} {n : ℤ}

abbrev Sent (s s' : State senders) (i : ℕ) (l : Attempt) (o : Op) (a : Except Err o.Choice)
    (r : Except Err o.Reply) : Prop := Stepped sendContract losesNothing s s' i l o a r

/-- The attempt took the nonce and has it still. -/
def Attempt.Has (l : Attempt) (k : Wallet) (n : ℤ) : Prop := l = .drew k n ∨ l = .trying k n ∨ l = .failed k n

theorem not_loses (st : Sent s s' i l o a r) {e : Err} (hr : r = .error e) : l.loses o e = false := by
  have hallowed : Attempt.Allowed l o := st.allowed
  have hl : s.localOf sendContract i = some l := st.caller
  have hg := st.granted
  subst hr
  obtain ⟨e', he', -, -, ha⟩ | ⟨c, x, -, hx, -⟩ := World.effect_cases st.performed
  · cases he'
    rcases ha with rfl | hlock
    · simp only [losesNothing, hl] at hg
      exact (Bool.not_eq_true' _).mp hg
    · cases hallowed with
      | prepare o h | count k o h | finish o h => cases o <;> first | cases hlock | cases h
      | _ => cases hlock
  · cases hx

/-- What a call makes of a nonce that its attempt has. -/
theorem Attempt.Has.next (h : l.Has k n) (st : Sent s s' i l o a r) : (l.next o r).Has k n ∨ Kept s' k n := by
  have hallowed : Attempt.Allowed l o := st.allowed
  have htr := st.traced
  obtain ⟨e, rfl, hw, -⟩ | ⟨c, x, rfl, rfl, -, hx⟩ := World.effect_cases st.performed
  · have hl := not_loses st rfl
    rcases h with rfl | rfl | rfl
    · cases hl
    · rw [show Attempt.next (.trying k n) o (.error e) = Attempt.caught k n e from Attempt.next_trying_error o e]
      unfold Attempt.caught
      split
      · rename_i hused
        cases hallowed with
        | account k n c address =>
          rw [show (Attempt.trying k n).loses (.getAccount c address) e = saysUsed e from rfl, hused] at hl
          cases hl
        | broadcast caller address tx =>
          refine Or.inr (.reported ⟨i, .accountSendTransaction caller address tx, a, .error e⟩
            (htr ▸ List.mem_cons_self) ?_)
          simp [Engine.reportsUsed, hused]
      · exact Or.inl (Or.inr (Or.inr rfl))
    · cases hl
  · rcases h with rfl | rfl | rfl
    · cases hallowed with
      | map k n q => exact Or.inl (Or.inr (Or.inl rfl))
    · cases hallowed with
      | account k n c address => exact Or.inl (Or.inr (Or.inl rfl))
      | broadcast caller address tx =>
        obtain ⟨-, hw⟩ := Prod.mk.inj (Option.some.inj hx)
        exact Or.inr (.accepted caller ⟨address, tx⟩ (hw ▸ List.mem_cons_self) rfl rfl)
    · cases hallowed with
      | recycle k n =>
        obtain ⟨-, hw⟩ := Prod.mk.inj (Option.some.inj hx)
        refine Or.inr (.recycled ?_)
        rw [← hw]
        simp

/-- A nonce that leaves `nonce-recycled` goes to who popped it; nothing else is lost. -/
theorem Kept.next (h : Kept s k n) (st : Sent s s' i l o a r) : (l.next o r).Has k n ∨ Kept s' k n := by
  have hallowed : Attempt.Allowed l o := st.allowed
  have htr := st.traced
  have hsame := World.sameExcept_of_effect st.performed
  cases h with
  | reported e he h => exact Or.inr (.reported e (htr ▸ List.mem_cons_of_mem _ he) h)
  | accepted c hash hacc hk hn =>
    refine Or.inr (.accepted c hash ?_ hk hn)
    rw [World.accepted_of_effect (i := i) st.performed]
    exact List.mem_append_right _ hacc
  | sent h =>
    refine Or.inr (.sent ?_)
    by_cases hc : o.changes = some .sent
    · obtain ⟨e, -, hw, -⟩ | ⟨c, x, -, -, -, hx⟩ := World.effect_cases st.performed
      · rwa [hw]
      · cases o with
        | saddSent k' m =>
          obtain ⟨-, hw⟩ := Prod.mk.inj (Option.some.inj hx)
          rw [← hw]
          by_cases hk : k = k'
          · subst hk
            simp [h]
          · simpa [update_of_ne hk] using h
        | sremSent k' m =>
          cases hallowed with
          | prepare _ h | count _ _ h | finish _ h => cases h
        | _ => cases hc
    · rwa [hsame.sent hc]
  | recycled h =>
    by_cases hc : o.changes = some .recycled
    · obtain ⟨e, -, hw, -⟩ | ⟨c, x, -, rfl, -, hx⟩ := World.effect_cases st.performed
      · exact Or.inr (.recycled (by rwa [hw]))
      · cases hallowed with
        | pop k' =>
          obtain ⟨hx, hw⟩ := Prod.mk.inj (Option.some.inj hx)
          by_cases hk : k = k'
          · subst hk
            cases hpop : (s.world.recycled k).popMin.1 with
            | none =>
              have hempty := SortedSet.popMin_none hpop
              refine Or.inr (.recycled ?_)
              rw [← hw]
              simpa [hempty] using h
            | some m =>
              obtain ⟨-, hrest⟩ := SortedSet.popMin_some hpop
              obtain rfl : x = some m := hx.symm.trans hpop
              by_cases hm : n = m
              · subst hm
                exact Or.inl (Or.inl rfl)
              · refine Or.inr (.recycled ?_)
                rw [← hw]
                simpa using (hrest n).mpr ⟨h, hm⟩
          · refine Or.inr (.recycled ?_)
            rw [← hw]
            simpa [update_of_ne hk] using h
        | recycle k' m =>
          obtain ⟨-, hw⟩ := Prod.mk.inj (Option.some.inj hx)
          refine Or.inr (.recycled ?_)
          rw [← hw]
          by_cases hk : k = k'
          · subst hk
            simp [h]
          · simpa [update_of_ne hk] using h
        | prepare o ho | count _ o ho | finish o ho => cases o <;> first | (cases hc; done) | cases ho
        | _ => cases hc
    · exact Or.inr (.recycled (by rwa [hsame.recycled hc]))

/-- What the trace shows of an attempt that has not taken a nonce yet. -/
structure Attempt.Traced (tr : List (Event Calls)) (i : ℕ) (l : Attempt) : Prop where
  unsynced : l = .start ∨ (∃ k, l = .unset k) → resynced i tr = false
  synced : ∀ k, l = .synced k → resynced i tr = true

/-- Past the counter. -/
def Attempt.isLater : Attempt → Bool
  | .drew _ _ | .trying _ _ | .failed _ _ | .ended => true
  | _ => false

theorem Attempt.traced_of_later (h : l.isLater = true) (tr : List (Event Calls)) (i : ℕ) : l.Traced tr i := by
  constructor
  · intro hl
    rcases hl with rfl | ⟨k, rfl⟩ <;> cases h
  · intro k hl
    subst hl
    cases h

theorem Attempt.isLater_caught (k : Wallet) (n : ℤ) (e : Err) : (caught k n e).isLater = true := by
  unfold caught
  split <;> rfl

theorem Attempt.Traced.next (h : l.Traced s.trace i) (ho : Attempt.Allowed l o) :
    (l.next o r).Traced (⟨i, o, a, r⟩ :: s.trace) i := by
  cases ho with
  | prepare o ho =>
    have hu := h.unsynced (Or.inl rfl)
    have hn : Attempt.next .start o r = .start := by cases o <;> first | rfl | cases ho
    have hr : resyncs ⟨i, o, a, r⟩ = false := by cases o <;> first | rfl | cases ho
    rw [hn]
    exact ⟨fun _ => by simp [resynced_cons, hr, hu], by simp⟩
  | count k o ho =>
    have hu := h.unsynced (Or.inr ⟨k, rfl⟩)
    have hr : resyncs ⟨i, o, a, r⟩ = false := by cases o <;> first | rfl | cases ho
    refine ⟨fun _ => by simp [resynced_cons, hr, hu], fun k' hk => ?_⟩
    cases r with
    | error e => cases o <;> cases hk
    | ok x => cases o <;> first | (cases hk; done) | cases ho
  | pop k =>
    have hu := h.unsynced (Or.inl rfl)
    refine ⟨fun _ => by simp [resynced_cons, resyncs, hu], fun k' hk => ?_⟩
    rcases r with e | _ | m <;> cases hk
  | incr k =>
    have hu := h.unsynced (Or.inl rfl)
    refine ⟨fun _ => by simp [resynced_cons, resyncs, hu], fun k' hk => ?_⟩
    cases r with
    | error e => cases hk
    | ok m =>
      simp only [Attempt.next, Attempt.taken] at hk
      split at hk <;> cases hk
  | set k v =>
    cases r with
    | error e => exact Attempt.traced_of_later rfl _ _
    | ok u =>
      refine ⟨fun hl => ?_, fun _ _ => by simp [resynced_cons, resyncs]⟩
      rcases hl with hl | ⟨_, hl⟩ <;> cases hl
  | incrAgain k => cases r <;> exact Attempt.traced_of_later rfl _ _
  | map k n q => cases r <;> exact Attempt.traced_of_later rfl _ _
  | account k n c address =>
    cases r with
    | error e => exact Attempt.traced_of_later (Attempt.isLater_caught k n e) _ _
    | ok u => exact Attempt.traced_of_later rfl _ _
  | broadcast caller address tx =>
    cases r with
    | error e => exact Attempt.traced_of_later (Attempt.isLater_caught _ _ e) _ _
    | ok hash => exact Attempt.traced_of_later rfl _ _
  | recycle k n => exact Attempt.traced_of_later rfl _ _
  | finish o ho => exact Attempt.traced_of_later rfl _ _

/-- A nonce that the call hands out is in hand. -/
theorem has_of_draws (ht : l.Traced s.trace i) (ho : Attempt.Allowed l o)
    (hn : draws k s.trace ⟨i, o, a, r⟩ = some n) : (l.next o r).Has k n := by
  cases r with
  | error e => cases o <;> cases hn
  | ok x =>
    cases ho with
    | prepare o h | count _ o h | finish o h => cases o <;> first | cases hn | cases h
    | pop k' =>
      simp only [draws] at hn
      split_ifs at hn with hk
      subst hk hn
      exact Or.inl rfl
    | incr k' =>
      have hu := ht.unsynced (Or.inl rfl)
      simp only [draws, hu, Bool.false_eq_true, or_false, Option.ite_none_right_eq_some, Option.some.injEq] at hn
      obtain ⟨⟨rfl, hx⟩, rfl⟩ := hn
      exact Or.inl (by simp [Attempt.next, Attempt.taken, hx])
    | incrAgain k' =>
      simp only [draws] at hn
      split_ifs at hn with hk
      obtain ⟨rfl, -⟩ := hk
      cases hn
      exact Or.inl rfl
    | _ => cases hn

/-- Every nonce that was handed out is in some attempt's hand or leaves no gap. -/
structure Accounted (k : Wallet) (s : State senders) : Prop where
  drawn : ∀ i n, (i, n) ∈ drawn k s.trace → (∃ j l, s.localOf sendContract j = some l ∧ l.Has k n) ∨ Kept s k n
  replied : ∀ e ∈ s.trace, repliesOne k e = true → resynced e.thread s.trace = false →
    s.localOf sendContract e.thread = some (.unset k)
  traced : ∀ i l, s.localOf sendContract i = some l → l.Traced s.trace i

theorem Accounted.call (h : Accounted k s) (st : Sent s s' i l o a r) : Accounted k s' := by
  have hallowed : Attempt.Allowed l o := st.allowed
  have hcaller := h.traced i l st.caller
  have htr := st.traced
  refine ⟨fun j n hn => ?_, fun e he hone hunsynced => ?_, fun j l' hl' => ?_⟩
  · have hself : ∀ m, (l.next o r).Has k m → ∃ j l, s'.localOf sendContract j = some l ∧ l.Has k m :=
      fun m hm => ⟨i, _, st.self, hm⟩
    rw [htr, mem_drawn_cons] at hn
    rcases hn with ⟨hdraws, -⟩ | hn
    · exact Or.inl (hself n (has_of_draws hcaller hallowed hdraws))
    · rcases h.drawn j n hn with ⟨j', l', hl', hhas⟩ | hkept
      · by_cases hj : j' = i
        · subst hj
          obtain rfl := Option.some.inj (st.caller.symm.trans hl')
          exact (hhas.next st).imp_left (hself n)
        · exact Or.inl ⟨j', l', (st.others j' hj).trans hl', hhas⟩
      · exact (hkept.next st).imp_left (hself n)
  · rw [htr] at he hunsynced
    have hunsynced' : resynced e.thread s.trace = false := by
      simp only [resynced_cons, Bool.or_eq_false_iff] at hunsynced
      exact hunsynced.2
    rcases List.mem_cons.mp he with rfl | he
    · -- the reply 1 of this very call
      cases r with
      | error e => cases o <;> cases hone
      | ok x =>
        cases hallowed with
        | incr k' =>
          simp only [repliesOne, Bool.and_eq_true, beq_iff_eq] at hone
          obtain ⟨rfl, hx⟩ := hone
          have hnext : Attempt.next .start (.incrNonce k') (.ok x) = .unset k' := by
            simp [Attempt.next, Attempt.taken, hx]
          rw [← hnext]
          exact st.self
        | incrAgain k' => cases hunsynced'.symm.trans (hcaller.synced k' rfl)
        | prepare o h | count _ o h | finish o h => cases o <;> first | cases hone | cases h
        | _ => cases hone
    · have hlocal := h.replied e he hone hunsynced'
      by_cases hi : e.thread = i
      · rw [hi] at hlocal ⊢
        obtain rfl := Option.some.inj (st.caller.symm.trans hlocal)
        rw [st.self]
        cases r with
        | error err => cases not_loses st rfl
        | ok x =>
          cases hallowed with
          | count k o ho => cases o <;> first | rfl | cases ho
          | set k v =>
            simp [resynced_cons, resyncs, hi] at hunsynced
      · exact (st.others _ hi).trans hlocal
  · rw [htr]
    by_cases hj : j = i
    · subst hj
      obtain rfl := Option.some.inj (st.self.symm.trans hl')
      exact hcaller.next hallowed
    · have hold := h.traced j l' ((st.others j hj).symm.trans hl')
      have hcons : resynced j (⟨i, o, a, r⟩ :: s.trace) = resynced j s.trace := by simp [resynced_cons, Ne.symm hj]
      exact ⟨fun hl => hcons ▸ hold.unsynced hl, fun k' hl => hcons ▸ hold.synced k' hl⟩

theorem Accounted.start {j : ℕ} {queued : Transaction} (h : Accounted k s)
    (st : Started sendContract losesNothing s s' j queued) : Accounted k s' := by
  obtain ⟨p, hp⟩ := st.started
  have hworld : s.world = s'.world := (Prod.mk.inj (Option.some.inj hp)).2
  have hkept : ∀ i l, s.localOf sendContract i = some l → s'.localOf sendContract i = some l := by
    intro i l hl
    refine (st.others i fun hi => ?_).trans hl
    cases (hi ▸ st.unused).symm.trans hl
  refine ⟨fun i n hn => ?_, fun e he hone hunsynced => ?_, fun i l hl => ?_⟩
  · rw [st.traced] at hn
    rcases h.drawn i n hn with ⟨i', l, hl, hhas⟩ | hk
    · exact Or.inl ⟨i', l, hkept i' l hl, hhas⟩
    · refine Or.inr ?_
      cases hk with
      | recycled h => exact .recycled (hworld ▸ h)
      | sent h => exact .sent (hworld ▸ h)
      | accepted c hash h hk hn => exact .accepted c hash (hworld ▸ h) hk hn
      | reported e he h => exact .reported e (st.traced ▸ he) h
  · rw [st.traced] at he hunsynced
    exact hkept _ _ (h.replied e he hone hunsynced)
  · rw [st.traced]
    by_cases hi : i = j
    · subst hi
      obtain rfl := Option.some.inj (st.self.symm.trans hl)
      have hsilent : resynced i s.trace = false := List.any_eq_false.mpr fun e he => by simp [st.silent e he]
      exact ⟨fun _ => hsilent, by rintro _ ⟨⟩⟩
    · exact h.traced i l ((st.others i hi).symm.trans hl)

private theorem accounted (h : Reachable losesNothing (State.initial w) s) : Accounted k s := by
  refine h.invariant sendContract (Accounted k) ?_ (fun _ _ _ _ _ ih st => ih.start st)
    (fun _ _ _ _ _ _ _ _ ih st => ih.call st)
  exact ⟨by simp [State.initial, drawn], by simp [State.initial], by simp [State.initial, State.localOf]⟩

/-- A finished attempt has nothing in hand. -/
theorem empty_of_quiescent (h : Reachable losesNothing (State.initial w) s) (hq : s.quiescent = true)
    (hl : s.localOf sendContract i = some l) : l.Empty := by
  unfold State.localOf at hl
  obtain ⟨⟨queued, p⟩, ht, rfl⟩ := Option.map_eq_some_iff.mp hl
  have hp : p.isFinished = true := List.all_eq_true.mp hq _ (List.mem_of_getElem? ht)
  obtain ⟨x, hx⟩ := (h.conforms sendContract).ends_of_finished sendContract ht hp
  exact hx

/-- No nonce is lost: between attempts, every nonce that was handed out leaves no gap. -/
theorem no_nonce_lost (h : Reachable losesNothing (State.initial w) s) (hq : s.quiescent = true)
    (hn : HandedOut k s.trace n) : Kept s k n := by
  have hacc := accounted (k := k) h
  rcases hn with ⟨i, hi⟩ | ⟨-, e, he, hone, hunsynced⟩
  · rcases hacc.drawn i n hi with ⟨j, l, hl, hhas⟩ | hkept
    · rcases empty_of_quiescent h hq hl with rfl | rfl <;> rcases hhas with hhas | hhas | hhas <;> cases hhas
    · exact hkept
  · rcases empty_of_quiescent h hq (hacc.replied e he hone hunsynced) with hl | hl <;> cases hl

end

/-- The broadcast of nonce 6 is rejected; a retry takes the nonce and broadcasts it. -/
def rejectedThenSent : List (Move senders) :=
  .start (transferOf "first") :: proceeds 0 6 ++ answered 0 [throwing insufficientFunds, usual] ++
    .start (transferOf "first") :: proceeds 1 9

theorem no_nonce_lost_rejected : ∃ s : State senders, drawn walletInUse s.trace = [(1, 6), (0, 6)] ∧
    (s.world.recycled walletInUse).elems = [] ∧ Kept s walletInUse 6 := by
  obtain ⟨s, hs, hr⟩ := exists_reachable_of_run losesNothing worldInUse rejectedThenSent
    (fun s => drawn walletInUse s.trace == [(1, 6), (0, 6)] &&
    ((s.world.recycled walletInUse).elems == [] && s.quiescent))
    (by decide +kernel)
  simp only [Bool.and_eq_true, beq_iff_eq] at hr
  obtain ⟨hdrawn, hempty, hq⟩ := hr
  have hn : HandedOut walletInUse s.trace 6 := Or.inl ⟨1, by simp [hdrawn]⟩
  exact ⟨s, hdrawn, hempty, no_nonce_lost hs hq hn⟩

/-- The update of the nonce map throws after nonce 6 was taken. -/
def nonceMapFails : List (Move senders) :=
  .start (transferOf "first") :: proceeds 0 4 ++ answered 0 [throwing (.new "Connection is closed.")]

theorem not_no_nonce_lost : ¬ ∀ (w : World) (s : State senders) (k : Wallet) (n : ℤ),
    Reachable anySends (State.initial w) s → s.quiescent = true → HandedOut k s.trace n → Kept s k n := by
  intro hgeneral
  obtain ⟨s, hs, hr⟩ := exists_reachable_of_run anySends worldInUse nonceMapFails
    (fun s => s.quiescent && (drawn walletInUse s.trace == [(0, 6)] && ((s.world.recycled walletInUse).elems == [] &&
      (s.world.sent walletInUse == ∅ && (s.world.accepted == [] &&
        s.trace.all fun e => !reportsUsed walletInUse 6 e))))) (by decide +kernel)
  simp only [Bool.and_eq_true, beq_iff_eq] at hr
  obtain ⟨hq, hdrawn, hrecycled, hsent, haccepted, hreported⟩ := hr
  have hkept := hgeneral worldInUse s walletInUse 6 hs hq (Or.inl ⟨0, by simp [hdrawn]⟩)
  cases hkept with
  | recycled h => simp [← SortedSet.mem_elems, hrecycled] at h
  | sent h => simp [hsent] at h
  | accepted c hash h => simp [haccepted] at h
  | reported e he h =>
    have hnot := List.all_eq_true.mp hreported e he
    simp [h] at hnot

end Engine
