import Engine.Concurrent.Product
import Engine.Nonces.Lost
import Engine.Records.Invariants
import Engine.Source.NonceResyncWorker

/-! The service together with the nonce resync worker: who has a nonce in hand, and which nonce
the resync worker is about to recycle. -/
namespace Engine
open Concurrent Program

inductive Resyncing
  | request (k : Request)
  | nonceResync
deriving DecidableEq

abbrev resyncers : Machine Calls Unit where
  World := World
  Kind := Resyncing
  effect := World.effect
  start w
    | .request k => engine.start w k
    | .nonceResync => some (nonceResyncHandler, w)

/-! ### Records -/

theorem quiet_resyncKeys (keys : List Wallet) : Quiet (resyncKeys keys) := by
  induction keys with
  | nil => exact only_done _
  | cons k keys ih =>
    refine (only_getChain _).bind fun _ => (quiet_await rfl).bind fun count => ?_
    refine Only.bind ((quiet_await rfl).bind fun nonce => only_done _) fun last => ?_
    cases count with
    | none => exact only_done _
    | some count =>
      dsimp only
      split
      · exact only_done _
      · refine (only_forEach (fun n => ?_) _).bind fun _ => ih
        refine (quiet_await rfl).bind fun «exists» => ?_
        split
        · exact only_done _
        · exact only_recycleNonce k _

theorem quiet_nonceResyncHandler : Quiet nonceResyncHandler := (quiet_await rfl).bind fun keys => quiet_resyncKeys keys

/-- What the resync worker does says nothing about a record, as cancelling recycled nonces. -/
def Resyncing.asRequest : Resyncing → Request
  | .request k => k
  | .nonceResync => .cancelRecycledNonces

def resyncRecords : Contract resyncers where
  toProtocol := records
  init k := recordContract.init k.asRequest
  ends := recordContract.ends
  answers := possible_of_effect
  starts w k p w' h := by
    cases k with
    | request k => exact recordContract.starts w k p w' h
    | nonceResync =>
      cases Option.some.inj h
      exact quiet_nonceResyncHandler.follows_last (ignores_of_idle rfl) fun _ => requestDone_of_finished rfl rfl

/-! ### Nonces -/

/-- The record that a send attempt read asks for a first send of an EOA transaction. -/
def asksFirstSend (resendCount : ℕ) (t : Option Transaction) : Bool :=
  t.any fun r => (manuallyRetried r resendCount).status == .queued && !r.isUserOp

/-- What a process does with nonces. -/
inductive Hand
  | free
  /-- A send attempt that has not read its record. -/
  | reading (resendCount : ℕ)
  /-- A first send. -/
  | attempt (a : Attempt)
  /-- A send attempt whose record asks for something else. -/
  | passed
  /-- The resync worker, and the nonce that it found not marked as sent. -/
  | resync (checked : Option (Wallet × ℤ))
deriving DecidableEq

/-- The call neither reads a record nor ends a send attempt. -/
def Op.isInner : Op → Bool
  | .getTransaction _ | .sendJobCompleted _ _ | .sendJobFailed _ _ => false
  | _ => true

/-- The call broadcasts or recycles. -/
def Op.spends : Op → Bool
  | .accountSendTransaction _ _ _ | .zaddRecycled _ _ => true
  | _ => false

namespace Hand

/-- A send attempt is over. -/
def ended (h : Hand) : (o : Op) → Except Err o.Reply → Hand
  | .sendJobCompleted _ _, .ok _ | .sendJobFailed _ _, .ok _ => .free
  | _, _ => h

def nextReading (resendCount : ℕ) : (o : Op) → Except Err o.Reply → Hand
  | .getTransaction _, .ok t => if asksFirstSend resendCount t then .attempt .start else .passed
  | o, r => ended (.reading resendCount) o r

def nextResync (checked : Option (Wallet × ℤ)) : (o : Op) → Except Err o.Reply → Hand
  | .sismemberSent k n, .ok false => .resync (some (k, n))
  | .zaddRecycled _ _, _ => .resync none
  | _, _ => .resync checked

def next (h : Hand) (o : Op) (r : Except Err o.Reply) : Hand :=
  match h with
  | .free => .free
  | .reading n => nextReading n o r
  | .attempt a => ended (.attempt (a.next o r)) o r
  | .passed => ended .passed o r
  | .resync checked => nextResync checked o r

/-- A first send broadcasts with the nonce it has, a send attempt reads its record once, and the
resync worker recycles the nonce that it checked. -/
structure Allowed (h : Hand) (o : Op) : Prop where
  broadcast : ∀ c a tx x, o = .accountSendTransaction c a tx → h = .attempt x → x = .trying ⟨tx.chainId, a⟩ tx.nonce
  read : ∀ q, o = .getTransaction q → h ≠ .passed ∧ ∀ x, h ≠ .attempt x
  recycle : ∀ k n checked, o = .zaddRecycled k n → h = .resync checked → checked = some (k, n)

def protocol : Protocol Calls where
  Local := Hand
  next := next
  allowed := Allowed
  possible := Op.possible

/-- The process has the nonce, and neither broadcast it nor gave it back. -/
def Has (h : Hand) (k : Wallet) (n : ℤ) : Prop :=
  match h with
  | .attempt a => a.Has k n
  | _ => False

instance (h : Hand) (k : Wallet) (n : ℤ) : Decidable (h.Has k n) :=
  match h with
  | .attempt a => inferInstanceAs (Decidable (a = .drew k n ∨ a = .trying k n ∨ a = .failed k n))
  | .free | .reading _ | .passed | .resync _ => inferInstanceAs (Decidable False)

/-- The process is a send attempt with its record in hand. -/
def isBusy : Hand → Bool
  | .attempt _ | .passed => true
  | _ => false

variable {h : Hand} {o : Op} {t : Transaction} {n : ℕ}

theorem allowed_of_inner (ho : o.spends = false) (hi : o.isInner = true) : h.Allowed o := by
  constructor
  · intro c a tx x heq
    subst heq
    cases ho
  · intro q heq
    subst heq
    cases hi
  · intro k n checked heq
    subst heq
    cases ho

theorem next_busy (hh : h.isBusy = true) (hi : o.isInner = true) (r : Except Err o.Reply) :
    (h.next o r).isBusy = true ∧ (h = .passed → h.next o r = .passed) := by
  have hended : ∀ h' : Hand, h'.ended o r = h' := fun h' => by cases o <;> first | rfl | cases hi
  cases h with
  | attempt a =>
    simp only [next, hended]
    exact ⟨rfl, by simp⟩
  | passed =>
    simp only [next, hended]
    exact ⟨rfl, fun _ => trivial⟩
  | _ => cases hh

theorem follows_free (p : Prog α) : p.Follows protocol (fun h _ => h = .free) .free := by
  refine (only_any p).follows_in (P := protocol) (F := fun h => h = .free) (fun h o hf _ => ?_)
    (fun h o r hf _ => ?_) rfl
  · subst hf
    constructor
    · intro c a tx x _ hx
      cases hx
    · intro q _
      exact ⟨by simp, by simp⟩
    · intro k n checked _ hx
      cases hx
  · subst hf
    rfl

/-- A part of a send attempt. -/
abbrev Inner (p : Prog α) : Prop := p.Only fun o : Op => o.isInner = true

/-- A part of a send attempt that does nothing with nonces. -/
abbrev Storing (p : Prog α) : Prop := p.Only fun o : Op => o.isInner = true ∧ o.spends = false

/-- A send attempt whose record asks for no first send may broadcast. -/
theorem follows_passed {p : Prog α} (hp : Inner p) :
    p.Follows protocol (fun h _ => h = .passed) .passed := by
  refine hp.follows_in (P := protocol) (F := fun h => h = .passed) (fun h o hf hi => ?_) (fun h o r hf hi => ?_) rfl
  · subst hf
    constructor
    · intro c a tx x _ hx
      cases hx
    · intro q heq
      subst heq
      cases hi
    · intro k n checked _ hx
      cases hx
  · subst hf
    exact (next_busy rfl hi r).2 rfl

/-- What stores a record does nothing with nonces. -/
theorem follows_busy {p : Prog α} (hp : Storing p) (hh : h.isBusy = true) :
    p.Follows protocol (fun h _ => h.isBusy = true) h := by
  refine hp.follows_in (P := protocol) (F := fun h => h.isBusy = true) (fun h o _ hi => ?_) (fun h o r hf hi => ?_) hh
  · exact allowed_of_inner hi.2 hi.1
  · exact (next_busy hf hi.1 r).1

/-! ### The parts of a send attempt -/

instance : HasLookups fun o : Op => o.isInner = true where
  isLookup o ho := by cases o <;> first | rfl | cases ho

instance : HasLookups fun o : Op => o.isInner = true ∧ o.spends = false where
  isLookup o ho := by cases o <;> first | exact ⟨rfl, rfl⟩ | cases ho

theorem storing_storeSendResult (t result : Transaction) :
    Storing (storeSendResult t result) := by
  exact only_storeSendResult (fun _ => ⟨rfl, rfl⟩) (fun _ _ => ⟨rfl, rfl⟩) (fun _ => ⟨rfl, rfl⟩) (fun _ => ⟨rfl, rfl⟩) t
    result

theorem inner_storeSendResult (t result : Transaction) :
    Inner (storeSendResult t result) :=
  (storing_storeSendResult t result).mono fun _ hi => hi.1

/-- A first send follows what an attempt does. -/
theorem follows_sendTransaction (queued : Transaction) : (sendTransaction queued).Follows protocol
    (fun h _ => h.isBusy = true) (.attempt .start) := by
  have hattempt := Attempt.follows_sendTransaction queued
  have hallowed : ∀ (a : Attempt) (o : Op), Attempt.Allowed a o → Allowed (.attempt a) o := by
    intro a o ho
    refine ⟨fun c address tx x heq hx => ?_, fun q heq => ?_, fun _ _ _ _ hx => by cases hx⟩
    · subst heq
      cases hx
      cases ho with
      | broadcast => rfl
      | prepare _ h | count _ _ h | finish _ h => cases h
    · subst heq
      cases ho with
      | prepare _ h | count _ _ h | finish _ h => cases h
  have hnext : ∀ (a : Attempt) (o : Op) (r : Except Err o.Reply), Attempt.Allowed a o →
      next (.attempt a) o r = .attempt (a.next o r) := by
    intro a o r ho
    cases ho with
    | prepare o h | count _ o h | finish o h => cases o <;> first | rfl | cases h
    | _ => rfl
  have hmapped : (sendTransaction queued).Follows protocol (fun h _ => ∃ a, h = .attempt a ∧ a.Empty)
    (.attempt .start) :=
    hattempt.map (R := protocol) Hand.attempt hallowed
    fun a o r ho hr => ⟨hr, hnext a o r ho⟩
  refine hmapped.mono fun h r hr => ?_
  obtain ⟨a, rfl, -⟩ := hr
  rfl

theorem follows_sendFound (t : Transaction) (n : ℕ) (ht : asksFirstSend n (some t) = true) :
    (sendFound (manuallyRetried t n) n).Follows protocol (fun h _ => h.isBusy = true) (.attempt .start) := by
  simp only [asksFirstSend, Option.any_some, Bool.and_eq_true, beq_iff_eq, Bool.not_eq_true'] at ht
  have heoa : (manuallyRetried t n).isUserOp = false := by simpa using ht.2
  unfold sendFound
  rw [ht.1, heoa]
  refine (follows_sendTransaction _).bind (fun h result hh => ?_) (fun h e hh => hh)
  exact follows_busy (storing_storeSendResult _ result) hh

theorem inner_sendFound (t : Transaction) (n : ℕ) (ht : asksFirstSend n (some t) = false) :
    Inner (sendFound (manuallyRetried t n) n) := by
  unfold sendFound
  split
  · rename_i hqueued
    split
    · exact (only_sendUserOp (fun _ _ => rfl) _).bind fun result => inner_storeSendResult _ result
    · rename_i huser
      have huser : t.isUserOp = false := by simpa using huser
      simp [asksFirstSend, hqueued, huser] at ht
  · refine (only_resendTransaction (fun _ _ _ => rfl) _ n).bind fun result => ?_
    cases result with
    | none => exact only_done _
    | some result => exact inner_storeSendResult _ result
  · exact only_done _

theorem follows_sendTransactionHandler (q : QueueId) (n : ℕ) : (sendTransactionHandler q n).Follows protocol
    (fun h _ => h.isBusy = true ∨ h = .reading n) (.reading n) := by
  have hallowed : Allowed (.reading n) (.getTransaction q) := by
    constructor
    · intro c a tx x heq
      cases heq
    · intro q' _
      exact ⟨by simp, by simp⟩
    · intro k m checked heq
      cases heq
  refine follows_await (P := protocol) hallowed (fun t _ => ?_) (fun e _ => Or.inr rfl)
  cases hfirst : asksFirstSend n t with
  | false =>
    have hread : protocol.next (.reading n) (.getTransaction q) (.ok t) = .passed := by
      simp [protocol, next, nextReading, hfirst]
    rw [hread]
    cases t with
    | none => exact Or.inl rfl
    | some t => exact (follows_passed (inner_sendFound t n hfirst)).mono fun h _ hf => Or.inl (by rw [hf]; rfl)
  | true =>
    have hread : protocol.next (.reading n) (.getTransaction q) (.ok t) = .attempt .start := by
      simp [protocol, next, nextReading, hfirst]
    rw [hread]
    cases t with
    | none => cases hfirst
    | some t => exact (follows_sendFound t n hfirst).mono fun h _ hh => Or.inl hh

theorem follows_sendTransactionWorker (q : QueueId) (n : ℕ) : (sendTransactionWorker q n).Follows protocol
    (fun _ _ => True) (.reading n) := by
  have hresult : (Program.attempt (sendTransactionHandler q n)).Follows protocol
      (fun (h : Hand) _ => h.isBusy = true ∨ h = .reading n) (.reading n) :=
    (follows_sendTransactionHandler q n).attempt fun h x hh => hh
  have hend : ∀ (h : Hand) (o : Op), o.spends = false → (∀ q, o ≠ .getTransaction q) → h.Allowed o := by
    intro h o ho hget
    constructor
    · intro c a tx x heq
      subst heq
      cases ho
    · intro q heq
      exact absurd heq (hget q)
    · intro k n checked heq
      subst heq
      cases ho
  refine hresult.bind (fun h x hh => ?_) (fun h e hh => trivial)
  cases x with
  | ok u => exact follows_perform (P := protocol) (hend h _ rfl (by simp)) fun _ _ => trivial
  | error e =>
    refine follows_await (P := protocol) (hend h _ rfl (by simp)) (fun made _ => ?_) (fun e _ => trivial)
    have hfree : protocol.next h (.sendJobFailed q n) (.ok made) = .free := by
      rcases hh with hh | rfl
      · cases h with
        | attempt a => rfl
        | passed => rfl
        | _ => cases hh
      · rfl
    rw [hfree]
    exact (follows_free _).mono fun _ _ _ => trivial

/-! ### The resync worker -/

/-- A nonce that is found not marked is recycled at once. -/
theorem follows_recycleUnlessSent (k : Wallet) (m : ℤ) : (recycleUnlessSent k m).Follows protocol
    (fun h _ => h = .resync none) (.resync none) := by
  refine follows_await (P := protocol) (allowed_of_inner rfl rfl) (fun found _ => ?_) (fun e _ => rfl)
  cases found with
  | true => exact rfl
  | false =>
    have hallowed : Allowed (.resync (some (k, m))) (.zaddRecycled k m) := by
      constructor
      · intro c a tx x heq
        cases heq
      · intro q heq
        cases heq
      · intro k' m' checked heq hh
        cases heq
        cases hh
        rfl
    exact follows_perform (P := protocol) hallowed fun _ _ => rfl

theorem follows_resyncKeys (keys : List Wallet) : (resyncKeys keys).Follows protocol
    (fun h _ => h = .resync none) (.resync none) := by
  induction keys with
  | nil => exact rfl
  | cons k keys ih =>
    refine follows_getChain (P := protocol) (allowed_of_inner rfl rfl) (fun _ _ => ?_) (fun e _ => rfl)
    refine follows_await (P := protocol) (allowed_of_inner rfl rfl) (fun count _ => ?_) (fun e _ => rfl)
    have hcounter : (inspectNonce k).Follows protocol (fun h _ => h = .resync none) (.resync none) :=
      follows_await (P := protocol) (allowed_of_inner rfl rfl) (fun nonce _ => rfl) (fun e _ => rfl)
    refine hcounter.bind (fun h last hh => ?_) (fun h e hh => hh)
    subst hh
    cases count with
    | none => exact rfl
    | some count =>
      dsimp only
      split
      · exact rfl
      · refine Follows.bind (Q := fun (h : Hand) _ => h = .resync none) ?_ (fun h u hh => ?_) (fun h e hh => hh)
        · refine follows_forEach (S := fun _ (h : Hand) => h = .resync none) rfl (fun m ms h hh => ?_) (fun h hh => hh)
          subst hh
          exact (follows_recycleUnlessSent k m).mono fun h r hh => by cases r <;> exact hh
        · subst hh
          exact ih

theorem follows_nonceResyncHandler : nonceResyncHandler.Follows protocol (fun _ _ => True) (.resync none) := by
  refine follows_await (P := protocol) (allowed_of_inner rfl rfl) (fun keys _ => ?_) (fun e _ => trivial)
  exact (follows_resyncKeys keys).mono fun _ _ _ => trivial

end Hand

/-- Where a process starts. -/
def Resyncing.hand : Resyncing → Hand
  | .request (.sendJob _ n) => .reading n
  | .request _ => .free
  | .nonceResync => .resync none

def handContract : Contract resyncers where
  toProtocol := Hand.protocol
  init := Resyncing.hand
  ends _ _ := True
  answers := possible_of_effect
  starts w k p w' h := by
    have hfree : p.Follows Hand.protocol (fun _ _ => True) .free := (Hand.follows_free p).mono fun _ _ _ => trivial
    cases k with
    | nonceResync =>
      cases Option.some.inj h
      exact Hand.follows_nonceResyncHandler
    | request k =>
      cases k with
      | sendJob q n =>
        obtain ⟨j, -, hp⟩ := Option.map_eq_some_iff.mp h
        cases hp
        exact Hand.follows_sendTransactionWorker q n
      | _ => exact hfree

/-- Records and nonces at once. -/
def resyncContract : Contract resyncers := resyncRecords.prod handContract

end Engine
