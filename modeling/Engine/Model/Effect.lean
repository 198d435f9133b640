import Mathlib.Logic.Function.Basic
import Mathlib.Tactic.SplitIfs
import Engine.Model.World

/-! What a call does to the world. -/
namespace Engine
open Concurrent Function

/-- `Queue.add` of a job id: ignored when a job with that id exists. -/
def addJob : Option Job → Option Job
  | some j => some j
  | none => some ⟨.waiting, 0⟩

/-- Removing a job that a worker holds throws, whichever way it is removed. -/
def lockedErr : Err := .new "Job is locked by another worker"

def isActive : Option Job → Bool
  | some ⟨.active, _⟩ => true
  | _ => false

def completeJob (j : Option Job) : Option Job := j.map fun j => { j with state := .completed }

/-- A failed attempt is retried after a delay while attempts remain. -/
def failJob (attempts : ℕ) (j : Option Job) : Option Job :=
  j.map fun j => ⟨if j.attemptsMade + 1 < attempts then .delayed else .failed, j.attemptsMade + 1⟩

def attemptsMade (j : Option Job) : ℕ := (j.map Job.attemptsMade).getD 0

namespace World

def setSendJob (w : World) (q : QueueId) (n : ℕ) (j : Option Job) : World :=
  { w with sendJobs := update w.sendJobs q (update (w.sendJobs q) n j) }

def setMineJob (w : World) (q : QueueId) (j : Option Job) : World :=
  { w with mineJobs := update w.mineJobs q j }

def consume (w : World) (k : Wallet) (n : ℤ) (x : Inclusion) : World :=
  { w with chain := update w.chain k (update (w.chain k) n (some x)) }

/-- A successful call with what the outside decided about it. -/
def apply (w : World) : (o : Op) → o.Choice → Option (o.Reply × World)
  | .zpopminRecycled k, _ =>
    some ((w.recycled k).popMin.1, { w with recycled := update w.recycled k (w.recycled k).popMin.2 })
  | .zaddRecycled k n, _ => some ((), { w with recycled := update w.recycled k ((w.recycled k).add n) })
  | .keysRecycled, ks => if ∀ k ∈ ks, (w.recycled k).elems ≠ [] then some (ks, w) else none
  | .multiZrangeDelRecycled k, executed =>
    if executed then
      some (some (w.recycled k).elems, { w with recycled := update w.recycled k .empty })
    else some (none, w)
  | .incrNonce k, _ =>
    some ((w.nonce k).getD 0 + 1, { w with nonce := update w.nonce k (some ((w.nonce k).getD 0 + 1)) })
  | .setNonce k v, _ => some ((), { w with nonce := update w.nonce k (some v) })
  | .evalNonceIfHigher k c, _ =>
    some (max (c - 1) ((w.nonce k).getD 0),
      { w with nonce := update w.nonce k (some (max (c - 1) ((w.nonce k).getD 0))) })
  | .saddSent k n, _ => some ((), { w with sent := update w.sent k (insert n (w.sent k)) })
  | .sremSent k n, _ =>
    some (decide (n ∈ w.sent k), { w with sent := update w.sent k ((w.sent k).erase n) })
  | .sismemberSent k n, _ => some (decide (n ∈ w.sent k), w)
  | .keysSent, ks => if ∀ k ∈ ks, w.sent k ≠ ∅ then some (ks, w) else none
  | .getNonce k, _ => some (w.nonce k, w)
  | .zaddNonceMap _ _ _, _ => some ((), w)
  | .getTransaction q, _ => some (w.transactions q, w)
  | .setTransaction t, applied =>
    some ((), if applied then { w with transactions := update w.transactions t.queueId (some t) } else w)
  | .existsTransaction q, _ => some ((w.transactions q).isSome, w)
  | .getLatestBlock _, b => some (b, w)
  | .getConfig, c => some (c, w)
  | .getAccount _ _, _ => some ((), w)
  | .getSmartWallet _ _ _, _ => some ((), w)
  | .ethGetTransactionCount _, c => some (c, w)
  | .ethGetTransactionCountOrNaN _, c => some (c, w)
  | .ethBlockNumber _, b => some (b, w)
  | .toSerializableTransaction r, p => some (r.populate p, w)
  | .accountSendTransaction c a tx, _ =>
    some (⟨a, tx⟩, { w with accepted := .broadcast c ⟨a, tx⟩ :: w.accepted })
  | .ethGetTransactionReceipt _ h, r =>
    if r.transactionHash = h ∧ w.chain h.wallet h.nonce = some (.broadcast h) then some (r, w) else none
  | .ethGetTransactionByHash _ h, _ => some (h, w)
  | .simulateTransaction _, _ => some ((), w)
  | .getChainMetadata _, m => some (m, w)
  | .readFactory _ _, a => some (a, w)
  | .createUnsignedUserOp _ _ _, u => some (u, w)
  | .getPaymasterAndData _, d => some (d, w)
  | .signUserOp u, _ => some (u, w)
  | .bundleUserOp q u, _ => some (⟨u⟩, { w with accepted := .userOp q ⟨u⟩ :: w.accepted })
  | .getUserOpReceiptRaw _, r => some (r, w)
  | .getUserOpReceipt _, _ => some ((), w)
  | .sendQueueAdd q n, _ => some ((), w.setSendJob q n (addJob (w.sendJobs q n)))
  | .sendQueueRemove q n, _ => some ((), w.setSendJob q n none)
  | .sendQueueGetJob q n, _ => some ((w.sendJobs q n).isSome, w)
  | .mineQueueAdd q, _ => some ((), w.setMineJob q (addJob (w.mineJobs q)))
  | .mineQueueRemove q, _ => some ((), w.setMineJob q none)
  | .mineQueueGetJob q, _ => some ((w.mineJobs q).isSome, w)
  | .enqueueWebhook _ _, _ => some ((), w)
  | .jobLog, _ => some ((), w)
  | .sendJobCompleted q n, _ => some ((), w.setSendJob q n (completeJob (w.sendJobs q n)))
  | .sendJobFailed q n, _ =>
    some (attemptsMade (w.sendJobs q n) + 1, w.setSendJob q n (failJob sendAttempts (w.sendJobs q n)))
  | .mineJobCompleted q, _ => some ((), w.setMineJob q (completeJob (w.mineJobs q)))
  | .mineJobFailed q, _ =>
    some (attemptsMade (w.mineJobs q) + 1, w.setMineJob q (failJob mineAttempts (w.mineJobs q)))
  | .randomUUID, q =>
    if q ∉ w.uuids ∧ w.transactions q = none then some (q, { w with uuids := q :: w.uuids }) else none
  | .recordMetrics _, _ => some ((), w)
  | .chainExecutes c h, _ =>
    if .broadcast c h ∈ w.accepted ∧ w.chain h.wallet h.nonce = none then
      some ((), w.consume h.wallet h.nonce (.broadcast h))
    else none
  | .chainConsumes k n, _ =>
    if w.chain k n = none then some ((), w.consume k n .external) else none

/-- A job that a worker holds can not be removed. -/
def locked (w : World) : Op → Bool
  | .sendQueueRemove q n => isActive (w.sendJobs q n)
  | .mineQueueRemove q => isActive (w.mineJobs q)
  | _ => false

/-- A call as its caller sees it. It may throw, and then it did nothing: no command is performed whose reply is lost,
and no submission is accepted whose call throws. -/
def effect (w : World) (o : Op) : Except Err o.Choice → Option (Except Err o.Reply × World)
  | .error e => if o.neverThrows then none else some (.error e, w)
  | .ok c => if w.locked o then some (.error lockedErr, w) else (w.apply o c).map fun r => (.ok r.1, r.2)

/-- A call throws and does nothing, or it is applied. -/
theorem effect_cases {w w' : World} {o : Op} {a : Except Err o.Choice} {r : Except Err o.Reply}
    (h : w.effect o a = some (r, w')) :
    (∃ e, r = .error e ∧ w' = w ∧ o.neverThrows = false ∧ (a = .error e ∨ w.locked o = true)) ∨
      ∃ c x, a = .ok c ∧ r = .ok x ∧ w.locked o = false ∧ w.apply o c = some (x, w') := by
  cases a with
  | error e =>
    simp only [effect] at h
    split_ifs at h with hn
    cases Option.some.inj h
    exact Or.inl ⟨e, rfl, rfl, by simpa using hn, Or.inl rfl⟩
  | ok c =>
    simp only [effect] at h
    split_ifs at h with hl
    · cases Option.some.inj h
      refine Or.inl ⟨lockedErr, rfl, rfl, ?_, Or.inr hl⟩
      cases o <;> first | rfl | cases hl
    · obtain ⟨⟨x, w''⟩, hx, he⟩ := Option.map_eq_some_iff.mp h
      cases he
      exact Or.inr ⟨c, x, rfl, rfl, by simpa using hl, hx⟩

end World

/-- What the reply of a call says by itself. -/
def Op.possible : (o : Op) → Except Err o.Reply → Prop
  | .accountSendTransaction _ a tx, .ok h => h = ⟨a, tx⟩
  | .toSerializableTransaction r, .ok tx => ∃ p, tx = r.populate p
  | .ethGetTransactionReceipt _ h, .ok receipt => receipt.transactionHash = h
  | .ethGetTransactionByHash _ h, .ok h' => h' = h
  | .bundleUserOp _ u, .ok h => h = ⟨u⟩
  | o, .error _ => o.neverThrows = false
  | _, .ok _ => True

theorem possible_of_effect (w : World) (o : Op) (a : Except Err o.Choice) (r : Except Err o.Reply)
    (w' : World) (h : w.effect o a = some (r, w')) : o.possible r := by
  obtain ⟨e, rfl, -, he, -⟩ | ⟨c, x, rfl, rfl, -, hx⟩ := World.effect_cases h
  · cases o <;> exact he
  · cases o with
    | accountSendTransaction caller a tx =>
      exact (Prod.mk.inj (Option.some.inj hx)).1.symm
    | toSerializableTransaction request =>
      exact ⟨c, (Prod.mk.inj (Option.some.inj hx)).1.symm⟩
    | ethGetTransactionReceipt chainId hash =>
      simp only [World.apply] at hx
      split_ifs at hx with hc
      exact (Prod.mk.inj (Option.some.inj hx)).1 ▸ hc.1
    | ethGetTransactionByHash chainId hash =>
      exact (Prod.mk.inj (Option.some.inj hx)).1.symm
    | bundleUserOp q u =>
      exact (Prod.mk.inj (Option.some.inj hx)).1.symm
    | _ => trivial

/-- The parts of the world that calls change. -/
inductive Component
  | nonce
  | recycled
  | sent
  | transactions
  | sendJobs
  | mineJobs
  | uuids
  | accepted
  | chain
deriving DecidableEq

/-- The one component that a call can change. -/
def Op.changes : Op → Option Component
  | .zpopminRecycled _ | .zaddRecycled _ _ | .multiZrangeDelRecycled _ => some .recycled
  | .incrNonce _ | .setNonce _ _ | .evalNonceIfHigher _ _ => some .nonce
  | .saddSent _ _ | .sremSent _ _ => some .sent
  | .setTransaction _ => some .transactions
  | .accountSendTransaction _ _ _ | .bundleUserOp _ _ => some .accepted
  | .sendQueueAdd _ _ | .sendQueueRemove _ _ | .sendJobCompleted _ _ | .sendJobFailed _ _ => some .sendJobs
  | .mineQueueAdd _ | .mineQueueRemove _ | .mineJobCompleted _ | .mineJobFailed _ => some .mineJobs
  | .randomUUID => some .uuids
  | .chainExecutes _ _ | .chainConsumes _ _ => some .chain
  | _ => none

/-- `w'` differs from `w` in one component at most. -/
structure World.SameExcept (k : Option Component) (w w' : World) : Prop where
  nonce : k ≠ some .nonce → w'.nonce = w.nonce
  recycled : k ≠ some .recycled → w'.recycled = w.recycled
  sent : k ≠ some .sent → w'.sent = w.sent
  transactions : k ≠ some .transactions → w'.transactions = w.transactions
  sendJobs : k ≠ some .sendJobs → w'.sendJobs = w.sendJobs
  mineJobs : k ≠ some .mineJobs → w'.mineJobs = w.mineJobs
  uuids : k ≠ some .uuids → w'.uuids = w.uuids
  accepted : k ≠ some .accepted → w'.accepted = w.accepted
  chain : k ≠ some .chain → w'.chain = w.chain

theorem World.sameExcept_refl (k : Option Component) (w : World) : w.SameExcept k w := by
  constructor <;> exact fun _ => rfl

theorem World.sameExcept_of_apply {w w' : World} {o : Op} {c : o.Choice} {x : o.Reply}
    (h : w.apply o c = some (x, w')) : w.SameExcept o.changes w' := by
  cases o with
  | keysRecycled | keysSent | ethGetTransactionReceipt | randomUUID | chainExecutes | chainConsumes =>
    simp only [World.apply] at h
    split_ifs at h
    obtain ⟨-, rfl⟩ := Prod.mk.inj (Option.some.inj h)
    constructor <;> intro hk <;> first | rfl | exact absurd rfl hk
  | setTransaction t =>
    obtain ⟨-, rfl⟩ := Prod.mk.inj (Option.some.inj h)
    cases c <;> constructor <;> intro hk <;> first | rfl | exact absurd rfl hk
  | multiZrangeDelRecycled k =>
    cases c <;> obtain ⟨-, rfl⟩ := Prod.mk.inj (Option.some.inj h) <;> constructor <;> intro hk <;>
      first | rfl | exact absurd rfl hk
  | _ =>
    obtain ⟨-, rfl⟩ := Prod.mk.inj (Option.some.inj h)
    constructor <;> intro hk <;> first | rfl | exact absurd rfl hk

/-- A call leaves every other component as it is. -/
theorem World.sameExcept_of_effect {w w' : World} {o : Op} {a : Except Err o.Choice} {r : Except Err o.Reply}
    (h : w.effect o a = some (r, w')) : w.SameExcept o.changes w' := by
  obtain ⟨e, -, rfl, -⟩ | ⟨c, x, -, -, -, hx⟩ := World.effect_cases h
  · exact World.sameExcept_refl _ _
  · exact World.sameExcept_of_apply hx

/-- A call that changes nothing. -/
theorem World.eq_of_effect {w w' : World} {o : Op} {a : Except Err o.Choice} {r : Except Err o.Reply}
    (h : w.effect o a = some (r, w')) (ho : o.changes = none) : w' = w := by
  have hsame := World.sameExcept_of_effect h
  rw [ho] at hsame
  obtain ⟨h1, h2, h3, h4, h5, h6, h7, h8, h9⟩ := hsame
  cases w'
  cases w
  simp only [World.mk.injEq]
  exact ⟨h1 nofun, h2 nofun, h3 nofun, h4 nofun, h5 nofun, h6 nofun, h7 nofun, h8 nofun, h9 nofun⟩

/-- The record that a call stores. -/
def stores : Event Calls → Option Transaction
  | ⟨_, .setTransaction t, .ok true, .ok _⟩ => some t
  | _ => none

theorem stores_error (i : ℕ) (o : Op) (a : Except Err o.Choice) (e : Err) : stores ⟨i, o, a, .error e⟩ = none := by
  cases o with
  | setTransaction t => rcases a with e' | _ | _ <;> rfl
  | _ => rfl

theorem event_of_stores {e : Event Calls} {t : Transaction} (h : stores e = some t) :
    ∃ i, e = ⟨i, .setTransaction t, .ok true, .ok ()⟩ := by
  unfold stores at h
  split at h
  · cases h
    exact ⟨_, rfl⟩
  · cases h

theorem op_of_stores {e : Event Calls} {t : Transaction} (h : stores e = some t) : e.op = .setTransaction t := by
  obtain ⟨i, rfl⟩ := event_of_stores h
  rfl

/-- The submission that a call got accepted. -/
def submits : Event Calls → Option Submission
  | ⟨_, .accountSendTransaction c _ _, _, .ok hash⟩ => some (.broadcast c hash)
  | ⟨_, .bundleUserOp q _, _, .ok hash⟩ => some (.userOp q hash)
  | _ => none

namespace World
variable {w w' : World} {o : Op} {a : Except Err o.Choice} {r : Except Err o.Reply} {i : ℕ}

theorem transactions_of_effect (h : w.effect o a = some (r, w')) :
    w'.transactions = match stores ⟨i, o, a, r⟩ with
      | some t => update w.transactions t.queueId (some t)
      | none => w.transactions := by
  obtain ⟨e, rfl, rfl, -⟩ | ⟨c, x, rfl, rfl, -, hx⟩ := effect_cases h
  · rw [stores_error]
  · by_cases ho : ∃ t, o = .setTransaction t
    · obtain ⟨t, rfl⟩ := ho
      obtain ⟨-, rfl⟩ := Prod.mk.inj (Option.some.inj hx)
      cases c <;> rfl
    · have hc : o.changes ≠ some .transactions := fun hc => ho (by cases o <;> first | exact ⟨_, rfl⟩ | cases hc)
      rw [(sameExcept_of_apply hx).transactions hc]
      cases o <;> first | rfl | exact absurd ⟨_, rfl⟩ ho

theorem accepted_of_effect (h : w.effect o a = some (r, w')) :
    w'.accepted = (submits ⟨i, o, a, r⟩).toList ++ w.accepted := by
  obtain ⟨e, rfl, rfl, -⟩ | ⟨c, x, rfl, rfl, -, hx⟩ := effect_cases h
  · cases o <;> rfl
  · cases o with
    | accountSendTransaction caller address tx =>
      obtain ⟨rfl, rfl⟩ := Prod.mk.inj (Option.some.inj hx)
      rfl
    | bundleUserOp q u =>
      obtain ⟨rfl, rfl⟩ := Prod.mk.inj (Option.some.inj hx)
      rfl
    | _ =>
      rw [(sameExcept_of_apply hx).accepted (by rintro ⟨⟩)]
      rfl

/-- What consumed a nonce stays. -/
theorem chain_mono (h : w.effect o a = some (r, w')) {k : Wallet} {n : ℤ} {x : Inclusion}
    (hx : w.chain k n = some x) : w'.chain k n = some x := by
  obtain ⟨e, -, rfl, -⟩ | ⟨c, y, -, -, -, hy⟩ := effect_cases h
  · exact hx
  · have hconsume : ∀ k' n' x', w.chain k' n' = none → (w.consume k' n' x').chain k n = some x := by
      intro k' n' x' hnone
      unfold consume
      by_cases hk : k = k'
      · subst hk
        have hn : n ≠ n' := by
          rintro rfl
          rw [hx] at hnone
          cases hnone
        simpa [update_of_ne hn] using hx
      · simpa [update_of_ne hk] using hx
    cases o with
    | chainExecutes caller hash =>
      simp only [apply] at hy
      split_ifs at hy with hc
      obtain ⟨-, rfl⟩ := Prod.mk.inj (Option.some.inj hy)
      exact hconsume _ _ _ hc.2
    | chainConsumes k' n' =>
      simp only [apply] at hy
      split_ifs at hy with hc
      obtain ⟨-, rfl⟩ := Prod.mk.inj (Option.some.inj hy)
      exact hconsume _ _ _ hc
    | _ =>
      rw [(sameExcept_of_apply hy).chain (by rintro ⟨⟩)]
      exact hx

end World
end Engine
