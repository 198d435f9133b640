import Engine.Concurrent.History
import Engine.Records.AtMostOnce
import Engine.Records.Notes
import Engine.Records.Replacements
import Engine.Records.Windows

/-! Where submissions and announcements come from: every call that the network accepted was asked
for, its nonce was filed before, and what is announced was stored before. -/
namespace Engine
open Concurrent Program

/-- Records and notes, at once. -/
def noted : Contract engine := recordContract.prod notesContract

/-- An insertion asked for `tx` to be stored under `q`: under its key, or under the id that it drew. -/
def Asked (s : State engine) (q : QueueId) (tx : InsertedTransaction) : Prop :=
  ∃ (i : ℕ) (key : Option String) (simulate : Bool) (p : Prog Unit) (drawn : Option QueueId),
    s.threads[i]? = some (.insertTransaction tx key simulate, p) ∧ insertionId key drawn = some q ∧
      ∀ id, drawn = some id → ∃ a, (⟨i, .randomUUID, a, .ok id⟩ : Event Calls) ∈ s.trace

/-- The hash is of a transaction with the call that was asked for. -/
structure CallOf (tx : InsertedTransaction) (hash : TransactionHash) : Prop where
  signer : hash.signer = tx.from
  chainId : hash.transaction.chainId = tx.chainId
  «to» : hash.transaction.to = tx.to ∨ hash.transaction.to = tx.to.or tx.target
  data : hash.transaction.data = tx.data
  value : hash.transaction.value = some (tx.value.getD 0)

/-- What the network accepted is a call that was asked for, or a null transaction. -/
def Authentic (s : State engine) : Submission → Prop
  | .broadcast (.transaction q) hash => ∃ tx, Asked s q tx ∧ tx.isUserOp = false ∧ CallOf tx hash
  | .broadcast .cancellation hash => NullCall hash
  | .userOp q _ => ∃ tx, Asked s q tx ∧ tx.isUserOp = true

/-- The nonce was added to the wallet's nonce map for `q`. -/
def Filed (tr : List (Event Calls)) (k : Wallet) (n : ℤ) (q : QueueId) : Prop :=
  ∃ i a u, (⟨i, .zaddNonceMap k n q, a, .ok u⟩ : Event Calls) ∈ tr

/-- The record carries the call that was asked for. -/
structure Stands (tx : InsertedTransaction) (t : Transaction) : Prop where
  isUserOp : t.isUserOp = tx.isUserOp
  «from» : t.from = tx.from
  chainId : t.chainId = tx.chainId
  «to» : t.to = tx.to
  target : t.target = tx.target
  data : t.data = tx.data
  value : t.value = some (tx.value.getD 0)

section
variable {G : Guard engine} {s s' : State engine} {w w' : World} {i : ℕ} {l : Local} {o : Op}
  {a : Except Err o.Choice} {r : Except Err o.Reply} {t : Transaction} {q : QueueId} {tx : InsertedTransaction}

/-! ### Notes and the trace -/

/-- What a process noted happened. -/
structure Notes.Happened (l : Notes) (i : ℕ) (tr : List (Event Calls)) : Prop where
  drawn : ∀ id, l.drawn = some id → ∃ a, (⟨i, .randomUUID, a, .ok id⟩ : Event Calls) ∈ tr
  filed : ∀ k n q, l.filed = some (k, n, q) → ∃ a u, (⟨i, .zaddNonceMap k n q, a, .ok u⟩ : Event Calls) ∈ tr
  stored : ∀ t, l.stored = some t → ∃ a u, (⟨i, .setTransaction t, a, .ok u⟩ : Event Calls) ∈ tr

theorem Notes.Happened.cons {l : Notes} {tr : List (Event Calls)} (h : l.Happened i tr) (e : Event Calls) :
    l.Happened i (e :: tr) := by
  refine ⟨fun id hid => ?_, fun k n q hq => ?_, fun t ht => ?_⟩
  · obtain ⟨a, ha⟩ := h.drawn id hid
    exact ⟨a, List.mem_cons_of_mem _ ha⟩
  · obtain ⟨a, u, ha⟩ := h.filed k n q hq
    exact ⟨a, u, List.mem_cons_of_mem _ ha⟩
  · obtain ⟨a, u, ha⟩ := h.stored t ht
    exact ⟨a, u, List.mem_cons_of_mem _ ha⟩

theorem Notes.Happened.next {l : Notes} {tr : List (Event Calls)} (h : l.Happened i tr) (o : Op)
    (a : Except Err o.Choice) (r : Except Err o.Reply) : (l.next o r).Happened i (⟨i, o, a, r⟩ :: tr) := by
  have hkept := h.cons ⟨i, o, a, r⟩
  cases r with
  | error e =>
    rw [next_error]
    exact hkept
  | ok x =>
    cases o with
    | randomUUID =>
      refine ⟨fun id hid => ⟨a, ?_⟩, hkept.filed, hkept.stored⟩
      obtain rfl : x = id := Option.some.inj hid
      exact List.mem_cons_self
    | zaddNonceMap k n q =>
      refine ⟨hkept.drawn, fun k' n' q' hq => ⟨a, x, ?_⟩, hkept.stored⟩
      obtain ⟨rfl, hnq⟩ := Prod.mk.inj (Option.some.inj hq)
      obtain ⟨rfl, rfl⟩ := Prod.mk.inj hnq
      exact List.mem_cons_self
    | setTransaction t =>
      refine ⟨hkept.drawn, hkept.filed, fun t' ht => ⟨a, x, ?_⟩⟩
      obtain rfl : t = t' := Option.some.inj ht
      exact List.mem_cons_self
    | getTransaction q => exact ⟨hkept.drawn, hkept.filed, hkept.stored⟩
    | _ => exact hkept

theorem happened (k : Request) (i : ℕ) (tr : List (Event Calls)) :
    (notesContract.after (notesContract.init k) i tr).Happened i tr := by
  induction tr with
  | nil =>
    have hnothing : Notes.Happened { request := k } i [] := by
      constructor
      · intro id hid
        cases hid
      · intro n k q hq
        cases hq
      · intro t ht
        cases ht
    exact hnothing
  | cons e tr ih =>
    obtain ⟨j, o, a, r⟩ := e
    rw [Protocol.after]
    split_ifs with hj
    · obtain rfl : j = i := hj
      exact ih.next o a r
    · exact ih.cons _

/-- The record that a process works on is the one it noted. -/
theorem noted_read (k : Request) (i : ℕ) (tr : List (Event Calls))
    (h : (recordContract.after (recordContract.init k) i tr).read = some t) :
    (notesContract.after (notesContract.init k) i tr).read = some t := by
  have hnext : ∀ (l : Local) (n : Notes) (o : Op) (r : Except Err o.Reply), (l.read = some t → n.read = some t) →
      (l.next o r).read = some t → (n.next o r).read = some t := by
    intro l n o r hl hread
    cases r with
    | error e =>
      rw [Notes.next_error]
      refine hl ?_
      rw [Local.next_error] at hread
      split at hread
      · exact hread
      · unfold Local.threw at hread
        split_ifs at hread <;> exact hread
    | ok x =>
      cases o with
      | getTransaction q => exact hread
      | accountSendTransaction c address tx => cases c <;> exact hl hread
      | existsTransaction q => cases x <;> exact hl hread
      | getLatestBlock c =>
        cases x with
        | none =>
          refine hl ?_
          simp only [Local.next, Local.threw] at hread
          split_ifs at hread <;> exact hread
        | some b => exact hl hread
      | saddSent k n =>
        refine hl ?_
        simp only [Local.next] at hread
        split at hread <;> exact hread
      | setTransaction t' =>
        refine hl ?_
        simp only [Local.next] at hread
        split at hread <;> exact hread
      | sendJobCompleted q n => cases hread
      | sendJobFailed q n => cases hread
      | mineJobCompleted q => cases hread
      | mineJobFailed q => cases hread
      | _ => exact hl hread
  induction tr with
  | nil => cases h
  | cons e tr ih =>
    rw [Protocol.after] at h ⊢
    split_ifs at h ⊢
    · exact hnext _ _ _ _ ih h
    · exact ih h

/-- A process is noted under the request of its thread. -/
theorem requests_of_noted {x : Local × Notes} (hx : s.localOf noted i = some x) :
    ∃ k p, s.threads[i]? = some (k, p) ∧ x.1 = recordContract.after (recordContract.init k) i s.trace ∧
      x.2 = notesContract.after (notesContract.init k) i s.trace ∧ x.1.request = k ∧ x.2.request = k := by
  obtain ⟨⟨k, p⟩, hi, rfl⟩ := Option.map_eq_some_iff.mp hx
  have hboth := Protocol.after_prod (P := recordContract.toProtocol) (R := notesContract.toProtocol)
    (recordContract.init k) (notesContract.init k) i s.trace
  have hrecords := recordContract.after_keeps (J := fun l : Local => l.request = k) (l := recordContract.init k) rfl
    (fun l o r h => next_request.trans h) i s.trace
  have hnotes := notesContract.after_keeps (J := fun l : Notes => l.request = k) (l := notesContract.init k) rfl
    (fun l o r h => (Notes.next_request r).trans h) i s.trace
  refine ⟨k, p, hi, congrArg Prod.fst hboth, congrArg Prod.snd hboth, ?_, ?_⟩
  · exact (congrArg (fun l => Local.request l.1) hboth).trans hrecords
  · exact (congrArg (fun l => Notes.request l.2) hboth).trans hnotes

/-! ### Records -/

/-- What a write makes of the call: an insertion stores the one it was asked for, all others keep the one they read. -/
theorem Writes.origin (h : Writes l t) :
    (∃ tx key simulate, l.request = .insertTransaction tx key simulate) ∨
      ∃ r, l.read = some r ∧ SameCall r t ∧ t.isUserOp = r.isUserOp := by
  have hsame : ∀ r : Transaction, SameCall r r := fun r => ⟨rfl, rfl, rfl, rfl, rfl, rfl, rfl⟩
  have hretried : ∀ (r : Transaction) n,
      SameCall r (manuallyRetried r n) ∧ (manuallyRetried r n).isUserOp = r.isUserOp := by
    intro r n
    unfold manuallyRetried
    split_ifs
    · exact ⟨⟨rfl, rfl, rfl, rfl, rfl, rfl, rfl⟩, rfl⟩
    · exact ⟨hsame r, rfl⟩
  have hof : ∀ (r : Transaction) n, SameCall (manuallyRetried r n) t → SameCall r t := by
    intro r n h'
    obtain ⟨h1, h2, h3, h4, h5, h6, h7⟩ := (hretried r n).1
    exact ⟨h'.queueId.trans h1, h'.from.trans h2, h'.chainId.trans h3, h'.to.trans h4, h'.data.trans h5,
      h'.value.trans h6, h'.target.trans h7⟩
  cases h with
  | queued tx key simulate q hreq => exact Or.inl ⟨tx, key, simulate, hreq⟩
  | unpopulated r q n message hreq hheld hread =>
    exact Or.inr ⟨r, hread, hof r n ⟨rfl, rfl, rfl, rfl, rfl, rfl, rfl⟩, (hretried r n).2⟩
  | sent r q n hash block hphase hsend =>
    exact Or.inr ⟨r, hsend.read, hof r n ⟨rfl, rfl, rfl, rfl, rfl, rfl, rfl⟩, hsend.eoa.symm⟩
  | sentUserOp r q n hash block hreq hheld hread hphase hqueued huser =>
    exact Or.inr ⟨r, hread, hof r n ⟨rfl, rfl, rfl, rfl, rfl, rfl, rfl⟩, huser.symm⟩
  | resent r q n hashes hash block hreq hphase hsend =>
    exact Or.inr ⟨r, hsend.read, ⟨rfl, rfl, rfl, rfl, rfl, rfl, rfl⟩, rfl⟩
  | failed r q n message hreq hheld hexhausted hread =>
    exact Or.inr ⟨r, hread, ⟨rfl, rfl, rfl, rfl, rfl, rfl, rfl⟩, rfl⟩
  | mined r q hashes receipt hreq hheld hread =>
    exact Or.inr ⟨r, hread, ⟨rfl, rfl, rfl, rfl, rfl, rfl, rfl⟩, rfl⟩
  | minedUserOp r q raw receipt message hreq hheld hread =>
    exact Or.inr ⟨r, hread, ⟨rfl, rfl, rfl, rfl, rfl, rfl, rfl⟩, rfl⟩
  | timedOut r q hreq hheld hexhausted hread =>
    exact Or.inr ⟨r, hread, ⟨rfl, rfl, rfl, rfl, rfl, rfl, rfl⟩, rfl⟩
  | cancelledQueued r q block hreq hread hidle hqueued heoa =>
    exact Or.inr ⟨r, hread, ⟨rfl, rfl, rfl, rfl, rfl, rfl, rfl⟩, heoa.symm⟩
  | cancelledSent r q hash hreq hread =>
    exact Or.inr ⟨r, hread, ⟨rfl, rfl, rfl, rfl, rfl, rfl, rfl⟩, rfl⟩
  | retried r q b c fee priority hreq hread =>
    exact Or.inr ⟨r, hread, ⟨rfl, rfl, rfl, rfl, rfl, rfl, rfl⟩, rfl⟩
  | syncRetried r q b c hashes hash block hreq hphase hsend =>
    exact Or.inr ⟨r, hsend.read, ⟨rfl, rfl, rfl, rfl, rfl, rfl, rfl⟩, rfl⟩

theorem Stands.of_sameCall {r : Transaction} (h : Stands tx r) (hs : SameCall r t) (huser : t.isUserOp = r.isUserOp) :
    Stands tx t :=
  ⟨huser.trans h.isUserOp, hs.from.trans h.from, hs.chainId.trans h.chainId, hs.to.trans h.to,
    hs.target.trans h.target, hs.data.trans h.data, hs.value.trans h.value⟩

/-- What every write makes of the record it was computed from, and what stays true as the run goes on, holds of all
records, stored or read. -/
theorem each_record_later {P : State engine → Transaction → Prop} (h : Reachable G (State.initial w) s)
    (hlater : ∀ s s' t, s.Later s' → P s t → P s' t) (h0 : ∀ q t, w.transactions q = some t → P (State.initial w) t)
    (hwrite : ∀ s i x t, Reachable G (State.initial w) s → s.localOf noted i = some x → Writes x.1 t →
      x.2.Allowed (.setTransaction t) → (∀ r, x.1.read = some r → P s r) → P s t) :
    (∀ q t, s.world.transactions q = some t → P s t) ∧ ∀ i l r, process s i = some l → l.read = some r → P s r := by
  refine h.invariant_later noted (fun s => (∀ q t, s.world.transactions q = some t → P s t) ∧
    ∀ i l r, process s i = some l → l.read = some r → P s r) ?_ ?_ ?_
  · exact ⟨h0, by simp [process, State.initial, State.localOf]⟩
  · intro s s' n k _ ih hl st
    refine ⟨fun q t ht => ?_, fun j l' r hl' hr => ?_⟩
    · rw [(transactions_after_start st.left).1] at ht
      exact hlater _ _ _ hl (ih.1 q t ht)
    · rcases process_after_start st.left hl' with ⟨-, rfl⟩ | ⟨-, hj⟩
      · cases hr
      · exact hlater _ _ _ hl (ih.2 j l' r hj hr)
  · intro s s' i x o a r hr ih hl st
    have hread : ∀ r, x.1.read = some r → P s r := fun r => ih.2 i x.1 r st.left.caller
    refine ⟨fun q t ht => ?_, fun j l' t hl' ht => ?_⟩
    · rcases stored_after_call st.left ht with ht | ⟨hs, -, hw⟩
      · exact hlater _ _ _ hl (ih.1 q t ht)
      · obtain rfl : o = .setTransaction t := op_of_stores hs
        exact hlater _ _ _ hl (hwrite s i x t hr st.caller hw st.allowed.2 hread)
    · refine hlater _ _ _ hl ?_
      rcases process_after_call st.left hl' with ⟨-, rfl⟩ | ⟨-, hj⟩
      · rcases (localStep (i := i) st.left.allowed st.performed).read_cases ht with ht | ⟨q, ht⟩
        · exact hread t ht
        · exact ih.1 q t ht
      · exact ih.2 j l' t hj ht

/-! ### Calls that were asked for -/

theorem Asked.later (h : Asked s q tx) (hl : s.Later s') : Asked s' q tx := by
  obtain ⟨i, key, simulate, p, drawn, hi, hid, hdrawn⟩ := h
  obtain ⟨p', hi'⟩ := hl.threads i _ p hi
  refine ⟨i, key, simulate, p', drawn, hi', hid, fun id hd => ?_⟩
  obtain ⟨a, ha⟩ := hdrawn id hd
  exact ⟨a, hl.trace _ ha⟩

/-- An insertion stores what it was asked for. -/
theorem asked_of_allowed {x : Local × Notes} (hx : s.localOf noted i = some x) {key : Option String} {simulate : Bool}
    (hreq : x.1.request = .insertTransaction tx key simulate) (hallowed : x.2.Allowed (.setTransaction t)) :
    Asked s t.queueId tx ∧ Stands tx t := by
  obtain ⟨k, p, hi, -, hnotes, hk, hk'⟩ := requests_of_noted hx
  have hsame : k = .insertTransaction tx key simulate := hk.symm.trans hreq
  obtain ⟨q, hid, rfl⟩ := hallowed tx key simulate (hk'.trans hsame)
  have hhappened := happened k i s.trace
  rw [← hnotes] at hhappened
  refine ⟨⟨i, key, simulate, p, x.2.drawn, hsame ▸ hi, hid, hhappened.drawn⟩, ?_⟩
  exact ⟨rfl, rfl, rfl, rfl, rfl, rfl, rfl⟩

theorem asked_records (hw : ∀ q, w.transactions q = none) (h : Reachable G (State.initial w) s) :
    (∀ q t, s.world.transactions q = some t → ∃ tx, Asked s t.queueId tx ∧ Stands tx t) ∧
      ∀ i l r, process s i = some l → l.read = some r → ∃ tx, Asked s r.queueId tx ∧ Stands tx r := by
  refine each_record_later (P := fun s t => ∃ tx, Asked s t.queueId tx ∧ Stands tx t) h ?_ ?_ ?_
  · rintro s s' t hl ⟨tx, hasked, hstands⟩
    exact ⟨tx, hasked.later hl, hstands⟩
  · intro q t ht
    rw [hw q] at ht
    cases ht
  · intro s i x t _ hx hwrites hallowed hread
    rcases hwrites.origin with ⟨tx, key, simulate, hreq⟩ | ⟨r, hr, hs, huser⟩
    · exact ⟨tx, asked_of_allowed hx hreq hallowed⟩
    · obtain ⟨tx, hasked, hstands⟩ := hread r hr
      exact ⟨tx, hs.queueId ▸ hasked, hstands.of_sameCall hs huser⟩

theorem CallOf.of_carries {r : Transaction} {recipient : Option Address} {hash : TransactionHash} (h : Stands tx r)
    (hc : Carries r recipient hash) (hto : recipient = r.to ∨ recipient = r.to.or r.target) : CallOf tx hash := by
  refine ⟨hc.signer.trans h.from, hc.chainId.trans h.chainId, ?_, hc.data.trans h.data, hc.value.trans h.value⟩
  rw [hc.to, ← h.to, ← h.target]
  exact hto

theorem Authentic.later {x : Submission} (h : Authentic s x) (hl : s.Later s') : Authentic s' x := by
  cases x with
  | broadcast c hash =>
    cases c with
    | transaction q =>
      obtain ⟨tx, hasked, hrest⟩ := h
      exact ⟨tx, hasked.later hl, hrest⟩
    | cancellation => exact h
  | userOp q u =>
    obtain ⟨tx, hasked, hrest⟩ := h
    exact ⟨tx, hasked.later hl, hrest⟩

/-- A call for a transaction is submitted from its record. -/
theorem authentic_of_submits {x : Submission} {l' : Local} (h : Submits l x l')
    (hread : ∀ r, l.read = some r → ∃ tx, Asked s r.queueId tx ∧ Stands tx r) : Authentic s x := by
  cases h with
  | first r q n hash hsend =>
    obtain ⟨tx, hasked, hstands⟩ := hread r hsend.read
    exact ⟨tx, hasked, hstands.isUserOp.symm.trans hsend.eoa, .of_carries hstands hsend.carries (Or.inr rfl)⟩
  | again r hash hsend =>
    obtain ⟨tx, hasked, hstands⟩ := hread r hsend.read
    exact ⟨tx, hasked, hstands.isUserOp.symm.trans hsend.eoa, .of_carries hstands hsend.carries (Or.inl rfl)⟩
  | bundle r q n u hreq hheld hr hqueued huser =>
    obtain ⟨tx, hasked, hstands⟩ := hread r hr
    exact ⟨tx, hasked, hstands.isUserOp.symm.trans huser⟩

/-- A submission of no transaction is a cancellation, which moves nothing. -/
theorem nullCall_of_submits {l : Notes} {x : Submission} (hx : submits ⟨i, o, a, r⟩ = some x) (hq : x.queueId = none)
    (hallowed : l.Allowed o) (hpossible : o.possible r) : Authentic s x := by
  cases o with
  | accountSendTransaction c signer tx =>
    cases r with
    | error e => cases hx
    | ok hash =>
      cases hx
      cases c with
      | transaction q => cases hq
      | cancellation =>
        have hhash : hash = ⟨signer, tx⟩ := hpossible
        rw [hhash]
        exact hallowed
  | bundleUserOp q u =>
    cases r with
    | error e => cases hx
    | ok hash =>
      cases hx
      cases hq
  | _ => cases hx

/-- Everything that the network accepted was asked for: each broadcast is the whole call of one insertion, in the name
of its sender, or moves nothing; each user operation is one that an insertion asked for. -/
theorem accepted_was_asked (hw : ∀ q, w.transactions q = none) (hnone : w.accepted = [])
    (h : Reachable G (State.initial w) s) : ∀ x ∈ s.world.accepted, Authentic s x := by
  refine h.invariant_later noted (fun s => ∀ x ∈ s.world.accepted, Authentic s x) ?_ ?_ ?_
  · intro x hx
    rw [show (State.initial w : State engine).world.accepted = [] from hnone] at hx
    cases hx
  · intro s s' n k _ ih hl st x hx
    rw [(transactions_after_start st.left).2.1] at hx
    exact (ih x hx).later hl
  · intro s s' i y o a r hr ih hl st x hx
    rw [World.accepted_of_effect (i := i) st.performed] at hx
    rcases List.mem_append.mp hx with hnew | hold
    · have hsubmits : submits ⟨i, o, a, r⟩ = some x := Option.mem_toList.mp hnew
      refine Authentic.later ?_ hl
      cases hq : x.queueId with
      | none => exact nullCall_of_submits hsubmits hq st.allowed.2 st.possible.2
      | some q =>
        have hstep := localStep (i := i) st.left.allowed st.performed
        exact authentic_of_submits (hstep.of_submits hsubmits hq).2 fun r hread =>
          (asked_records hw hr).2 i y.1 r st.left.caller hread
    · exact (ih x hold).later hl

theorem accepted_was_asked_sent : ∃ s : State engine,
    .broadcast (.transaction transferId) (transferHash 0) ∈ s.world.accepted ∧
      ∀ x ∈ s.world.accepted, Authentic s x := by
  obtain ⟨s, hs, hr⟩ := exists_reachable_of_run anyRun World.empty insertedAndSent
    (fun s => .broadcast (.transaction transferId) (transferHash 0) ∈ s.world.accepted) (by decide +kernel)
  exact ⟨s, of_decide_eq_true hr, accepted_was_asked (fun _ => rfl) rfl hs⟩

/-! ### Nonces that were filed -/

theorem Filed.later {tr tr' : List (Event Calls)} {k : Wallet} {n : ℤ} (h : Filed tr k n q) (hl : ∀ e ∈ tr, e ∈ tr') :
    Filed tr' k n q := by
  obtain ⟨i, a, u, he⟩ := h
  exact ⟨i, a, u, hl _ he⟩

/-- A broadcast for a transaction is of a nonce that was filed, or repeats a sent record. -/
theorem filed_of_allowed {x : Local × Notes} {signer : Address} {tx : SerializableTransaction}
    (hx : s.localOf noted i = some x) (hallowed : x.2.Allowed (.accountSendTransaction (.transaction q) signer tx)) :
    Filed s.trace ⟨tx.chainId, signer⟩ tx.nonce q ∨ ∃ r, x.2.read = some r ∧ r.status = .sent := by
  obtain ⟨k, p, -, -, hnotes, -, -⟩ := requests_of_noted hx
  rcases hallowed with hfiled | hsent
  · have hhappened := happened k i s.trace
    rw [← hnotes] at hhappened
    exact Or.inl ⟨i, hhappened.filed _ _ _ hfiled⟩
  · exact Or.inr hsent

/-- Broadcasts and sent records have their nonces filed under their owners. -/
structure NoncesFiled (s : State engine) : Prop where
  accepted : ∀ q hash, .broadcast (.transaction q) hash ∈ s.world.accepted →
    Filed s.trace hash.wallet hash.nonce q
  stored : ∀ q t, s.world.transactions q = some t → t.status = .sent → t.isUserOp = false →
    ∃ n, t.nonce = some n ∧ Filed s.trace t.wallet n t.queueId
  read : ∀ i l t, process s i = some l → l.read = some t → t.status = .sent → t.isUserOp = false →
    ∃ n, t.nonce = some n ∧ Filed s.trace t.wallet n t.queueId

/-- A write of a sent record: a first send, or one more of a sent record. -/
theorem Writes.sent_cases (h : Writes l t) (hsent : t.status = .sent) (heoa : t.isUserOp = false) :
    (∃ r q n hash, l.phase = .marked hash ∧ FirstSend l r q n hash ∧ t.nonce = some hash.nonce ∧
      t.wallet = hash.wallet ∧ t.queueId = r.queueId) ∨
    ∃ r, l.read = some r ∧ r.status = .sent ∧ r.isUserOp = false ∧ t.nonce = r.nonce ∧ t.wallet = r.wallet ∧
      t.queueId = r.queueId := by
  cases h with
  | sent r q n hash block hphase hsend =>
    have hwallet : hash.wallet = r.wallet := hsend.carries.wallet
    refine Or.inl ⟨r, q, n, hash, hphase, hsend, rfl, ?_, ?_⟩
    · rw [hwallet]
      simp [sentTransaction, Transaction.wallet]
    · simp [sentTransaction]
  | sentUserOp => cases heoa
  | resent r q n hashes hash block hreq hphase hsend =>
    exact Or.inr ⟨r, hsend.read, hsend.sent, hsend.eoa, rfl, rfl, rfl⟩
  | syncRetried r q b c hashes hash block hreq hphase hsend =>
    exact Or.inr ⟨r, hsend.read, hsend.sent, hsend.eoa, rfl, rfl, rfl⟩
  | retried r q b c fee priority hreq hread hidle hsent =>
    exact Or.inr ⟨r, hread, hsent, heoa, rfl, rfl, rfl⟩
  | _ => cases hsent

private theorem filed_of_writes (hfiled : NoncesFiled s) (hsound : l.Sound s.world) (hl : process s i = some l)
    (h : Writes l t)
    (hsent : t.status = .sent) (heoa : t.isUserOp = false) :
    ∃ n, t.nonce = some n ∧ Filed s.trace t.wallet n t.queueId := by
  rcases h.sent_cases hsent heoa with ⟨r, q, n, hash, hphase, hsend, hnonce, hwallet, hqueue⟩ |
    ⟨r, hread, hstatus, huser, hnonce, hwallet, hqueue⟩
  · have haccepted := hsound.submitted hsend.read (Or.inr hphase)
    refine ⟨hash.nonce, hnonce, ?_⟩
    rw [hwallet, hqueue]
    exact hfiled.accepted _ _ haccepted
  · rw [hnonce, hwallet, hqueue]
    exact hfiled.read i l r hl hread hstatus huser

private theorem filed_of_submits {x : Local × Notes} {l' : Local} {hash : TransactionHash} (hfiled : NoncesFiled s)
    (hx : s.localOf noted i = some x) (hl : process s i = some x.1)
    (h : Submits x.1 (.broadcast (.transaction q) hash) l')
    (hallowed : x.2.Allowed (.accountSendTransaction (.transaction q) hash.signer hash.transaction)) :
    Filed s.trace hash.wallet hash.nonce q := by
  cases h with
  | first r q' n hash hsend =>
    rcases filed_of_allowed hx hallowed with hnew | ⟨r', hread, hsent⟩
    · exact hnew
    · -- the record that is sent first is not sent yet
      obtain ⟨k, p, -, hrecord, hnotes, -, -⟩ := requests_of_noted hx
      have hsame := noted_read k i s.trace (hrecord ▸ hsend.read)
      rw [← hnotes, hread] at hsame
      obtain rfl := Option.some.inj hsame
      exact absurd hsent (ne_sent_of_queued hsend.queued)
  | again r hash hsend =>
    obtain ⟨n, hnonce, hn⟩ := hfiled.read i x.1 r hl hsend.read hsend.sent hsend.eoa
    rw [hsend.carries.wallet, hsend.nonce n hnonce]
    exact hn

private theorem noncesFiled (hw : ∀ q, w.transactions q = none) (hnone : w.accepted = [])
    (h : Reachable G (State.initial w) s) : NoncesFiled s := by
  refine h.invariant_later noted NoncesFiled ?_ ?_ ?_
  · have hnothing : (State.initial w : State engine).world.accepted = [] := hnone
    refine ⟨fun q hash hx => ?_, fun q t ht => ?_, fun i l t hl => ?_⟩
    · rw [hnothing] at hx
      cases hx
    · cases (hw q).symm.trans ht
    · cases hl
  · intro s s' n k _ ih hl st
    obtain ⟨hstored, haccepted, -⟩ := transactions_after_start st.left
    refine ⟨fun q hash hx => ?_, fun q t ht hsent heoa => ?_, fun j l' t hl' ht hsent heoa => ?_⟩
    · exact (ih.accepted q hash (haccepted ▸ hx)).later hl.trace
    · obtain ⟨n, hn, hf⟩ := ih.stored q t (hstored ▸ ht) hsent heoa
      exact ⟨n, hn, hf.later hl.trace⟩
    · rcases process_after_start st.left hl' with ⟨-, rfl⟩ | ⟨-, hj⟩
      · cases ht
      · obtain ⟨n, hn, hf⟩ := ih.read j l' t hj ht hsent heoa
        exact ⟨n, hn, hf.later hl.trace⟩
  · intro s s' i x o a r hr ih hl st
    have hstep := localStep (i := i) st.left.allowed st.performed
    have hsound := sound hr st.left.caller
    refine ⟨fun q hash hx => ?_, fun q t ht hsent heoa => ?_, fun j l' t hl' ht hsent heoa => ?_⟩
    · rw [World.accepted_of_effect (i := i) st.performed] at hx
      rcases List.mem_append.mp hx with hnew | hold
      · have hsubmits : submits ⟨i, o, a, r⟩ = some (.broadcast (.transaction q) hash) := Option.mem_toList.mp hnew
        have hcall : o = .accountSendTransaction (.transaction q) hash.signer hash.transaction := by
          have hpossible : o.possible r := st.possible.2
          cases o with
          | accountSendTransaction c signer tx =>
            cases r with
            | error e => cases hsubmits
            | ok hash' =>
              cases hsubmits
              have hhash : hash = ⟨signer, tx⟩ := hpossible
              rw [hhash]
          | bundleUserOp q u => cases r <;> cases hsubmits
          | _ => cases hsubmits
        have hallowed := st.allowed.2
        rw [hcall] at hallowed
        exact (filed_of_submits ih st.caller st.left.caller (hstep.of_submits hsubmits rfl).2 hallowed).later hl.trace
      · exact (ih.accepted q hash hold).later hl.trace
    · rcases stored_after_call st.left ht with ht | ⟨-, -, hwrites⟩
      · obtain ⟨n, hn, hf⟩ := ih.stored q t ht hsent heoa
        exact ⟨n, hn, hf.later hl.trace⟩
      · obtain ⟨n, hn, hf⟩ := filed_of_writes ih hsound st.left.caller hwrites hsent heoa
        exact ⟨n, hn, hf.later hl.trace⟩
    · have hbefore : ∃ n, t.nonce = some n ∧ Filed s.trace t.wallet n t.queueId := by
        rcases process_after_call st.left hl' with ⟨-, rfl⟩ | ⟨-, hj⟩
        · rcases hstep.read_cases ht with ht | ⟨q, ht⟩
          · exact ih.read i x.1 t st.left.caller ht hsent heoa
          · exact ih.stored q t ht hsent heoa
        · exact ih.read j l' t hj ht hsent heoa
      obtain ⟨n, hn, hf⟩ := hbefore
      exact ⟨n, hn, hf.later hl.trace⟩

/-- Whatever was broadcast for a transaction, the wallet's nonce map had its nonce under the transaction's id before. -/
theorem broadcast_was_filed (hw : ∀ q, w.transactions q = none) (hnone : w.accepted = [])
    (h : Reachable G (State.initial w) s) {hash : TransactionHash}
    (hx : .broadcast (.transaction q) hash ∈ s.world.accepted) : Filed s.trace hash.wallet hash.nonce q :=
  (noncesFiled hw hnone h).accepted q hash hx

theorem broadcast_was_filed_sent : ∃ s : State engine, Filed s.trace (transferHash 0).wallet 0 transferId := by
  obtain ⟨s, hs, hr⟩ := exists_reachable_of_run anyRun World.empty insertedAndSent
    (fun s => .broadcast (.transaction transferId) (transferHash 0) ∈ s.world.accepted) (by decide +kernel)
  exact ⟨s, broadcast_was_filed (fun _ => rfl) rfl hs (of_decide_eq_true hr)⟩

/-! ### Nonces that are marked as sent -/

private theorem sent_of_effect (h : w.effect o a = some (r, w')) {k : Wallet} {n : ℤ} (hn : n ∈ w'.sent k) :
    n ∈ w.sent k ∨ o = .saddSent k n := by
  obtain ⟨e, -, rfl, -⟩ | ⟨c, x, -, -, -, hx⟩ := World.effect_cases h
  · exact Or.inl hn
  · cases o with
    | saddSent k' m =>
      obtain ⟨-, rfl⟩ := Prod.mk.inj (Option.some.inj hx)
      by_cases hk : k = k'
      · subst hk
        have hmem : n ∈ insert m (w.sent k) := by simpa using hn
        rcases Finset.mem_insert.mp hmem with rfl | hold
        · exact Or.inr rfl
        · exact Or.inl hold
      · have hother : n ∈ w.sent k := by simpa [Function.update_of_ne hk] using hn
        exact Or.inl hother
    | sremSent k' m =>
      obtain ⟨-, rfl⟩ := Prod.mk.inj (Option.some.inj hx)
      by_cases hk : k = k'
      · subst hk
        have hmem : n ∈ (w.sent k).erase m := by simpa using hn
        exact Or.inl (Finset.mem_of_mem_erase hmem)
      · have hother : n ∈ w.sent k := by simpa [Function.update_of_ne hk] using hn
        exact Or.inl hother
    | _ =>
      have hsame := (World.sameExcept_of_apply hx).sent (by rintro ⟨⟩)
      rw [hsame] at hn
      exact Or.inl hn

/-- A nonce is in `nonce-sent` only when the network accepted a broadcast of the wallet with it. -/
theorem sent_was_accepted (hsent : ∀ k, w.sent k = ∅) (h : Reachable G (State.initial w) s) {k : Wallet} {n : ℤ}
    (hn : n ∈ s.world.sent k) : ∃ q hash, .broadcast (.transaction q) hash ∈ s.world.accepted ∧ hash.wallet = k ∧
      hash.nonce = n := by
  refine h.invariant recordContract (fun s => ∀ k n, n ∈ s.world.sent k →
    ∃ q hash, .broadcast (.transaction q) hash ∈ s.world.accepted ∧ hash.wallet = k ∧ hash.nonce = n) ?_ ?_ ?_ k n hn
  · intro k n hn
    rw [show (State.initial w : State engine).world.sent k = ∅ from hsent k] at hn
    exact absurd hn (Finset.notMem_empty n)
  · intro s s' m k' _ ih st k n hn
    obtain ⟨-, haccepted, -, hsame, -⟩ := transactions_after_start st
    rw [hsame] at hn
    rw [haccepted]
    exact ih k n hn
  · intro s s' i l o a r hr ih st k n hn
    have hgrows := grows_after_call st
    rcases sent_of_effect st.performed hn with hold | rfl
    · obtain ⟨q, hash, hx, hk, hm⟩ := ih k n hold
      exact ⟨q, hash, hgrows.accepted _ hx, hk, hm⟩
    · have hallowed : Allowed l (.saddSent k n) := st.allowed
      cases hallowed with
      | ignore _ hi => cases hi
      | mark t q m hash hphase hsend =>
        have haccepted := (sound hr st.caller).submitted hsend.read (Or.inl hphase)
        exact ⟨t.queueId, hash, hgrows.accepted _ haccepted, hsend.carries.wallet, rfl⟩

theorem sent_was_accepted_sent : ∃ s : State engine, 0 ∈ s.world.sent (transferHash 0).wallet ∧
    ∃ q hash, .broadcast (.transaction q) hash ∈ s.world.accepted ∧ hash.wallet = (transferHash 0).wallet ∧
      hash.nonce = 0 := by
  obtain ⟨s, hs, hr⟩ := exists_reachable_of_run anyRun World.empty insertedAndSent
    (fun s => (0 : ℤ) ∈ s.world.sent (transferHash 0).wallet) (by decide +kernel)
  have hn := of_decide_eq_true hr
  exact ⟨s, hn, sent_was_accepted (fun _ => rfl) hs hn⟩

/-! ### Announcements -/

/-- The record that thread `i` stored last, as far as it knows. -/
def storedBy (i : ℕ) (tr : List (Event Calls)) : Option Transaction :=
  tr.findSome? fun
    | ⟨j, .setTransaction t, _, .ok _⟩ => if j = i then some t else none
    | _ => none

private theorem storedBy_eq (k : Request) (i : ℕ) (tr : List (Event Calls)) :
    (notesContract.after (notesContract.init k) i tr).stored = storedBy i tr := by
  induction tr with
  | nil => rfl
  | cons e tr ih =>
    obtain ⟨j, o, a, r⟩ := e
    rw [Protocol.after]
    unfold storedBy at ih ⊢
    rw [List.findSome?_cons]
    by_cases hj : j = i
    · rw [if_pos hj]
      cases r with
      | error e =>
        have hnext := Notes.next_error (l := notesContract.after (notesContract.init k) i tr) (o := o) e
        cases o <;> exact (congrArg Notes.stored hnext).trans ih
      | ok x =>
        cases o with
        | setTransaction t =>
          simp only [if_pos hj]
          rfl
        | _ => exact ih
    · rw [if_neg hj]
      cases o with
      | setTransaction t => cases r <;> simp only [if_neg hj] <;> exact ih
      | _ => exact ih

/-- A webhook names the status of the record that its process stored last, before it enqueued the webhook. -/
theorem announced_was_stored (h : Reachable G (State.initial w) s) {type : WebhooksEventTypes}
    {a : Except Err Unit} {r : Except Err Unit} {tr tr' : List (Event Calls)}
    (htrace : s.trace = tr ++ ⟨i, .enqueueWebhook type q, a, r⟩ :: tr') :
    ∃ t, storedBy i tr' = some t ∧ t.queueId = q ∧ t.status.webhookType = some type := by
  obtain ⟨k, p, -, hallowed⟩ := h.allowed_at notesContract htrace
  obtain ⟨t, ht, hq, htype⟩ : Notes.Allowed _ (.enqueueWebhook type q) := hallowed
  exact ⟨t, (storedBy_eq k i tr').symm.trans ht, hq, htype⟩

theorem announced_was_stored_mined : ∃ (s : State engine) (i : ℕ) (a r : Except Err Unit) (tr tr' : List (Event Calls))
    (t : Transaction), s.trace = tr ++ ⟨i, .enqueueWebhook .minedTx transferId, a, r⟩ :: tr' ∧ storedBy i tr' = some t ∧
      t.queueId = transferId ∧ t.status.webhookType = some .minedTx := by
  obtain ⟨s, hs, hr⟩ := exists_reachable_of_run anyRun World.empty sentAndMined
    (fun s => s.trace.any fun e => decide (e.op = .enqueueWebhook .minedTx transferId)) (by decide +kernel)
  obtain ⟨⟨i, o, a, r⟩, he, ho⟩ := List.any_eq_true.mp hr
  obtain rfl : o = .enqueueWebhook .minedTx transferId := of_decide_eq_true ho
  obtain ⟨tr, tr', htrace⟩ := List.append_of_mem he
  obtain ⟨t, ht, hq, htype⟩ := announced_was_stored hs htrace
  exact ⟨s, i, a, r, tr, tr', t, htrace, ht, hq, htype⟩

end
end Engine
