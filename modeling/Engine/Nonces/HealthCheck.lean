import Engine.Concurrent.History
import Engine.Model.Types

/-! `nonceHealthCheckWorker.ts`: the checks of a wallet run side by side, each over the last observations of its
nonces. -/
namespace Engine.HealthCheck
open Concurrent Program Function

def CHECK_PERIODS : ℕ := 3

structure NonceState where
  onchainNonce : ℤ
  largestSentNonce : ℤ
deriving DecidableEq

inductive Err
  /-- The call was not performed. -/
  | refused
  /-- The call was performed, and its reply was lost. -/
  | lost
deriving DecidableEq

inductive Op
  | ethGetTransactionCount (k : Wallet)
  /-- `GET` of the last used nonce. -/
  | getNonce (k : Wallet)
  /-- `MULTI`, `LPUSH` and `LTRIM` -/
  | pushTrimmed (k : Wallet) (state : NonceState)
  | lrange (k : Wallet) (periods : ℕ)
  /-- The chain executes a transaction of the wallet. -/
  | mined (k : Wallet)
  /-- The senders, resyncs and resets leave this nonce. -/
  | moved (k : Wallet) (nonce : Option ℤ)
deriving DecidableEq

@[reducible] def Op.Reply : Op → Type
  | .ethGetTransactionCount _ => ℕ
  | .getNonce _ => Option ℤ
  | .lrange _ _ => List NonceState
  | _ => Unit

abbrev Calls : Interface := ⟨Op, Op.Reply, fun _ => Unit, Err⟩

abbrev await (o : Op) : Program Calls o.Reply := Program.perform (I := Calls) o

structure World where
  counts : Wallet → ℕ
  nonces : Wallet → Option ℤ
  /-- From newest to oldest. -/
  histories : Wallet → List NonceState

namespace World

def reply (w : World) : (o : Op) → o.Reply
  | .ethGetTransactionCount k => w.counts k
  | .getNonce k => w.nonces k
  | .lrange k periods => (w.histories k).take periods
  | .pushTrimmed _ _ => ()
  | .mined _ => ()
  | .moved _ _ => ()

def after (w : World) : Op → World
  | .pushTrimmed k state => { w with histories := update w.histories k ((state :: w.histories k).take CHECK_PERIODS) }
  | .mined k => { w with counts := update w.counts k (w.counts k + 1) }
  | .moved k nonce => { w with nonces := update w.nonces k nonce }
  | _ => w

def effect (w : World) (o : Op) : Except Err Unit → Option (Except Err o.Reply × World)
  | .ok _ => some (.ok (w.reply o), w.after o)
  | .error .refused => some (.error .refused, w)
  | .error .lost => some (.error .lost, w.after o)

end World

/-! ### Programs -/

def getLastUsedOnchainNonce (k : Wallet) : Program Calls ℤ := do
  let transactionCount ← await (.ethGetTransactionCount k)
  pure ((transactionCount : ℤ) - 1)

def inspectNonce (k : Wallet) : Program Calls ℤ := do
  let nonce ← await (.getNonce k)
  pure (nonce.getD 0)

/-- The two nonces are asked for at once, and come in either order. -/
def getCurrentNonceState (k : Wallet) (onchainFirst : Bool) : Program Calls NonceState :=
  if onchainFirst then do
    let onchainNonce ← getLastUsedOnchainNonce k
    let largestSentNonce ← inspectNonce k
    pure { onchainNonce, largestSentNonce }
  else do
    let largestSentNonce ← inspectNonce k
    let onchainNonce ← getLastUsedOnchainNonce k
    pure { onchainNonce, largestSentNonce }

def updateNonceHistory (k : Wallet) (onchainFirst : Bool) : Program Calls Unit := do
  let currentState ← getCurrentNonceState k onchainFirst
  await (.pushTrimmed k currentState)

/-- `historicalStates.every(…)` -/
def isStuckForAllPeriods (historicalStates : List NonceState) : Bool :=
  historicalStates.zipIdx.all fun (state, index) =>
    if historicalStates.getLast?.map NonceState.onchainNonce ≠ some state.onchainNonce then false
    else if index = historicalStates.length - 1 then true
    else historicalStates[index + 1]?.all fun previousState => previousState.largestSentNonce < state.largestSentNonce

def isQueueStuck (k : Wallet) : Program Calls Bool := do
  let historicalStates ← await (.lrange k CHECK_PERIODS)
  if historicalStates.length < CHECK_PERIODS then pure false else pure (isStuckForAllPeriods historicalStates)

/-- What the handler starts for a wallet, each on its own, and what goes on around it. -/
inductive Kind
  | updateNonceHistory (k : Wallet) (onchainFirst : Bool)
  | isQueueStuck (k : Wallet)
  | getCurrentNonceState (k : Wallet) (onchainFirst : Bool)
  | mined (k : Wallet)
  | moved (k : Wallet) (nonce : Option ℤ)
deriving DecidableEq

/-- Whether a queue is stuck, where a program is for that. -/
def Kind.program : Kind → Program Calls Bool
  | updateNonceHistory k onchainFirst => do
    HealthCheck.updateNonceHistory k onchainFirst
    pure false
  | isQueueStuck k => HealthCheck.isQueueStuck k
  | getCurrentNonceState k onchainFirst => do
    let _ ← HealthCheck.getCurrentNonceState k onchainFirst
    pure false
  | mined k => do
    await (.mined k)
    pure false
  | moved k nonce => do
    await (.moved k nonce)
    pure false

abbrev worker : Machine Calls Bool where
  World := World
  Kind := Kind
  effect := World.effect
  start w k := some (k.program, w)

/-! ### Contract -/

structure Progress where
  kind : Kind
  count : Option ℕ := none
  nonce : Option ℤ := none
  historicalStates : Option (List NonceState) := none
  pushed : Bool := false

namespace Progress

def next (l : Progress) : (o : Op) → Except Err o.Reply → Progress
  | .ethGetTransactionCount _, .ok transactionCount => { l with count := some transactionCount }
  | .getNonce _, .ok nonce => { l with nonce := some (nonce.getD 0) }
  | .lrange _ _, .ok historicalStates => { l with historicalStates := some historicalStates }
  | .pushTrimmed _ _, _ => { l with pushed := true }
  | _, _ => l

/-- What was read is what is pushed, once. -/
def Allowed (l : Progress) : Op → Prop
  | .ethGetTransactionCount k => (∃ b, l.kind = .updateNonceHistory k b) ∨ ∃ b, l.kind = .getCurrentNonceState k b
  | .pushTrimmed k state => (∃ b, l.kind = .updateNonceHistory k b) ∧ l.pushed = false ∧
    ∃ c, l.count = some c ∧ state.onchainNonce = (c : ℤ) - 1 ∧ l.nonce = some state.largestSentNonce
  | .lrange k periods => l.kind = .isQueueStuck k ∧ periods = CHECK_PERIODS
  | _ => True

def Ends (l : Progress) : Except Err Bool → Prop
  | .ok b => (∃ k, l.kind = .isQueueStuck k) → ∃ states, l.historicalStates = some states ∧
    b = (!decide (states.length < CHECK_PERIODS) && isStuckForAllPeriods states)
  | .error _ => True

end Progress

abbrev protocol : Protocol Calls where
  Local := Progress
  next := Progress.next
  allowed := Progress.Allowed
  possible _ _ := True

/-- The two numbers of a state have been read. -/
def HasRead (l l' : Progress) : Except Err NonceState → Prop
  | .ok state => l'.kind = l.kind ∧ l'.pushed = l.pushed ∧
    ∃ c, l'.count = some c ∧ state.onchainNonce = (c : ℤ) - 1 ∧ l'.nonce = some state.largestSentNonce
  | .error _ => True

theorem follows_getCurrentNonceState {l : Progress} {k : Wallet} (onchainFirst : Bool)
    (hl : (∃ b, l.kind = .updateNonceHistory k b) ∨ ∃ b, l.kind = .getCurrentNonceState k b) :
    (getCurrentNonceState k onchainFirst).Follows protocol (HasRead l) l := by
  cases onchainFirst with
  | true =>
    refine ⟨hl, fun r _ => ?_⟩
    cases r with
    | error e => trivial
    | ok c =>
      refine ⟨trivial, fun r _ => ?_⟩
      cases r with
      | error e => trivial
      | ok n => exact ⟨rfl, rfl, c, rfl, rfl, rfl⟩
  | false =>
    refine ⟨trivial, fun r _ => ?_⟩
    cases r with
    | error e => trivial
    | ok n =>
      refine ⟨hl, fun r _ => ?_⟩
      cases r with
      | error e => trivial
      | ok c => exact ⟨rfl, rfl, c, rfl, rfl, rfl⟩

theorem ends_other {l : Progress} {r : Except Err Bool} (h : ∀ k, l.kind ≠ .isQueueStuck k) : l.Ends r := by
  cases r with
  | ok b =>
    intro hkind
    obtain ⟨k, hk⟩ := hkind
    exact absurd hk (h k)
  | error e => trivial

theorem follows_program (k : Kind) : k.program.Follows protocol Progress.Ends { kind := k } := by
  cases k with
  | updateNonceHistory k onchainFirst =>
    have hread := follows_getCurrentNonceState (l := { kind := .updateNonceHistory k onchainFirst }) onchainFirst
      (Or.inl ⟨onchainFirst, rfl⟩)
    have hpush : (updateNonceHistory k onchainFirst).Follows protocol
        (fun l' r => r = .ok () → l'.kind = .updateNonceHistory k onchainFirst)
        { kind := .updateNonceHistory k onchainFirst } := by
      refine hread.bind (fun l' state hl => ?_) fun _ _ _ => nofun
      obtain ⟨hkind, hpushed, c, hcount, honchain, hsent⟩ := hl
      exact follows_perform (P := protocol) ⟨⟨onchainFirst, hkind⟩, hpushed, c, hcount, honchain, hsent⟩
        fun r _ _ => hkind
    refine hpush.bind (fun l' _ hl => ends_other fun k' => ?_) fun _ _ _ => trivial
    rw [hl rfl]
    exact nofun
  | isQueueStuck k =>
    refine follows_await (P := protocol) ⟨rfl, rfl⟩ (fun states _ => ?_) fun _ _ => trivial
    show Follows protocol _ (if states.length < CHECK_PERIODS then _ else _) _
    split_ifs with hshort
    · exact fun _ => ⟨states, rfl, by simp [hshort]⟩
    · exact fun _ => ⟨states, rfl, by simp [hshort]⟩
  | getCurrentNonceState k onchainFirst =>
    have hread := follows_getCurrentNonceState (l := { kind := .getCurrentNonceState k onchainFirst }) onchainFirst
      (Or.inr ⟨onchainFirst, rfl⟩)
    refine hread.bind (fun l' state hl => ends_other fun k' => ?_) fun _ _ _ => trivial
    rw [hl.1]
    exact nofun
  | mined k => exact follows_await (P := protocol) trivial (fun _ _ => ends_other nofun) fun _ _ => trivial
  | moved k nonce => exact follows_await (P := protocol) trivial (fun _ _ => ends_other nofun) fun _ _ => trivial

def contract : Contract worker where
  toProtocol := protocol
  init k := { kind := k }
  ends := Progress.Ends
  answers _ _ _ _ _ _ := trivial
  starts w k p w' h := by
    obtain ⟨rfl, -⟩ := Prod.mk.inj (Option.some.inj h)
    exact follows_program k

/-! ### What is observed -/

def performed (e : Event Calls) : Bool := e.answer ≠ .error .refused

/-- The state of wallet `k` that a call adds to its history. -/
def observed (k : Wallet) (e : Event Calls) : Option NonceState :=
  match e.op with
  | .pushTrimmed k' state => if k' = k ∧ performed e = true then some state else none
  | _ => none

/-- All states observed of a wallet, from newest to oldest. -/
def observations (k : Wallet) (tr : List (Event Calls)) : List NonceState := tr.filterMap (observed k)

def mines (k : Wallet) (e : Event Calls) : Bool := e.op = .mined k && performed e

/-- How many transactions of the wallet were mined. -/
def minings (k : Wallet) (tr : List (Event Calls)) : ℕ := tr.countP (mines k)

/-- A transaction count that a call read. -/
def countRead : Event Calls → Option (Wallet × ℕ)
  | ⟨_, .ethGetTransactionCount k, _, .ok c⟩ => some (k, c)
  | _ => none

/-- A history that a call read. -/
def historyRead : Event Calls → Option (Wallet × List NonceState)
  | ⟨_, .lrange k _, _, .ok states⟩ => some (k, states)
  | _ => none

/-- A call was told the truth, after the calls of `tr`. -/
structure Told (w₀ : World) (e : Event Calls) (tr : List (Event Calls)) : Prop where
  count : ∀ k c, countRead e = some (k, c) → c = w₀.counts k + minings k tr
  history : ∀ k states, historyRead e = some (k, states) → states = (observations k tr).take CHECK_PERIODS

structure Logged (w₀ : World) (s : State worker) : Prop where
  histories : ∀ k, s.world.histories k = (observations k s.trace).take CHECK_PERIODS
  counts : ∀ k, s.world.counts k = w₀.counts k + minings k s.trace
  told : ∀ x e tr, s.trace = x ++ e :: tr → Told w₀ e tr

section
variable {G : Guard worker} {w w' w₀ : World} {s s' : State worker} {i n : ℕ} {k : Kind} {l : Progress} {o : Op}
  {a : Except Err Unit} {r : Except Err o.Reply}

theorem effect_cases (h : w.effect o a = some (r, w')) :
    (a = .error .refused ∧ w' = w ∧ r = .error .refused) ∨
      (a ≠ .error .refused ∧ w' = w.after o ∧ ∀ x, r = .ok x → x = w.reply o) := by
  cases a with
  | ok u =>
    obtain ⟨rfl, rfl⟩ := Prod.mk.inj (Option.some.inj h)
    exact Or.inr ⟨nofun, rfl, fun x hx => (Except.ok.inj hx).symm⟩
  | error e =>
    cases e with
    | refused =>
      obtain ⟨rfl, rfl⟩ := Prod.mk.inj (Option.some.inj h)
      exact Or.inl ⟨rfl, rfl, rfl⟩
    | lost =>
      obtain ⟨rfl, rfl⟩ := Prod.mk.inj (Option.some.inj h)
      exact Or.inr ⟨nofun, rfl, nofun⟩

abbrev Called (G : Guard worker) (s s' : State worker) (i : ℕ) (l : Progress) (o : Op) (a : Except Err Unit)
    (r : Except Err o.Reply) : Prop := Stepped contract G s s' i l o a r

theorem Logged.histories_after (h : Logged w₀ s) (st : Called G s s' i l o a r) (k : Wallet) :
    s'.world.histories k = (observations k s'.trace).take CHECK_PERIODS := by
  rw [st.traced, observations, List.filterMap_cons]
  rcases effect_cases st.performed with ⟨rfl, hworld, -⟩ | ⟨hperformed, hworld, -⟩
  · have hnone : observed k ⟨i, o, .error .refused, r⟩ = none := by
      cases o <;> simp [observed, performed]
    rw [hworld, hnone]
    exact h.histories k
  · rw [hworld]
    have hp : performed ⟨i, o, a, r⟩ = true := decide_eq_true hperformed
    cases o with
    | pushTrimmed k' state =>
      by_cases hk : k' = k
      · subst hk
        simp only [World.after, update_self, observed, hp, and_self, if_true]
        rw [h.histories k']
        simp [CHECK_PERIODS, observations, List.take_take]
      · simp only [World.after, update_of_ne (Ne.symm hk), observed, hk, false_and, if_false]
        exact h.histories k
    | _ => exact h.histories k

theorem Logged.counts_after (h : Logged w₀ s) (st : Called G s s' i l o a r) (k : Wallet) :
    s'.world.counts k = w₀.counts k + minings k s'.trace := by
  rw [st.traced, minings, List.countP_cons]
  have hbefore := h.counts k
  rw [minings] at hbefore
  rcases effect_cases st.performed with ⟨rfl, hworld, -⟩ | ⟨hperformed, hworld, -⟩
  · have hnot : mines k ⟨i, o, .error .refused, r⟩ = false := by simp [mines, performed]
    rw [hworld, hnot, hbefore]
    simp
  · rw [hworld]
    have hp : performed ⟨i, o, a, r⟩ = true := decide_eq_true hperformed
    cases o with
    | mined k' =>
      by_cases hk : k' = k
      · subst hk
        simp only [World.after, update_self, mines, hp, hbefore]
        simp
        omega
      · simp only [World.after, update_of_ne (Ne.symm hk), mines, hp, hbefore]
        simp [hk]
    | _ => simp [World.after, mines, hbefore]

theorem Logged.told_called (h : Logged w₀ s) (st : Called G s s' i l o a r) : Told w₀ ⟨i, o, a, r⟩ s.trace := by
  have hreply : ∀ x, r = .ok x → x = s.world.reply o := by
    rcases effect_cases st.performed with ⟨-, -, hrefused⟩ | ⟨-, -, hreply⟩
    · intro x hx
      rw [hrefused] at hx
      cases hx
    · exact hreply
  constructor
  · intro k c hc
    cases o with
    | ethGetTransactionCount k' =>
      cases r with
      | error e => cases hc
      | ok x =>
        obtain ⟨rfl, rfl⟩ := Prod.mk.inj (Option.some.inj hc)
        rw [hreply x rfl]
        exact h.counts k'
    | _ => cases r <;> cases hc
  · intro k states hstates
    cases o with
    | lrange k' periods =>
      cases r with
      | error e => cases hstates
      | ok x =>
        obtain ⟨rfl, rfl⟩ := Prod.mk.inj (Option.some.inj hstates)
        have hperiods : periods = CHECK_PERIODS := st.allowed.2
        have hx : x = (s.world.histories k').take periods := hreply x rfl
        rw [hx, hperiods, h.histories k', List.take_take, Nat.min_self]
    | _ => cases r <;> cases hstates

theorem Logged.called (h : Logged w₀ s) (st : Called G s s' i l o a r) : Logged w₀ s' := by
  refine ⟨h.histories_after st, h.counts_after st, fun x e tr htrace => ?_⟩
  rw [st.traced] at htrace
  cases x with
  | nil =>
    obtain ⟨rfl, rfl⟩ := List.cons.inj htrace
    exact h.told_called st
  | cons e' x => exact h.told x e tr (List.cons.inj htrace).2

theorem logged_of_reachable (hw : ∀ k, w₀.histories k = []) (h : Reachable G (State.initial w₀) s) : Logged w₀ s := by
  refine h.invariant contract (Logged w₀) ⟨fun k => ?_, fun k => rfl, fun x e tr htrace => ?_⟩ ?_
    fun _ _ _ _ _ _ _ _ ih st => ih.called st
  · rw [show (State.initial w₀ : State worker).world = w₀ from rfl, hw k]
    rfl
  · cases x <;> cases htrace
  · intro s s' n k _ ih st
    obtain ⟨p, hp⟩ := st.started
    have hworld : s'.world = s.world := (Prod.mk.inj (Option.some.inj hp)).2.symm
    constructor
    · intro k
      rw [hworld, st.traced]
      exact ih.histories k
    · intro k
      rw [hworld, st.traced]
      exact ih.counts k
    · intro x e tr htrace
      exact ih.told x e tr (st.traced ▸ htrace)

/-! ### From what a program knows to what it was told -/

theorem kind_after (k : Kind) (i : ℕ) (tr : List (Event Calls)) : (protocol.after { kind := k } i tr).kind = k := by
  refine protocol.after_keeps (J := fun l => l.kind = k) rfl (fun l o r hl => ?_) i tr
  cases o <;> cases r <;> exact hl

/-- What a program knows was in the reply to one of its calls. -/
theorem told_after {β : Type} {field : Progress → Option β} {tells : Event Calls → Option β}
    (hnext : ∀ l e x, field (protocol.next l e.op e.reply) = some x → tells e = some x ∨ field l = some x)
    {l : Progress} (hl : field l = none) (i : ℕ) (tr : List (Event Calls)) {x : β}
    (h : field (protocol.after l i tr) = some x) :
    ∃ tr₁ e tr₂, tr = tr₁ ++ e :: tr₂ ∧ e.thread = i ∧ tells e = some x := by
  induction tr with
  | nil =>
    have hnone : field l = some x := h
    rw [hl] at hnone
    cases hnone
  | cons e tr ih =>
    rw [Protocol.after] at h
    split_ifs at h with hthread
    · rcases hnext _ e x h with htells | hbefore
      · exact ⟨[], e, tr, rfl, hthread, htells⟩
      · obtain ⟨tr₁, e', tr₂, rfl, he'⟩ := ih hbefore
        exact ⟨e :: tr₁, e', tr₂, rfl, he'⟩
    · obtain ⟨tr₁, e', tr₂, rfl, he'⟩ := ih h
      exact ⟨e :: tr₁, e', tr₂, rfl, he'⟩

theorem historyRead_of_next {l : Progress} {e : Event Calls} {states : List NonceState}
    (h : (protocol.next l e.op e.reply).historicalStates = some states) :
    (historyRead e).map Prod.snd = some states ∨ l.historicalStates = some states := by
  obtain ⟨i, o, a, r⟩ := e
  cases o <;> cases r <;> first | exact Or.inl h | exact Or.inr h

private theorem wallet_of_historyRead (h : Reachable G (State.initial w₀) s) {tr₁ tr₂ : List (Event Calls)}
    {e : Event Calls}
    (htrace : s.trace = tr₁ ++ e :: tr₂) {k' : Wallet} {states : List NonceState}
    (hread : historyRead e = some (k', states)) : ∃ p, s.threads[e.thread]? = some (.isQueueStuck k', p) := by
  obtain ⟨kd, p, hthread, hallowed⟩ := h.allowed_at contract htrace
  have hkind := kind_after kd e.thread tr₂
  obtain ⟨i, o, a, r⟩ := e
  cases o with
  | lrange k'' periods =>
    cases r with
    | error e => cases hread
    | ok x =>
      obtain ⟨rfl, -⟩ := Prod.mk.inj (Option.some.inj hread)
      have hfor : (protocol.after { kind := kd } i tr₂).kind = .isQueueStuck k'' := hallowed.1
      rw [hkind] at hfor
      exact ⟨p, hfor ▸ hthread⟩
  | _ => cases r <;> cases hread

/-- What `isQueueStuck` says of a history. -/
def judged (states : List NonceState) : Bool := !decide (states.length < CHECK_PERIODS) && isStuckForAllPeriods states

/-- A report is the judgement of the last observations at some moment of its check. -/
theorem judged_of_returned (hw : ∀ k, w₀.histories k = []) (h : Reachable G (State.initial w₀) s) {k : Wallet}
    {b : Bool}
    (hreturned : s.returned i = some (.isQueueStuck k, b)) : ∃ tr₁ e tr₂, s.trace = tr₁ ++ e :: tr₂ ∧ e.thread = i ∧
      historyRead e = some (k, (observations k tr₂).take CHECK_PERIODS) ∧
      b = judged ((observations k tr₂).take CHECK_PERIODS) := by
  obtain ⟨⟨kd, p⟩, hthread, hresult⟩ := Option.bind_eq_some_iff.mp hreturned
  obtain ⟨result, hp, hpair⟩ := Option.map_eq_some_iff.mp hresult
  obtain ⟨rfl, rfl⟩ := Prod.mk.inj hpair
  have hdone : p = .done result := result?_eq_some.mp hp
  subst hdone
  have hends := (h.conforms contract).follows i _ _ hthread
  have hkind := kind_after (.isQueueStuck k) i s.trace
  obtain ⟨states, hstates, hb⟩ := hends ⟨k, hkind⟩
  obtain ⟨tr₁, e, tr₂, htrace, he, htells⟩ := told_after (fun _ _ _ => historyRead_of_next) rfl i s.trace hstates
  obtain ⟨⟨k', states'⟩, hread, hsame⟩ := Option.map_eq_some_iff.mp htells
  have hstates' : states' = states := hsame
  subst hstates'
  obtain ⟨p', hthread'⟩ := wallet_of_historyRead h htrace hread
  rw [he, hthread] at hthread'
  obtain ⟨rfl⟩ := Kind.isQueueStuck.inj (Prod.mk.inj (Option.some.inj hthread')).1
  have hhistory := ((logged_of_reachable hw h).told tr₁ e tr₂ htrace).history k states' hread
  rw [hhistory] at hread hb
  exact ⟨tr₁, e, tr₂, htrace, he, hread, hb⟩

/-- Three observations with the same on-chain nonce, and nonces that rise. -/
theorem judged_take_iff (states : List NonceState) : judged (states.take CHECK_PERIODS) = true ↔
    ∃ o m₂ m₁ m₀ rest, states = ⟨o, m₂⟩ :: ⟨o, m₁⟩ :: ⟨o, m₀⟩ :: rest ∧ m₀ < m₁ ∧ m₁ < m₂ := by
  match states with
  | [] => simp [judged, CHECK_PERIODS]
  | [a] => simp [judged, CHECK_PERIODS]
  | [a, b] => simp [judged, CHECK_PERIODS]
  | ⟨o₂, m₂⟩ :: ⟨o₁, m₁⟩ :: ⟨o₀, m₀⟩ :: rest =>
    have htake : (NonceState.mk o₂ m₂ :: ⟨o₁, m₁⟩ :: ⟨o₀, m₀⟩ :: rest).take CHECK_PERIODS
        = [⟨o₂, m₂⟩, ⟨o₁, m₁⟩, ⟨o₀, m₀⟩] := rfl
    rw [htake]
    simp [judged, CHECK_PERIODS, isStuckForAllPeriods, List.zipIdx]
    omega

end

section
def everything : Guard worker := ⟨fun _ _ => true, fun _ _ _ _ => true⟩

def freshWorld : World := { counts := fun _ => 3, nonces := fun _ => none, histories := fun _ => [] }

def idleWallet : Wallet := ⟨1, 0⟩

def carriedOut : (o : Calls.Op) → Except Calls.Err (Calls.Choice o) := fun _ => .ok ()

/-- The sent nonce moves, and an update observes it. -/
def risen (i : ℕ) (nonce : ℤ) : List (Move worker) :=
  [.start (.moved idleWallet (some nonce)), .call i carriedOut, .start (.updateNonceHistory idleWallet true)] ++
    List.replicate 3 (.call (i + 1) carriedOut)

def stuckRun : List (Move worker) :=
  risen 0 5 ++ risen 2 6 ++ risen 4 7 ++ [.start (.isQueueStuck idleWallet), .call 6 carriedOut]

theorem exists_stuck : ∃ s : State worker, Reachable everything (State.initial freshWorld) s ∧
    s.returned 6 = some (.isQueueStuck idleWallet, true) := by
  have hrun := exists_reachable_of_run everything freshWorld stuckRun
    (fun s => s.returned 6 = some (.isQueueStuck idleWallet, true)) (by decide +kernel)
  obtain ⟨s, hs, hcheck⟩ := hrun
  exact ⟨s, hs, of_decide_eq_true hcheck⟩

end

/-- The kept list of a wallet is always its last three observations, and `isQueueStuck` reports the wallet exactly if
those that it read have one on-chain nonce, and sent nonces that rise from each to the next. -/
theorem stuck_iff {G : Guard worker} {w : World} (hw : ∀ k, w.histories k = []) {s : State worker}
    (h : Reachable G (State.initial w) s) :
    (∀ k, s.world.histories k = (observations k s.trace).take CHECK_PERIODS) ∧
      ∀ i k b, s.returned i = some (.isQueueStuck k, b) → ∃ tr₁ e tr₂, s.trace = tr₁ ++ e :: tr₂ ∧ e.thread = i ∧
        historyRead e = some (k, (observations k tr₂).take CHECK_PERIODS) ∧
        (b = true ↔
          ∃ o m₂ m₁ m₀ rest, observations k tr₂ = ⟨o, m₂⟩ :: ⟨o, m₁⟩ :: ⟨o, m₀⟩ :: rest ∧ m₀ < m₁ ∧ m₁ < m₂) := by
  refine ⟨(logged_of_reachable hw h).histories, fun i k b hreturned => ?_⟩
  obtain ⟨tr₁, e, tr₂, htrace, he, hread, rfl⟩ := judged_of_returned hw h hreturned
  exact ⟨tr₁, e, tr₂, htrace, he, hread, judged_take_iff _⟩

theorem stuck_iff_stuck : ∃ s : State worker, s.returned 6 = some (.isQueueStuck idleWallet, true) ∧
    (∀ k, s.world.histories k = (observations k s.trace).take CHECK_PERIODS) ∧
      ∀ i k b, s.returned i = some (.isQueueStuck k, b) → ∃ tr₁ e tr₂, s.trace = tr₁ ++ e :: tr₂ ∧ e.thread = i ∧
        historyRead e = some (k, (observations k tr₂).take CHECK_PERIODS) ∧
        (b = true ↔
          ∃ o m₂ m₁ m₀ rest, observations k tr₂ = ⟨o, m₂⟩ :: ⟨o, m₁⟩ :: ⟨o, m₀⟩ :: rest ∧ m₀ < m₁ ∧ m₁ < m₂) := by
  obtain ⟨s, hs, hreturned⟩ := exists_stuck
  exact ⟨s, hreturned, stuck_iff (fun _ => rfl) hs⟩

section
variable {G : Guard worker} {w : World} {s : State worker} {k : Wallet} {tr₁ tr₂ : List (Event Calls)} {e : Event Calls}
  {o m : ℤ} {c : ℕ}

end

end Engine.HealthCheck
