import Engine.Indexer.Cursor

/-! The cursor of a subscribed chain is there: what becomes of an add request that cannot set it. -/
namespace Engine.Indexer
open Concurrent Program Function

/-- Every chain with an active subscription has a row in `chain_indexers`. -/
def World.RowsPresent (w : World) : Prop := ∀ c, w.IsSubscribed c → (w.lastIndexedBlock c).isSome = true

/-- Subscribed chains can be indexed, whenever. -/
def CanBeIndexed (G : Guard indexer) (w : World) : Prop :=
  ∀ s : State indexer, Reachable G (State.initial w) s → s.world.RowsPresent

/-- How far an add request is with the cursor of its chain. -/
inductive Starting
  | other
  | asking
  | adding (chainId : ℕ)
  /-- It found the chain without a subscription, and is about to set the cursor. -/
  | unset (chainId : ℕ)
  /-- Whether or not the cursor was set. -/
  | started (chainId : ℕ)
deriving DecidableEq

/-- The call that creates a subscription. -/
def Op.creates : Op → Bool
  | .createContractSubscription _ => true
  | _ => false

namespace Starting

def nextAsking : (o : Op) → Except Err o.Reply → Starting
  | .getChainIdFromChain _, .ok chainId => .adding chainId
  | _, _ => .asking

def nextAdding (chainId : ℕ) : (o : Op) → Except Err o.Reply → Starting
  | .findSubscribedChainIds, .ok subscribedChainIds =>
    if chainId ∈ subscribedChainIds then .started chainId else .unset chainId
  | _, _ => .adding chainId

def nextUnset (chainId : ℕ) : (o : Op) → Except Err o.Reply → Starting
  | .upsertChainIndexer _ _ _, _ | _, .error _ => .started chainId
  | _, .ok _ => .unset chainId

def next (l : Starting) (o : Op) (r : Except Err o.Reply) : Starting :=
  match l with
  | .other => .other
  | .asking => nextAsking o r
  | .adding c => nextAdding c o r
  | .unset c => nextUnset c o r
  | .started c => .started c

/-- A subscription is created after the cursor of its chain was looked after. -/
inductive Allowed : Starting → Op → Prop
  | other (o : Op) (h : o.creates = false) : Allowed .other o
  | plain (l : Starting) (o : Op) (h : o.isPlain = true) (hc : o.creates = false) : Allowed l o
  | ask (c : ℕ) : Allowed (.unset c) (.getBlockNumber c)
  | reset (c : ℕ) (v : ℤ) : Allowed (.unset c) (.upsertChainIndexer none c v)
  | create (c : ℕ) (params : CreateContractSubscriptionParams) (h : params.chainId = c) :
      Allowed (.started c) (.createContractSubscription params)

def protocol : Protocol Calls where
  Local := Starting
  next := next
  allowed := Allowed
  possible _ _ := True

variable {l : Starting} {o : Op} {c : ℕ} {α : Type}

theorem follows_startIndexing : (startIndexing c).Follows protocol
    (fun l r => r = .ok () → l = .started c) (.adding c) := by
  refine follows_await (P := protocol) (.plain _ _ rfl rfl) (fun chains _ => ?_) (fun _ _ h => by cases h)
  dsimp only
  split
  · rename_i hmem
    exact fun _ => if_pos hmem
  · rename_i hnot
    have hn : protocol.next (.adding c) .findSubscribedChainIds (.ok chains) = .unset c := if_neg hnot
    rw [hn]
    refine Follows.handle (Q := fun (l : Starting) _ => l = .started c) ?_ (fun _ _ h _ => h) (fun _ _ h _ => h)
    refine follows_await (P := protocol) (.plain _ _ rfl rfl) (fun _ _ => ?_) (fun _ _ => rfl)
    refine follows_await (P := protocol) (.ask c) (fun v _ => ?_) (fun _ _ => rfl)
    exact follows_perform (P := protocol) (.reset c v) fun _ _ => rfl

theorem follows_insertWebhookFor (webhookUrl : Option String) :
    (insertWebhookFor webhookUrl).Follows protocol (fun l _ => l = .started c) (.started c) := by
  unfold insertWebhookFor
  split
  · rfl
  · refine Follows.bind (Q := fun (l : Starting) _ => l = .started c) ?_ (fun l valid hl => ?_) (fun _ _ h => h)
    · exact follows_await (P := protocol) (.plain _ _ rfl rfl) (fun _ _ => rfl) (fun _ _ => rfl)
    · obtain rfl := hl
      split
      · exact follows_await (P := protocol) (.plain _ _ rfl rfl) (fun _ _ => rfl) (fun _ _ => rfl)
      · rfl

theorem follows_addContractSubscription (body : AddBody) :
    (Indexer.addContractSubscription body).Follows protocol (fun _ _ => True) .asking := by
  refine follows_await (P := protocol) (.plain _ _ rfl rfl) (fun c _ => ?_) (fun _ _ => trivial)
  dsimp only
  split
  · trivial
  · refine follows_await (P := protocol) (.plain _ _ rfl rfl) (fun _ _ => ?_) (fun _ _ => trivial)
    refine follows_await (P := protocol) (.plain _ _ rfl rfl) (fun valid _ => ?_) (fun _ _ => trivial)
    split
    · trivial
    · refine Follows.bind follows_startIndexing (fun l u hl => ?_) (fun _ _ _ => trivial)
      obtain rfl := hl rfl
      refine Follows.bind (follows_insertWebhookFor _) (fun l webhookId hl => ?_) (fun _ _ _ => trivial)
      obtain rfl := hl
      exact follows_await (P := protocol) (.create c _ rfl) (fun _ _ => trivial) (fun _ _ => trivial)

end Starting

/-! ### Who creates subscriptions -/

abbrev Uncreating {α : Type} (p : Prog α) : Prop := p.Only fun o : Op => o.creates = false

theorem uncreating_await {o : Op} (ho : o.creates = false) : Uncreating (await o) := only_perform ho

theorem uncreating_addProcessEventsLog (data : EnqueueData EventLogFilter) :
    Uncreating (addProcessEventsLog data) := by
  refine (uncreating_await rfl).bind fun delays => (uncreating_await rfl).bind fun _ => ?_
  exact only_forEach (fun x => uncreating_await rfl) _

theorem uncreating_addProcessTransactionReceipts (data : EnqueueData TransactionReceiptFilter) :
    Uncreating (addProcessTransactionReceipts data) := by
  refine (uncreating_await rfl).bind fun delays => (uncreating_await rfl).bind fun _ => ?_
  exact only_forEach (fun x => uncreating_await rfl) _

theorem uncreating_enqueueEventLogs (c : ℕ) (subs : List ContractSubscription) (b v : ℤ) :
    Uncreating (enqueueEventLogs c subs b v) := by
  unfold enqueueEventLogs
  split
  · exact uncreating_addProcessEventsLog _
  · exact only_done _

theorem uncreating_enqueueTransactionReceipts (c : ℕ) (subs : List ContractSubscription) (b v : ℤ) :
    Uncreating (enqueueTransactionReceipts c subs b v) := by
  unfold enqueueTransactionReceipts
  split
  · exact uncreating_addProcessTransactionReceipts _
  · exact only_done _

theorem uncreating_indexBlocks (c pgtx : ℕ) (b v : ℤ) : Uncreating (indexBlocks c pgtx b v) := by
  refine (uncreating_await rfl).bind fun subs => ?_
  refine (uncreating_enqueueEventLogs c subs b v).bind fun _ => ?_
  refine (uncreating_enqueueTransactionReceipts c subs b v).bind fun _ => ?_
  have hwrite : Uncreating (upsertChainIndexer (some pgtx) c v) := uncreating_await rfl
  exact hwrite.handle fun _ => only_done _

theorem uncreating_indexFrom (c maxBlocksToIndex toBlockOffset pgtx : ℕ) (b : ℤ) :
    Uncreating (indexFrom c maxBlocksToIndex toBlockOffset pgtx b) := by
  refine (uncreating_await rfl).bind fun _ => (uncreating_await rfl).bind fun n => ?_
  dsimp only
  split
  · exact only_done _
  · refine (uncreating_await rfl).bind fun block => ?_
    split
    · exact uncreating_indexBlocks _ _ _ _
    · exact only_done _

theorem uncreating_chainIndexerTask (c maxBlocksToIndex toBlockOffset : ℕ) :
    Uncreating (Indexer.chainIndexerTask c maxBlocksToIndex toBlockOffset) := by
  refine Only.handle ((uncreating_await rfl).bind fun pgtx => ?_) fun _ => only_done _
  have hselect : Uncreating (getBlockForIndexing c pgtx) := by
    refine (uncreating_await rfl).bind fun row => ?_
    split
    · exact only_done _
    · exact only_raise _
  refine Only.bind (Only.attempt (hselect.attempt.bind fun row => ?_)) fun result => ?_
  · split
    · exact only_done _
    · exact uncreating_indexFrom _ _ _ _ _
  · split
    · exact uncreating_await rfl
    · exact ((uncreating_await rfl).handle fun _ => only_done _).bind fun _ => only_raise _

theorem uncreating_removeContractSubscription (id : String) :
    Uncreating (Indexer.removeContractSubscription id) := by
  refine (uncreating_await rfl).bind fun s => ?_
  split
  · exact uncreating_await rfl
  · exact only_done _

def startContract : Contract indexer where
  toProtocol := Starting.protocol
  init
    | .addContractSubscription _ => .asking
    | _ => .other
  ends _ _ := True
  answers _ _ _ _ _ _ := trivial
  starts w k p w' h := by
    have hother : Uncreating p → p.Follows Starting.protocol (fun _ _ => True) .other := by
      intro honly
      refine (honly.follows_in (P := Starting.protocol) (F := fun l => l = .other) (fun l o hl ho => ?_)
        (fun l o r hl _ => ?_) rfl).mono fun _ _ _ => trivial
      · rw [hl]
        exact .other o ho
      · rw [hl]
        rfl
    cases k with
    | addContractSubscription body =>
      cases Option.some.inj h
      exact Starting.follows_addContractSubscription body
    | chainIndexerTask c m o =>
      cases Option.some.inj h
      exact hother (uncreating_chainIndexerTask c m o)
    | removeContractSubscription id =>
      cases Option.some.inj h
      exact hother (uncreating_removeContractSubscription id)
    | expire pgtx =>
      cases Option.some.inj h
      exact hother (uncreating_await rfl)
    | advanceHead c n =>
      cases Option.some.inj h
      exact hother (uncreating_await rfl)

/-- A failing call here does not leave the chain without a row. -/
def Starting.mayFail (w : World) : Starting → Bool
  | .unset c => (w.lastIndexedBlock c).isSome
  | _ => true

/-- No call of an add request fails while it is about to set the cursor of a chain without a row. -/
def startsRows : Guard indexer where
  start _ _ := true
  call s i _ a := a.isOk || (s.localOf startContract i).all fun l : Starting => l.mayFail s.world

/-! ### Rows stay -/

section
variable {G : Guard indexer} {s s' : State indexer} {w w' : World} {i : ℕ} {l : Starting} {o : Op}
  {a : Except Err o.Choice} {r : Except Err o.Reply} {c : ℕ}

theorem row_kept (he : w.effect o a = some (r, w')) (h : (w.lastIndexedBlock c).isSome = true) :
    (w'.lastIndexedBlock c).isSome = true := by
  rcases row_of_effect he c with hsame | ⟨-, t, committed, rfl⟩ | ⟨v, x, rfl, rfl⟩
  · rw [hsame]
    exact h
  · unfold World.ended
    dsimp only
    split_ifs
    · simp [h]
    · exact h
  · obtain ⟨e, hr, -⟩ | ⟨z, q, -, -, hx⟩ := World.effect_cases he
    · cases hr
    · simp only [World.apply] at hx
      split_ifs at hx
      obtain ⟨-, rfl⟩ := Prod.mk.inj (Option.some.inj hx)
      simp

/-- A call that failed did nothing. -/
theorem effect_error {e : Err} (he : w.effect o a = some (.error e, w')) : a.isOk = false ∧ w' = w := by
  cases a with
  | error x =>
    obtain ⟨-, rfl⟩ := Prod.mk.inj (Option.some.inj he)
    exact ⟨rfl, rfl⟩
  | ok x =>
    obtain ⟨y, -, hy⟩ := Option.map_eq_some_iff.mp he
    cases hy

/-- An add request is done with the cursor of its chain when the chain has a row. -/
theorem row_of_started (hrows : w.RowsPresent) (hl : ∀ c, l = .started c → (w.lastIndexedBlock c).isSome = true)
    (ho : l.Allowed o) (hfail : a.isOk = false → l.mayFail w = true) (he : w.effect o a = some (r, w'))
    (hn : l.next o r = .started c) : (w'.lastIndexedBlock c).isSome = true := by
  cases l with
  | started c' =>
    obtain rfl : c' = c := Starting.started.inj hn
    exact row_kept he (hl c' rfl)
  | adding c' =>
    have hn : Starting.nextAdding c' o r = .started c := hn
    unfold Starting.nextAdding at hn
    split at hn
    · split_ifs at hn with hmem
      obtain rfl : c' = c := Starting.started.inj hn
      obtain ⟨e, hr, -⟩ | ⟨z, q, -, hr, hx⟩ := World.effect_cases he
      · cases hr
      · cases hr
        obtain ⟨rfl, rfl⟩ := Prod.mk.inj (Option.some.inj hx)
        -- the chain is subscribed already
        obtain ⟨sub, hsub, hc⟩ := List.mem_map.mp (List.mem_dedup.mp hmem)
        obtain ⟨hsub, hd⟩ := List.mem_filter.mp hsub
        exact hrows c' ⟨sub, hsub, hc, by simpa using hd⟩
    · cases hn
  | unset c' =>
    have hfailed : ∀ e, r = .error e → (w'.lastIndexedBlock c').isSome = true := by
      intro e hr
      rw [hr] at he
      obtain ⟨ha, hw⟩ := effect_error he
      rw [hw]
      exact hfail ha
    have hn : Starting.nextUnset c' o r = .started c := hn
    unfold Starting.nextUnset at hn
    split at hn
    · obtain rfl : c' = c := Starting.started.inj hn
      cases ho with
      | plain _ _ hplain => cases hplain
      | reset _ v =>
        obtain ⟨e, hr, -⟩ | ⟨z, q, -, -, hx⟩ := World.effect_cases he
        · exact hfailed e hr
        · simp only [World.apply] at hx
          split_ifs at hx
          obtain ⟨-, rfl⟩ := Prod.mk.inj (Option.some.inj hx)
          simp
    · obtain rfl : c' = c := Starting.started.inj hn
      exact hfailed _ rfl
    · cases hn
  | other => cases hn
  | asking =>
    have hn : Starting.nextAsking o r = .started c := hn
    unfold Starting.nextAsking at hn
    split at hn <;> cases hn

/-- Subscribed chains have rows, and so do the chains that add requests are done with. -/
structure RowsKept (s : State indexer) : Prop where
  rows : s.world.RowsPresent
  started : ∀ i c, s.localOf startContract i = some (.started c) → (s.world.lastIndexedBlock c).isSome = true

abbrev Asked (s s' : State indexer) (i : ℕ) (l : Starting) (o : Op) (a : Except Err o.Choice)
    (r : Except Err o.Reply) : Prop := Stepped startContract startsRows s s' i l o a r

theorem Asked.mayFail (st : Asked s s' i l o a r) (ha : a.isOk = false) : l.mayFail s.world = true := by
  have hgranted : startsRows.call s i o a = true := st.granted
  have hcaller : s.localOf startContract i = some l := st.caller
  simpa [startsRows, ha, hcaller] using hgranted

theorem RowsKept.call (h : RowsKept s) (st : Asked s s' i l o a r) : RowsKept s' := by
  have hperformed : s.world.effect o a = some (r, s'.world) := st.performed
  have hlocal : ∀ c, l = .started c → (s.world.lastIndexedBlock c).isSome = true := by
    intro c hl
    apply h.started i c
    rw [← hl]
    exact st.caller
  constructor
  · intro c hsub
    rcases subscribed_of_effect hperformed hsub with hold | ⟨params, rfl, -, hc⟩
    · exact row_kept hperformed (h.rows c hold)
    · -- the request that creates a subscription is done with the cursor of the chain
      have hallowed : l.Allowed (.createContractSubscription params) := st.allowed
      cases hallowed with
      | other _ ho => cases ho
      | plain _ _ _ ho => cases ho
      | create c' _ hc' => exact row_kept hperformed (hlocal c ((hc'.symm.trans hc) ▸ rfl))
  · intro j c hl
    rcases st.localOf hl with ⟨-, hn⟩ | ⟨-, hj⟩
    · exact row_of_started h.rows hlocal st.allowed st.mayFail hperformed hn.symm
    · exact row_kept hperformed (h.started j c hj)

/-- Every subscribed chain has a row. -/
theorem can_be_indexed (hw : w.RowsPresent) : CanBeIndexed startsRows w := by
  intro s hs
  have hkept : RowsKept s := by
    refine hs.invariant startContract RowsKept ?_ ?_ (fun _ _ _ _ _ _ _ _ ih st => ih.call st)
    · constructor
      · exact hw
      · intro i c hl
        cases hl
    · intro s s' m k _ ih st
      obtain ⟨p, hp⟩ := st.started
      have hworld : s'.world = s.world := by cases k <;> exact (Prod.mk.inj (Option.some.inj hp)).2.symm
      constructor
      · rw [hworld]
        exact ih.rows
      · intro j c hl
        rw [hworld]
        rcases st.localOf hl with ⟨-, hinit⟩ | ⟨-, hj⟩
        · cases k <;> cases hinit
        · exact ih.started j c hj
  exact hkept.rows

end

/-! ### Runs -/

/-- Chain 1 is at block 10 and was never indexed. -/
def unindexed : World := { tenth with lastIndexedBlock := fun _ => none }

theorem rowsPresent_unindexed : unindexed.RowsPresent := by
  intro c hsub
  obtain ⟨sub, hsub, -, -⟩ := hsub
  cases hsub

/-- A first subscription of chain 1. Its webhook could not be inserted, and the request is made again. -/
def addedTwice : List (Move indexer) :=
  starts (.addContractSubscription { addBody with webhookUrl := some "https://example.com" }) ::
    proceeds 0 8 (answering 10 "a") ++ proceeds 0 1 throwing ++
    starts (.addContractSubscription addBody) :: proceeds 1 8 (answering 10 "a")

theorem can_be_indexed_addedTwice : ∃ s : State indexer, s.world.IsSubscribed 1 ∧
    (s.world.lastIndexedBlock 1).isSome = true := by
  obtain ⟨s, hs, hr⟩ := exists_reachable_of_run startsRows unindexed addedTwice
    (fun s : State indexer => s.world.subscriptions.any fun sub => decide (sub.chainId = 1 ∧ sub.deleted = false))
    (by decide +kernel)
  obtain ⟨sub, hsub, hactive⟩ := List.any_eq_true.mp hr
  have hsubscribed : s.world.IsSubscribed 1 := ⟨sub, hsub, of_decide_eq_true hactive⟩
  exact ⟨s, hsubscribed, can_be_indexed rowsPresent_unindexed s hs 1 hsubscribed⟩

/-- A first subscription of chain 1, whose head cannot be read. -/
def addedHeadless : List (Move indexer) :=
  starts (.addContractSubscription addBody) :: proceeds 0 5 (answering 10 "a") ++ proceeds 0 1 throwing ++
    proceeds 0 1 (answering 10 "a")

theorem not_can_be_indexed : ¬ ∀ w : World, w.RowsPresent → CanBeIndexed anyRequests w := by
  intro hgeneral
  obtain ⟨s, hs, hr⟩ := exists_reachable_of_run anyRequests unindexed addedHeadless
    (fun s : State indexer => decide (s.world.lastIndexedBlock 1 = none) &&
      s.world.subscriptions.any fun sub => decide (sub.chainId = 1 ∧ sub.deleted = false)) (by decide +kernel)
  simp only [Bool.and_eq_true, decide_eq_true_eq, List.any_eq_true] at hr
  obtain ⟨hnone, sub, hsub, hactive⟩ := hr
  have hrow := hgeneral unindexed rowsPresent_unindexed s hs 1 ⟨sub, hsub, hactive⟩
  rw [hnone] at hrow
  cases hrow

end Engine.Indexer
