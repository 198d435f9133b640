import Engine.Events.Announced

/-! Inserted rows are announced at least once, unless an attempt fails after it inserted them. -/
namespace Engine.Events
open Concurrent Program Keyset
open Indexer (EnqueueData EventLogFilter)

/-- The webhook is one that the subscription sends the item to. -/
structure World.Subscribes (w : World) (item : Item) (sub : Indexer.ContractSubscription) (webhook : Webhooks) :
    Prop where
  stored : sub ∈ w.contractSubscriptions.rows
  active : sub.deleted = false
  chainId : sub.chainId = item.chainId
  contractAddress : sub.contractAddress = item.contractAddress
  webhookId : sub.webhookId = some webhook.id
  webhookStored : webhook ∈ w.webhooks.rows
  revokedAt : webhook.revokedAt = none
  eventType : webhook.eventType = .contractSubscription

/-- The webhook and its subscription on the item's contract were active at the start, and still are. -/
def ActiveThroughout (w₀ w : World) (item : Item) (webhook : Webhooks) : Prop :=
  ∃ sub, w₀.Subscribes item sub webhook ∧ w.Subscribes item sub webhook

/-- `q.add` succeeded for the item and the webhook. -/
def Added (s : State workers) (item : Item) (webhook : Webhooks) : Prop :=
  ∃ e ∈ s.trace, addedBy e.op e.reply = some ⟨.contractSubscription, webhook, item⟩

/-- Every inserted row is announced to every webhook that was active throughout. -/
def Announced (w₀ : World) (s : State workers) : Prop :=
  ∀ e ∈ s.trace, ∀ item ∈ insertedBy e.op e.reply, ∀ webhook, ActiveThroughout w₀ s.world item webhook →
    Added s item webhook

/-- The call throws: before it did anything, or its reply gets lost. -/
def throws : (o : Op) → Except Err o.Choice → Bool
  | _, .error _ => true
  | .sendWebhookQueueAdd _, .ok lost => lost.isSome
  | _, .ok _ => false

/-- The attempt inserted rows. -/
def hasInserted (s : State workers) (i : ℕ) : Bool :=
  s.trace.any fun e => e.thread = i && !(insertedBy e.op e.reply).isEmpty

/-- No attempt fails after it inserted rows. -/
def goesOn : Guard workers where
  start _ _ := true
  call s i o a := !hasInserted s i || !throws o a

/-- The attempt has still to add a job for the data. -/
def Phase.Pending (data : EnqueueContractSubscriptionWebhookData) : Phase → Prop
  | .inserted _ items => data.item ∈ items
  | .adding left => data ∈ left
  | _ => False

/-- The attempt inserted nothing. -/
def Phase.isReading : Phase → Bool
  | .reading _ => true
  | _ => false

/-- The inserted items are of the chain that is looked up. -/
def Phase.OneChain : Phase → Prop
  | .inserted chainId items => ∀ item ∈ items, item.chainId = chainId
  | _ => True

section
variable {s s' : State workers} {w w₀ w' : World} {i : ℕ} {l : Phase} {o : Op} {a : Except Err o.Choice}
  {r : Except Err o.Reply} {item : Item} {webhook : Webhooks} {sub : Indexer.ContractSubscription}

/-! ### Subscriptions and webhooks -/

theorem contractSubscriptions_of_effect (h : w.effect o a = some (r, w')) :
    w'.contractSubscriptions = w.contractSubscriptions ∨
    (∃ row, row.id ∉ w.contractSubscriptions.rows.map Indexer.ContractSubscription.id ∧
      w'.contractSubscriptions = w.contractSubscriptions.insert [row]) ∨
    ∃ id, w'.contractSubscriptions = (w.deleteContractSubscription id).contractSubscriptions := by
  cases a with
  | error e =>
    obtain ⟨-, rfl⟩ := Prod.mk.inj (Option.some.inj h)
    exact Or.inl rfl
  | ok c =>
    cases o with
    | createContractSubscription row =>
      simp only [World.effect, World.apply] at h
      split_ifs at h with hrow
      obtain ⟨-, rfl⟩ := Prod.mk.inj (Option.some.inj h)
      exact Or.inr (Or.inl ⟨row, hrow, rfl⟩)
    | insertWebhook row =>
      simp only [World.effect, World.apply] at h
      split_ifs at h
      obtain ⟨-, rfl⟩ := Prod.mk.inj (Option.some.inj h)
      exact Or.inl rfl
    | deleteContractSubscription id =>
      obtain ⟨-, rfl⟩ := Prod.mk.inj (Option.some.inj h)
      exact Or.inr (Or.inr ⟨id, rfl⟩)
    | _ =>
      obtain ⟨-, rfl⟩ := Prod.mk.inj (Option.some.inj h)
      exact Or.inl rfl

theorem webhooks_of_effect (h : w.effect o a = some (r, w')) :
    w'.webhooks = w.webhooks ∨
    (∃ row, row.id ∉ w.webhooks.rows.map Webhooks.id ∧ w'.webhooks = w.webhooks.insert [row]) ∨
    ∃ id now, w'.webhooks = (w.revokeWebhook id now).webhooks := by
  cases a with
  | error e =>
    obtain ⟨-, rfl⟩ := Prod.mk.inj (Option.some.inj h)
    exact Or.inl rfl
  | ok c =>
    cases o with
    | insertWebhook row =>
      simp only [World.effect, World.apply] at h
      split_ifs at h with hrow
      obtain ⟨-, rfl⟩ := Prod.mk.inj (Option.some.inj h)
      exact Or.inr (Or.inl ⟨row, hrow, rfl⟩)
    | createContractSubscription row =>
      simp only [World.effect, World.apply] at h
      split_ifs at h
      obtain ⟨-, rfl⟩ := Prod.mk.inj (Option.some.inj h)
      exact Or.inl rfl
    | revokeWebhook id now =>
      obtain ⟨-, rfl⟩ := Prod.mk.inj (Option.some.inj h)
      exact Or.inr (Or.inr ⟨id, now, rfl⟩)
    | _ =>
      obtain ⟨-, rfl⟩ := Prod.mk.inj (Option.some.inj h)
      exact Or.inl rfl

theorem keys_deleteContractSubscription (w : World) (id : String) :
    (w.deleteContractSubscription id).contractSubscriptions.rows.map Indexer.ContractSubscription.id =
      w.contractSubscriptions.rows.map Indexer.ContractSubscription.id :=
  Table.keys_modify _ fun s => by split_ifs <;> rfl

private theorem keys_revokeWebhook (w : World) (id now : ℕ) :
    (w.revokeWebhook id now).webhooks.rows.map Webhooks.id = w.webhooks.rows.map Webhooks.id :=
  Table.keys_modify _ fun webhook => by split_ifs <;> rfl

/-- Subscriptions and webhooks are not removed. -/
structure IdsKept (w w' : World) : Prop where
  contractSubscriptions : ∀ id ∈ w.contractSubscriptions.rows.map Indexer.ContractSubscription.id,
    id ∈ w'.contractSubscriptions.rows.map Indexer.ContractSubscription.id
  webhooks : ∀ id ∈ w.webhooks.rows.map Webhooks.id, id ∈ w'.webhooks.rows.map Webhooks.id

theorem idsKept_of_effect (h : w.effect o a = some (r, w')) : IdsKept w w' := by
  constructor
  · intro id hid
    rcases contractSubscriptions_of_effect h with hsame | ⟨row, -, hrow⟩ | ⟨id', hdeleted⟩
    · rwa [hsame]
    · rw [hrow]
      exact Table.key_mem_insert hid
    · rwa [hdeleted, keys_deleteContractSubscription]
  · intro id hid
    rcases webhooks_of_effect h with hsame | ⟨row, -, hrow⟩ | ⟨id', now, hrevoked⟩
    · rwa [hsame]
    · rw [hrow]
      exact Table.key_mem_insert hid
    · rwa [hrevoked, keys_revokeWebhook]

theorem IdsKept.trans {w'' : World} (h : IdsKept w w') (h' : IdsKept w' w'') : IdsKept w w'' :=
  ⟨fun id hid => h'.contractSubscriptions id (h.contractSubscriptions id hid),
    fun id hid => h'.webhooks id (h.webhooks id hid)⟩

/-- What is active was active before. -/
theorem ActiveThroughout.before (hkept : IdsKept w₀ w) (he : w.effect o a = some (r, w'))
    (h : ActiveThroughout w₀ w' item webhook) : ActiveThroughout w₀ w item webhook := by
  obtain ⟨sub, hstart, hnow⟩ := h
  refine ⟨sub, hstart, { hnow with stored := ?_, webhookStored := ?_ }⟩
  · have hid := hkept.contractSubscriptions sub.id (List.mem_map_of_mem hstart.stored)
    have hmem := hnow.stored
    rcases contractSubscriptions_of_effect he with hsame | ⟨row, hfresh, hrow⟩ | ⟨id, hdeleted⟩
    · rwa [hsame] at hmem
    · rw [hrow] at hmem
      rcases Table.mem_insert hmem with hold | ⟨hnew, -⟩
      · exact hold
      · rw [List.mem_singleton.mp hnew] at hid
        exact absurd hid hfresh
    · rw [hdeleted] at hmem
      obtain ⟨old, hold, hsub⟩ := List.mem_map.mp hmem
      split_ifs at hsub
      · have hactive := hnow.active
        rw [← hsub] at hactive
        cases hactive
      · exact hsub ▸ hold
  · have hid := hkept.webhooks webhook.id (List.mem_map_of_mem hstart.webhookStored)
    have hmem := hnow.webhookStored
    rcases webhooks_of_effect he with hsame | ⟨row, hfresh, hrow⟩ | ⟨id, now, hrevoked⟩
    · rwa [hsame] at hmem
    · rw [hrow] at hmem
      rcases Table.mem_insert hmem with hold | ⟨hnew, -⟩
      · exact hold
      · rw [List.mem_singleton.mp hnew] at hid
        exact absurd hid hfresh
    · rw [hrevoked] at hmem
      obtain ⟨old, hold, hsub⟩ := List.mem_map.mp hmem
      split_ifs at hsub
      · have hactive := hnow.revokedAt
        rw [← hsub] at hactive
        cases hactive
      · exact hsub ▸ hold

/-- The lookup finds the webhooks of a subscription. -/
theorem mem_deliveries (h : w.Subscribes item sub webhook) {items : List Item} (hitem : item ∈ items) :
    ⟨.contractSubscription, webhook, item⟩ ∈ deliveries (webhooksOf (w.subscribed item.chainId)) items := by
  have hfound : (w.webhooks.rows.find? fun row => row.id = webhook.id) = some webhook := by
    cases hfind : w.webhooks.rows.find? fun row => row.id = webhook.id with
    | none =>
      have hnone := List.find?_eq_none.mp hfind webhook h.webhookStored
      simp at hnone
    | some row =>
      have hid : row.id = webhook.id := by simpa using List.find?_some hfind
      rw [w.webhooks.eq_of_key_eq (List.mem_of_find?_eq_some hfind) h.webhookStored hid]
  have hrow : (sub, some webhook) ∈ w.subscribed item.chainId := by
    refine List.mem_map.mpr ⟨sub, List.mem_filter.mpr ⟨h.stored, ?_⟩, ?_⟩
    · simp [h.chainId, h.active]
    · rw [h.webhookId, Option.bind_some, hfound]
  have hwebhook : webhook ∈ webhooksOf (w.subscribed item.chainId) item.contractAddress := by
    refine List.mem_filterMap.mpr ⟨(sub, some webhook), List.mem_filter.mpr ⟨hrow, ?_⟩, rfl⟩
    simp [h.contractAddress]
  refine List.mem_flatMap.mpr ⟨item, hitem, List.mem_filter.mpr ⟨List.mem_map_of_mem hwebhook, ?_⟩⟩
  simp [EnqueueContractSubscriptionWebhookData.wanted, h.revokedAt, h.eventType]

/-! ### Attempts -/

/-- A call that inserts rows is the first of its attempt that does. -/
theorem isReading_of_inserted (ho : l.allowed o) (h : insertedBy o r ≠ []) : l.isReading = true := by
  cases l with
  | reading chainId => rfl
  | inserted chainId items =>
    have ho : o = .findSubscriptionsWithWebhook chainId := ho
    subst ho
    exact absurd rfl h
  | adding left =>
    cases left with
    | nil => cases ho
    | cons data left =>
      have ho : o = .sendWebhookQueueAdd data.job := ho
      subst ho
      exact absurd rfl h
  | failed => cases ho

/-- The items of one call are of the chain of its attempt. -/
theorem oneChain_next (hl : l.OneChain) (ho : l.allowed o) (hp : possible o r) : (l.next o r).OneChain := by
  cases l with
  | reading chainId =>
    have hitems : ∀ item ∈ insertedBy o r, item.chainId = chainId := by
      intro item hitem
      unfold insertedBy at hitem
      split at hitem
      · obtain ⟨row, hrow, rfl⟩ := List.mem_map.mp hitem
        exact ho _ (hp row hrow)
      · obtain ⟨row, hrow, rfl⟩ := List.mem_map.mp hitem
        exact ho _ (hp row hrow)
      · cases hitem
    rw [Phase.next_reading]
    split_ifs
    · trivial
    · exact hitems
  | inserted chainId items =>
    rw [Phase.next_inserted]
    cases subscriptionsIn o r <;> trivial
  | adding left =>
    cases left with
    | nil => trivial
    | cons data left =>
      rw [Phase.next_adding]
      split_ifs <;> trivial
  | failed => trivial

theorem throws_of_error {e : Err} (h : w.effect o a = some (.error e, w')) : throws o a = true := by
  cases a with
  | error e => rfl
  | ok c =>
    cases o with
    | sendWebhookQueueAdd job =>
      cases c with
      | none => cases h
      | some lost => rfl
    | createContractSubscription row =>
      simp only [World.effect, World.apply] at h
      split_ifs at h
      cases h
    | insertWebhook row =>
      simp only [World.effect, World.apply] at h
      split_ifs at h
      cases h
    | _ => cases h

/-- An attempt whose calls succeed goes on. -/
theorem next_ne_failed (hl : l ≠ .failed) (ho : l.allowed o) (he : w.effect o a = some (r, w'))
    (hok : l.isReading = false → throws o a = false) : l.next o r ≠ .failed := by
  have hreply : l.isReading = false → ∃ x, r = .ok x := by
    intro hreading
    cases r with
    | error e => exact absurd ((throws_of_error he).symm.trans (hok hreading)) (by decide)
    | ok x => exact ⟨x, rfl⟩
  cases l with
  | reading chainId =>
    rw [Phase.next_reading]
    split_ifs <;> intro hfailed <;> cases hfailed
  | inserted chainId items =>
    obtain ⟨x, rfl⟩ := hreply rfl
    have ho : o = .findSubscriptionsWithWebhook chainId := ho
    subst ho
    intro hfailed
    cases hfailed
  | adding left =>
    cases left with
    | nil => cases ho
    | cons data left =>
      obtain ⟨x, rfl⟩ := hreply rfl
      have ho : o = .sendWebhookQueueAdd data.job := ho
      subst ho
      intro hfailed
      cases hfailed
  | failed => exact absurd rfl hl

/-- Rows that were just inserted are pending. -/
theorem pending_of_inserted (ho : l.allowed o) (hitem : item ∈ insertedBy o r) :
    (l.next o r).Pending ⟨.contractSubscription, webhook, item⟩ := by
  have hne : insertedBy o r ≠ [] := List.ne_nil_of_mem hitem
  have hreading := isReading_of_inserted ho hne
  cases l with
  | reading chainId =>
    rw [Phase.next_reading, if_neg hne]
    exact hitem
  | _ => cases hreading

theorem not_pending_of_over {data : EnqueueContractSubscriptionWebhookData} (h : l.over) : ¬ l.Pending data := by
  intro hpending
  cases l with
  | inserted chainId items => exact h
  | adding left =>
    cases left with
    | nil => cases hpending
    | cons data left => exact h
  | _ => exact hpending

/-- What is pending stays so until it is added. -/
theorem pending_next (hl : l.OneChain) (ho : l.allowed o) (he : w.effect o a = some (r, w'))
    (hok : l.isReading = false → throws o a = false) (h : w.Subscribes item sub webhook)
    (hpending : l.Pending ⟨.contractSubscription, webhook, item⟩) :
    (l.next o r).Pending ⟨.contractSubscription, webhook, item⟩ ∨
      addedBy o r = some ⟨.contractSubscription, webhook, item⟩ := by
  cases l with
  | reading chainId => cases hpending
  | inserted chainId items =>
    have ho : o = .findSubscriptionsWithWebhook chainId := ho
    subst ho
    have hchain : item.chainId = chainId := hl item hpending
    cases a with
    | error e => cases hok rfl
    | ok c =>
      obtain ⟨rfl, -⟩ := Prod.mk.inj (Option.some.inj he)
      subst hchain
      exact Or.inl (mem_deliveries h hpending)
  | adding left =>
    cases left with
    | nil => cases hpending
    | cons data left =>
      have ho : o = .sendWebhookQueueAdd data.job := ho
      subst ho
      cases r with
      | error e => cases (throws_of_error he).symm.trans (hok rfl)
      | ok x =>
        rcases List.mem_cons.mp hpending with hdata | hleft
        · exact Or.inr (congrArg some hdata.symm)
        · exact Or.inl hleft
  | failed => cases hpending

/-! ### Runs -/

/-- Where the attempts are, and what is left of what was inserted. -/
structure Delivering (w₀ : World) (s : State workers) : Prop where
  kept : IdsKept w₀ s.world
  oneChain : ∀ i l, s.localOf announcement i = some l → Phase.OneChain l
  begun : ∀ i l, s.localOf announcement i = some l → Phase.isReading l = false → hasInserted s i = true
  working : ∀ i l, s.localOf announcement i = some l → l ≠ Phase.failed
  delivered : ∀ e ∈ s.trace, ∀ item ∈ insertedBy e.op e.reply, ∀ webhook,
    ActiveThroughout w₀ s.world item webhook → Added s item webhook ∨
      ∃ i l, s.localOf announcement i = some l ∧ Phase.Pending ⟨.contractSubscription, webhook, item⟩ l

abbrev Worked (s s' : State workers) (i : ℕ) (l : Phase) (o : Op) (a : Except Err o.Choice)
    (r : Except Err o.Reply) : Prop := Stepped announcement goesOn s s' i l o a r

theorem Delivering.start {n : ℕ} {k : Kind} (h : Delivering w₀ s) (st : Started announcement goesOn s s' n k) :
    Delivering w₀ s' := by
  obtain ⟨p, hp⟩ := st.started
  have hworld : s'.world = s.world := by cases k <;> exact (Prod.mk.inj (Option.some.inj hp)).2.symm
  have hlocal : ∀ j l, s'.localOf announcement j = some l → l = .reading k.chainId ∨
      s.localOf announcement j = some l := by
    intro j l hl
    rcases st.localOf hl with ⟨-, rfl⟩ | ⟨-, hj⟩
    · exact Or.inl rfl
    · exact Or.inr hj
  constructor
  · rw [hworld]
    exact h.kept
  · intro j l hl
    rcases hlocal j l hl with rfl | hj
    · trivial
    · exact h.oneChain j l hj
  · intro j l hl hreading
    rcases hlocal j l hl with rfl | hj
    · cases hreading
    · unfold hasInserted
      rw [st.traced]
      exact h.begun j l hj hreading
  · intro j l hl
    rcases hlocal j l hl with rfl | hj
    · intro hfailed
      cases hfailed
    · exact h.working j l hj
  · intro e he item hitem webhook hactive
    rw [st.traced] at he
    rw [hworld] at hactive
    rcases h.delivered e he item hitem webhook hactive with ⟨e', he', hadded⟩ | ⟨j, l, hl, hpending⟩
    · exact Or.inl ⟨e', st.traced ▸ he', hadded⟩
    · refine Or.inr ⟨j, l, ?_, hpending⟩
      have hj : j ≠ n := by
        intro hj
        rw [hj, st.unused] at hl
        cases hl
      rw [st.others j hj]
      exact hl

theorem Delivering.call (h : Delivering w₀ s) (st : Worked s s' i l o a r) : Delivering w₀ s' := by
  have hcaller : s.localOf announcement i = some l := st.caller
  have hallowed : l.allowed o := st.allowed
  have hperformed : s.world.effect o a = some (r, s'.world) := st.performed
  have hself : s'.localOf announcement i = some (l.next o r) := st.self
  have hok : l.isReading = false → throws o a = false := by
    intro hreading
    have hgranted : goesOn.call s i o a = true := st.granted
    simpa [goesOn, h.begun i l hcaller hreading] using hgranted
  have hbefore : ∀ j, hasInserted s j = true → hasInserted s' j = true := by
    intro j hj
    unfold hasInserted at hj ⊢
    rw [st.traced, List.any_cons, hj, Bool.or_true]
  constructor
  · exact h.kept.trans (idsKept_of_effect hperformed)
  · intro j l' hl
    rcases st.localOf hl with ⟨-, rfl⟩ | ⟨-, hj⟩
    · exact oneChain_next (h.oneChain i l hcaller) hallowed st.possible
    · exact h.oneChain j l' hj
  · intro j l' hl hreading
    rcases st.localOf hl with ⟨rfl, rfl⟩ | ⟨-, hj⟩
    · cases hl : l.isReading with
      | false => exact hbefore j (h.begun j l hcaller hl)
      | true =>
        -- the attempt leaves the first phase by inserting rows
        have hinserted : insertedBy o r ≠ [] := by
          intro hnone
          cases l with
          | reading chainId =>
            rw [show announcement.next (.reading chainId) o r = .reading chainId from if_pos hnone] at hreading
            cases hreading
          | _ => cases hl
        unfold hasInserted
        rw [st.traced]
        simp [hinserted]
    · exact hbefore j (h.begun j l' hj hreading)
  · intro j l' hl
    rcases st.localOf hl with ⟨-, rfl⟩ | ⟨-, hj⟩
    · exact next_ne_failed (h.working i l hcaller) hallowed hperformed hok
    · exact h.working j l' hj
  · intro e he item hitem webhook hactive
    rw [st.traced] at he
    rcases List.mem_cons.mp he with rfl | he
    · exact Or.inr ⟨i, l.next o r, hself, pending_of_inserted hallowed hitem⟩
    · have hactive' := hactive.before h.kept hperformed
      rcases h.delivered e he item hitem webhook hactive' with ⟨e', he', hadded⟩ | ⟨j, l', hl, hpending⟩
      · refine Or.inl ⟨e', ?_, hadded⟩
        rw [st.traced]
        exact List.mem_cons_of_mem _ he'
      · by_cases hj : j = i
        · subst hj
          obtain rfl : l = l' := Option.some.inj (hcaller.symm.trans hl)
          obtain ⟨sub, -, hnow⟩ := hactive'
          rcases pending_next (h.oneChain j l hcaller) hallowed hperformed hok hnow hpending with hnext | hadded
          · exact Or.inr ⟨j, l.next o r, hself, hnext⟩
          · refine Or.inl ⟨⟨j, o, a, r⟩, ?_, hadded⟩
            rw [st.traced]
            exact List.mem_cons_self
        · refine Or.inr ⟨j, l', ?_, hpending⟩
          rw [st.others j hj]
          exact hl

private theorem delivering_of_reachable (h : Reachable goesOn (State.initial w) s) : Delivering w s := by
  refine h.invariant announcement (Delivering w) ?_ (fun _ _ _ _ _ ih st => ih.start st)
    (fun _ _ _ _ _ _ _ _ ih st => ih.call st)
  constructor
  · exact ⟨fun _ hid => hid, fun _ hid => hid⟩
  · intro i l hl
    cases hl
  · intro i l hl
    cases hl
  · intro i l hl
    cases hl
  · intro e he
    cases he

/-- If no attempt fails after it inserted rows, then all rows are announced when all attempts are over. -/
theorem stored_announced (h : Reachable goesOn (State.initial w) s) (hover : s.quiescent = true) : Announced w s := by
  have hdelivering := delivering_of_reachable h
  intro e he item hitem webhook hactive
  rcases hdelivering.delivered e he item hitem webhook hactive with hadded | ⟨i, l, hl, hpending⟩
  · exact hadded
  · -- an attempt that is over has nothing to add
    obtain ⟨⟨k, p⟩, hi, rfl⟩ := Option.map_eq_some_iff.mp hl
    have hfinished : p.isFinished = true := List.all_eq_true.mp hover (k, p) (List.mem_of_getElem? hi)
    obtain ⟨x, hends⟩ := (h.conforms announcement).ends_of_finished announcement hi hfinished
    exact absurd hpending (not_pending_of_over hends)

end

/-- Attempts of the realtime job and the delayed jobs of one block range, the last of which completed. -/
structure RangeProcessed (data : EnqueueData EventLogFilter) (s : State workers) : Prop where
  jobs : ∀ t ∈ s.threads, ∃ job, t.1 = .processEventLogs job ∧ job.data = data
  finished : s.quiescent = true
  last : ∃ i job, s.returned i = some (.processEventLogs job, ()) ∧ job.attempts = 10

/-- Log 3 of contract 5, as it is stored. -/
def storedLog : ContractEventLogs where
  chainId := 1
  blockNumber := 7
  contractAddress := "0x05"
  transactionHash := "0x01"
  topic0 := none
  topic1 := none
  topic2 := none
  topic3 := none
  transactionIndex := 0
  logIndex := 3
  eventName := "Transfer"
  createdAt := 1000

theorem activeThroughout_subscribedTwice {w : World}
    (hsubs : w.contractSubscriptions.rows = subscribedTwice.contractSubscriptions.rows)
    (hwebhooks : w.webhooks.rows = subscribedTwice.webhooks.rows) :
    ActiveThroughout subscribedTwice w (.eventLog storedLog) (webhookOf 1) := by
  have hstart : subscribedTwice.Subscribes (.eventLog storedLog) (subscriptionOf5 "a" 1) (webhookOf 1) := by
    constructor <;> first | rfl | decide
  refine ⟨subscriptionOf5 "a" 1, hstart, { hstart with stored := ?_, webhookStored := ?_ }⟩
  · rw [hsubs]
    exact hstart.stored
  · rw [hwebhooks]
    exact hstart.webhookStored

/-- The rows that were inserted. -/
def insertedRows (s : State workers) : List Item := s.trace.flatMap fun e => insertedBy e.op e.reply

/-- The subscriptions and webhooks are as at the start of `subscribedTwice`. -/
def stillSubscribed (s : State workers) : Bool :=
  decide (s.world.contractSubscriptions.rows = subscribedTwice.contractSubscriptions.rows) &&
    decide (s.world.webhooks.rows = subscribedTwice.webhooks.rows)

theorem stored_announced_readTwice : ∃ s : State workers, Announced subscribedTwice s ∧
    Item.eventLog storedLog ∈ insertedRows s ∧
    ActiveThroughout subscribedTwice s.world (.eventLog storedLog) (webhookOf 1) := by
  obtain ⟨s, hs, hr⟩ := exists_reachable_of_run goesOn subscribedTwice readTwice
    (fun s : State workers => s.quiescent && decide (Item.eventLog storedLog ∈ insertedRows s) && stillSubscribed s)
    (by decide +kernel)
  simp only [stillSubscribed, Bool.and_eq_true, decide_eq_true_eq] at hr
  obtain ⟨⟨hover, hinserted⟩, hsubs, hwebhooks⟩ := hr
  exact ⟨s, stored_announced hs hover, hinserted, activeThroughout_subscribedTwice hsubs hwebhooks⟩

/-- The realtime job inserts the log and cannot look up the webhooks. The delayed job inserts nothing. -/
def insertedInVain : List (Move workers) :=
  starts realtimeJob :: proceeds 0 4 finding ++ proceeds 0 1 throwing ++ starts delayedJob :: proceeds 1 4 finding

theorem not_stored_announced : ¬ ∀ (w : World) (data : EnqueueData EventLogFilter) (s : State workers),
    Reachable anyAttempts (State.initial w) s → RangeProcessed data s → Announced w s := by
  intro hgeneral
  obtain ⟨s, hs, hr⟩ := exists_reachable_of_run anyAttempts subscribedTwice insertedInVain
    (fun s : State workers => decide (s.threads.map (fun t => t.1) = [realtimeJob, delayedJob]) && s.quiescent &&
      decide (s.returned 1 = some (delayedJob, ())) && decide (Item.eventLog storedLog ∈ insertedRows s) &&
      stillSubscribed s && s.trace.all fun e => (addedBy e.op e.reply).isNone) (by decide +kernel)
  simp only [stillSubscribed, Bool.and_eq_true, decide_eq_true_eq] at hr
  obtain ⟨⟨⟨⟨⟨hjobs, hover⟩, hreturned⟩, hinserted⟩, hsubs, hwebhooks⟩, hnone⟩ := hr
  have hprocessed : RangeProcessed contract5 s := by
    constructor
    · intro t ht
      have hkind : t.1 ∈ [realtimeJob, delayedJob] := hjobs ▸ List.mem_map_of_mem ht
      rcases List.mem_cons.mp hkind with hkind | hkind
      · exact ⟨_, hkind, rfl⟩
      · exact ⟨_, List.mem_singleton.mp hkind, rfl⟩
    · exact hover
    · exact ⟨1, _, hreturned, rfl⟩
  obtain ⟨e, he, hitem⟩ := List.mem_flatMap.mp hinserted
  obtain ⟨e', he', hadded⟩ := hgeneral subscribedTwice contract5 s hs hprocessed e he _ hitem _
    (activeThroughout_subscribedTwice hsubs hwebhooks)
  have hnone := List.all_eq_true.mp hnone e' he'
  rw [hadded] at hnone
  cases hnone

end Engine.Events
