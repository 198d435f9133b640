import Engine.Concurrent.Locks
import Engine.Events.Contract

/-! Inserted rows are announced: at most once, and at least once unless an attempt fails after it
inserted them. -/
namespace Engine.Events
open Concurrent Program Keyset
open Indexer (EnqueueData EventLogFilter)

/-- Any interleaving, with any failures. -/
def anyAttempts : Guard workers where
  start _ _ := true
  call _ _ _ _ := true

section
variable {G : Guard workers} {s s' : State workers} {w w₀ w' : World} {i : ℕ} {l : Phase} {o : Op}
  {a : Except Err o.Choice} {r : Except Err o.Reply}

/-! ### At most once -/

/-- The items are of one row: the key of the table tells. -/
def Item.sameRow : Item → Item → Bool
  | .eventLog log, .eventLog log' => log.key = log'.key
  | .transactionReceipt receipt, .transactionReceipt receipt' => receipt.key = receipt'.key
  | _, _ => false

/-- The job sends the row to the URL. -/
def SendWebhookJob.sends (job : SendWebhookJob) (url : String) (item : Item) : Bool :=
  job.data.webhook.url = url && job.data.item.sameRow item

/-- Every job has the id of its data. -/
def World.Keyed (w : World) : Prop := ∀ job ∈ w.sendWebhookJobs.rows, job = job.data.job

theorem sameRow_self (item : Item) : item.sameRow item = true := by cases item <;> exact decide_eq_true rfl

/-- The idempotency key is of the URL and the row. -/
theorem idempotencyKey_eq {webhook webhook' : Webhooks} {item row : Item} (hurl : webhook.url = webhook'.url)
    (hrow : item.sameRow row = true) : getContractSubscriptionWebhookIdempotencyKey webhook item =
      getContractSubscriptionWebhookIdempotencyKey webhook' row := by
  unfold getContractSubscriptionWebhookIdempotencyKey
  cases item with
  | eventLog log =>
    cases row with
    | eventLog log' =>
      obtain ⟨hhash, hindex⟩ := Prod.mk.inj (of_decide_eq_true hrow)
      dsimp only
      rw [hurl, hhash, hindex]
    | transactionReceipt _ => cases hrow
  | transactionReceipt receipt =>
    cases row with
    | eventLog _ => cases hrow
    | transactionReceipt receipt' =>
      obtain ⟨-, hhash⟩ := Prod.mk.inj (of_decide_eq_true hrow)
      dsimp only
      rw [hurl, hhash]

/-- Jobs that send one row to one URL have one id. -/
theorem jobId_eq_of_sends {job job' : SendWebhookJob} {url : String} {item : Item} (h : job.sends url item = true)
    (h' : job'.sends url item = true) : job.data.job.jobId = job'.data.job.jobId := by
  unfold SendWebhookJob.sends at h h'
  rw [Bool.and_eq_true, decide_eq_true_iff] at h h'
  have hurl : job.data.webhook.url = job'.data.webhook.url := h.1.trans h'.1.symm
  calc job.data.job.jobId
    _ = getContractSubscriptionWebhookIdempotencyKey job.data.webhook item := idempotencyKey_eq rfl h.2
    _ = getContractSubscriptionWebhookIdempotencyKey job'.data.webhook item :=
      idempotencyKey_eq hurl (sameRow_self item)
    _ = job'.data.job.jobId := (idempotencyKey_eq rfl h'.2).symm

private theorem sendWebhookJobs_of_effect (h : w.effect o a = some (r, w')) :
    w'.sendWebhookJobs = w.sendWebhookJobs ∨
    ∃ job, o = .sendWebhookQueueAdd job ∧ w'.sendWebhookJobs = w.sendWebhookJobs.insert [job] := by
  cases a with
  | error e =>
    obtain ⟨-, rfl⟩ := Prod.mk.inj (Option.some.inj h)
    exact Or.inl rfl
  | ok c =>
    cases o with
    | sendWebhookQueueAdd job =>
      obtain ⟨-, rfl⟩ := Prod.mk.inj (Option.some.inj h)
      exact Or.inr ⟨job, rfl, rfl⟩
    | createContractSubscription row =>
      simp only [World.effect, World.apply] at h
      split_ifs at h
      obtain ⟨-, rfl⟩ := Prod.mk.inj (Option.some.inj h)
      exact Or.inl rfl
    | insertWebhook row =>
      simp only [World.effect, World.apply] at h
      split_ifs at h
      obtain ⟨-, rfl⟩ := Prod.mk.inj (Option.some.inj h)
      exact Or.inl rfl
    | _ =>
      obtain ⟨-, rfl⟩ := Prod.mk.inj (Option.some.inj h)
      exact Or.inl rfl

/-- A job is added under the id of its data. -/
theorem job_of_allowed {job : SendWebhookJob} (h : l.allowed (.sendWebhookQueueAdd job)) :
    ∃ data left, l = .adding (data :: left) ∧ job = data.job := by
  cases l with
  | reading chainId => cases h
  | inserted chainId items => cases h
  | adding left =>
    cases left with
    | nil => cases h
    | cons data left => exact ⟨data, left, rfl, Op.sendWebhookQueueAdd.inj h⟩
  | failed => cases h

theorem World.Keyed.effect (hw : w.Keyed) (ho : l.allowed o) (h : w.effect o a = some (r, w')) : w'.Keyed := by
  intro job hjob
  rcases sendWebhookJobs_of_effect h with hsame | ⟨added, rfl, hadded⟩
  · rw [hsame] at hjob
    exact hw job hjob
  · rw [hadded] at hjob
    rcases Table.mem_insert hjob with hold | ⟨hnew, -⟩
    · exact hw job hold
    · rw [List.mem_singleton.mp hnew]
      obtain ⟨data, left, -, rfl⟩ := job_of_allowed ho
      rfl

private theorem keyed_of_reachable (hw : w.Keyed) (h : Reachable G (State.initial w) s) : s.world.Keyed := by
  refine h.invariant announcement (fun s => s.world.Keyed) hw ?_ ?_
  · intro s s' n k _ ih st
    obtain ⟨p, hp⟩ := st.started
    have hworld : s'.world = s.world := by cases k <;> exact (Prod.mk.inj (Option.some.inj hp)).2.symm
    rw [hworld]
    exact ih
  · intro s s' i l o a r _ ih st
    exact ih.effect st.allowed st.performed

/-- Rows are stored once, and sent to a URL at most once. -/
structure AnnouncedOnce (w : World) : Prop where
  eventLogs : (w.contractEventLogs.rows.map ContractEventLogs.key).Nodup
  transactionReceipts : (w.contractTransactionReceipts.rows.map ContractTransactionReceipts.key).Nodup
  jobs : ∀ url item, (w.sendWebhookJobs.rows.filter fun job => job.sends url item).length ≤ 1

/-- No event log or receipt is announced twice, whatever attempts run and fail. -/
theorem announced_once (hw : w.Keyed) (h : Reachable anyAttempts (State.initial w) s) : AnnouncedOnce s.world := by
  have hkeyed := keyed_of_reachable hw h
  constructor
  · exact s.world.contractEventLogs.unique
  · exact s.world.contractTransactionReceipts.unique
  · intro url item
    apply Table.length_filter_le_one
    intro job hjob job' hjob' hsends hsends'
    have hid := jobId_eq_of_sends hsends hsends'
    rwa [← hkeyed job hjob, ← hkeyed job' hjob'] at hid

end

/-! ### Runs -/

/-- What the outside would answer to every call. -/
abbrev Answers := (o : Op) → Except Err o.Choice

/-- Log 3 of contract 5, in block 7. -/
def transferLog : EventLog := ⟨"0x05", 7, "0x01", [], 0, 3, "Transfer", .undefined⟩

/-- Every call succeeds, and every query for events finds one log. -/
def finding : Answers
  | .resolveContractAbi _ _ => .ok []
  | .prepareEvent signature => .ok ⟨signature, ""⟩
  | .getContractEvents _ _ _ _ _ => .ok [transferLog]
  | .ethGetBlockByNumber _ _ => .ok []
  | .ethGetTransactionReceipt _ hash => .ok ⟨7, hash, 0⟩
  | .decodeFunctionName _ _ => .ok "transfer"
  | .createContractEventLogs _ => .ok 1000
  | .createContractTransactionReceipts _ => .ok 1000
  | .sendWebhookQueueAdd _ => .ok none
  | .getChain _ | .findSubscriptionsWithWebhook _ | .createContractSubscription _ => .ok ()
  | .deleteContractSubscription _ | .insertWebhook _ | .revokeWebhook _ _ => .ok ()

def throwing : Answers := fun _ => .error (.new "Connection is closed.")

/-- The next `k` calls of process `i`. -/
def proceeds (i k : ℕ) (x : Answers) : List (Move workers) := (List.replicate k x).map fun x => .call i x

def starts (k : Kind) : Move workers := .start k

def contract5 : EnqueueData EventLogFilter := ⟨1, [⟨"0x05", []⟩], 7, 7⟩

/-- The job that is added immediately, and the last one of the delayed jobs. -/
def realtimeJob : Kind := .processEventLogs ⟨contract5, none, 0⟩
def delayedJob : Kind := .processEventLogs ⟨contract5, some "10", 10⟩

def subscriptionOf5 (id : String) (webhookId : ℕ) : Indexer.ContractSubscription where
  chainId := 1
  contractAddress := "0x05"
  webhookId := some webhookId
  processEventLogs := true
  filterEvents := []
  processTransactionReceipts := false
  filterFunctions := []
  id := id
  deleted := false
  createdAtHead := 0

def webhookOf (id : ℕ) : Webhooks := ⟨id, "https://example.com", .contractSubscription, none⟩

/-- Two subscriptions of contract 5, whose webhooks share a URL. -/
def subscribedTwice : World where
  contractEventLogs := Table.empty _
  contractTransactionReceipts := Table.empty _
  contractSubscriptions := ⟨[subscriptionOf5 "a" 1, subscriptionOf5 "b" 2], by decide⟩
  webhooks := ⟨[webhookOf 1, webhookOf 2], by decide⟩
  sendWebhookJobs := Table.empty _

/-- The jobs read the log side by side, and one of them inserts it. -/
def readTwice : List (Move workers) :=
  [starts realtimeJob, starts delayedJob] ++ proceeds 0 3 finding ++ proceeds 1 3 finding ++ proceeds 0 4 finding ++
    proceeds 1 1 finding

theorem announced_once_readTwice : ∃ s : State workers, s.world.sendWebhookJobs.rows.length = 1 ∧
    AnnouncedOnce s.world := by
  obtain ⟨s, hs, hr⟩ := exists_reachable_of_run anyAttempts subscribedTwice readTwice
    (fun s : State workers => decide (s.world.sendWebhookJobs.rows.length = 1)) (by decide +kernel)
  exact ⟨s, of_decide_eq_true hr, announced_once (fun job hjob => by cases hjob) hs⟩

end Engine.Events
