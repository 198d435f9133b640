import Engine.Events.Chain

/-! Which event logs of a block range are returned. -/
namespace Engine.Events
open Concurrent Program
open Indexer (EnqueueData EventLogFilter)

namespace Chain

/-- Every entry of the ABI with a listed name can be prepared. -/
def Preparable (c : Chain) (f : EventLogFilter) : Prop :=
  ∀ item ∈ c.abi f.address, isListed f.events item = true → ∃ event, c.prepareEvent item = .ok event

/-- The events that a filter is resolved to. -/
def prepared (c : Chain) (f : EventLogFilter) : List PreparedEvent :=
  ((c.abi f.address).filter (isListed f.events)).filterMap fun item => (c.prepareEvent item).toOption

/-- What is queried for a filter. -/
def fetched (c : Chain) (data : EnqueueData EventLogFilter) (f : EventLogFilter) : List EventLog :=
  c.contractEvents f.address data.fromBlock data.toBlock (c.prepared f)

/-- The ABI of the contract of a log. -/
def logAbi (c : Chain) (log : EventLog) : List AbiEntry := (c.abi (normalizeAddress log.address)).map AbiItem.toAbiEntry

/-- The row of a log, with what it is decoded to. -/
def logRow (c : Chain) (chainId : ℕ) (log : EventLog) : ContractEventLogsCreateInput :=
  log.row chainId (formatDecodedLog (c.logAbi log) log.eventName log.args).toOption.join

/-- Each log is turned into a row: its contract is found among the filters, and it can be decoded. -/
def Known (c : Chain) (data : EnqueueData EventLogFilter) : Prop :=
  ∀ f ∈ data.filters, ∀ log ∈ c.fetched data f,
    (∃ g ∈ data.filters, g.address = normalizeAddress log.address) ∧ Formats (c.logAbi log) log.eventName log.args

section
variable {c : Chain} {chainId : ℕ} {f : EventLogFilter} {log : EventLog} {filters : List EventLogFilter}
  {data : EnqueueData EventLogFilter}

/-! ### One filter -/

private theorem forall₂_filterMap {α β : Type} {g : α → Option β} {as : List α} (h : ∀ a ∈ as, ∃ b, g a = some b) :
    List.Forall₂ (fun a b => g a = some b) as (as.filterMap g) := by
  induction as with
  | nil => exact .nil
  | cons a as ih =>
    obtain ⟨b, hb⟩ := h a List.mem_cons_self
    rw [List.filterMap_cons_some hb]
    exact .cons hb (ih fun a' ha' => h a' (List.mem_cons_of_mem a ha'))

theorem outcome_preparedEvents (h : c.Preparable f) :
    (preparedEvents chainId f).outcome c.replies = .ok (c.prepared f) := by
  unfold preparedEvents
  split_ifs with hlist
  · rw [bind_eq, outcome_bind_ok (outcome_perform _), outcome_collect_eq_ok]
    have hsome : ∀ item ∈ (c.abi f.address).filter (isListed f.events),
        ∃ event, (c.prepareEvent item).toOption = some event := by
      intro item hitem
      obtain ⟨hmem, hlisted⟩ := List.mem_filter.mp hitem
      obtain ⟨event, hevent⟩ := h item hmem hlisted
      exact ⟨event, by rw [hevent]; rfl⟩
    refine (forall₂_filterMap hsome).imp fun item event hevent => ?_
    exact (outcome_perform _).trans (ok_of_toOption hevent)
  · have hnone : f.events = [] := List.length_eq_zero_iff.mp (by omega)
    have hempty : c.prepared f = [] := by
      unfold prepared
      rw [hnone]
      have hfilter : (c.abi f.address).filter (isListed []) = [] := by
        rw [List.filter_eq_nil_iff]
        intro item _
        unfold isListed
        cases item.name <;> simp
      rw [hfilter]
      rfl
    rw [hempty]
    rfl

/-- A filter that is resolved has all its entries prepared. -/
theorem preparable_of_outcome {events : List PreparedEvent}
    (h : (preparedEvents chainId f).outcome c.replies = .ok events) : c.Preparable f := by
  intro item hitem hlisted
  unfold preparedEvents at h
  split_ifs at h with hlist
  · rw [bind_eq, outcome_bind_ok (outcome_perform _)] at h
    obtain ⟨event, -, hevent⟩ := exists_outcome_of_collect h (List.mem_filter.mpr ⟨hitem, hlisted⟩)
    rw [outcome_perform] at hevent
    exact ⟨event, hevent⟩
  · have hnone : f.events = [] := List.length_eq_zero_iff.mp (by omega)
    unfold isListed at hlisted
    rw [hnone] at hlisted
    obtain ⟨name, -, hname⟩ := (Option.any_eq_true _ _).mp hlisted
    simp at hname

theorem outcome_contractOf {address : String} : (contractOf filters address).outcome c.replies = .ok () ↔
    ∃ g ∈ filters, g.address = normalizeAddress address := by
  unfold contractOf
  split_ifs with hany
  · obtain ⟨g, hg, haddress⟩ := List.any_eq_true.mp hany
    exact ⟨fun _ => ⟨g, hg, of_decide_eq_true haddress⟩, fun _ => rfl⟩
  · constructor
    · intro h
      cases h
    · intro h
      obtain ⟨g, hg, haddress⟩ := h
      exact absurd (List.any_eq_true.mpr ⟨g, hg, decide_eq_true haddress⟩) hany

theorem outcome_orTypeError {α : Type} {r : Except TypeError α} {a : α} :
    (orTypeError r).outcome c.replies = .ok a ↔ r = .ok a := by
  cases r with
  | ok a' =>
    show Except.ok a' = Except.ok a ↔ _
    simp
  | error e =>
    constructor
    · intro h
      cases h
    · intro h
      cases h

theorem outcome_readDecodedLog {decodedLog : Option DecodedLog} :
    (readDecodedLog chainId log).outcome c.replies = .ok decodedLog ↔
      formatDecodedLog (c.logAbi log) log.eventName log.args = .ok decodedLog := by
  unfold readDecodedLog
  rw [bind_eq, outcome_bind_ok (outcome_perform _), outcome_orTypeError]
  rfl

/-- A log is turned into its row exactly if its contract is found and it can be decoded. -/
theorem outcome_formatLog {row : ContractEventLogsCreateInput} :
    (formatLog chainId filters log).outcome c.replies = .ok row ↔
      (∃ g ∈ filters, g.address = normalizeAddress log.address) ∧ Formats (c.logAbi log) log.eventName log.args ∧
        row = c.logRow chainId log := by
  unfold formatLog
  rw [bind_eq, outcome_bind_eq_ok]
  constructor
  · intro h
    obtain ⟨u, hcontract, h⟩ := h
    rw [bind_eq, outcome_bind_eq_ok] at h
    obtain ⟨decodedLog, hdecoded, hrow⟩ := h
    have hformat := outcome_readDecodedLog.mp hdecoded
    refine ⟨outcome_contractOf.mp hcontract, exists_formatDecodedLog_iff.mp ⟨decodedLog, hformat⟩, ?_⟩
    unfold logRow
    rw [hformat]
    exact (Except.ok.inj hrow).symm
  · intro h
    obtain ⟨hcontract, hformats, rfl⟩ := h
    obtain ⟨decodedLog, hformat⟩ := exists_formatDecodedLog_iff.mpr hformats
    refine ⟨(), outcome_contractOf.mpr hcontract, ?_⟩
    rw [bind_eq, outcome_bind_ok (outcome_readDecodedLog.mpr hformat)]
    unfold logRow
    rw [hformat]
    rfl

/-! ### All of them -/

theorem outcome_getLogs (hprepared : ∀ f ∈ data.filters, c.Preparable f) (hknown : c.Known data) :
    (getLogs data).outcome c.replies =
      .ok ((data.filters.flatMap (c.fetched data)).map (c.logRow data.chainId)) := by
  have hevents : (collect (getContractEvents data.chainId data.fromBlock data.toBlock) data.filters).outcome
      c.replies = .ok (data.filters.map (c.fetched data)) := by
    apply outcome_collect
    intro f hf
    unfold getContractEvents
    rw [bind_eq, outcome_bind_ok (outcome_preparedEvents (hprepared f hf)), outcome_perform]
    rfl
  have hrows : (collect (formatLog data.chainId data.filters) (data.filters.map (c.fetched data)).flatten).outcome
      c.replies = .ok ((data.filters.map (c.fetched data)).flatten.map (c.logRow data.chainId)) := by
    apply outcome_collect
    intro log hlog
    obtain ⟨logs, hlogs, hlog⟩ := List.mem_flatten.mp hlog
    obtain ⟨f, hf, rfl⟩ := List.mem_map.mp hlogs
    obtain ⟨hcontract, hformats⟩ := hknown f hf log hlog
    exact outcome_formatLog.mpr ⟨hcontract, hformats, rfl⟩
  unfold getLogs
  split_ifs with hnone
  · rw [List.length_eq_zero_iff.mp hnone]
    rfl
  · rw [bind_eq, outcome_bind_ok (outcome_perform _), bind_eq, outcome_bind_ok hevents, hrows, List.flatMap_def]

theorem of_outcome_getLogs {rows : List ContractEventLogsCreateInput}
    (h : (getLogs data).outcome c.replies = .ok rows) :
    (∀ f ∈ data.filters, c.Preparable f) ∧ c.Known data := by
  unfold getLogs at h
  split_ifs at h with hnone
  · have hempty : data.filters = [] := List.length_eq_zero_iff.mp hnone
    unfold Known
    rw [hempty]
    exact ⟨by simp, by simp⟩
  · rw [bind_eq, outcome_bind_ok (outcome_perform _), bind_eq] at h
    obtain ⟨allLogs, hevents, hrows⟩ := outcome_bind_eq_ok.mp h
    have hprepared : ∀ f ∈ data.filters, c.Preparable f := by
      intro f hf
      obtain ⟨logs, -, hlogs⟩ := exists_outcome_of_collect hevents hf
      unfold getContractEvents at hlogs
      rw [bind_eq] at hlogs
      obtain ⟨events, hevents, -⟩ := outcome_bind_eq_ok.mp hlogs
      exact preparable_of_outcome hevents
    refine ⟨hprepared, ?_⟩
    intro f hf log hlog
    obtain ⟨logs, hmem, hlogs⟩ := exists_outcome_of_collect hevents hf
    unfold getContractEvents at hlogs
    rw [bind_eq, outcome_bind_ok (outcome_preparedEvents (hprepared f hf)), outcome_perform] at hlogs
    obtain rfl := Except.ok.inj hlogs
    obtain ⟨row, -, hrow⟩ := exists_outcome_of_collect hrows (List.mem_flatten.mpr ⟨_, hmem, hlog⟩)
    obtain ⟨hcontract, hformats, -⟩ := outcome_formatLog.mp hrow
    exact ⟨hcontract, hformats⟩

end

/-! ### Sound and complete -/

/-- `emitted` is what the contracts emit in a block range, and queries find it. -/
structure Queries (c : Chain) (emitted : String → ℤ → ℤ → List EventLog) : Prop where
  all : ∀ address fromBlock toBlock,
    c.contractEvents address fromBlock toBlock [] = emitted address fromBlock toBlock
  some : ∀ address fromBlock toBlock events, events ≠ [] → c.contractEvents address fromBlock toBlock events =
    (emitted address fromBlock toBlock).filter fun log => events.any fun event => log.topics[0]? = .some event.hash
  /-- Each event is of an entry of the ABI. -/
  ofAbi : ∀ address fromBlock toBlock, ∀ log ∈ emitted address fromBlock toBlock, ∃ item ∈ c.abi address,
    item.type = .event ∧ item.name = .some log.eventName ∧
      ∀ event, c.prepareEvent item = .ok event → log.topics[0]? = .some event.hash
  /-- The hash tells the name. -/
  named : ∀ address fromBlock toBlock, ∀ log ∈ emitted address fromBlock toBlock, ∀ item ∈ c.abi address,
    ∀ event, c.prepareEvent item = .ok event → log.topics[0]? = .some event.hash → item.name = .some log.eventName
  address : ∀ address fromBlock toBlock, ∀ log ∈ emitted address fromBlock toBlock,
    normalizeAddress log.address = normalizeAddress address

/-- The ABI has no entry that the filter lists. -/
def Unlisted (c : Chain) (f : EventLogFilter) : Prop := ∀ item ∈ c.abi f.address, isListed f.events item = false

/-- The logs that are returned pass a filter of their address, and those that pass one by name are
returned. -/
structure Filtered (c : Chain) (emitted : String → ℤ → ℤ → List EventLog) (data : EnqueueData EventLogFilter) :
    Prop where
  sound : ∀ rows, (getLogs data).outcome c.replies = .ok rows → ∀ row ∈ rows,
    (∀ f ∈ data.filters, normalizeAddress f.address = row.contractAddress → f.events ≠ []) →
      ∃ f ∈ data.filters, normalizeAddress f.address = row.contractAddress ∧ row.eventName ∈ f.events
  complete : ∀ f ∈ data.filters, ∀ log ∈ emitted f.address data.fromBlock data.toBlock, log.eventName ∈ f.events →
    ∃ rows, (getLogs data).outcome c.replies = .ok rows ∧ c.logRow data.chainId log ∈ rows

/-- Nothing throws: listed entries can be prepared, the addresses of the filters that find events are
normalised, and the events found can be decoded. -/
structure Resolves (c : Chain) (emitted : String → ℤ → ℤ → List EventLog) (data : EnqueueData EventLogFilter) :
    Prop where
  preparable : ∀ f ∈ data.filters, c.Preparable f
  known : ∀ f ∈ data.filters, ∀ log ∈ emitted f.address data.fromBlock data.toBlock,
    log.eventName ∈ f.events ∨ c.Unlisted f → ∃ g ∈ data.filters, g.address = normalizeAddress f.address
  decodable : ∀ f ∈ data.filters, ∀ log ∈ emitted f.address data.fromBlock data.toBlock,
    log.eventName ∈ f.events ∨ c.Unlisted f → Formats (c.logAbi log) log.eventName log.args

section
variable {c : Chain} {emitted : String → ℤ → ℤ → List EventLog} {data : EnqueueData EventLogFilter}
  {f : EventLogFilter} {log : EventLog}

theorem isListed_iff {events : List String} {item : AbiItem} {name : String} (h : item.name = some name) :
    isListed events item = true ↔ name ∈ events := by
  unfold isListed
  rw [h]
  simp

theorem mem_prepared {event : PreparedEvent} : event ∈ c.prepared f ↔
    ∃ item ∈ c.abi f.address, isListed f.events item = true ∧ c.prepareEvent item = .ok event := by
  unfold prepared
  rw [List.mem_filterMap]
  constructor
  · intro h
    obtain ⟨item, hitem, hevent⟩ := h
    obtain ⟨hmem, hlisted⟩ := List.mem_filter.mp hitem
    exact ⟨item, hmem, hlisted, ok_of_toOption hevent⟩
  · intro h
    obtain ⟨item, hmem, hlisted, hprepared⟩ := h
    exact ⟨item, List.mem_filter.mpr ⟨hmem, hlisted⟩, by rw [hprepared]; rfl⟩

private theorem prepared_eq_nil_iff (h : c.Preparable f) : c.prepared f = [] ↔ c.Unlisted f := by
  rw [List.eq_nil_iff_forall_not_mem]
  constructor
  · intro hnone item hitem
    cases hlisted : isListed f.events item with
    | false => rfl
    | true =>
      obtain ⟨event, hevent⟩ := h item hitem hlisted
      exact absurd (mem_prepared.mpr ⟨item, hitem, hlisted, hevent⟩) (hnone event)
  · intro hunlisted event hevent
    obtain ⟨item, hitem, hlisted, -⟩ := mem_prepared.mp hevent
    rw [hunlisted item hitem] at hlisted
    cases hlisted

/-- What is queried: the events that are listed, or all of them if the ABI lists none. -/
theorem mem_fetched_iff (hq : c.Queries emitted) (h : c.Preparable f) : log ∈ c.fetched data f ↔
    log ∈ emitted f.address data.fromBlock data.toBlock ∧ (log.eventName ∈ f.events ∨ c.Unlisted f) := by
  unfold fetched
  by_cases hnone : c.prepared f = []
  · rw [hnone, hq.all]
    have hunlisted := (prepared_eq_nil_iff h).mp hnone
    simp [hunlisted]
  · have hlists : ¬ c.Unlisted f := fun hunlisted => hnone ((prepared_eq_nil_iff h).mpr hunlisted)
    rw [hq.some _ _ _ _ hnone, List.mem_filter, List.any_eq_true]
    constructor
    · intro hlog
      obtain ⟨hemitted, event, hevent, hhash⟩ := hlog
      obtain ⟨item, hitem, hlisted, hprepared⟩ := mem_prepared.mp hevent
      have hname := hq.named _ _ _ log hemitted item hitem event hprepared (of_decide_eq_true hhash)
      exact ⟨hemitted, Or.inl ((isListed_iff hname).mp hlisted)⟩
    · intro hlog
      obtain ⟨hemitted, hlisted⟩ := hlog
      obtain ⟨item, hitem, -, hname, hhash⟩ := hq.ofAbi _ _ _ log hemitted
      have hin : isListed f.events item = true := (isListed_iff hname).mpr (hlisted.resolve_right hlists)
      obtain ⟨event, hevent⟩ := h item hitem hin
      exact ⟨hemitted, event, mem_prepared.mpr ⟨item, hitem, hin, hevent⟩, decide_eq_true (hhash event hevent)⟩

/-- Logs are returned exactly if nothing throws. -/
theorem resolves_iff (hq : c.Queries emitted) : c.Resolves emitted data ↔
    (∀ f ∈ data.filters, c.Preparable f) ∧ c.Known data := by
  constructor
  · intro h
    refine ⟨h.preparable, ?_⟩
    intro f hf log hlog
    obtain ⟨hemitted, hwhy⟩ := (mem_fetched_iff hq (h.preparable f hf)).mp hlog
    rw [hq.address _ _ _ log hemitted]
    exact ⟨h.known f hf log hemitted hwhy, h.decodable f hf log hemitted hwhy⟩
  · intro h
    obtain ⟨hprepared, hknown⟩ := h
    have hfound : ∀ f ∈ data.filters, ∀ log ∈ emitted f.address data.fromBlock data.toBlock,
        log.eventName ∈ f.events ∨ c.Unlisted f → log ∈ c.fetched data f := fun f hf log hemitted hwhy =>
      (mem_fetched_iff hq (hprepared f hf)).mpr ⟨hemitted, hwhy⟩
    refine ⟨hprepared, ?_, ?_⟩
    · intro f hf log hemitted hwhy
      rw [← hq.address _ _ _ log hemitted]
      exact (hknown f hf log (hfound f hf log hemitted hwhy)).1
    · intro f hf log hemitted hwhy
      exact (hknown f hf log (hfound f hf log hemitted hwhy)).2

theorem outcome_of_resolves (hq : c.Queries emitted) (h : c.Resolves emitted data) :
    (getLogs data).outcome c.replies =
      .ok ((data.filters.flatMap (c.fetched data)).map (c.logRow data.chainId)) :=
  outcome_getLogs h.preparable ((resolves_iff hq).mp h).2

/-- Reading by event names is sound and complete exactly if nothing throws where a listed event was
emitted, and where the ABI lists none of a filter's names, all that its contract emits is let
through by the filters of the address. -/
theorem filtered_iff (hq : c.Queries emitted) : c.Filtered emitted data ↔
    (∀ f ∈ data.filters, ∀ log ∈ emitted f.address data.fromBlock data.toBlock, log.eventName ∈ f.events →
      c.Resolves emitted data) ∧
    (c.Resolves emitted data → ∀ f ∈ data.filters, c.Unlisted f →
      (∀ g ∈ data.filters, normalizeAddress g.address = normalizeAddress f.address → g.events ≠ []) →
        ∀ log ∈ emitted f.address data.fromBlock data.toBlock,
          ∃ g ∈ data.filters, normalizeAddress g.address = normalizeAddress f.address ∧ log.eventName ∈ g.events) := by
  constructor
  · intro hfiltered
    constructor
    · intro f hf log hemitted hlisted
      obtain ⟨rows, hrows, -⟩ := hfiltered.complete f hf log hemitted hlisted
      exact (resolves_iff hq).mpr (of_outcome_getLogs hrows)
    · intro hresolves f hf hunlisted hnamed log hemitted
      have haddress : (c.logRow data.chainId log).contractAddress = normalizeAddress f.address :=
        hq.address _ _ _ log hemitted
      have hlog : log ∈ c.fetched data f :=
        (mem_fetched_iff hq (hresolves.preparable f hf)).mpr ⟨hemitted, Or.inr hunlisted⟩
      have hrow : c.logRow data.chainId log ∈ (data.filters.flatMap (c.fetched data)).map (c.logRow data.chainId) :=
        List.mem_map_of_mem (List.mem_flatMap.mpr ⟨f, hf, hlog⟩)
      have hsound := hfiltered.sound _ (outcome_of_resolves hq hresolves) _ hrow
      rw [haddress] at hsound
      exact hsound hnamed
  · intro h
    obtain ⟨hcomplete, hsound⟩ := h
    constructor
    · intro rows hrows row hrow hnamed
      have hresolves := (resolves_iff hq).mpr (of_outcome_getLogs hrows)
      obtain rfl := Except.ok.inj ((outcome_of_resolves hq hresolves).symm.trans hrows)
      obtain ⟨log, hlog, rfl⟩ := List.mem_map.mp hrow
      obtain ⟨f, hf, hlog⟩ := List.mem_flatMap.mp hlog
      obtain ⟨hemitted, hwhy⟩ := (mem_fetched_iff hq (hresolves.preparable f hf)).mp hlog
      have haddress : (c.logRow data.chainId log).contractAddress = normalizeAddress f.address :=
        hq.address _ _ _ log hemitted
      rw [haddress] at hnamed ⊢
      obtain hlisted | hunlisted := hwhy
      · exact ⟨f, hf, rfl, hlisted⟩
      · exact hsound hresolves f hf hunlisted hnamed log hemitted
    · intro f hf log hemitted hlisted
      have hresolves := hcomplete f hf log hemitted hlisted
      refine ⟨_, outcome_of_resolves hq hresolves, ?_⟩
      have hlog : log ∈ c.fetched data f :=
        (mem_fetched_iff hq (hresolves.preparable f hf)).mpr ⟨hemitted, Or.inl hlisted⟩
      exact List.mem_map_of_mem (List.mem_flatMap.mpr ⟨f, hf, hlog⟩)

end

/-! ### Runs -/

def approval : AbiItem :=
  { type := .event, name := some "Approval"
    inputs := some [⟨some "value", "uint256"⟩], signature := "Approval(uint256)" }

def approvalLog : EventLog :=
  ⟨"0x05", 7, "0x01", [approval.signature], 0, 3, "Approval",
    decodedArgs ⟨"Approval", [(⟨some "value", "uint256"⟩, .bigint 5)]⟩⟩

/-- Contract 5 emits one approval. -/
def approvals (address : String) (_ _ : ℤ) : List EventLog := if address = "0x05" then [approvalLog] else []

/-- A chain whose contracts have one event, hashed as its signature. -/
def oneEvent : Chain where
  abi _ := [approval]
  blocks _ := []
  receipt hash := ⟨7, hash, 0⟩
  decodeFunctionName _ _ := .error (.new "AbiFunctionSignatureNotFoundError")
  prepareEvent signature := .ok ⟨signature, signature.signature⟩
  contractEvents address fromBlock toBlock events :=
    if events = [] then approvals address fromBlock toBlock
    else (approvals address fromBlock toBlock).filter fun log =>
      events.any fun event => log.topics[0]? = some event.hash

def transferEventsOf5 : EnqueueData EventLogFilter := ⟨1, [⟨"0x05", ["Transfer"]⟩], 7, 7⟩

theorem mem_approvals {address : String} {fromBlock toBlock : ℤ} {log : EventLog}
    (h : log ∈ approvals address fromBlock toBlock) : address = "0x05" ∧ log = approvalLog := by
  unfold approvals at h
  split_ifs at h with haddress
  · exact ⟨haddress, List.mem_singleton.mp h⟩
  · cases h

theorem queries_oneEvent : oneEvent.Queries approvals where
  all _ _ _ := rfl
  some _ _ _ _ hevents := if_neg hevents
  ofAbi address fromBlock toBlock log hlog := by
    obtain ⟨-, rfl⟩ := mem_approvals hlog
    refine ⟨approval, List.mem_singleton.mpr rfl, rfl, rfl, ?_⟩
    intro event hevent
    cases hevent
    rfl
  named address fromBlock toBlock log hlog item hitem _ _ _ := by
    obtain ⟨-, rfl⟩ := mem_approvals hlog
    obtain rfl := List.mem_singleton.mp hitem
    rfl
  address address fromBlock toBlock log hlog := by
    obtain ⟨rfl, rfl⟩ := mem_approvals hlog
    rfl

theorem filtered_iff_oneEvent : oneEvent.Filtered approvals transferEventsOf5 ↔
    (∀ f ∈ transferEventsOf5.filters, ∀ log ∈ approvals f.address transferEventsOf5.fromBlock transferEventsOf5.toBlock,
      log.eventName ∈ f.events → oneEvent.Resolves approvals transferEventsOf5) ∧
    (oneEvent.Resolves approvals transferEventsOf5 → ∀ f ∈ transferEventsOf5.filters, oneEvent.Unlisted f →
      (∀ g ∈ transferEventsOf5.filters, normalizeAddress g.address = normalizeAddress f.address → g.events ≠ []) →
        ∀ log ∈ approvals f.address transferEventsOf5.fromBlock transferEventsOf5.toBlock,
          ∃ g ∈ transferEventsOf5.filters, normalizeAddress g.address = normalizeAddress f.address ∧
            log.eventName ∈ g.events) :=
  filtered_iff queries_oneEvent

/-- A filter by a name that the ABI does not have lets everything through. -/
theorem not_filtered : ¬ ∀ (c : Chain) (emitted : String → ℤ → ℤ → List EventLog) (data : EnqueueData EventLogFilter),
    c.Queries emitted → c.Filtered emitted data := by
  intro h
  have hfiltered := h oneEvent approvals transferEventsOf5 queries_oneEvent
  have hrows : (getLogs transferEventsOf5).outcome oneEvent.replies =
    .ok [approvalLog.row 1 (some [("value", ⟨"uint256", "5"⟩)])] :=
    ok_of_toOption (by decide +kernel)
  obtain ⟨f, hf, -, hlisted⟩ := hfiltered.sound _ hrows _ (List.mem_singleton.mpr rfl) (by
    intro f hf _
    obtain rfl := List.mem_singleton.mp hf
    simp)
  obtain rfl := List.mem_singleton.mp hf
  exact absurd hlisted (by decide)

end Chain
end Engine.Events
