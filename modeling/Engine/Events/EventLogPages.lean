import Mathlib.Data.List.Induction
import Engine.Events.Pagination

/-! Reading the event logs by cursor while logs are inserted. -/
namespace Engine.Events

/-! ### Cursors -/

variable (o : Codec.Base64)

theorem exists_encodeCursor (values : List ℕ) (h : values ≠ []) :
    ∃ c, encodeCursor o values = .ok c ∧ c ≠ "" ∧ cursorValues o c = .ok (values.map fun n : ℕ => some (n : ℤ)) := by
  have hascii : ∀ c ∈ (String.ofList (Codec.joinDashes values)).toList, c.toNat < 256 := by
    intro c hc
    rw [String.toList_ofList] at hc
    exact Codec.joinDashes_ascii hc
  obtain ⟨c, hc⟩ := Option.isSome_iff_exists.mp (o.encode_isSome _ hascii)
  have hdecoded := o.decode_encode _ _ hc
  have hread := Codec.splitDashes_joinDashes h
  refine ⟨c, ?_, ?_, ?_⟩
  · unfold encodeCursor
    rw [hc]
    rfl
  · intro hempty
    rw [hempty, o.decode_empty] at hdecoded
    have hnil : Codec.joinDashes values = [] := by
      have htext := congrArg String.toList (Option.some.inj hdecoded)
      simpa using htext.symm
    rw [hnil] at hread
    cases values with
    | nil => exact h rfl
    | cons n values => simp [Codec.splitDashes, Codec.parseInt, Codec.parseUnsigned, Codec.parseDigits] at hread
  · unfold cursorValues
    rw [hdecoded]
    simp only [String.toList_ofList, hread]
    rfl

/-- The cursor that a log is encoded as. -/
def ContractEventLogs.cursor (log : ContractEventLogs) : EventLogCursor :=
  ⟨log.createdAt, log.chainId, log.blockNumber, log.transactionIndex, log.logIndex⟩

/-- A returned cursor is decoded to the tuple of the last log. -/
theorem parse_encodeCursor (log : ContractEventLogs) :
    ∃ c, encodeCursor o log.tuple = .ok c ∧ c ≠ "" ∧ parseEventLogCursor o c = .ok log.cursor := by
  obtain ⟨c, hc, hne, hvalues⟩ := exists_encodeCursor o log.tuple (by simp [ContractEventLogs.tuple])
  refine ⟨c, hc, hne, ?_⟩
  unfold parseEventLogCursor
  rw [hvalues]
  rfl

/-- The five alternatives are the lexicographic order. -/
theorem before_iff (last log : ContractEventLogs) : last.cursor.before log = true ↔ last.tuple < log.tuple := by
  unfold EventLogCursor.before ContractEventLogs.cursor ContractEventLogs.tuple
  dsimp only
  simp only [gt_iff_lt, Bool.or_eq_true, Bool.and_eq_true, decide_eq_true_iff, List.cons_lt_cons_iff,
    List.not_lt_nil, and_false, or_false]
  omega

/-- What the cursor of a reader stands for. -/
def IsCursorOf : Option String → Option ContractEventLogs → Prop
  | none, none => True
  | some c, some log => c ≠ "" ∧ parseEventLogCursor o c = .ok log.cursor
  | _, _ => False

/-- The log is accepted, after the last one, and not too new. -/
def isNext (filters : LogFilters) (last : Option ContractEventLogs) (maxCreatedAt : ℤ) (log : ContractEventLogs) :
    Bool :=
  filters.accepts log && last.all (fun last => decide (last.tuple < log.tuple)) &&
    decide ((log.createdAt : ℤ) ≤ maxCreatedAt)

section
variable {o} {table : List ContractEventLogs} {filters : LogFilters} {cursor : Option String}
  {last : Option ContractEventLogs} {limit : Option ℕ} {maxCreatedAt : ℤ}

variable (table filters limit maxCreatedAt) in
/-- A call with a cursor returns the next logs, and a cursor for the last one. -/
theorem getEventLogsByCursor_eq (h : IsCursorOf o cursor last) : ∃ newCursor,
    getEventLogsByCursor o table cursor limit filters (some maxCreatedAt) = .ok (newCursor,
      Keyset.select ContractEventLogs.tuple (isNext filters last maxCreatedAt) (limit.getD 100) table) ∧
    IsCursorOf o newCursor ((Keyset.select ContractEventLogs.tuple (isNext filters last maxCreatedAt) (limit.getD 100)
      table).getLast?.or last) := by
  have hread : (cursor.filter (· ≠ "")).mapM (parseEventLogCursor o) =
      .ok (last.map ContractEventLogs.cursor) := by
    cases cursor with
    | none =>
      cases last with
      | none => rfl
      | some log => cases h
    | some c =>
      cases last with
      | none => cases h
      | some log =>
        obtain ⟨hne, hparse⟩ := h
        simp [Option.filter, hne, hparse]
  have hwhere : eventLogsWhere filters (last.map ContractEventLogs.cursor) (some maxCreatedAt) =
      isNext filters last maxCreatedAt := by
    funext log
    cases last with
    | none => rfl
    | some last =>
      have hbefore : last.cursor.before log = decide (last.tuple < log.tuple) := by
        rw [Bool.eq_iff_iff, before_iff, decide_eq_true_iff]
      simp [eventLogsWhere, isNext, hbefore]
  unfold getEventLogsByCursor
  rw [hread]
  simp only [bind, Except.bind, hwhere]
  cases hlast : (Keyset.select ContractEventLogs.tuple (isNext filters last maxCreatedAt) (limit.getD 100)
      table).getLast? with
  | none => exact ⟨cursor, rfl, by simpa using h⟩
  | some lastLog =>
    obtain ⟨c, hc, hne, hparse⟩ := parse_encodeCursor o lastLog
    refine ⟨some c, ?_, hne, hparse⟩
    simp only [hc]
    rfl

end

/-! ### Histories -/

/-- A log becomes visible, or the next page is asked for. -/
inductive Event
  | insert (log : ContractEventLogs)
  | request (now : ℤ)
deriving DecidableEq

/-- The tuples of logs are different; time goes on; a log that is visible only after a request was
created less than the delay before it. -/
def Event.Precedes (cursorDelaySeconds : ℤ) : Event → Event → Prop
  | .insert log, .insert log' => log.tuple ≠ log'.tuple
  | .insert _, .request _ => True
  | .request now, .insert log => now < log.createdAt + cursorDelaySeconds * 1000
  | .request now, .request now' => now ≤ now'

instance (cursorDelaySeconds : ℤ) (e e' : Event) : Decidable (e.Precedes cursorDelaySeconds e') :=
  match e, e' with
  | .insert log, .insert log' => inferInstanceAs (Decidable (log.tuple ≠ log'.tuple))
  | .insert _, .request _ => inferInstanceAs (Decidable True)
  | .request now, .insert log => inferInstanceAs (Decidable (now < log.createdAt + cursorDelaySeconds * 1000))
  | .request now, .request now' => inferInstanceAs (Decidable (now ≤ now'))

def History (cursorDelaySeconds : ℤ) (es : List Event) : Prop := es.Pairwise (Event.Precedes cursorDelaySeconds)

/-- The table, the reader's cursor and the pages that it got. -/
structure Reading where
  table : List ContractEventLogs
  cursor : Option String
  pages : List (List ContractEventLogs)

namespace Reading

def start : Reading := ⟨[], none, []⟩

/-- All logs that were returned, in order. -/
def returned (s : Reading) : List ContractEventLogs := s.pages.flatten

def step (cursorDelaySeconds : ℤ) (filters : LogFilters) (pageSize : Option ℕ) (s : Reading) :
    Event → Except Err Reading
  | .insert log => pure { s with table := log :: s.table }
  | .request now => do
    let (newCursor, logs) ← pageEventLogs o s.table cursorDelaySeconds now { filters with cursor := s.cursor, pageSize }
    pure { s with cursor := newCursor, pages := s.pages ++ [logs] }

def run (cursorDelaySeconds : ℤ) (filters : LogFilters) (pageSize : Option ℕ) (es : List Event) :
    Except Err Reading :=
  es.foldlM (step o cursorDelaySeconds filters pageSize) start

end Reading

/-- Reading by cursor is exact. -/
structure Exact (cursorDelaySeconds : ℤ) (filters : LogFilters) (pageSize : Option ℕ) (es : List Event) : Prop where
  /-- No request fails. -/
  served : ∃ s, Reading.run o cursorDelaySeconds filters pageSize es = .ok s
  /-- No log is returned twice, and the tuples increase. -/
  ordered : ∀ s, Reading.run o cursorDelaySeconds filters pageSize es = .ok s →
    s.returned.Pairwise fun log log' => log.tuple < log'.tuple
  accepted : ∀ s, Reading.run o cursorDelaySeconds filters pageSize es = .ok s →
    ∀ log ∈ s.returned, .insert log ∈ es ∧ filters.accepts log = true
  /-- After a page that is not full, every log that is old enough was returned. -/
  complete : ∀ es' now es'' s page, es = es' ++ .request now :: es'' →
    Reading.run o cursorDelaySeconds filters pageSize (es' ++ [.request now]) = .ok s → s.pages.getLast? = some page →
      page.length < pageSize.getD 100 → ∀ log, .insert log ∈ es → filters.accepts log = true →
        (log.createdAt : ℤ) ≤ now - cursorDelaySeconds * 1000 → log ∈ s.returned
  /-- A returned cursor is decoded to the tuple of the last log. -/
  decoded : ∀ s c, Reading.run o cursorDelaySeconds filters pageSize es = .ok s → s.cursor = some c →
    ∃ log, s.returned.getLast? = some log ∧ parseEventLogCursor o c = .ok log.cursor

/-! ### The invariant -/

/-- What is known of a reader after a history. -/
structure Reading.Sound (cursorDelaySeconds : ℤ) (filters : LogFilters) (es : List Event) (s : Reading) : Prop where
  table : ∀ log, log ∈ s.table ↔ .insert log ∈ es
  unique : (s.table.map ContractEventLogs.tuple).Nodup
  cursor : IsCursorOf o s.cursor s.returned.getLast?
  ordered : s.returned.Pairwise fun log log' => log.tuple < log'.tuple
  accepted : ∀ log ∈ s.returned, log ∈ s.table ∧ filters.accepts log = true
  /-- Nothing up to the cursor was left out. -/
  closed : ∀ last, s.returned.getLast? = some last → ∀ log ∈ s.table, filters.accepts log = true →
    log.tuple ≤ last.tuple → log ∈ s.returned
  /-- The cursor is older than the delay before some request. -/
  old : ∀ last, s.returned.getLast? = some last →
    ∃ now, .request now ∈ es ∧ (last.createdAt : ℤ) ≤ now - cursorDelaySeconds * 1000

section
variable {o} {cursorDelaySeconds : ℤ} {filters : LogFilters} {pageSize : Option ℕ} {es : List Event} {s : Reading}

theorem createdAt_le_of_tuple_le {log log' : ContractEventLogs} (h : log.tuple ≤ log'.tuple) :
    log.createdAt ≤ log'.createdAt := by
  by_contra hlt
  refine absurd h (not_le_of_gt ?_)
  exact List.cons_lt_cons_iff.mpr (Or.inl (by omega))

theorem Reading.sound_start : Reading.start.Sound o cursorDelaySeconds filters [] := by
  constructor
  · intro log
    simp [Reading.start]
  · exact List.nodup_nil
  · trivial
  · exact List.Pairwise.nil
  · intro log hlog
    cases hlog
  · intro last hlast
    cases hlast
  · intro last hlast
    cases hlast

theorem Reading.Sound.insert (h : s.Sound o cursorDelaySeconds filters es) {log : ContractEventLogs}
    (hes : ∀ e ∈ es, e.Precedes cursorDelaySeconds (.insert log)) :
    ({ s with table := log :: s.table } : Reading).Sound o cursorDelaySeconds filters (es ++ [.insert log]) := by
  constructor
  · intro x
    simp [h.table x, or_comm]
  · refine List.nodup_cons.mpr ⟨fun hmem => ?_, h.unique⟩
    obtain ⟨x, hx, htuple⟩ := List.mem_map.mp hmem
    exact hes _ ((h.table x).mp hx) htuple
  · exact h.cursor
  · exact h.ordered
  · intro x hx
    exact ⟨List.mem_cons_of_mem log (h.accepted x hx).1, (h.accepted x hx).2⟩
  · intro last hlast x hx haccepts hle
    rcases List.mem_cons.mp hx with rfl | hx
    · -- the new log is newer than the cursor
      obtain ⟨now, hnow, hold⟩ := h.old last hlast
      have hlater : now < x.createdAt + cursorDelaySeconds * 1000 := hes _ hnow
      have hcreated := createdAt_le_of_tuple_le hle
      omega
    · exact h.closed last hlast x hx haccepts hle
  · intro last hlast
    obtain ⟨now, hnow, hold⟩ := h.old last hlast
    exact ⟨now, List.mem_append_left _ hnow, hold⟩

variable (pageSize) in
/-- A request returns the next logs. -/
theorem Reading.Sound.step_request (h : s.Sound o cursorDelaySeconds filters es) (now : ℤ) : ∃ newCursor logs,
    s.step o cursorDelaySeconds filters pageSize (.request now) =
      .ok { s with cursor := newCursor, pages := s.pages ++ [logs] } ∧
    logs = Keyset.select ContractEventLogs.tuple
      (isNext filters s.returned.getLast? (now - cursorDelaySeconds * 1000)) (pageSize.getD 100) s.table ∧
    IsCursorOf o newCursor (logs.getLast?.or s.returned.getLast?) := by
  obtain ⟨newCursor, hpage, hcursor⟩ := getEventLogsByCursor_eq s.table filters pageSize
    (now - cursorDelaySeconds * 1000) h.cursor
  refine ⟨newCursor, _, ?_, rfl, hcursor⟩
  unfold Reading.step pageEventLogs
  simp only [hpage]
  rfl

theorem isNext_iff {last : Option ContractEventLogs} {maxCreatedAt : ℤ} {log : ContractEventLogs} :
    isNext filters last maxCreatedAt log = true ↔ filters.accepts log = true ∧
      (∀ x, last = some x → x.tuple < log.tuple) ∧ (log.createdAt : ℤ) ≤ maxCreatedAt := by
  cases last <;> simp [isNext, and_assoc]

/-- Every log that is accepted and old enough is on the page or was returned before, if the page is
not full or ends after it. -/
theorem Reading.Sound.mem_page (h : s.Sound o cursorDelaySeconds filters es) {logs : List ContractEventLogs} {now : ℤ}
    (hlogs : logs = Keyset.select ContractEventLogs.tuple
      (isNext filters s.returned.getLast? (now - cursorDelaySeconds * 1000)) (pageSize.getD 100) s.table)
    {log : ContractEventLogs} (hlog : log ∈ s.table) (haccepts : filters.accepts log = true)
    (hold : (log.createdAt : ℤ) ≤ now - cursorDelaySeconds * 1000)
    (hpage : logs.length < pageSize.getD 100 ∨ ∃ x ∈ logs, log.tuple ≤ x.tuple) : log ∈ s.returned ++ logs := by
  rw [List.mem_append]
  by_cases hafter : ∀ x, s.returned.getLast? = some x → x.tuple < log.tuple
  · have hnext := isNext_iff.mpr ⟨haccepts, hafter, hold⟩
    refine Or.inr ?_
    subst hlogs
    rcases hpage with hshort | ⟨x, hx, hle⟩
    · exact Keyset.mem_select_of_length_lt hshort hlog hnext
    · exact Keyset.mem_select_of_le h.unique hlog hnext hx hle
  · push Not at hafter
    obtain ⟨x, hx, hle⟩ := hafter
    exact Or.inl (h.closed x hx log hlog haccepts hle)

theorem Reading.Sound.request (h : s.Sound o cursorDelaySeconds filters es) {newCursor : Option String}
    {logs : List ContractEventLogs} {now : ℤ} (hlogs : logs = Keyset.select ContractEventLogs.tuple
      (isNext filters s.returned.getLast? (now - cursorDelaySeconds * 1000)) (pageSize.getD 100) s.table)
    (hcursor : IsCursorOf o newCursor (logs.getLast?.or s.returned.getLast?)) :
    ({ s with cursor := newCursor, pages := s.pages ++ [logs] } : Reading).Sound o cursorDelaySeconds filters
      (es ++ [.request now]) := by
  have hreturned : ({ s with cursor := newCursor, pages := s.pages ++ [logs] } : Reading).returned =
      s.returned ++ logs := by
    simp [Reading.returned]
  have hnext : ∀ log ∈ logs, log ∈ s.table ∧ filters.accepts log = true ∧
      (∀ x, s.returned.getLast? = some x → x.tuple < log.tuple) ∧
        (log.createdAt : ℤ) ≤ now - cursorDelaySeconds * 1000 := by
    intro log hlog
    rw [hlogs] at hlog
    obtain ⟨hmem, hp⟩ := Keyset.mem_of_mem_select hlog
    exact ⟨hmem, isNext_iff.mp hp⟩
  constructor
  · intro log
    simp [h.table log]
  · exact h.unique
  · rw [hreturned, List.getLast?_append]
    exact hcursor
  · rw [hreturned, List.pairwise_append]
    refine ⟨h.ordered, ?_, fun x hx y hy => ?_⟩
    · rw [hlogs]
      exact Keyset.select_pairwise h.unique
    · -- all logs of the page are after the last one that was returned
      obtain ⟨last, hlast⟩ : ∃ last, s.returned.getLast? = some last :=
        Option.isSome_iff_exists.mp (List.getLast?_isSome.mpr (List.ne_nil_of_mem hx))
      have hle : x.tuple ≤ last.tuple := by
        obtain ⟨init, hinit⟩ := List.getLast?_eq_some_iff.mp hlast
        have hordered := h.ordered
        rw [hinit] at hx hordered
        rcases List.mem_append.mp hx with hx | hx
        · exact ((List.pairwise_append.mp hordered).2.2 x hx last (by simp)).le
        · rw [List.mem_singleton.mp hx]
      exact lt_of_le_of_lt hle ((hnext y hy).2.2.1 last hlast)
  · intro log hlog
    rw [hreturned] at hlog
    rcases List.mem_append.mp hlog with hlog | hlog
    · exact h.accepted log hlog
    · exact ⟨(hnext log hlog).1, (hnext log hlog).2.1⟩
  · intro last hlast log hlog haccepts hle
    rw [hreturned, List.getLast?_append] at hlast
    rw [hreturned]
    cases hpage : logs.getLast? with
    | none =>
      rw [hpage, Option.none_or] at hlast
      exact List.mem_append_left _ (h.closed last hlast log hlog haccepts hle)
    | some x =>
      rw [hpage, Option.some_or] at hlast
      obtain rfl := Option.some.inj hlast
      have hx := List.mem_of_getLast? hpage
      have hcreated := createdAt_le_of_tuple_le hle
      have hmax := (hnext x hx).2.2.2
      exact h.mem_page hlogs hlog haccepts (by omega) (Or.inr ⟨x, hx, hle⟩)
  · intro last hlast
    rw [hreturned, List.getLast?_append] at hlast
    cases hpage : logs.getLast? with
    | none =>
      rw [hpage, Option.none_or] at hlast
      obtain ⟨now', hnow', hold⟩ := h.old last hlast
      exact ⟨now', List.mem_append_left _ hnow', hold⟩
    | some x =>
      rw [hpage, Option.some_or] at hlast
      obtain rfl := Option.some.inj hlast
      exact ⟨now, by simp, (hnext x (List.mem_of_getLast? hpage)).2.2.2⟩

theorem Reading.run_append (hs : Reading.run o cursorDelaySeconds filters pageSize es = .ok s) (e : Event) :
    Reading.run o cursorDelaySeconds filters pageSize (es ++ [e]) = s.step o cursorDelaySeconds filters pageSize e := by
  unfold Reading.run at hs ⊢
  rw [List.foldlM_append, hs]
  exact bind_pure (s.step o cursorDelaySeconds filters pageSize e)

variable (o filters pageSize) in
/-- Every history is served. -/
theorem Reading.sound (h : History cursorDelaySeconds es) :
    ∃ s, Reading.run o cursorDelaySeconds filters pageSize es = .ok s ∧ s.Sound o cursorDelaySeconds filters es := by
  induction es using List.reverseRecOn with
  | nil => exact ⟨Reading.start, rfl, Reading.sound_start⟩
  | append_singleton es e ih =>
    obtain ⟨hbefore, -, hlast⟩ := List.pairwise_append.mp h
    obtain ⟨s, hs, hsound⟩ := ih hbefore
    have hrun := Reading.run_append hs e
    cases e with
    | insert log =>
      exact ⟨_, hrun, hsound.insert fun e he => hlast e he _ (by simp)⟩
    | request now =>
      obtain ⟨newCursor, logs, hstep, hlogs, hcursor⟩ := hsound.step_request pageSize now
      exact ⟨_, hrun.trans hstep, hsound.request hlogs hcursor⟩

/-- Reading event logs by cursor is exact, for every history, filter and page size. -/
theorem event_log_pages (h : History cursorDelaySeconds es) : Exact o cursorDelaySeconds filters pageSize es := by
  obtain ⟨s, hs, hsound⟩ := Reading.sound o filters pageSize h
  constructor
  · exact ⟨s, hs⟩
  · intro s' hs'
    obtain rfl := Except.ok.inj (hs.symm.trans hs')
    exact hsound.ordered
  · intro s' hs' log hlog
    obtain rfl := Except.ok.inj (hs.symm.trans hs')
    obtain ⟨hmem, haccepts⟩ := hsound.accepted log hlog
    exact ⟨(hsound.table log).mp hmem, haccepts⟩
  · intro es' now es'' s' page hes hs' hpage hshort log hlog haccepts hold
    subst hes
    obtain ⟨hbefore, hafter, -⟩ := List.pairwise_append.mp h
    obtain ⟨s₁, hs₁, hsound₁⟩ := Reading.sound o filters pageSize hbefore
    obtain ⟨newCursor, logs, hstep, hlogs, -⟩ := hsound₁.step_request pageSize now
    obtain rfl := Except.ok.inj (((Reading.run_append hs₁ _).trans hstep).symm.trans hs')
    obtain rfl : logs = page := by simpa using hpage
    have hmem : log ∈ s₁.table := by
      rcases List.mem_append.mp hlog with hlog | hlog
      · exact (hsound₁.table log).mpr hlog
      · -- a log that comes later is too new
        have hcomes : Event.insert log ∈ es'' := by simpa using hlog
        have hlater : now < log.createdAt + cursorDelaySeconds * 1000 := List.rel_of_pairwise_cons hafter hcomes
        omega
    have hreturned := hsound₁.mem_page hlogs hmem haccepts hold (Or.inl hshort)
    simpa [Reading.returned] using hreturned
  · intro s' c hs' hc
    obtain rfl := Except.ok.inj (hs.symm.trans hs')
    have hcursor := hsound.cursor
    rw [hc] at hcursor
    cases hlast : s.returned.getLast? with
    | none =>
      rw [hlast] at hcursor
      cases hcursor
    | some log =>
      rw [hlast] at hcursor
      exact ⟨log, rfl, hcursor.2⟩

end

/-- A log of contract 5 on chain 1, in block 7. -/
def logAt (createdAt logIndex : ℕ) : ContractEventLogs where
  chainId := 1
  blockNumber := 7
  contractAddress := "0x05"
  transactionHash := "0x01"
  topic0 := none
  topic1 := none
  topic2 := none
  topic3 := none
  transactionIndex := 0
  logIndex := logIndex
  eventName := "Transfer"
  createdAt := createdAt

/-- Two pages inside one block, and a log that becomes visible late. -/
def lateLog : List Event :=
  [.insert (logAt 1000 2), .insert (logAt 1000 1), .insert (logAt 3000 3), .request 3500, .insert (logAt 1800 4),
    .request 4000]

theorem event_log_pages_lateLog : Exact Codec.base64 2 ⟨some ["0x05"], none⟩ (some 1) lateLog ∧
    (Reading.run Codec.base64 2 ⟨some ["0x05"], none⟩ (some 1) lateLog).toOption.map Reading.returned =
      some [logAt 1000 1, logAt 1000 2] := ⟨event_log_pages (by unfold History; decide), by decide +kernel⟩

end Engine.Events
