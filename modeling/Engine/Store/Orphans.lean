import Engine.Store.Listed

/-! Prunings among `set` calls: a record is in the list of queued ids as long as it is stored, and
the newest records stay. -/
namespace Engine.Pruning
open Concurrent Redis TransactionDB
variable {batchSize : ℕ+}

/-- No record is orphaned, and no pruning deletes one of the newest records. -/
structure Prunes (G : Guard (database batchSize)) : Prop where
  /-- With no call under way every record is in the list. -/
  inList : ∀ s q t, Reachable G (State.initial {}) s → s.quiescent = true →
    TransactionDB.get q s.world.store = .ok (some t) → q ∈ listed s.world.store .queued
  /-- An id that leaves the list has no record. -/
  removed : ∀ s s' m q t, Reachable G (State.initial {}) s → s.step G m = some s' →
    q ∈ listed s.world.store .queued → q ∉ listed s'.world.store .queued →
    TransactionDB.get q s'.world.store ≠ .ok (some t)
  /-- A record that a pruning deletes is not among the newest. -/
  recent : ∀ s s' m e keep p q t, Reachable G (State.initial {}) s → s.step G m = some s' →
    s'.trace = e :: s.trace → s.threads[e.thread]? = some (.prune keep, p) →
    TransactionDB.get q s.world.store = .ok (some t) → (∀ t', TransactionDB.get q s'.world.store ≠ .ok (some t')) →
    q ∉ newest keep (listed s.world.store .queued)

/-! ### What a `set` must not do -/

/-- With `queued` as the list, and a record of `q₀`, the pruning still has to delete the records that are
not among the newest, and no others. -/
def Phase.agrees (s : Store) (q₀ : QueueId) (queued : List QueueId) : Phase → Bool
  | .deleting keep rest => queued.all fun q =>
      (q ≠ q₀ && (record s q).isNone) || decide (q ∈ rest.flatten) == decide (q ∈ oldest keep queued)
  | _ => true

/-- The first `n` commands of `set` leave the id in the list, and no pruning disagrees with the list they leave. -/
def keepsListed (s : State (database batchSize)) (t : Transaction) (timestamp : ℤ) (n : ℕ) : Bool :=
  decide (t.queueId ≠ Index.queued.name) &&
  decide (t.queueId ∈ listedAfterSet s.world.store t timestamp n .queued) &&
  (List.range s.threads.length).all fun j => (s.localOf (databaseContract batchSize) j).all
    (Phase.agrees s.world.store t.queueId (listedAfterSet s.world.store t timestamp n .queued))

/-- The runs in which no `set` disturbs a pruning or stores a record that is not in the list. -/
def undisturbed : Guard (database batchSize) where
  start _ _ := true
  call s _ o a :=
    match o, a with
    | .set t timestamp, .ok lost =>
      (Op.set t timestamp).executed lost == 0 || keepsListed s t timestamp ((Op.set t timestamp).executed lost)
    | _, _ => true

/-! ### The invariant -/

/-- The ids that a pruning has to delete yet are the old ones, among those that have a record. -/
structure Due (s : Store) (keep : ℕ) (rest : List (List QueueId)) : Prop where
  name : Index.queued.name ∉ rest.flatten
  due : ∀ q t, record s q = some t → (q ∈ rest.flatten ↔ q ∈ oldest keep (listed s .queued))

structure Kept (s : State (database batchSize)) : Prop where
  intact : Intact s.world.store .queued
  name : Index.queued.name ∉ listed s.world.store .queued
  inList : ∀ q t, record s.world.store q = some t → q ∈ listed s.world.store .queued
  due : ∀ j keep rest, s.localOf (databaseContract batchSize) j = some (.deleting keep rest) →
    Due s.world.store keep rest

section
variable {G : Guard (database batchSize)} {s s' : State (database batchSize)} {i : ℕ} {l : Phase} {o : Op}
  {a : Except Thrown (Option ℕ)} {r : Except Thrown o.Reply}

theorem Kept.start {n : ℕ} {k : Kind} (h : Kept s) (st : Started (databaseContract batchSize) G s s' n k) :
    Kept s' := by
  have hworld := world_of_started st
  constructor
  · exact hworld ▸ h.intact
  · exact hworld ▸ h.name
  · exact hworld ▸ h.inList
  · intro j keep rest hj
    rw [hworld]
    rcases st.localOf hj with ⟨-, hinit⟩ | ⟨-, hother⟩
    · cases k <;> cases hinit
    · exact h.due j keep rest hother

/-- A call that stores no record and takes only ids without one from the list. -/
theorem Kept.call (h : Kept s) (st : Stepped (databaseContract batchSize) G s s' i l o a r)
    (hrecord : ∀ q t, record s'.world.store q = some t → record s.world.store q = some t)
    (hlisted : listed s'.world.store .queued = listed s.world.store .queued ∨
      ∃ keep, listed s'.world.store .queued = newest keep (listed s.world.store .queued) ∧
        ∀ q t, record s.world.store q = some t → q ∉ oldest keep (listed s.world.store .queued))
    (hintact : Intact s'.world.store .queued)
    (hself : ∀ keep rest, Phase.next batchSize l o r = .deleting keep rest → Due s'.world.store keep rest) :
    Kept s' := by
  have hkept : ∀ q t, record s.world.store q = some t → q ∈ listed s'.world.store .queued := by
    intro q t hq
    rcases hlisted with hlisted | ⟨keep, hlisted, hold⟩
    · exact hlisted ▸ h.inList q t hq
    · exact hlisted ▸ mem_newest_of_not_mem_oldest (h.inList q t hq) (hold q t hq)
  constructor
  · exact hintact
  · intro hmem
    rcases hlisted with hlisted | ⟨keep, hlisted, -⟩
    · exact h.name (hlisted ▸ hmem)
    · exact h.name (mem_of_mem_newest (hlisted ▸ hmem))
  · intro q t hq
    exact hkept q t (hrecord q t hq)
  · intro j keep rest hj
    rcases st.localOf hj with ⟨-, hnext⟩ | ⟨-, hother⟩
    · exact hself keep rest hnext.symm
    · have hdue := h.due j keep rest hother
      refine ⟨hdue.name, fun q t hq => ?_⟩
      have hq' := hrecord q t hq
      rw [hdue.due q t hq']
      rcases hlisted with hlisted | ⟨keep', hlisted, hold⟩
      · rw [hlisted]
      · rw [hlisted]
        exact (mem_oldest_newest h.intact.nodup (mem_newest_of_not_mem_oldest (h.inList q t hq') (hold q t hq'))).symm

theorem Kept.set {t : Transaction} {timestamp : ℤ} {r : Except Thrown Unit} (h : Kept s)
    (st : Stepped (databaseContract batchSize) undisturbed s s' i l (.set t timestamp) a r) : Kept s' := by
  obtain ⟨lost, rfl, -, hworld⟩ : ∃ lost, a = .ok lost ∧ r = (Op.set t timestamp).answer s.world.store lost ∧
    s'.world = s.world.carryOut (.set t timestamp) ((Op.set t timestamp).executed lost) := effect_cases st.performed
  set n := (Op.set t timestamp).executed lost with hn
  have hstore : s'.world.store = (Op.set t timestamp).after n s.world.store := congrArg World.store hworld
  have hnext : Phase.next batchSize l (.set t timestamp) r = .ended := by
    cases st.allowed
    rfl
  have hgranted : (n == 0 || keepsListed s t timestamp n) = true := st.granted
  by_cases hzero : n = 0
  · have hsame : s'.world.store = s.world.store := by
      rw [hstore, hzero]
      rfl
    refine h.call st (fun q t' hq => hsame ▸ hq) (Or.inl (by rw [hsame])) (hsame ▸ h.intact) (fun keep rest hl => ?_)
    rw [hnext] at hl
    cases hl
  · have hguard : keepsListed s t timestamp n = true := by simpa [hzero] using hgranted
    unfold keepsListed at hguard
    rw [Bool.and_eq_true, Bool.and_eq_true, decide_eq_true_iff, decide_eq_true_iff] at hguard
    obtain ⟨⟨hname, hin⟩, hagree⟩ := hguard
    obtain ⟨hlisted, hintact⟩ := listed_after_set t timestamp n h.intact (fun _ => hname)
    rw [← hstore] at hlisted hintact
    have hrecord : ∀ q t', record s'.world.store q = some t' → q = t.queueId ∨ record s.world.store q = some t' := by
      intro q t' hq
      rw [hstore, record_after_set] at hq
      split_ifs at hq with hif
      · exact Or.inl hif.2
      · exact Or.inr hq
    have hmem : ∀ q t', record s'.world.store q = some t' → q ∈ listed s'.world.store .queued := by
      intro q t' hq
      rw [hlisted]
      rcases hrecord q t' hq with rfl | hold
      · exact hin
      · exact (mem_listedAfterSet h.intact).mpr (Or.inr (h.inList q t' hold))
    constructor
    · exact hintact
    · rw [hlisted, mem_listedAfterSet h.intact]
      rintro (⟨-, -, heq⟩ | hold)
      · exact hname heq.symm
      · exact h.name hold
    · exact hmem
    · intro j keep rest hj
      rcases st.localOf hj with ⟨-, hself⟩ | ⟨-, hother⟩
      · exact absurd (hself.trans hnext) (by intro hl; cases hl)
      · refine ⟨(h.due j keep rest hother).name, fun q t' hq => ?_⟩
        have hj' : j < s.threads.length := by
          obtain ⟨x, hx, -⟩ := Option.map_eq_some_iff.mp hother
          exact (List.getElem?_eq_some_iff.mp hx).1
        have hall := List.all_eq_true.mp hagree j (List.mem_range.mpr hj')
        rw [hother] at hall
        have hq' := List.all_eq_true.mp hall q (hlisted ▸ hmem q t' hq)
        have hstored : (decide (q ≠ t.queueId) && (record s.world.store q).isNone) = false := by
          rcases hrecord q t' hq with rfl | hold
          · simp
          · simp [hold]
        rw [hstored, Bool.false_or, beq_iff_eq, decide_eq_decide] at hq'
        rw [hlisted]
        exact hq'

theorem Kept.zrange {start stop : ℤ} {r : Except Thrown (List QueueId)} (h : Kept s)
    (st : Stepped (databaseContract batchSize) G s s' i l (.zrangeQueued start stop) a r) : Kept s' := by
  obtain ⟨lost, rfl, hr, hworld⟩ : ∃ lost, a = .ok lost ∧ r = (Op.zrangeQueued start stop).answer s.world.store lost ∧
    s'.world = s.world.carryOut (.zrangeQueued start stop) ((Op.zrangeQueued start stop).executed lost) :=
    effect_cases st.performed
  have hstore : s'.world.store = s.world.store := (congrArg World.store hworld).trans (after_zrange _ _ _ _)
  refine h.call st (fun q t hq => hstore ▸ hq) (Or.inl (by rw [hstore])) (hstore ▸ h.intact) (fun keep rest hl => ?_)
  -- The pruning has read the old ids, and has all of them to delete.
  cases st.allowed with
  | zrange keep₀ =>
    cases r with
    | error e => cases hl
    | ok ids =>
      cases hl
      obtain ⟨-, hreply⟩ := answer_of_ok hr.symm
      obtain ⟨z, hz, -⟩ := h.intact
      have hids : ids = oldest keep (listed s.world.store .queued) := by
        have hrange : Except.ok (ZSet.range z.members 0 (-(keep : ℤ) - 1)) = (Except.ok ids : Except Thrown _) := by
          rw [← hreply]
          simp only [Op.reply, Keyspace.zrange, hz]
          rfl
        rw [listed_eq hz, ← range_keep]
        exact (Except.ok.inj hrange).symm
      have hflatten : (batches batchSize ids.length ids).flatten = ids := batches_flatten batchSize _ _ (Nat.le_refl _)
      constructor
      · rw [hflatten, hids]
        exact fun hmem => h.name (mem_of_mem_oldest hmem)
      · intro q t _
        rw [hflatten, hids, hstore]

theorem Kept.unlink {ids : List QueueId} {r : Except Thrown ℕ} (h : Kept s)
    (st : Stepped (databaseContract batchSize) G s s' i l (.unlink ids) a r) : Kept s' := by
  obtain ⟨lost, rfl, hr, hworld⟩ : ∃ lost, a = .ok lost ∧ r = (Op.unlink ids).answer s.world.store lost ∧
    s'.world = s.world.carryOut (.unlink ids) ((Op.unlink ids).executed lost) := effect_cases st.performed
  have hstore : s'.world.store = (Op.unlink ids).after ((Op.unlink ids).executed lost) s.world.store :=
    congrArg World.store hworld
  cases st.allowed with
  | unlink keep batch rest =>
    have hdue := h.due i keep (ids :: rest) st.caller
    have hname : Index.queued.name ∉ ids := fun hmem =>
      hdue.name (List.mem_flatten_of_mem List.mem_cons_self hmem)
    obtain ⟨hlisted, hintact⟩ := listed_after_unlink (n := (Op.unlink ids).executed lost) h.intact hname
    rw [← hstore] at hlisted hintact
    have hrecord : ∀ q t, record s'.world.store q = some t → record s.world.store q = some t ∧
        ((Op.unlink ids).executed lost ≠ 0 → q ∉ ids) := by
      intro q t hq
      rw [hstore, record_after_unlink] at hq
      split_ifs at hq with hif
      exact ⟨hq, fun hn hmem => hif ⟨hn, hmem⟩⟩
    refine h.call st (fun q t hq => (hrecord q t hq).1) (Or.inl hlisted) hintact (fun keep' rest' hl => ?_)
    cases r with
    | error e => cases hl
    | ok m =>
      cases hl
      obtain ⟨rfl, -⟩ := answer_of_ok hr.symm
      have hdue' := hdue.name
      constructor
      · intro hmem
        rw [List.flatten_cons, List.mem_append, not_or] at hdue'
        exact hdue'.2 hmem
      · intro q t hq
        obtain ⟨hold, hnot⟩ := hrecord q t hq
        rw [hlisted, ← hdue.due q t hold, List.flatten_cons, List.mem_append, or_iff_right (hnot Nat.one_ne_zero)]

theorem Kept.zremrange {start stop : ℤ} {r : Except Thrown Unit} (h : Kept s)
    (st : Stepped (databaseContract batchSize) G s s' i l (.zremrangebyrankAll start stop) a r) : Kept s' := by
  obtain ⟨lost, rfl, -, hworld⟩ : ∃ lost, a = .ok lost ∧ r =
    (Op.zremrangebyrankAll start stop).answer s.world.store lost ∧
    s'.world = s.world.carryOut (.zremrangebyrankAll start stop) ((Op.zremrangebyrankAll start stop).executed lost) :=
    effect_cases st.performed
  have hstore := congrArg World.store hworld
  have hnext : Phase.next batchSize l (.zremrangebyrankAll start stop) r = .ended := by
    cases st.allowed
    rfl
  cases st.allowed with
  | zremrange keep =>
    have hdue := h.due i keep [] st.caller
    obtain ⟨hlisted, hintact⟩ := listed_after_zremrange h.intact keep
      ((Op.zremrangebyrankAll 0 (-(keep : ℤ) - 1)).executed lost)
    refine h.call st (fun q t hq => ?_) ?_ (hstore ▸ hintact) (fun keep' rest' hl => ?_)
    · rw [hstore] at hq
      exact (record_after_zremrange _ _ _ _ q).symm.trans hq
    · rcases hlisted with hlisted | hlisted
      · exact Or.inl (hstore ▸ hlisted)
      · refine Or.inr ⟨keep, hstore ▸ hlisted, fun q t hq hold => ?_⟩
        have hmem := (hdue.due q t hq).mpr hold
        cases hmem
    · rw [hnext] at hl
      cases hl

theorem kept (h : Reachable undisturbed (State.initial {}) s) : Kept s := by
  refine h.invariant (databaseContract batchSize) Kept ?_ (fun _ _ _ _ _ ih st => ih.start st) ?_
  · constructor
    · exact intact_empty .queued
    · exact List.not_mem_nil
    · intro q t hq
      cases hq
    · intro j keep rest hj
      cases hj
  · intro s s' i l o a r _ ih st
    cases o with
    | set t timestamp => exact ih.set st
    | zrangeQueued start stop => exact ih.zrange st
    | unlink ids => exact ih.unlink st
    | zremrangebyrankAll start stop => exact ih.zremrange st

def Phase.keep : Phase → Option ℕ
  | .starting keep | .deleting keep _ => some keep
  | _ => none

theorem Phase.keep_of_next {keep : ℕ} (h : (Phase.next batchSize l o r).keep = some keep) : l.keep = some keep := by
  unfold Phase.next at h
  split at h
  · exact h
  · exact h
  · cases h

/-- A pruning keeps as many as it was started for. -/
theorem keep_of_thread {keep keep' : ℕ} {p : Prog ℕ} (hi : s.threads[i]? = some (.prune keep, p))
    (hl : s.localOf (databaseContract batchSize) i = some l) (hkeep : l.keep = some keep') : keep' = keep := by
  rw [localOf_eq (databaseContract batchSize) hi] at hl
  have hstart : ∀ k, (Kind.prune keep).phase.keep = some k → k = keep := fun k hk => (Option.some.inj hk).symm
  have hphase := (databaseContract batchSize).after_keeps (J := fun l => ∀ k, Phase.keep l = some k → k = keep) hstart
    (fun l o r hl k hk => hl k (Phase.keep_of_next hk)) i s.trace
  exact hphase keep' (Option.some.inj hl ▸ hkeep)

/-- Only `UNLINK` deletes records: those of a batch. -/
theorem unlinks_of_deleted {q : QueueId} {t : Transaction}
    (st : Stepped (databaseContract batchSize) G s s' i l o a r) (hq : record s.world.store q = some t)
    (hq' : record s'.world.store q = none) : ∃ keep batch rest, l = .deleting keep (batch :: rest) ∧ q ∈ batch := by
  obtain ⟨lost, rfl, -, hworld⟩ : ∃ lost, a = .ok lost ∧ r = o.answer s.world.store lost ∧
    s'.world = s.world.carryOut o (o.executed lost) := effect_cases st.performed
  have hstore : s'.world.store = o.after (o.executed lost) s.world.store := congrArg World.store hworld
  rw [hstore] at hq'
  cases o with
  | set t' timestamp =>
    rw [record_after_set, hq] at hq'
    split_ifs at hq'
  | zrangeQueued start stop =>
    rw [after_zrange, hq] at hq'
    cases hq'
  | unlink ids =>
    rw [record_after_unlink, hq] at hq'
    split_ifs at hq' with hif
    cases st.allowed with
    | unlink keep batch rest => exact ⟨keep, ids, rest, rfl, hif.2⟩
  | zremrangebyrankAll start stop =>
    rw [record_after_zremrange, hq] at hq'
    cases hq'

end

def queuedWithId (q : QueueId) : Transaction :=
  { isUserOp := false, chainId := 1, «from» := 7, status := .queued, queueId := q }

/-- In the runs without such a `set` prunings leave no orphans and lose nothing recent. -/
theorem prunes_undisturbed (batchSize : ℕ+) : Prunes (undisturbed : Guard (database batchSize)) := by
  constructor
  · intro s q t hs _ hq
    exact (kept hs).inList q t (get_eq_some.mp hq)
  · intro s s' m q t hs hstep _ hleft hq
    exact hleft ((kept (hs.step hstep)).inList q t (get_eq_some.mp hq))
  · intro s s' m e keep p q t hs hstep htr hi hq hdeleted
    rcases (hs.conforms (databaseContract batchSize)).step _ hstep with ⟨n, k, st⟩ | ⟨i, l, o, a, r, st⟩
    · have hlength := congrArg List.length (st.traced.symm.trans htr)
      rw [List.length_cons] at hlength
      omega
    · obtain rfl : ⟨i, o, a, r⟩ = e := (List.cons.inj (st.traced.symm.trans htr)).1
      have hq' : record s'.world.store q = none :=
        Option.eq_none_iff_forall_ne_some.mpr fun t' ht' => hdeleted t' (get_eq_some.mpr ht')
      obtain ⟨keep', batch, rest, rfl, hbatch⟩ := unlinks_of_deleted st (get_eq_some.mp hq) hq'
      obtain rfl : keep' = keep := keep_of_thread hi st.caller rfl
      have hdue := (kept hs).due i keep' (batch :: rest) st.caller
      have hold := (hdue.due q t (get_eq_some.mp hq)).mp (List.mem_flatten_of_mem List.mem_cons_self hbatch)
      exact not_mem_newest (kept hs).intact.nodup hold

/-- A record of the list is changed while its elder is pruned, and one is queued after it. -/
example : ((State.initial (M := database 1) {}).run undisturbed (calls (.set (queuedWithId "a") 1) 0 1 ++
    calls (.set (queuedWithId "b") 2) 1 1 ++ calls (.prune 1) 2 1 ++
    calls (.set { queuedWithId "b" with status := .sent } 3) 3 1 ++
      [.call 2 fun _ => .ok none, .call 2 fun _ => .ok none] ++
    calls (.set (queuedWithId "c") 4) 4 1)).any (fun s => record s.world.store "a" == none) = true := by decide +kernel

/-! ### An insert during a pruning -/

/-- The pruning has deleted the record of `a` when `c` is queued; then it takes `a` and `b` from the list. -/
def queuedBetween : List (Move (database 1)) :=
  calls (.set (queuedWithId "a") 1) 0 1 ++ calls (.set (queuedWithId "b") 2) 1 1 ++ calls (.prune 1) 2 2 ++
    calls (.set (queuedWithId "c") 3) 3 1 ++ [.call 2 fun _ => .ok none]

theorem not_prunes : ¬ Prunes (anyCalls 1) := by
  intro hgeneral
  obtain ⟨s, hs, hcheck⟩ := exists_reachable_of_run (anyCalls 1) {} queuedBetween (fun s =>
    s.quiescent && decide (record s.world.store "b" = some (queuedWithId "b")) &&
      decide ("b" ∉ listed s.world.store .queued)) (by decide +kernel)
  rw [Bool.and_eq_true, Bool.and_eq_true, decide_eq_true_iff, decide_eq_true_iff] at hcheck
  obtain ⟨⟨hquiescent, hrecord⟩, hleft⟩ := hcheck
  exact hleft (hgeneral.inList s "b" _ hs hquiescent (get_eq_some.mpr hrecord))

end Engine.Pruning
