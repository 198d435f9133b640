import Engine.Concurrent.Product
import Engine.Indexer.Contract

/-! The cursor of a chain never moves back, and jobs are enqueued for every block that it passes. -/
namespace Engine.Indexer
open Concurrent Program Function

/-- The block is in the range, and the filters contain the given one. -/
structure EnqueueData.Covers {φ : Type} (data : EnqueueData φ) (chainId : ℕ) (n : ℤ) (filter : φ) : Prop where
  chainId : data.chainId = chainId
  fromBlock : data.fromBlock ≤ n
  toBlock : n ≤ data.toBlock
  filters : filter ∈ data.filters

/-- The jobs that a subscription needs for a block were enqueued. -/
structure World.Covers (w : World) (s : ContractSubscription) (n : ℤ) : Prop where
  events : s.processEventLogs = true → ∃ job ∈ w.eventJobs, job.data.Covers s.chainId n s.eventLogFilter
  receipts : s.processTransactionReceipts = true →
    ∃ job ∈ w.receiptJobs, job.data.Covers s.chainId n s.transactionReceiptFilter

/-- Every active subscription of the chain has its jobs for the blocks up to `b`, from its creation on. -/
def World.CoveredTo (w : World) (c : ℕ) (b : ℤ) : Prop :=
  ∀ s ∈ w.subscriptions, s.chainId = c → s.deleted = false → ∀ n, s.createdAtHead < n → n ≤ b → w.Covers s n

/-- Along all runs, no cursor moves back, and the blocks up to a cursor are covered. -/
structure BlockCoverage (G : Guard indexer) (w : World) : Prop where
  kept : ∀ (s s' : State indexer) (m : Move indexer) (c : ℕ) (b : ℤ), Reachable G (State.initial w) s →
    s.step G m = some s' → s.world.lastIndexedBlock c = some b → ∃ b', s'.world.lastIndexedBlock c = some b' ∧ b ≤ b'
  covered : ∀ (s : State indexer) (c : ℕ) (b : ℤ), Reachable G (State.initial w) s →
    s.world.lastIndexedBlock c = some b → s.world.CoveredTo c b

/-- The add requests do not write a cursor. -/
def cursorsUntouched : Guard indexer where
  start _ _ := true
  call _ _ o a :=
    match o, a with
    | .upsertChainIndexer none _ _, .ok _ => false
    | _, _ => true

/-- No transaction is open, cursors are not ahead of their chains, and what they passed is covered. -/
structure World.Indexed (w : World) : Prop where
  locks : ∀ c, w.locks c = none
  writes : ∀ c, w.writes c = none
  transactions : w.transactions = []
  head : ∀ c b, w.lastIndexedBlock c = some b → b ≤ w.head c
  covered : ∀ c b, w.lastIndexedBlock c = some b → w.CoveredTo c b

section
variable {G : Guard indexer} {s s' : State indexer} {w w' : World} {i : ℕ} {l : Stage} {o : Op}
  {a : Except Err o.Choice} {r : Except Err o.Reply} {c pgtx : ℕ} {b n v : ℤ} {subs : List ContractSubscription}

abbrev Indexed (G : Guard indexer) (s s' : State indexer) (i : ℕ) (l : Stage) (o : Op) (a : Except Err o.Choice)
    (r : Except Err o.Reply) : Prop := Stepped indexContract G s s' i l o a r

/-! ### What a call does -/

/-- Nothing is forgotten, what is new is new, and a locked row stays as it is while its transaction is open. -/
structure World.Later (w w' : World) : Prop where
  next : w.nextTransaction ≤ w'.nextTransaction
  head : ∀ c, w.head c ≤ w'.head c
  eventJobs : ∀ job ∈ w.eventJobs, job ∈ w'.eventJobs
  receiptJobs : ∀ job ∈ w.receiptJobs, job ∈ w'.receiptJobs
  transactions : ∀ pgtx ∈ w'.transactions, pgtx ∈ w.transactions ∨ pgtx = w.nextTransaction
  subscriptions : ∀ s ∈ w'.subscriptions, s.deleted = false → s ∈ w.subscriptions ∨ w.head s.chainId ≤ s.createdAtHead
  locks : ∀ c pgtx, w.locks c = some pgtx → pgtx ∈ w'.transactions →
    w'.locks c = some pgtx ∧ w'.lastIndexedBlock c = w.lastIndexedBlock c

theorem later_refl (w : World) : w.Later w := by
  constructor
  · exact Nat.le_refl _
  · exact fun _ => Int.le_refl _
  · exact fun _ hj => hj
  · exact fun _ hj => hj
  · exact fun _ ht => Or.inl ht
  · exact fun _ hs _ => Or.inl hs
  · exact fun _ _ hl _ => ⟨hl, rfl⟩

theorem later_ended (w : World) (pgtx : ℕ) (committed : Bool) : w.Later (w.ended pgtx committed) := by
  constructor
  · exact Nat.le_refl _
  · exact fun _ => Int.le_refl _
  · exact fun _ hj => hj
  · exact fun _ hj => hj
  · intro t ht
    exact Or.inl (List.mem_filter.mp ht).1
  · exact fun _ hs _ => Or.inl hs
  · intro c t hl ht
    have hne : t ≠ pgtx := by simpa using (List.mem_filter.mp ht).2
    simp [World.ended, hl, hne]

/-- A subscription that is active after a call was there before it, or the call created it. -/
theorem subscriptions_of_effect {sub : ContractSubscription} (h : w.effect o a = some (r, w'))
    (hsub : sub ∈ w'.subscriptions) (hd : sub.deleted = false) : sub ∈ w.subscriptions ∨
      ∃ params id, o = .createContractSubscription params ∧ a.isOk = true ∧
        sub = ⟨params, id, false, w.head params.chainId⟩ := by
  obtain ⟨e, -, rfl⟩ | ⟨x, y, rfl, -, hchanged⟩ := World.changed_of_effect h
  · exact Or.inl hsub
  · cases hchanged with
    | subscribed params id =>
      rcases List.mem_cons.mp hsub with hnew | hold
      · exact Or.inr ⟨params, id, rfl, rfl, hnew⟩
      · exact Or.inl hold
    | unsubscribed id =>
      obtain ⟨s', hs', heq⟩ := List.mem_map.mp hsub
      split_ifs at heq with hid
      · rw [← heq] at hd
        cases hd
      · exact Or.inl (heq ▸ hs')
    | _ => exact Or.inl hsub

/-- A row that is locked stays so, and as it is, while another transaction locks one that is free. -/
theorem locks_update {t t' c' : ℕ} (hlock : w.locks c = none ∨ w.locks c = some t) (hl : w.locks c' = some t') :
    update w.locks c (some t) c' = some t' := by
  by_cases heq : c' = c
  · subst heq
    rw [hl] at hlock
    obtain rfl : t' = t := by simpa using hlock
    simp
  · simpa [update_of_ne heq] using hl

private theorem later_of_changed (h : w.Changed o w') (hsubs : ∀ s ∈ w'.subscriptions, s.deleted = false →
    s ∈ w.subscriptions ∨ w.head s.chainId ≤ s.createdAtHead) : w.Later w' := by
  have hrefl := later_refl w
  cases h with
  | began =>
    refine { hrefl with next := by simp, transactions := fun t ht => ?_, locks := fun c t hl _ => ⟨hl, rfl⟩ }
    rcases List.mem_cons.mp ht with rfl | ht
    · exact Or.inr rfl
    · exact Or.inl ht
  | ended o t committed ho => exact later_ended w t committed
  | locked t c hfree =>
    exact { hrefl with locks := fun c' t' hl _ => ⟨locks_update (Or.inl hfree) hl, rfl⟩ }
  | wrote t c v hopen hlock =>
    exact { hrefl with locks := fun c' t' hl _ => ⟨locks_update hlock hl, rfl⟩ }
  | reset c v hfree =>
    refine { hrefl with locks := fun c' t' hl _ => ⟨hl, ?_⟩ }
    have hne : c' ≠ c := by
      intro heq
      rw [heq, hfree] at hl
      cases hl
    simp [update_of_ne hne]
  | subscribed params id => exact { hrefl with subscriptions := hsubs }
  | unsubscribed id => exact { hrefl with subscriptions := hsubs }
  | events job => exact { hrefl with eventJobs := fun j hj => List.mem_cons_of_mem _ hj }
  | receipts job => exact { hrefl with receiptJobs := fun j hj => List.mem_cons_of_mem _ hj }
  | advanced c n hn =>
    refine { hrefl with head := fun c' => ?_ }
    by_cases heq : c' = c
    · subst heq
      simpa using hn
    · simp [update_of_ne heq]
  | nothing => exact hrefl

theorem later_of_effect (h : w.effect o a = some (r, w')) : w.Later w' := by
  obtain ⟨e, -, rfl⟩ | ⟨x, y, -, -, hchanged⟩ := World.changed_of_effect h
  · exact later_refl w'
  · refine later_of_changed hchanged fun s hs hd => ?_
    rcases subscriptions_of_effect h hs hd with hold | ⟨params, id, -, -, rfl⟩
    · exact Or.inl hold
    · exact Or.inr (Int.le_refl _)

/-! ### Ticks -/

/-- As long as its transaction is open, it has locked the row, and the cursor is as it was read. -/
structure World.Holds (w : World) (c pgtx : ℕ) (b : ℤ) : Prop where
  used : pgtx < w.nextTransaction
  locked : pgtx ∈ w.transactions → w.locks c = some pgtx ∧ w.lastIndexedBlock c = some b

/-- The list has every active subscription of the chain that was created below the block. -/
def World.Lists (w : World) (c : ℕ) (n : ℤ) (subs : List ContractSubscription) : Prop :=
  ∀ s ∈ w.subscriptions, s.chainId = c → s.deleted = false → s.createdAtHead < n → s ∈ subs

/-- The jobs up to the block were enqueued. -/
structure World.Enqueued (w : World) (c : ℕ) (b : ℤ) (subs : List ContractSubscription) (x y : Option ℤ) : Prop where
  events : ∀ v, x = some v → ∃ job ∈ w.eventJobs, job.data = ⟨c, eventLogFilters subs, b, v⟩
  receipts : ∀ v, y = some v → ∃ job ∈ w.receiptJobs, job.data = ⟨c, transactionReceiptFilters subs, b, v⟩

/-- What a tick at some stage relies on. -/
def Stage.Sound (w : World) : Stage → Prop
  | .began _ pgtx => pgtx < w.nextTransaction
  | .locked c pgtx b => w.Holds c pgtx b
  | .numbered c pgtx b n => w.Holds c pgtx b ∧ n ≤ w.head c
  | .found c pgtx b n subs x y => w.Holds c pgtx b ∧ n ≤ w.head c ∧ w.Lists c n subs ∧ w.Enqueued c b subs x y
  | _ => True

theorem World.Holds.later (h : w.Holds c pgtx b) (hl : w.Later w') : w'.Holds c pgtx b := by
  have hused := h.used
  have hnext := hl.next
  constructor
  · omega
  · intro ht
    have hold : pgtx ∈ w.transactions := (hl.transactions pgtx ht).resolve_right (by omega)
    obtain ⟨hlock, hrow⟩ := h.locked hold
    obtain ⟨hlock', hrow'⟩ := hl.locks c pgtx hlock ht
    exact ⟨hlock', hrow'.trans hrow⟩

theorem World.Lists.later (h : w.Lists c n subs) (hn : n ≤ w.head c) (hl : w.Later w') : w'.Lists c n subs := by
  intro s hs hc hd hlt
  rcases hl.subscriptions s hs hd with hold | hnew
  · exact h s hold hc hd hlt
  · rw [hc] at hnew
    omega

theorem World.Enqueued.later {x y : Option ℤ} (h : w.Enqueued c b subs x y) (hl : w.Later w') :
    w'.Enqueued c b subs x y := by
  constructor
  · intro v hv
    obtain ⟨job, hj, hdata⟩ := h.events v hv
    exact ⟨job, hl.eventJobs job hj, hdata⟩
  · intro v hv
    obtain ⟨job, hj, hdata⟩ := h.receipts v hv
    exact ⟨job, hl.receiptJobs job hj, hdata⟩

theorem Stage.Sound.later (h : l.Sound w) (hl : w.Later w') : l.Sound w' := by
  cases l with
  | began c pgtx => exact Nat.lt_of_lt_of_le h hl.next
  | locked c pgtx b => exact World.Holds.later h hl
  | numbered c pgtx b n => exact ⟨h.1.later hl, Int.le_trans h.2 (hl.head c)⟩
  | found c pgtx b n subs x y =>
    obtain ⟨hholds, hn, hlists, henq⟩ := h
    exact ⟨hholds.later hl, Int.le_trans hn (hl.head c), hlists.later hn hl, henq.later hl⟩
  | _ => trivial

/-! A call keeps what its tick relies on, stage by stage. -/

theorem Stage.sound_nextTick (he : w.effect o a = some (r, w')) : (nextTick c o r).Sound w' := by
  unfold nextTick
  split
  · obtain ⟨e, hr, -⟩ | ⟨z, q, -, hr, hx⟩ := World.effect_cases he
    · cases hr
    · cases hr
      obtain ⟨rfl, rfl⟩ := Prod.mk.inj (Option.some.inj hx)
      exact Nat.lt_succ_self _
  · trivial

theorem Stage.sound_nextBegan (h : pgtx < w.nextTransaction) (hkept : pgtx < w'.nextTransaction)
    (ho : (Stage.began c pgtx).Allowed o) (he : w.effect o a = some (r, w')) : (nextBegan c pgtx o r).Sound w' := by
  unfold nextBegan
  split
  · cases ho with
    | plain _ _ hplain => cases hplain
    | select =>
      obtain ⟨e, hr, -⟩ | ⟨z, q, -, hr, hx⟩ := World.effect_cases he
      · cases hr
      · cases hr
        simp only [World.apply] at hx
        split_ifs at hx with hc
        split at hx
        · cases hx
        · rename_i b' hrow
          obtain ⟨hb, rfl⟩ := Prod.mk.inj (Option.some.inj hx)
          cases hb
          exact ⟨h, fun _ => ⟨by simp, hrow⟩⟩
  · exact hkept

theorem Stage.sound_nextLocked (hkept : w'.Holds c pgtx b) (ho : (Stage.locked c pgtx b).Allowed o)
    (he : w.effect o a = some (r, w')) : (nextLocked c pgtx b o r).Sound w' := by
  unfold nextLocked
  split
  · cases ho with
    | plain _ _ hplain => cases hplain
    | number =>
      obtain ⟨e, hr, -⟩ | ⟨z, q, -, hr, hx⟩ := World.effect_cases he
      · cases hr
      · cases hr
        simp only [World.apply] at hx
        split_ifs at hx with hc
        obtain ⟨rfl, rfl⟩ := Prod.mk.inj (Option.some.inj hx)
        exact ⟨hkept, hc⟩
  · exact hkept

theorem Stage.sound_nextNumbered (hkept : (Stage.numbered c pgtx b n).Sound w')
    (ho : (Stage.numbered c pgtx b n).Allowed o)
    (he : w.effect o a = some (r, w')) : (nextNumbered c pgtx b n o r).Sound w' := by
  unfold nextNumbered
  split
  · cases ho with
    | plain _ _ hplain => cases hplain
    | find =>
      obtain ⟨e, hr, -⟩ | ⟨z, q, -, hr, hx⟩ := World.effect_cases he
      · cases hr
      · cases hr
        obtain ⟨rfl, rfl⟩ := Prod.mk.inj (Option.some.inj hx)
        refine ⟨hkept.1, hkept.2, fun s hs hc hd _ => ?_, ⟨fun v hv => by simp at hv, fun v hv => by simp at hv⟩⟩
        exact List.mem_filter.mpr ⟨hs, by simp [hc, hd]⟩
  · exact hkept

theorem Stage.sound_nextFound {x y : Option ℤ} (hkept : (Stage.found c pgtx b n subs x y).Sound w')
    (ho : (Stage.found c pgtx b n subs x y).Allowed o) (he : w.effect o a = some (r, w')) :
    (nextFound c pgtx b n subs x y o r).Sound w' := by
  obtain ⟨hholds, hn, hlists, henq⟩ := hkept
  unfold nextFound
  split
  · rename_i job u
    cases ho with
    | plain _ _ hplain => cases hplain
    | events _ _ _ _ _ _ _ _ hdata =>
      obtain ⟨e, hr, -⟩ | ⟨z, q, -, hr, hx⟩ := World.effect_cases he
      · cases hr
      · obtain ⟨-, rfl⟩ := Prod.mk.inj (Option.some.inj hx)
        refine ⟨hholds, hn, hlists, fun v hv => ?_, henq.receipts⟩
        cases hv
        exact ⟨job, List.mem_cons_self, hdata⟩
  · rename_i job u
    cases ho with
    | plain _ _ hplain => cases hplain
    | receipts _ _ _ _ _ _ _ _ hdata =>
      obtain ⟨e, hr, -⟩ | ⟨z, q, -, hr, hx⟩ := World.effect_cases he
      · cases hr
      · obtain ⟨-, rfl⟩ := Prod.mk.inj (Option.some.inj hx)
        refine ⟨hholds, hn, hlists, henq.events, fun v hv => ?_⟩
        cases hv
        exact ⟨job, List.mem_cons_self, hdata⟩
  · exact ⟨hholds, hn, hlists, henq⟩

theorem Stage.Sound.next (h : l.Sound w) (ho : l.Allowed o) (he : w.effect o a = some (r, w')) :
    (l.next o r).Sound w' := by
  have hkept := h.later (later_of_effect he)
  cases l with
  | other => trivial
  | asking =>
    change (nextAsking o r).Sound w'
    unfold nextAsking
    split <;> trivial
  | adding c =>
    change (nextAdding c o r).Sound w'
    unfold nextAdding
    split
    · split_ifs <;> trivial
    · trivial
  | unsubscribed c =>
    change (nextUnsubscribed c o r).Sound w'
    unfold nextUnsubscribed
    split <;> trivial
  | tick c => exact sound_nextTick he
  | began c pgtx => exact sound_nextBegan h hkept ho he
  | locked c pgtx b => exact sound_nextLocked hkept ho he
  | numbered c pgtx b n => exact sound_nextNumbered hkept ho he
  | found c pgtx b n subs x y => exact sound_nextFound hkept ho he

theorem sound_tick (h : Reachable G (State.initial w) s) (hl : s.localOf indexContract i = some l) :
    l.Sound s.world := by
  refine h.each (C := indexContract) (J := fun (w : World) (l : Stage) => l.Sound w) (fun s s' m k _ st => ?_)
    (fun s s' i l o a r _ st => ?_) hl
  · obtain ⟨p, hp⟩ := st.started
    have hw : s'.world = s.world := by cases k <;> exact (Prod.mk.inj (Option.some.inj hp)).2.symm
    rw [hw]
    exact ⟨by cases k <;> trivial, fun l hl => hl⟩
  · exact ⟨fun hl => hl.next st.allowed st.performed, fun l hl => hl.later (later_of_effect st.performed)⟩

/-! ### Cursors -/

/-- A committed cursor, or one that an open transaction wrote. -/
def World.Cursor (w : World) (c : ℕ) (b : ℤ) : Prop := w.lastIndexedBlock c = some b ∨ w.writes c = some b

structure World.Sane (w : World) : Prop where
  unlocked : ∀ c, w.locks c = none → w.writes c = none
  head : ∀ c b, w.Cursor c b → b ≤ w.head c
  covered : ∀ c b, w.Cursor c b → w.CoveredTo c b
  above : ∀ c v b, w.writes c = some v → w.lastIndexedBlock c = some b → b ≤ v

theorem World.CoveredTo.later (h : w.CoveredTo c b) (hb : b ≤ w.head c) (hl : w.Later w') : w'.CoveredTo c b := by
  intro s hs hc hd n hn hnb
  rcases hl.subscriptions s hs hd with hold | hnew
  · have hcovers := h s hold hc hd n hn hnb
    constructor
    · intro hp
      obtain ⟨job, hj, hcover⟩ := hcovers.events hp
      exact ⟨job, hl.eventJobs job hj, hcover⟩
    · intro hp
      obtain ⟨job, hj, hcover⟩ := hcovers.receipts hp
      exact ⟨job, hl.receiptJobs job hj, hcover⟩
  · -- a subscription created since waits for later blocks only
    rw [hc] at hnew
    omega

/-- What a tick enqueued covers the blocks that it passes. -/
theorem covered_of_enqueued {x y : Option ℤ} (h : w.CoveredTo c b) (hlists : w.Lists c n subs)
    (henq : w.Enqueued c b subs x y) (hn : v ≤ n) (hx : eventLogFilters subs ≠ [] → x = some v)
    (hy : transactionReceiptFilters subs ≠ [] → y = some v) : w.CoveredTo c v := by
  intro s hs hc hd m hm hmv
  by_cases hmb : m ≤ b
  · exact h s hs hc hd m hm hmb
  · have hmem : s ∈ subs := hlists s hs hc hd (by omega)
    constructor
    · intro hp
      have hfilter : s.eventLogFilter ∈ eventLogFilters subs :=
        List.mem_map.mpr ⟨s, List.mem_filter.mpr ⟨hmem, hp⟩, rfl⟩
      obtain ⟨job, hj, hdata⟩ := henq.events v (hx (List.ne_nil_of_mem hfilter))
      refine ⟨job, hj, ?_⟩
      rw [hdata, hc]
      exact ⟨rfl, by simp only; omega, hmv, hfilter⟩
    · intro hp
      have hfilter : s.transactionReceiptFilter ∈ transactionReceiptFilters subs :=
        List.mem_map.mpr ⟨s, List.mem_filter.mpr ⟨hmem, hp⟩, rfl⟩
      obtain ⟨job, hj, hdata⟩ := henq.receipts v (hy (List.ne_nil_of_mem hfilter))
      refine ⟨job, hj, ?_⟩
      rw [hdata, hc]
      exact ⟨rfl, by simp only; omega, hmv, hfilter⟩

/-- A call that writes no cursor. -/
theorem World.Sane.later (h : w.Sane) (hl : w.Later w') (hcursor : ∀ c b, w'.Cursor c b → w.Cursor c b)
    (hunlocked : ∀ c, w'.locks c = none → w'.writes c = none)
    (habove : ∀ c v b, w'.writes c = some v → w'.lastIndexedBlock c = some b → b ≤ v) : w'.Sane := by
  constructor
  · exact hunlocked
  · intro c b hb
    exact Int.le_trans (h.head c b (hcursor c b hb)) (hl.head c)
  · intro c b hb
    exact (h.covered c b (hcursor c b hb)).later (h.head c b (hcursor c b hb)) hl
  · exact habove

theorem World.Sane.ended (h : w.Sane) (pgtx : ℕ) (committed : Bool) : (w.ended pgtx committed).Sane := by
  have hwrites : ∀ c v, (w.ended pgtx committed).writes c = some v → w.writes c = some v ∧ w.locks c ≠ some pgtx := by
    intro c v hv
    simp only [World.ended] at hv
    split_ifs at hv with hc
    exact ⟨hv, hc⟩
  refine h.later (later_ended w pgtx committed) (fun c b hb => ?_) (fun c hc => ?_) (fun c v b hv hb => ?_)
  · rcases hb with hb | hb
    · simp only [World.ended] at hb
      split_ifs at hb with hc
      · cases hv : w.writes c with
        | none =>
          rw [hv] at hb
          exact Or.inl hb
        | some v =>
          rw [hv] at hb
          exact Or.inr (hv.trans hb)
      · exact Or.inl hb
    · exact Or.inr (hwrites c b hb).1
  · simp only [World.ended] at hc ⊢
    split_ifs at hc ⊢ with hlock
    · rfl
    · exact h.unlocked c hc
  · obtain ⟨hv, hnot⟩ := hwrites c v hv
    simp only [World.ended] at hb
    rw [if_neg fun hc => hnot hc.1] at hb
    exact h.above c v b hv hb

/-- Neither cursors nor locks are touched. -/
theorem World.Sane.same (h : w.Sane) (hl : w.Later w') (hlocks : w'.locks = w.locks) (hwrites : w'.writes = w.writes)
    (hrows : w'.lastIndexedBlock = w.lastIndexedBlock) : w'.Sane := by
  refine h.later hl (fun c b hb => ?_) (fun c hc => ?_) (fun c v b hv hb => ?_)
  · unfold World.Cursor at hb ⊢
    rwa [hrows, hwrites] at hb
  · rw [hlocks] at hc
    rw [hwrites]
    exact h.unlocked c hc
  · rw [hwrites] at hv
    rw [hrows] at hb
    exact h.above c v b hv hb

/-- A tick moves its cursor ahead, over blocks that are covered. -/
theorem World.Sane.write {x y : Option ℤ} (h : w.Sane) (hsound : Stage.Sound w (.found c pgtx b n subs x y))
    (hopen : pgtx ∈ w.transactions) (hb : b < v) (hn : v ≤ n) (hx : eventLogFilters subs ≠ [] → x = some v)
    (hy : transactionReceiptFilters subs ≠ [] → y = some v) :
    ({ w with locks := update w.locks c (some pgtx), writes := update w.writes c (some v) } : World).Sane := by
  obtain ⟨hholds, hhead, hlists, henq⟩ := hsound
  obtain ⟨hlock, hrow⟩ := hholds.locked hopen
  have hlater : w.Later { w with locks := update w.locks c (some pgtx), writes := update w.writes c (some v) } :=
    later_of_effect (o := .upsertChainIndexer (some pgtx) c v) (a := .ok ()) (r := .ok ())
      (by simp [World.effect, World.apply, hopen, hlock])
  have hcovered : w.CoveredTo c v := covered_of_enqueued (h.covered c b (Or.inl hrow)) hlists henq hn hx hy
  have hcursor : ∀ c' b', ({ w with
      locks := update w.locks c (some pgtx), writes := update w.writes c (some v) } : World).Cursor c' b' →
        w.Cursor c' b' ∨ (c' = c ∧ b' = v) := by
    intro c' b' hb'
    rcases hb' with hb' | hb'
    · exact Or.inl (Or.inl hb')
    · by_cases hc : c' = c
      · subst hc
        have hv : some v = some b' := by simpa using hb'
        exact Or.inr ⟨rfl, (Option.some.inj hv).symm⟩
      · exact Or.inl (Or.inr (by simpa [update_of_ne hc] using hb'))
  constructor
  · intro c' hc'
    by_cases hc : c' = c
    · subst hc
      simp at hc'
    · simp only [update_of_ne hc] at hc' ⊢
      exact h.unlocked c' hc'
  · intro c' b' hb'
    rcases hcursor c' b' hb' with hold | ⟨rfl, rfl⟩
    · exact h.head c' b' hold
    · exact Int.le_trans hn hhead
  · intro c' b' hb'
    rcases hcursor c' b' hb' with hold | ⟨rfl, rfl⟩
    · exact (h.covered c' b' hold).later (h.head c' b' hold) hlater
    · exact hcovered.later (Int.le_trans hn hhead) hlater
  · intro c' v' b' hv' hb'
    by_cases hc : c' = c
    · subst hc
      have hv : some v = some v' := by simpa using hv'
      have hbb : some b = some b' := hrow.symm.trans hb'
      cases hv
      cases hbb
      omega
    · exact h.above c' v' b' (by simpa [update_of_ne hc] using hv') hb'

theorem World.Sane.call (h : w.Sane) (hl : l.Sound w) (ho : l.Allowed o) (he : w.effect o a = some (r, w'))
    (hreset : ∀ c v x, o = .upsertChainIndexer none c v → r ≠ .ok x) : w'.Sane := by
  have hlater := later_of_effect he
  obtain ⟨e, -, rfl⟩ | ⟨z, q, -, rfl, hchanged⟩ := World.changed_of_effect he
  · exact h
  · cases hchanged with
    | ended o t committed _ => exact h.ended t committed
    | locked t c hfree =>
      refine h.later hlater (fun _ _ hb => hb) (fun c' hc' => ?_) (fun c' v b hv hb => h.above c' v b hv hb)
      by_cases heq : c' = c
      · subst heq
        simp at hc'
      · exact h.unlocked c' (by simpa [update_of_ne heq] using hc')
    | wrote t c v hopen hlock =>
      cases ho with
      | plain _ _ hplain => cases hplain
      | write c pgtx b n v subs x y hb hn hx' hy' => exact h.write hl hopen hb hn hx' hy'
    | reset c v hfree => exact absurd rfl (hreset c v q rfl)
    | _ => exact h.same hlater rfl rfl rfl

/-- The guard leaves no cursor to the add requests. -/
theorem not_reset (st : Indexed cursorsUntouched s s' i l o a r) :
    ∀ c v x, o = .upsertChainIndexer none c v → r ≠ .ok x := by
  intro c v x ho hx
  have hgranted : cursorsUntouched.call s i o a = true := st.granted
  subst ho hx
  obtain ⟨e, he, -⟩ | ⟨z, q, rfl, -, -⟩ := World.effect_cases st.performed
  · cases he
  · cases hgranted

theorem world_after_start {m : ℕ} {k : Kind} (st : Started indexContract G s s' m k) : s'.world = s.world := by
  obtain ⟨p, hp⟩ := st.started
  cases k <;> exact (Prod.mk.inj (Option.some.inj hp)).2.symm

theorem sane (hw : w.Indexed) (h : Reachable cursorsUntouched (State.initial w) s) : s.world.Sane := by
  refine h.invariant indexContract (fun s => s.world.Sane) ?_ ?_ ?_
  · have hrow : ∀ c b, w.Cursor c b → w.lastIndexedBlock c = some b := by
      intro c b hb
      refine hb.resolve_right fun hwrite => ?_
      rw [hw.writes c] at hwrite
      cases hwrite
    constructor
    · exact fun c _ => hw.writes c
    · exact fun c b hb => hw.head c b (hrow c b hb)
    · exact fun c b hb => hw.covered c b (hrow c b hb)
    · intro c v b hv
      have hv : w.writes c = some v := hv
      rw [hw.writes c] at hv
      cases hv
  · intro s s' m k _ ih st
    rw [world_after_start st]
    exact ih
  · intro s s' i l o a r hr ih st
    exact ih.call (sound_tick hr st.caller) st.allowed st.performed (not_reset st)

/-- A committed cursor changes when a transaction ends, or when an add request sets it. -/
theorem row_of_effect (he : w.effect o a = some (r, w')) (c : ℕ) : w'.lastIndexedBlock c = w.lastIndexedBlock c ∨
    (o.endsTransaction = true ∧ ∃ t committed, w' = w.ended t committed) ∨
      ∃ v x, o = .upsertChainIndexer none c v ∧ r = .ok x := by
  obtain ⟨e, -, rfl⟩ | ⟨z, q, -, rfl, hchanged⟩ := World.changed_of_effect he
  · exact Or.inl rfl
  · cases hchanged with
    | ended o t committed ho => exact Or.inr (Or.inl ⟨ho, t, committed, rfl⟩)
    | reset c' v hfree =>
      by_cases heq : c = c'
      · subst heq
        exact Or.inr (Or.inr ⟨v, q, rfl, rfl⟩)
      · exact Or.inl (update_of_ne heq _ _)
    | _ => exact Or.inl rfl

/-- No call but an add request's moves a cursor back. -/
theorem World.Sane.kept (h : w.Sane) (he : w.effect o a = some (r, w'))
    (hreset : ∀ c v x, o = .upsertChainIndexer none c v → r ≠ .ok x) (hb : w.lastIndexedBlock c = some b) :
    ∃ b', w'.lastIndexedBlock c = some b' ∧ b ≤ b' := by
  rcases row_of_effect he c with hsame | ⟨-, t, committed, rfl⟩ | ⟨v, x, ho, hr⟩
  · exact ⟨b, hsame.trans hb, Int.le_refl b⟩
  · simp only [World.ended]
    split_ifs
    · cases hv : w.writes c with
      | none => exact ⟨b, hb, Int.le_refl b⟩
      | some v => exact ⟨v, rfl, h.above c v b hv hb⟩
    · exact ⟨b, hb, Int.le_refl b⟩
  · exact absurd hr (hreset c v x ho)

/-- No block is skipped for a subscription, and no cursor moves back. -/
theorem block_coverage (hw : w.Indexed) : BlockCoverage cursorsUntouched w := by
  constructor
  · intro s s' m c b hs hstep hb
    obtain ⟨j, k, st⟩ | ⟨j, l, o, a, r, st⟩ := (hs.conforms indexContract).step indexContract hstep
    · rw [world_after_start st]
      exact ⟨b, hb, Int.le_refl b⟩
    · exact (sane hw hs).kept st.performed (not_reset st) hb
  · intro s c b hs hb
    exact (sane hw hs).covered c b (Or.inl hb)

end

/-! ### A run -/

/-- Chain 1 is at block 10, and so is its cursor. -/
def tenth : World where
  head _ := 10
  lastIndexedBlock c := if c = 1 then some 10 else none
  locks _ := none
  writes _ := none
  transactions := []
  nextTransaction := 0
  subscriptions := []
  eventJobs := []
  receiptJobs := []

theorem indexed_tenth : tenth.Indexed := by
  constructor
  · exact fun _ => rfl
  · exact fun _ => rfl
  · rfl
  · intro c b hb
    simp only [tenth] at hb
    split_ifs at hb
    obtain rfl := Option.some.inj hb
    exact Int.le_refl _
  · intro c b _ s hs
    cases hs

/-- What the outside would answer to every call. -/
abbrev Answers := (o : Op) → Except Err o.Choice

/-- Every call succeeds; the chain is at block `n`, and a new row gets the given id. -/
def answering (n : ℤ) (id : String) : Answers
  | .commit _ => .ok true
  | .createContractSubscription _ => .ok id
  | .insertWebhook _ => .ok 1
  | .getChainIdFromChain _ => .ok 1
  | .isContractDeployed _ _ => .ok true
  | .getBlockNumber _ => .ok n
  | .getBlockWithTransactions _ _ => .ok true
  | .getConfig => .ok ["2", "10"]
  | .urlProtocol _ => .ok (some "https:")
  | .beginTransaction | .rollback _ | .selectForUpdateNowait _ _ | .upsertChainIndexer _ _ _ => .ok ()
  | .findSubscriptionsByChainId _ | .findSubscribedChainIds | .deleteContractSubscription _ => .ok ()
  | .deleteWebhook _ | .getChain _ | .getSdk _ | .addEventsJob _ | .addReceiptsJob _ => .ok ()
  | .expire _ | .advanceHead _ _ => .ok ()

def throwing : Answers := fun _ => .error (.new "Connection is closed.")

/-- The next `k` calls of process `i`. -/
def proceeds (i k : ℕ) (x : Answers) : List (Move indexer) := (List.replicate k x).map fun x => .call i x

def starts (k : Kind) : Move indexer := .start k

/-- A request for the event logs of contract 5. -/
def addBody : AddBody where
  chain := "1"
  contractAddress := "0x05"
  webhookUrl := none
  processEventLogs := true
  filterEvents := some ["Transfer"]
  processTransactionReceipts := false
  filterFunctions := none

/-- A subscription is added at block 10, and a tick moves the cursor to block 15. -/
def addedAndIndexed : List (Move indexer) :=
  starts (.addContractSubscription addBody) :: proceeds 0 6 (answering 10 "a") ++ proceeds 0 1 throwing ++
    proceeds 0 1 (answering 10 "a") ++ starts (.advanceHead 1 15) :: proceeds 1 1 (answering 10 "") ++
    starts (.chainIndexerTask 1 100 0) :: proceeds 2 12 (answering 15 "")

/-- Block 13 is covered for the subscription. -/
theorem block_coverage_added : ∃ (s : State indexer) (sub : ContractSubscription), sub ∈ s.world.subscriptions ∧
    sub.createdAtHead = 10 ∧ s.world.lastIndexedBlock 1 = some 15 ∧ s.world.Covers sub 13 := by
  obtain ⟨s, hs, hr⟩ := exists_reachable_of_run cursorsUntouched tenth addedAndIndexed
    (fun s => decide (s.world.lastIndexedBlock 1 = some 15) &&
      s.world.subscriptions.any fun sub => decide (sub.chainId = 1 ∧ sub.deleted = false ∧ sub.createdAtHead = 10))
    (by decide +kernel)
  simp only [Bool.and_eq_true, decide_eq_true_eq, List.any_eq_true] at hr
  obtain ⟨hrow, sub, hsub, hc, hd, hhead⟩ := hr
  exact ⟨s, sub, hsub, hhead, hrow,
    (block_coverage indexed_tenth).covered s 1 15 hs hrow sub hsub hc hd 13 (by omega) (by omega)⟩

end Engine.Indexer
