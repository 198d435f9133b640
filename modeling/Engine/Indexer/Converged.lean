import Engine.Concurrent.Locks
import Engine.Indexer.Manager

/-! The chains that have an indexer task after a manager run. -/
namespace Engine.Manager
open Concurrent Program Numbers

/-- The flag was free. -/
def takes : (o : Op) → Except Err o.Reply → Bool
  | .begin, .ok free => free
  | _, _ => false

def idsRead? : (o : Op) → Except Err o.Reply → Option (List ℕ)
  | .getContractSubscriptionsUniqueChainIds, .ok chainIds => some chainIds
  | _, _ => none

/-- Thread `i` started a manager run. -/
def Began (i : ℕ) (tr : List (Event Calls)) : Prop := ∃ e ∈ tr, e.thread = i ∧ takes e.op e.reply = true

/-- Thread `i` read these chains. -/
def Read (i : ℕ) (chainIds : List ℕ) (tr : List (Event Calls)) : Prop :=
  ∃ e ∈ tr, e.thread = i ∧ idsRead? e.op e.reply = some chainIds

/-- A call of thread `i` threw. -/
def Threw (i : ℕ) (tr : List (Event Calls)) : Prop := ∃ e ∈ tr, e.thread = i ∧ e.answer.isOk = false

/-- A call that thread `i` made for a chain threw. -/
def ThrewFor (i chainId : ℕ) (tr : List (Event Calls)) : Prop :=
  ∃ e ∈ tr, e.thread = i ∧ e.op.chainId? = some chainId ∧ e.answer.isOk = false

def next? : Prog Unit → Option Op
  | .call o _ => some o
  | _ => none

section
variable {delay : Number}

def nextCall (s : State (manager delay)) (i : ℕ) : Option Op := s.threads[i]?.bind fun t => next? t.2

/-- Thread `i` started a manager run, which is not over. -/
def Runs (s : State (manager delay)) (i : ℕ) : Prop := Began i s.trace ∧ (nextCall s i).isSome = true

/-- The run of thread `i` is over in the second state. -/
def Ends (s s' : State (manager delay)) (i : ℕ) : Prop := Runs s i ∧ nextCall s' i = none

/-- What is expected of a state and of the calls from it. -/
structure Manages (G : Guard (manager delay)) (s : State (manager delay)) : Prop where
  /-- A firing starts a run if none is in progress. -/
  starts : ∀ i x s', s.step G (.call i x) = some s' → nextCall s i = some .begin → (∀ j, ¬ Runs s j) → Runs s' i
  /-- The chains that a run reads are the subscribed ones. -/
  reads : ∀ i x s' chainIds c, s.step G (.call i x) = some s' → ¬ Read i chainIds s.trace →
    Read i chainIds s'.trace → (c ∈ chainIds ↔ c ∈ s.world.subscribed)
  /-- When a run is over, the chains that no call threw for are registered if and only if it read them. -/
  isolates : ∀ i x s' chainIds c, s.step G (.call i x) = some s' → Ends s s' i → Read i chainIds s'.trace →
    ¬ ThrewFor i c s'.trace → (c ∈ s'.world.registry ↔ c ∈ chainIds)
  /-- When a run is over in which nothing threw, the registry has the chains that it read. -/
  converges : ∀ i x s', s.step G (.call i x) = some s' → Ends s s' i → ¬ Threw i s'.trace →
    ∃ chainIds, Read i chainIds s'.trace ∧ s'.world.registry = chainIds.toFinset

def anyRun : Guard (manager delay) := ⟨fun _ _ => true, fun _ _ _ _ => true⟩

/-- No lookup throws. -/
def noFailures : Guard (manager delay) := ⟨fun _ _ => true, fun _ _ _ a => a.isOk⟩

/-! ### A call that does not throw -/

/-- What a call does to the caller's phase and to the world, whether it takes the flag, and the chains it
reads. -/
inductive Advances (w : World) : Phase → Phase → World → Bool → Option (List ℕ) → Prop
  | took (h : w.processChainIndexerStarted = false) :
    Advances w .fired .reading { w with processChainIndexerStarted := true } true none
  | skipped (h : w.processChainIndexerStarted = true) : Advances w .fired .idle w false none
  | read : Advances w .reading (.adding w.subscribed.dedup w.subscribed.dedup) w false (some w.subscribed.dedup)
  | looked (ids left : List ℕ) : Advances w (.adding ids left) (.adding ids left) w false none
  | found (ids left : List ℕ) (chainId : ℕ) (h : chainId ∈ w.registry) :
    Advances w (.adding ids (chainId :: left)) (.adding ids left) w false none
  | scheduled (ids left : List ℕ) (chainId : ℕ) :
    Advances w (.adding ids (chainId :: left)) (.adding ids left)
      { w with registry := insert chainId w.registry } false none
  | listed (ids : List ℕ) :
    Advances w (.adding ids []) (.removing ids ((w.registry.sort (· ≤ ·)).filter (· ∉ ids))) w false none
  | unregistered (ids left : List ℕ) (chainId : ℕ) :
    Advances w (.removing ids (chainId :: left)) (.removing ids left)
      { w with registry := w.registry.erase chainId } false none
  | ended (ids : List ℕ) :
    Advances w (.removing ids []) (.finished ids) { w with processChainIndexerStarted := false } false none

private theorem advances_of_allowed {w : World} {l : Phase} {o : Op} (c : o.Choice) (h : l.allowed o) :
    Advances w l (l.next o (.ok (w.apply o c).1)) (w.apply o c).2 (takes o (.ok (w.apply o c).1))
      (idsRead? o (.ok (w.apply o c).1)) := by
  cases l with
  | fired =>
    obtain rfl : o = .begin := h
    cases hstarted : w.processChainIndexerStarted with
    | false =>
      simp only [World.apply, hstarted]
      exact .took hstarted
    | true =>
      have hw : { w with processChainIndexerStarted := true } = w := by rw [← hstarted]
      simp only [World.apply, hstarted, hw]
      exact .skipped hstarted
  | reading =>
    obtain rfl : o = .getContractSubscriptionsUniqueChainIds := h
    exact .read
  | adding ids left =>
    cases left with
    | nil =>
      obtain rfl : o = .registeredChainIds := h
      exact .listed ids
    | cons chainId left =>
      cases o with
      | isRegistered chainId' =>
        obtain rfl : chainId' = chainId := h
        by_cases hmem : chainId' ∈ w.registry
        · simp only [World.apply, hmem, decide_true]
          exact .found ids left chainId' hmem
        · simp only [World.apply, hmem, decide_false]
          exact .looked ids _
      | schedule chainId' cronSchedule =>
        obtain rfl : chainId' = chainId := h
        exact .scheduled ids left chainId'
      | getConfig chainId' => exact .looked ids _
      | getBlockTimeSeconds chainId' => exact .looked ids _
      | createChainIndexerTask chainId' maxBlocksToIndex toBlockOffset => exact .looked ids _
      | _ => exact h.elim
  | removing ids left =>
    cases left with
    | nil =>
      obtain rfl : o = .finish := h
      exact .ended ids
    | cons chainId left =>
      obtain rfl : o = .unregister chainId := h
      exact .unregistered ids left chainId
  | _ => exact h.elim

theorem advances {s s' : State (manager delay)} {i : ℕ} {l : Phase} {o : Op} {a : Except Err o.Choice}
    {r : Except Err o.Reply} (st : Stepped (management delay) noFailures s s' i l o a r) :
    Advances s.world l (l.next o r) s'.world (takes o r) (idsRead? o r) := by
  obtain ⟨c, rfl⟩ : ∃ c, a = .ok c := by
    cases a with
    | ok c => exact ⟨c, rfl⟩
    | error e => exact absurd st.granted Bool.false_ne_true
  obtain ⟨rfl, hw⟩ := Prod.mk.inj (Option.some.inj st.performed)
  rw [← hw]
  exact advances_of_allowed c st.allowed

/-! ### The invariant of the runs without failures -/

namespace Phase

/-- The run has the flag, or had it. -/
def begun : Phase → Bool
  | fired | idle => false
  | _ => true

/-- What the loops have done so far. -/
def Covers (registry : Finset ℕ) : Phase → Prop
  | adding ids left => ∀ c ∈ ids, c ∈ left ∨ c ∈ registry
  | removing ids left => (∀ c ∈ left, c ∉ ids) ∧ (∀ c ∈ ids, c ∈ registry) ∧ ∀ c ∈ registry, c ∈ ids ∨ c ∈ left
  | _ => True

end Phase

namespace Advances
variable {w w' : World} {l l' : Phase} {took : Bool} {ids : Option (List ℕ)}

theorem covers (h : Advances w l l' w' took ids) (hc : l.running = true → l.Covers w.registry) :
    l'.Covers w'.registry := by
  cases h with
  | took | skipped | ended => trivial
  | read =>
    intro c hmem
    exact Or.inl hmem
  | looked ids left => exact hc rfl
  | found ids left chainId hmem =>
    intro c hids
    obtain hleft | hreg := hc rfl c hids
    · obtain rfl | hleft := List.mem_cons.mp hleft
      · exact Or.inr hmem
      · exact Or.inl hleft
    · exact Or.inr hreg
  | scheduled ids left chainId =>
    intro c hids
    obtain hleft | hreg := hc rfl c hids
    · obtain rfl | hleft := List.mem_cons.mp hleft
      · exact Or.inr (Finset.mem_insert_self c w.registry)
      · exact Or.inl hleft
    · exact Or.inr (Finset.mem_insert_of_mem hreg)
  | listed ids =>
    refine ⟨fun c hmem => ?_, fun c hids => ?_, fun c hreg => ?_⟩
    · simpa using (List.mem_filter.mp hmem).2
    · exact (hc rfl c hids).resolve_left List.not_mem_nil
    · by_cases hids : c ∈ ids
      · exact Or.inl hids
      · exact Or.inr (List.mem_filter.mpr ⟨(Finset.mem_sort _).mpr hreg, by simpa using hids⟩)
  | unregistered ids left chainId =>
    obtain ⟨hleft, hids, hreg⟩ := hc rfl
    refine ⟨fun c hmem => hleft c (List.mem_cons_of_mem _ hmem), fun c hmem => ?_, fun c hmem => ?_⟩
    · have hne : c ≠ chainId := fun heq => hleft chainId List.mem_cons_self (heq ▸ hmem)
      exact Finset.mem_erase.mpr ⟨hne, hids c hmem⟩
    · obtain ⟨hne, hmem⟩ := Finset.mem_erase.mp hmem
      exact (hreg c hmem).imp_right fun h => (List.mem_cons.mp h).resolve_left hne

theorem begun (h : Advances w l l' w' took ids) : l'.begun = true ↔ took = true ∨ l.begun = true := by
  cases h <;> simp [Phase.begun]

theorem chainIdsToIndex (h : Advances w l l' w' took ids) (chainIds : List ℕ) :
    l'.chainIdsToIndex = some chainIds ↔ ids = some chainIds ∨ l.chainIdsToIndex = some chainIds := by
  cases h <;> simp [Phase.chainIdsToIndex]

/-- The flag is taken when it is free, and given back by the run that has it. -/
theorem flag (h : Advances w l l' w' took ids) :
    (l.running = l'.running ∧ w'.processChainIndexerStarted = w.processChainIndexerStarted) ∨
    (l.running = false ∧ l'.running = true ∧ w.processChainIndexerStarted = false ∧
      w'.processChainIndexerStarted = true) ∨
    (l.running = true ∧ l'.running = false ∧ w'.processChainIndexerStarted = false) := by
  cases h with
  | took hfree => exact Or.inr (Or.inl ⟨rfl, rfl, hfree, rfl⟩)
  | ended ids => exact Or.inr (Or.inr ⟨rfl, rfl, rfl⟩)
  | _ => exact Or.inl ⟨rfl, rfl⟩

theorem registry (h : Advances w l l' w' took ids) (hl : l.running = false) : w'.registry = w.registry := by
  cases h with
  | scheduled ids left chainId => cases hl
  | unregistered ids left chainId => cases hl
  | _ => rfl

end Advances

/-- The threads' phases, the flag and the registry fit. -/
structure Managed (s : State (manager delay)) : Prop where
  flagged : ∀ i l, s.localOf (management delay) i = some l → l.running = true →
    s.world.processChainIndexerStarted = true
  flag : s.world.processChainIndexerStarted = true →
    ∃ i l, s.localOf (management delay) i = some l ∧ l.running = true
  alone : ∀ i j l l', s.localOf (management delay) i = some l →
    s.localOf (management delay) j = some l' → l.running = true → l'.running = true → i = j
  began : ∀ i l, s.localOf (management delay) i = some l → (Began i s.trace ↔ l.begun = true)
  read : ∀ i l chainIds, s.localOf (management delay) i = some l →
    (Read i chainIds s.trace ↔ l.chainIdsToIndex = some chainIds)
  covers : ∀ i l, s.localOf (management delay) i = some l → l.running = true → l.Covers s.world.registry

variable {s s' : State (manager delay)} {i j : ℕ} {o : Op} {a : Except Err o.Choice} {r : Except Err o.Reply}

theorem began_cons : Began j (⟨i, o, a, r⟩ :: s.trace) ↔ (i = j ∧ takes o r = true) ∨ Began j s.trace := by
  simp [Began]

theorem read_cons {chainIds : List ℕ} : Read j chainIds (⟨i, o, a, r⟩ :: s.trace) ↔
    (i = j ∧ idsRead? o r = some chainIds) ∨ Read j chainIds s.trace := by
  simp [Read]

theorem Managed.initial {w : World} (hw : w.processChainIndexerStarted = false) :
    Managed (State.initial w : State (manager delay)) := by
  constructor
  · intro i l hl
    cases hl
  · intro hflag
    exact absurd (hw.symm.trans hflag) Bool.false_ne_true
  · intro i j l l' hl
    cases hl
  · intro i l hl
    cases hl
  · intro i l chainIds hl
    cases hl
  · intro i l hl
    cases hl

theorem Managed.start {G : Guard (manager delay)} {n : ℕ} {k : Kind} (h : Managed s)
    (st : Started (management delay) G s s' n k) : Managed s' := by
  have hidle : ((management delay).init k).running = false := by cases k <;> rfl
  have hflag : s'.world.processChainIndexerStarted = s.world.processChainIndexerStarted := by
    obtain ⟨p, hp⟩ := st.started
    cases k <;> exact congrArg (fun x => x.2.processChainIndexerStarted) (Option.some.inj hp).symm
  have hregistry : s'.world.registry = s.world.registry := by
    obtain ⟨p, hp⟩ := st.started
    cases k <;> exact congrArg (fun x => x.2.registry) (Option.some.inj hp).symm
  -- A new thread is not running, so whatever runs was there before.
  have hold : ∀ i l, s'.localOf (management delay) i = some l → l.running = true →
      s.localOf (management delay) i = some l := by
    intro i l hl hrun
    obtain ⟨-, rfl⟩ | ⟨-, hl⟩ := st.localOf hl
    · exact absurd (hidle.symm.trans hrun) Bool.false_ne_true
    · exact hl
  constructor
  · intro i l hl hrun
    rw [hflag]
    exact h.flagged i l (hold i l hl hrun) hrun
  · intro hset
    obtain ⟨i, l, hl, hrun⟩ := h.flag (hflag ▸ hset)
    have hne : i ≠ n := by
      rintro rfl
      exact absurd (hl.symm.trans st.unused) (Option.some_ne_none l)
    exact ⟨i, l, (st.others i hne).trans hl, hrun⟩
  · intro i j l l' hl hl' hrun hrun'
    exact h.alone i j l l' (hold i l hl hrun) (hold j l' hl' hrun') hrun hrun'
  · intro i l hl
    rw [st.traced]
    obtain ⟨rfl, rfl⟩ | ⟨-, hl⟩ := st.localOf hl
    · have hnone : ¬ Began i s.trace := fun ⟨e, he, hthread, _⟩ => st.silent e he hthread
      cases k <;> simpa [management, Phase.begun] using hnone
    · exact h.began i l hl
  · intro i l chainIds hl
    rw [st.traced]
    obtain ⟨rfl, rfl⟩ | ⟨-, hl⟩ := st.localOf hl
    · have hnone : ¬ Read i chainIds s.trace := fun ⟨e, he, hthread, _⟩ => st.silent e he hthread
      cases k <;> simpa [management, Phase.chainIdsToIndex] using hnone
    · exact h.read i l chainIds hl
  · intro i l hl hrun
    rw [hregistry]
    exact h.covers i l (hold i l hl hrun) hrun

theorem Managed.call {l : Phase} (h : Managed s) (st : Stepped (management delay) noFailures s s' i l o a r) :
    Managed s' := by
  have hadv := advances st
  constructor
  · intro j m hm hrun
    obtain ⟨rfl, rfl⟩ | ⟨hne, hj⟩ := st.localOf hm
    · obtain ⟨hsame, hkept⟩ | ⟨-, -, -, hset⟩ | ⟨-, hover, -⟩ := hadv.flag
      · rw [hkept]
        exact h.flagged j l st.caller (hsame.trans hrun)
      · exact hset
      · exact absurd (hover.symm.trans hrun) Bool.false_ne_true
    · have hset := h.flagged j m hj hrun
      obtain ⟨-, hkept⟩ | ⟨-, -, hfree, -⟩ | ⟨hl, -, -⟩ := hadv.flag
      · exact hkept.trans hset
      · exact absurd (hfree.symm.trans hset) Bool.false_ne_true
      · exact absurd (h.alone j i m l hj st.caller hrun hl) hne
  · intro hset
    obtain ⟨hsame, hkept⟩ | ⟨-, hrun, -, -⟩ | ⟨-, -, hfree⟩ := hadv.flag
    · obtain ⟨j, m, hm, hrun⟩ := h.flag (hkept ▸ hset)
      by_cases hj : j = i
      · subst hj
        obtain rfl : m = l := Option.some.inj (hm.symm.trans st.caller)
        exact ⟨j, _, st.self, hsame ▸ hrun⟩
      · exact ⟨j, m, (st.others j hj).trans hm, hrun⟩
    · exact ⟨i, _, st.self, hrun⟩
    · exact absurd (hfree.symm.trans hset) Bool.false_ne_true
  · -- The caller runs now, and another thread runs: then the caller ran before.
    have hcaller : ∀ j m, j ≠ i → s.localOf (management delay) j = some m → m.running = true →
        (l.next o r).running = true → False := by
      intro j m hne hj hrun hnow
      obtain ⟨hsame, -⟩ | ⟨-, -, hfree, -⟩ | ⟨-, hover, -⟩ := hadv.flag
      · exact hne (h.alone j i m l hj st.caller hrun (hsame.trans hnow))
      · exact absurd (hfree.symm.trans (h.flagged j m hj hrun)) Bool.false_ne_true
      · exact absurd (hover.symm.trans hnow) Bool.false_ne_true
    intro j j' m m' hm hm' hrun hrun'
    obtain ⟨rfl, rfl⟩ | ⟨hne, hj⟩ := st.localOf hm <;> obtain ⟨rfl, rfl⟩ | ⟨hne', hj'⟩ := st.localOf hm'
    · rfl
    · exact (hcaller j' m' hne' hj' hrun' hrun).elim
    · exact (hcaller j m hne hj hrun hrun').elim
    · exact h.alone j j' m m' hj hj' hrun hrun'
  · intro j m hm
    rw [st.traced, began_cons]
    obtain ⟨rfl, rfl⟩ | ⟨hne, hj⟩ := st.localOf hm
    · rw [h.began j l st.caller]
      exact Iff.trans (by simp) hadv.begun.symm
    · rw [h.began j m hj]
      simp [hne.symm]
  · intro j m chainIds hm
    rw [st.traced, read_cons]
    obtain ⟨rfl, rfl⟩ | ⟨hne, hj⟩ := st.localOf hm
    · rw [h.read j l chainIds st.caller]
      exact Iff.trans (by simp) (hadv.chainIdsToIndex chainIds).symm
    · rw [h.read j m chainIds hj]
      simp [hne.symm]
  · intro j m hm hrun
    obtain ⟨rfl, rfl⟩ | ⟨hne, hj⟩ := st.localOf hm
    · exact hadv.covers (h.covers j l st.caller)
    · have hidle : l.running = false := by
        cases hl : l.running with
        | false => rfl
        | true => exact absurd (h.alone j i m l hj st.caller hrun hl) hne
      rw [hadv.registry hidle]
      exact h.covers j m hj hrun

theorem managed {w : World} (hw : w.processChainIndexerStarted = false)
    (h : Reachable noFailures (State.initial w : State (manager delay)) s) : Managed s :=
  h.invariant (management delay) Managed (Managed.initial hw) (fun _ _ _ _ _ ih st => ih.start st)
    fun _ _ _ _ _ _ _ _ ih st => ih.call st

/-! ### The runs, by their phases -/

theorem Phase.fired_of_allowed {l : Phase} (h : l.allowed .begin) : l = .fired := by
  cases l with
  | fired => rfl
  | reading => cases h
  | adding ids left => cases left <;> cases h
  | removing ids left => cases left <;> cases h
  | _ => exact h.elim

theorem Phase.running_of_allowed {l : Phase} (h : l.allowed o) (hl : l.begun = true) : l.running = true := by
  cases l with
  | fired => cases hl
  | idle => cases hl
  | finished ids => exact h.elim
  | failed ids => exact h.elim
  | _ => rfl

theorem Phase.begun_of_running {l : Phase} (h : l.running = true) : l.begun = true := by
  cases l with
  | reading => rfl
  | adding ids left => rfl
  | removing ids left => rfl
  | _ => cases h

section
variable (hc : s.Conforms (management delay))
include hc

private theorem allowed_of_nextCall (h : nextCall s i = some o) :
    ∃ l, s.localOf (management delay) i = some l ∧ Phase.allowed l o := by
  obtain ⟨⟨k, p⟩, hi, hp⟩ := Option.bind_eq_some_iff.mp h
  cases p with
  | call o' next =>
    obtain rfl : o' = o := Option.some.inj hp
    exact ⟨_, localOf_eq _ hi, hc.allowed _ hi⟩
  | done a => cases hp
  | raise e => cases hp

theorem nextCall_of_running {l : Phase} (hl : s.localOf (management delay) i = some l)
    (hrun : l.running = true) : (nextCall s i).isSome = true := by
  obtain ⟨⟨k, p⟩, hi, rfl⟩ := Option.map_eq_some_iff.mp hl
  have hnext : nextCall s i = next? p := by simp [nextCall, hi]
  rw [hnext]
  cases p with
  | call o next => rfl
  | done a =>
    obtain ⟨r, hr⟩ := hc.ends_of_finished _ hi rfl
    exact absurd (hr.symm.trans hrun) Bool.false_ne_true
  | raise e =>
    obtain ⟨r, hr⟩ := hc.ends_of_finished _ hi rfl
    exact absurd (hr.symm.trans hrun) Bool.false_ne_true

theorem Managed.runs_iff (h : Managed s) :
    Runs s i ↔ ∃ l : Phase, s.localOf (management delay) i = some l ∧ l.running = true := by
  constructor
  · intro hruns
    obtain ⟨o, ho⟩ := Option.isSome_iff_exists.mp hruns.2
    obtain ⟨l, hl, hallowed⟩ := allowed_of_nextCall hc ho
    exact ⟨l, hl, Phase.running_of_allowed hallowed ((h.began i l hl).mp hruns.1)⟩
  · intro hruns
    obtain ⟨l, hl, hrun⟩ := hruns
    exact ⟨(h.began i l hl).mpr (Phase.begun_of_running hrun), nextCall_of_running hc hl hrun⟩

end

/-- A run that ends has nothing left to do. -/
theorem Managed.removing_of_ends {l : Phase} (h : Managed s) (hc : s.Conforms (management delay))
    (hc' : s'.Conforms (management delay)) (st : Stepped (management delay) noFailures s s' i l o a r)
    (hends : Ends s s' i) : ∃ ids, l = .removing ids [] ∧ s'.world.registry = s.world.registry := by
  obtain ⟨l', hl', hrun⟩ := (h.runs_iff hc).mp hends.1
  obtain rfl : l' = l := Option.some.inj (hl'.symm.trans st.caller)
  have hover : Phase.running (Phase.next l' o r) = false := by
    cases hnow : Phase.running (Phase.next l' o r) with
    | false => rfl
    | true =>
      have hsome := nextCall_of_running hc' st.self hnow
      rw [hends.2] at hsome
      cases hsome
  have hadv := advances st
  generalize Phase.next l' o r = m at hadv hover
  generalize s'.world = w', takes o r = took, idsRead? o r = read at hadv ⊢
  cases hadv with
  | ended ids => exact ⟨ids, rfl, rfl⟩
  | took => cases hrun
  | skipped => cases hrun
  | _ => cases hover

theorem stepped_of_call {G : Guard (manager delay)} {x : (o : Op) → Except Err o.Choice}
    (hc : s.Conforms (management delay)) (hs : s.step G (.call i x) = some s') :
    ∃ l o a r, nextCall s i = some o ∧ Stepped (management delay) G s s' i l o a r := by
  obtain ⟨k, o, next, r, w, hi, hg, he, rfl⟩ := call_cases hs
  have hnext : nextCall s i = some o := by
    unfold nextCall
    rw [hi]
    rfl
  exact ⟨_, o, x o, r, hnext, stepped_replied _ hc hi hg he⟩

/-- What a run without failures leaves in the registry. -/
theorem Managed.registry_of_ends {l : Phase} (h : Managed s) (hc : s.Conforms (management delay))
    (hc' : s'.Conforms (management delay)) (st : Stepped (management delay) noFailures s s' i l o a r)
    (hends : Ends s s' i) : ∃ ids, Read i ids s.trace ∧ s'.world.registry = ids.toFinset := by
  obtain ⟨ids, rfl, hsame⟩ := h.removing_of_ends hc hc' st hends
  obtain ⟨-, hids, hregistry⟩ := h.covers i _ st.caller rfl
  refine ⟨ids, (h.read i _ ids st.caller).mpr rfl, ?_⟩
  rw [hsame]
  ext c
  rw [List.mem_toFinset]
  constructor
  · intro hmem
    exact (hregistry c hmem).resolve_right List.not_mem_nil
  · exact hids c

/-- A run reads once. -/
theorem Managed.read_unique {l : Phase} {ids chainIds : List ℕ} (h : Managed s)
    (hl : s.localOf (management delay) i = some l) (hids : Read i ids s.trace)
    (hread : Read i chainIds s.trace) : ids = chainIds :=
  Option.some.inj (((h.read i l ids hl).mp hids).symm.trans ((h.read i l chainIds hl).mp hread))

theorem Managed.starts {l : Phase} (h : Managed s) (hc : s.Conforms (management delay)) (h' : Managed s')
    (hc' : s'.Conforms (management delay))
    (st : Stepped (management delay) noFailures s s' i l o a r) (ho : o = .begin)
    (hnone : ∀ j, ¬ Runs s j) : Runs s' i := by
  subst ho
  have hfree : s.world.processChainIndexerStarted = false := by
    cases hset : s.world.processChainIndexerStarted with
    | false => rfl
    | true =>
      obtain ⟨j, m, hm, hrun⟩ := h.flag hset
      exact absurd ((h.runs_iff hc).mpr ⟨m, hm, hrun⟩) (hnone j)
  obtain rfl := Phase.fired_of_allowed st.allowed
  have hself : s'.localOf (management delay) i = some (Phase.next .fired .begin r) := st.self
  have hadv := advances st
  generalize Phase.next .fired .begin r = m at hadv hself
  generalize s'.world = w', takes .begin r = took, idsRead? .begin r = read at hadv
  cases hadv with
  | took => exact (h'.runs_iff hc').mpr ⟨.reading, hself, rfl⟩
  | skipped hset => exact absurd (hfree.symm.trans hset) Bool.false_ne_true

private theorem subscribed_of_read {l : Phase} {chainIds : List ℕ} {c : ℕ}
    (st : Stepped (management delay) noFailures s s' i l o a r) (hread : idsRead? o r = some chainIds) :
    c ∈ chainIds ↔ c ∈ s.world.subscribed := by
  have hadv := advances st
  rw [hread] at hadv
  generalize Phase.next l o r = m, s'.world = w', takes o r = took at hadv
  cases hadv with
  | read => exact List.mem_dedup

theorem manages_of_noFailures {w : World} (hw : w.processChainIndexerStarted = false)
    (h : Reachable noFailures (State.initial w : State (manager delay)) s) : Manages noFailures s := by
  have hm := managed hw h
  have hc := h.conforms (management delay)
  constructor
  · intro i x s' hs hnext hnone
    obtain ⟨l, o, a, r, ho, st⟩ := stepped_of_call hc hs
    obtain rfl : o = .begin := Option.some.inj (ho.symm.trans hnext)
    exact hm.starts hc (managed hw (h.step hs)) ((h.step hs).conforms _) st rfl hnone
  · intro i x s' chainIds c hs hbefore hafter
    obtain ⟨l, o, a, r, -, st⟩ := stepped_of_call hc hs
    rw [st.traced, read_cons] at hafter
    exact subscribed_of_read st (hafter.resolve_right hbefore).2
  · intro i x s' chainIds c hs hends hread _
    obtain ⟨l, o, a, r, -, st⟩ := stepped_of_call hc hs
    obtain ⟨ids, hids, hregistry⟩ := hm.registry_of_ends hc ((h.step hs).conforms _) st hends
    have hids' : Read i ids s'.trace := by
      rw [st.traced, read_cons]
      exact Or.inr hids
    obtain rfl := (managed hw (h.step hs)).read_unique st.self hids' hread
    rw [hregistry, List.mem_toFinset]
  · intro i x s' hs hends _
    obtain ⟨l, o, a, r, -, st⟩ := stepped_of_call hc hs
    obtain ⟨ids, hids, hregistry⟩ := hm.registry_of_ends hc ((h.step hs).conforms _) st hends
    refine ⟨ids, ?_, hregistry⟩
    rw [st.traced, read_cons]
    exact Or.inr hids

end

/-! ### Two firings -/

def usual : (o : Op) → Except Err o.Choice
  | .getConfig _ => .ok 100
  | .getBlockTimeSeconds _ => .ok (.ofNat 2)
  | .begin | .getContractSubscriptionsUniqueChainIds | .createChainIndexerTask _ _ _ | .isRegistered _
  | .schedule _ _ | .registeredChainIds | .unregister _ | .finish => .ok ()

/-- The database does not answer. -/
def throwing (o : Op) : Except Err o.Choice := .error { name := "Error", message := some "Can't reach database server" }

def firstSubscribed : World := { subscribed := [1] }

/-- A firing registers the chain 1. -/
theorem manages_of_noFailures_first : ∃ s : State (manager (.ofNat 0)), s.world.registry = {1} ∧
    Manages noFailures s := by
  obtain ⟨s, hs, hr⟩ := exists_reachable_of_run (M := manager (.ofNat 0)) noFailures firstSubscribed
    (.start .firing :: List.replicate 9 (.call 0 usual)) (fun s => decide (s.world.registry = {1}))
    (by decide +kernel)
  exact ⟨s, of_decide_eq_true hr, manages_of_noFailures (w := firstSubscribed) rfl hs⟩

/-- The lookup of the first run throws; a second firing skips. -/
def skipsForEver (s : State (manager (.ofNat 0))) : Bool :=
  nextCall s 0 == none && nextCall s 1 == some .begin &&
    (s.trace.all fun e => e.thread == 0) &&
    (s.step anyRun (.call 1 usual)).any fun s' => nextCall s' 1 == none

theorem not_manages : ¬ ∀ (w : World) (s : State (manager (.ofNat 0))), w.processChainIndexerStarted = false →
    Reachable anyRun (State.initial w) s → Manages anyRun s := by
  intro hgeneral
  obtain ⟨s, hs, hr⟩ := exists_reachable_of_run (M := manager (.ofNat 0)) anyRun firstSubscribed
    [.start .firing, .call 0 usual, .call 0 throwing, .start .firing] skipsForEver (by decide +kernel)
  simp only [skipsForEver, Bool.and_eq_true, beq_iff_eq, List.all_eq_true] at hr
  obtain ⟨⟨⟨hover, hnext⟩, hthread⟩, hskips⟩ := hr
  obtain ⟨s', hs', hdone⟩ := (Option.any_eq_true _ _).mp hskips
  have hnone : ∀ j, ¬ Runs s j := by
    intro j hruns
    obtain ⟨e, he, rfl, -⟩ := hruns.1
    have hsome := hruns.2
    rw [hthread e he, hover] at hsome
    cases hsome
  have hruns := (hgeneral firstSubscribed s rfl hs).starts 1 usual s' hs' hnext hnone
  have hlast := hruns.2
  rw [beq_iff_eq.mp hdone] at hlast
  cases hlast

end Engine.Manager
