import Engine.Indexer.Coverage

/-! Requests that add a subscription, and the cursor of a chain that is subscribed already. -/
namespace Engine.Indexer
open Concurrent Program Function

/-- The chain has an active subscription. -/
def World.IsSubscribed (w : World) (c : ℕ) : Prop := ∃ s ∈ w.subscriptions, s.chainId = c ∧ s.deleted = false

/-- No call of an add request changes the cursor of a subscribed chain. -/
def KeepsCursors (G : Guard indexer) (w : World) : Prop :=
  ∀ (s s' : State indexer) (m : Move indexer) (e : Event Calls) (body : AddBody) (p : Prog Unit) (c : ℕ),
    Reachable G (State.initial w) s → s.step G m = some s' → s'.trace = e :: s.trace →
      s.threads[e.thread]? = some (.addContractSubscription body, p) → s.world.IsSubscribed c →
        s'.world.lastIndexedBlock c = s.world.lastIndexedBlock c

/-- Any interleaving, with any failures. -/
def anyRequests : Guard indexer where
  start _ _ := true
  call _ _ _ _ := true

/-- Some add request found the chain without a subscription, and has not set the cursor yet. -/
def isStarting (s : State indexer) (c : ℕ) : Bool :=
  (List.range s.threads.length).any fun i => (s.localOf indexContract i).any fun (l : Stage) => l == .unsubscribed c

/-- No subscription of a chain is created while an add request is about to set its cursor. -/
def startsAlone : Guard indexer where
  start _ _ := true
  call s _ o a :=
    match o with
    | .createContractSubscription params => !a.isOk || !isStarting s params.chainId
    | _ => true

section
variable {G : Guard indexer} {s s' : State indexer} {w w' : World} {i : ℕ} {l : Stage} {o : Op}
  {a : Except Err o.Choice} {r : Except Err o.Reply} {c : ℕ}

theorem isStarting_of_stage (hl : s.localOf indexContract i = some (.unsubscribed c)) : isStarting s c = true := by
  have hi : i < s.threads.length := by
    by_contra hge
    have hnone : s.threads[i]? = none := List.getElem?_eq_none (by omega)
    simp [State.localOf, hnone] at hl
  refine List.any_eq_true.mpr ⟨i, List.mem_range.mpr hi, ?_⟩
  rw [hl]
  exact beq_self_eq_true _

/-- A chain is subscribed when a subscription is created, and not otherwise. -/
theorem subscribed_of_effect (he : w.effect o a = some (r, w')) (h : w'.IsSubscribed c) :
    w.IsSubscribed c ∨ ∃ params, o = .createContractSubscription params ∧ a.isOk = true ∧ params.chainId = c := by
  obtain ⟨sub, hsub, hc, hd⟩ := h
  rcases subscriptions_of_effect he hsub hd with hold | ⟨params, id, ho, hok, rfl⟩
  · exact Or.inl ⟨sub, hold, hc, hd⟩
  · exact Or.inr ⟨params, ho, hok, hc⟩

/-- An add request gets about to set a cursor when it finds the chain without a subscription. -/
theorem unsubscribed_cases (he : w.effect o a = some (r, w')) (hn : l.next o r = .unsubscribed c) :
    l = .unsubscribed c ∨ ¬ w.IsSubscribed c ∧ w' = w := by
  cases l with
  | adding c' =>
    have hn : Stage.nextAdding c' o r = .unsubscribed c := hn
    unfold Stage.nextAdding at hn
    split at hn
    · split_ifs at hn with hmem
      cases hn
      obtain ⟨e, hr, -⟩ | ⟨z, q, -, hr, hx⟩ := World.effect_cases he
      · cases hr
      · cases hr
        obtain ⟨rfl, rfl⟩ := Prod.mk.inj (Option.some.inj hx)
        refine Or.inr ⟨fun ⟨sub, hsub, hc, hd⟩ => hmem ?_, rfl⟩
        rw [List.mem_dedup, List.mem_map]
        exact ⟨sub, List.mem_filter.mpr ⟨hsub, by simpa using hd⟩, hc⟩
    · cases hn
  | unsubscribed c' =>
    have hn : Stage.nextUnsubscribed c' o r = .unsubscribed c := hn
    unfold Stage.nextUnsubscribed at hn
    split at hn
    · cases hn
    · cases hn
    · exact Or.inl hn
  | other => cases hn
  | asking =>
    have hn : Stage.nextAsking o r = .unsubscribed c := hn
    unfold Stage.nextAsking at hn
    split at hn <;> cases hn
  | tick c' =>
    have hn : Stage.nextTick c' o r = .unsubscribed c := hn
    unfold Stage.nextTick at hn
    split at hn <;> cases hn
  | began c' t =>
    have hn : Stage.nextBegan c' t o r = .unsubscribed c := hn
    unfold Stage.nextBegan at hn
    split at hn <;> cases hn
  | locked c' t b =>
    have hn : Stage.nextLocked c' t b o r = .unsubscribed c := hn
    unfold Stage.nextLocked at hn
    split at hn <;> cases hn
  | numbered c' t b n =>
    have hn : Stage.nextNumbered c' t b n o r = .unsubscribed c := hn
    unfold Stage.nextNumbered at hn
    split at hn <;> cases hn
  | found c' t b n subs x y =>
    have hn : Stage.nextFound c' t b n subs x y o r = .unsubscribed c := hn
    unfold Stage.nextFound at hn
    split at hn <;> cases hn

/-- While an add request is about to set a cursor, the chain has no subscription. -/
theorem unsubscribed (h : Reachable startsAlone (State.initial w) s)
    (hl : s.localOf indexContract i = some (.unsubscribed c)) : ¬ s.world.IsSubscribed c := by
  refine h.invariant indexContract (fun s => ∀ i c, s.localOf indexContract i = some (.unsubscribed c) →
    ¬ s.world.IsSubscribed c) ?_ ?_ ?_ i c hl
  · intro i c hl
    cases hl
  · intro s s' m k _ ih st j c hl
    rw [world_after_start st]
    rcases st.localOf hl with ⟨-, hinit⟩ | ⟨-, hj⟩
    · cases k <;> cases hinit
    · exact ih j c hj
  · intro s s' i l o a r _ ih st j c hl hsub
    have hperformed : s.world.effect o a = some (r, s'.world) := st.performed
    have hgranted : startsAlone.call s i o a = true := st.granted
    -- nobody creates a subscription of the chain meanwhile
    have hkept : isStarting s c = true → s.world.IsSubscribed c := by
      intro hstarting
      rcases subscribed_of_effect hperformed hsub with hold | ⟨params, rfl, hok, rfl⟩
      · exact hold
      · simp [startsAlone, hstarting, hok] at hgranted
    rcases st.localOf hl with ⟨-, hnext⟩ | ⟨-, hj⟩
    · rcases unsubscribed_cases hperformed hnext.symm with rfl | ⟨hnot, hworld⟩
      · exact ih i c st.caller (hkept (isStarting_of_stage st.caller))
      · rw [hworld] at hsub
        exact hnot hsub
    · exact ih j c hj (hkept (isStarting_of_stage hj))

/-! ### Add requests end no transaction -/

/-- Whether the process is an add request, which ends no transaction. -/
def requestProtocol : Protocol Calls where
  Local := Bool
  next l _ _ := l
  allowed l o := l = true → o.endsTransaction = false
  possible _ _ := True

abbrev Endless (p : Prog α) : Prop := p.Only fun o : Op => o.endsTransaction = false

theorem endless_await (ho : o.endsTransaction = false) : Endless (await o) := only_perform ho

theorem endless_startIndexing (c : ℕ) : Endless (startIndexing c) := by
  refine (endless_await rfl).bind fun chains => ?_
  dsimp only
  split
  · exact only_done _
  · refine Only.handle ?_ fun e => only_done _
    exact (endless_await rfl).bind fun _ => (endless_await rfl).bind fun n => endless_await rfl

theorem endless_insertWebhookFor (webhookUrl : Option String) : Endless (insertWebhookFor webhookUrl) := by
  unfold insertWebhookFor
  split
  · exact only_done _
  · refine Only.bind ((endless_await rfl).bind fun _ => only_done _) fun valid => ?_
    split
    · exact (endless_await rfl).bind fun _ => only_done _
    · exact only_raise _

theorem endless_addContractSubscription (body : AddBody) : Endless (addContractSubscription body) := by
  refine (endless_await rfl).bind fun c => ?_
  split
  · exact only_raise _
  · refine (endless_await rfl).bind fun _ => (endless_await rfl).bind fun valid => ?_
    split
    · exact only_raise _
    · refine (endless_startIndexing c).bind fun _ => (endless_insertWebhookFor _).bind fun webhookId => ?_
      exact (endless_await rfl).bind fun _ => only_done _

def requestContract : Contract indexer where
  toProtocol := requestProtocol
  init
    | .addContractSubscription _ => true
    | _ => false
  ends _ _ := True
  answers _ _ _ _ _ _ := trivial
  starts w k p w' h := by
    have hany : p.Follows requestProtocol (fun _ _ => True) false := by
      refine ((only_any p).follows_in (P := requestProtocol) (F := fun l => l = false) (fun l o hl _ ht => ?_)
        (fun l o r hl _ => hl) rfl).mono fun _ _ _ => trivial
      rw [hl] at ht
      cases ht
    cases k with
    | addContractSubscription body =>
      cases Option.some.inj h
      refine ((endless_addContractSubscription body).follows_in (P := requestProtocol) (F := fun _ => True)
        (fun l o _ ho _ => ho) (fun _ _ _ _ _ => trivial) trivial).mono fun _ _ _ => trivial
    | _ => exact hany

private theorem after_request (i : ℕ) (tr : List (Event Calls)) : requestContract.after true i tr = true :=
  requestContract.after_keeps (J := fun l => l = true) rfl (fun _ _ _ h => h) i tr

/-- Add requests leave the cursor of a subscribed chain alone. -/
theorem keeps_cursors (w : World) : KeepsCursors startsAlone w := by
  intro s s' m e body p c hs hstep htr hi hsub
  obtain ⟨k, p', w', -, -, rfl⟩ | ⟨j, k, o, next, a, r, w', hj, -, he, rfl⟩ := step_cases hstep
  · have hlength := congrArg List.length htr
    simp [State.spawned] at hlength
  · obtain ⟨rfl, -⟩ := List.cons.inj htr
    obtain ⟨rfl, -⟩ := Prod.mk.inj (Option.some.inj (hj.symm.trans hi))
    have hstage : Stage.Allowed _ o := (hs.conforms indexContract).allowed indexContract hj
    have hends : o.endsTransaction = false :=
      (hs.conforms requestContract).allowed requestContract hj (after_request j s.trace)
    rcases row_of_effect he c with hsame | ⟨ho, -⟩ | ⟨v, x, rfl, -⟩
    · exact hsame
    · rw [hends] at ho
      cases ho
    · -- the chain was found without a subscription, and has none since
      have hl := localOf_eq indexContract hj
      generalize indexContract.after (indexContract.init (.addContractSubscription body)) j s.trace = l at hstage hl
      cases hstage with
      | plain _ _ hplain => cases hplain
      | reset => exact absurd hsub (unsubscribed hs hl)

end

/-! ### Runs -/

/-- The next call is the upsert of an add request. -/
def upserts (G : Guard indexer) (i : ℕ) (x : Answers) (s : State indexer) : Bool :=
  (s.threads[i]?.any fun t => t.1 == .addContractSubscription addBody) && (s.step G (.call i x)).isSome

private theorem step_of_upserts {G : Guard indexer} {i : ℕ} {x : Answers} {s : State indexer}
    (h : upserts G i x s = true) :
    ∃ s' e p, s.step G (.call i x) = some s' ∧ s'.trace = e :: s.trace ∧
      s.threads[e.thread]? = some (.addContractSubscription addBody, p) := by
  simp only [upserts, Bool.and_eq_true] at h
  obtain ⟨⟨k, p⟩, hi, hk⟩ := (Option.any_eq_true _ _).mp h.1
  obtain ⟨s', hs'⟩ := Option.isSome_iff_exists.mp h.2
  obtain ⟨e, hthread, htr⟩ := trace_after_call hs'
  obtain rfl : k = .addContractSubscription addBody := by simpa using hk
  exact ⟨s', e, p, hs', htr, hthread ▸ hi⟩

/-- Two requests find the chain without a subscription. The first one adds its subscription; the
chain goes on, and the second one asks for its head. -/
def bothUnsubscribed : List (Move indexer) :=
  starts (.addContractSubscription addBody) :: proceeds 0 4 (answering 10 "a") ++
    starts (.addContractSubscription addBody) :: proceeds 1 4 (answering 10 "b") ++
    proceeds 0 4 (answering 10 "a") ++ starts (.advanceHead 1 15) :: proceeds 2 1 (answering 15 "") ++
    proceeds 1 2 (answering 15 "b")

theorem not_keeps_cursors : ¬ ∀ w : World, KeepsCursors anyRequests w := by
  intro hgeneral
  obtain ⟨s, hs, hr⟩ := exists_reachable_of_run anyRequests tenth bothUnsubscribed
    (fun s : State indexer => upserts anyRequests 1 (answering 15 "b") s &&
      (s.world.subscriptions.any (fun sub => decide (sub.chainId = 1 ∧ sub.deleted = false)) &&
        (s.step anyRequests (.call 1 (answering 15 "b"))).any fun s' : State indexer =>
          decide (s.world.lastIndexedBlock 1 = some 10 ∧ s'.world.lastIndexedBlock 1 = some 15))) (by decide +kernel)
  simp only [Bool.and_eq_true, List.any_eq_true, decide_eq_true_eq] at hr
  obtain ⟨hupserts, ⟨sub, hsub, hactive⟩, hmoves⟩ := hr
  obtain ⟨s', e, p, hstep, htr, hi⟩ := step_of_upserts hupserts
  rw [hstep] at hmoves
  obtain ⟨hbefore, hafter⟩ : s.world.lastIndexedBlock 1 = some 10 ∧ s'.world.lastIndexedBlock 1 = some 15 := by
    simpa using hmoves
  have hkept := hgeneral tenth s s' _ e addBody p 1 hs hstep htr hi ⟨sub, hsub, hactive⟩
  rw [hbefore, hafter] at hkept
  cases hkept

end Engine.Indexer
