import Engine.Records.Requests

/-! One step of the service: what a started process and a performed call change,
in the world and in the process itself. -/
namespace Engine
open Concurrent Program Function

/-- The process with number `i`. -/
abbrev process (s : State engine) (i : ℕ) : Option Local := s.localOf recordContract i

section
variable {G : Guard engine} {s s' : State engine} {w : World} {i : ℕ} {l : Local} {o : Op}
  {a : Except Err o.Choice} {r : Except Err o.Reply}

abbrev Called (G : Guard engine) (s s' : State engine) (i : ℕ) (l : Local) (o : Op) (a : Except Err o.Choice)
    (r : Except Err o.Reply) : Prop := Stepped recordContract G s s' i l o a r

/-- The processes after a call are the caller, moved, and the others, unmoved. -/
theorem process_after_call (st : Called G s s' i l o a r) {j : ℕ} {l' : Local} (h : process s' j = some l') :
    (j = i ∧ l' = l.next o r) ∨ (j ≠ i ∧ process s j = some l') := by
  by_cases hj : j = i
  · subst hj
    exact Or.inl ⟨rfl, (Option.some.inj (st.self.symm.trans h)).symm⟩
  · exact Or.inr ⟨hj, (st.others j hj).symm.trans h⟩

/-- The processes after a start are those before it and the new one. -/
theorem process_after_start {n : ℕ} {k : Request} (st : Started recordContract G s s' n k) {j : ℕ} {l' : Local}
    (h : process s' j = some l') :
    (j = n ∧ l' = recordContract.init k) ∨ (j ≠ n ∧ process s j = some l') := by
  by_cases hj : j = n
  · subst hj
    exact Or.inl ⟨rfl, (Option.some.inj (st.self.symm.trans h)).symm⟩
  · exact Or.inr ⟨hj, (st.others j hj).symm.trans h⟩

theorem process_kept {n : ℕ} {k : Request} (st : Started recordContract G s s' n k) {j : ℕ} {l' : Local}
    (h : process s j = some l') : process s' j = some l' := by
  have hj : j ≠ n := by
    rintro rfl
    cases st.unused.symm.trans h
  exact (st.others j hj).trans h

/-- Starting a process changes no records, and takes at most a job. -/
theorem world_after_start {n : ℕ} {k : Request} (st : Started recordContract G s s' n k) :
    s'.world = s.world ∨ (∃ q m j, k = .sendJob q m ∧ takeJob (s.world.sendJobs q m) = some j ∧
      s'.world = s.world.setSendJob q m (some j)) ∨
    ∃ q j, k = .mineJob q ∧ takeJob (s.world.mineJobs q) = some j ∧ s'.world = s.world.setMineJob q (some j) := by
  obtain ⟨p, hp⟩ := st.started
  cases k with
  | sendJob q m =>
    obtain ⟨j, hj, he⟩ := Option.map_eq_some_iff.mp hp
    exact Or.inr (Or.inl ⟨q, m, j, rfl, hj, (Prod.mk.inj he).2.symm⟩)
  | mineJob q =>
    obtain ⟨j, hj, he⟩ := Option.map_eq_some_iff.mp hp
    exact Or.inr (Or.inr ⟨q, j, rfl, hj, (Prod.mk.inj he).2.symm⟩)
  | _ => exact Or.inl (Prod.mk.inj (Option.some.inj hp)).2.symm

theorem transactions_after_start {n : ℕ} {k : Request} (st : Started recordContract G s s' n k) :
    s'.world.transactions = s.world.transactions ∧ s'.world.accepted = s.world.accepted ∧
      s'.world.chain = s.world.chain ∧ s'.world.sent = s.world.sent ∧ s'.world.uuids = s.world.uuids := by
  obtain h | ⟨_, _, _, _, _, h⟩ | ⟨_, _, _, _, h⟩ := world_after_start st <;> rw [h] <;> exact ⟨rfl, rfl, rfl, rfl, rfl⟩

theorem world_after_call (st : Called G s s' i l o a r) :
    s'.world.transactions = match stores ⟨i, o, a, r⟩ with
      | some t => update s.world.transactions t.queueId (some t)
      | none => s.world.transactions := World.transactions_of_effect st.performed

theorem Allowed.writes {t : Transaction} (h : Allowed l (.setTransaction t)) : Writes l t := by
  cases h with
  | ignore _ hi => cases hi
  | set _ hw => exact hw

/-- What is stored after a call was stored before it, or the call stored it. -/
theorem stored_after_call (st : Called G s s' i l o a r) {q : QueueId} {t : Transaction}
    (h : s'.world.transactions q = some t) :
    s.world.transactions q = some t ∨ (stores ⟨i, o, a, r⟩ = some t ∧ t.queueId = q ∧ Writes l t) := by
  rw [world_after_call st] at h
  cases hs : stores ⟨i, o, a, r⟩ with
  | none => exact Or.inl (by simpa [hs] using h)
  | some t' =>
    rw [hs] at h
    by_cases hq : q = t'.queueId
    · subst hq
      obtain rfl : t' = t := by simpa using h
      obtain rfl : o = .setTransaction t' := op_of_stores hs
      exact Or.inr ⟨rfl, rfl, st.allowed.writes⟩
    · exact Or.inl (by simpa [update_of_ne hq] using h)

/-! ### What a call does to its process -/

/-- The caller sees a throw that it does not catch itself. -/
def throws : (o : Op) → Except Err o.Choice → Bool
  | .ethBlockNumber _, .error _ => false
  | .getLatestBlock _, .ok none => true
  | _, .error _ => true
  | _, .ok _ => false

/-- The call leaves records, submissions for transactions and `nonce-sent` as they are. -/
structure Silent (e : Event Calls) : Prop where
  stores : stores e = none
  submits : ∀ x, submits e = some x → x.queueId = none
  marks : e.op.changes = some .sent → ∃ err, e.reply = .error err

/-- How a process can move by one call, in the world `w`. -/
inductive LocalStep (w : World) (i : ℕ) (l : Local) :
    (o : Op) → Except Err o.Choice → Except Err o.Reply → Local → Prop
  | same (o : Op) (a : Except Err o.Choice) (r : Except Err o.Reply) (hs : Silent ⟨i, o, a, r⟩) :
      LocalStep w i l o a r l
  | lost (o : Op) (a : Except Err o.Choice) (r : Except Err o.Reply) (hs : Silent ⟨i, o, a, r⟩)
      (h : l.phase.unfinished = true) (ha : throws o a = true) : LocalStep w i l o a r (l.at .lost)
  | receipt (c : ℕ) (h : TransactionHash) (a : Except Err TransactionReceipt) (receipt : TransactionReceipt)
      (hr : w.chain receipt.transactionHash.wallet receipt.transactionHash.nonce =
        some (.broadcast receipt.transactionHash)) :
      LocalStep w i l (.ethGetTransactionReceipt c h) a (.ok receipt) { l with receipts := receipt :: l.receipts }
  | named (o : Op) (a : Except Err o.Choice) (r : Except Err o.Reply) (hs : Silent ⟨i, o, a, r⟩) (q : QueueId)
      (tx : InsertedTransaction) (key : Option String) (simulate : Bool)
      (hreq : l.request = .insertTransaction tx key simulate) (hidle : l.phase = .idle)
      (hq : w.transactions q = none) : LocalStep w i l o a r { l with queueId := some q }
  | read (q : QueueId) (a : Except Err Unit) (hq : l.request.queueId = some q) (hidle : l.phase = .idle) :
      LocalStep w i l (.getTransaction q) a (.ok (w.transactions q))
        { l with read := w.transactions q, receipts := [], phase := .idle }
  | acceptedFirst (r : Transaction) (q : QueueId) (n : ℕ) (hash : TransactionHash) (hidle : l.phase = .idle)
      (h : FirstSend l r q n hash) :
      LocalStep w i l (.accountSendTransaction (.transaction r.queueId) hash.signer hash.transaction) (.ok ())
        (.ok hash) (l.at (.accepted hash))
  | acceptedAgain (r : Transaction) (hash : TransactionHash) (hidle : l.phase = .idle) (h : SendAgain l r hash) :
      LocalStep w i l (.accountSendTransaction (.transaction r.queueId) hash.signer hash.transaction) (.ok ())
        (.ok hash) (l.at (.accepted hash))
  | bundled (r : Transaction) (q : QueueId) (n : ℕ) (u : UserOperation) (hreq : l.request = .sendJob q n)
      (hheld : l.held = true) (hread : l.read = some r) (hidle : l.phase = .idle)
      (hqueued : (manuallyRetried r n).status = .queued) (huser : r.isUserOp = true) :
      LocalStep w i l (.bundleUserOp r.queueId u) (.ok ()) (.ok ⟨u⟩) (l.at (.bundled ⟨u⟩))
  | marked (r : Transaction) (q : QueueId) (n : ℕ) (hash : TransactionHash) (hphase : l.phase = .accepted hash)
      (h : FirstSend l r q n hash) :
      LocalStep w i l (.saddSent r.wallet hash.nonce) (.ok ()) (.ok ()) (l.at (.marked hash))
  | unmarked (r : Transaction) (q : QueueId) (m : ℤ) (found : Bool) (hreq : l.request = .mineJob q)
      (hheld : l.held = true) (hread : l.read = some r) (hidle : l.phase = .idle) (hsent : r.status = .sent)
      (heoa : r.isUserOp = false) (hnonce : r.nonce = some m) :
      LocalStep w i l (.sremSent r.wallet m) (.ok ()) (.ok found) (l.at .unmarked)
  | released (r : Transaction) (q : QueueId) (m : ℤ) (found : Bool) (hreq : l.request = .mineJob q)
      (hheld : l.held = false) (hread : l.read = some r) (hphase : l.phase = .timedOut)
      (heoa : r.isUserOp = false) (hnonce : r.nonce = some m) :
      LocalStep w i l (.sremSent r.wallet m) (.ok ()) (.ok found) (l.at .stored)
  | stored (t : Transaction) (applied : Bool) (h : Writes l t)
      (hreq : ∀ q, l.request = .mineJob q → l.held = true ∨ t.isUserOp = true) :
      LocalStep w i l (.setTransaction t) (.ok applied) (.ok ()) (l.at .stored)
  | timedOut (r : Transaction) (q : QueueId) (applied : Bool) (hreq : l.request = .mineJob q)
      (hheld : l.held = false) (hread : l.read = some r) (hidle : l.phase = .idle) (hsent : r.status = .sent)
      (heoa : r.isUserOp = false) (h : Writes l (timedOutTransaction r)) :
      LocalStep w i l (.setTransaction (timedOutTransaction r)) (.ok applied) (.ok ()) (l.at .timedOut)
  | attempted (o : Op) (a : Except Err o.Choice) (r : Except Err o.Reply) (hs : Silent ⟨i, o, a, r⟩)
      (exhausted : Bool) (hheld : l.held = true) (hsettled : l.Settled) :
      LocalStep w i l o a r (l.attempted exhausted)

theorem silent_error (i : ℕ) (o : Op) (a : Except Err o.Choice) (e : Err) : Silent ⟨i, o, a, .error e⟩ := by
  refine ⟨stores_error i o a e, fun x hx => ?_, fun _ => ⟨e, rfl⟩⟩
  cases o <;> cases hx

theorem localStep_threw {w' : World} {e : Err} (ho : Allowed l o) (he : w.effect o a = some (.error e, w'))
    (ha : a = .error e ∨ w.locked o = true) : LocalStep w i l o a (.error e) (l.next o (.error e)) := by
  have hs := silent_error i o a e
  cases hf : l.phase.unfinished with
  | false =>
    rw [Local.next_error_of_finished hf]
    exact .same o a _ hs
  | true =>
    obtain rfl : a = .error e := by
      refine ha.resolve_right fun hl => ?_
      cases ho with
      | removeSend q n h hidle => simp [hidle, Phase.unfinished] at hf
      | removeMine q h hidle => simp [hidle, Phase.unfinished] at hf
      | ignore o hi => cases o <;> first | cases hl | cases hi
      | _ => cases hl
    rw [Local.next_error]
    split
    · exact .same _ _ _ hs
    · rename_i hb
      rw [Local.threw_of_unfinished hf]
      refine .lost o _ _ hs hf ?_
      unfold throws
      split
      · exact absurd rfl (hb _)
      · rfl
      · rfl
      · rename_i heq
        cases heq

theorem silent_ignored (hi : o.ignored = true) : Silent ⟨i, o, a, r⟩ := by
  cases o with
  | accountSendTransaction caller address tx =>
    cases caller with
    | transaction q => cases hi
    | cancellation =>
      refine ⟨rfl, fun x hx => ?_, fun h => by cases h⟩
      cases r with
      | error e => cases hx
      | ok hash =>
        cases hx
        rfl
  | _ => first | (cases hi; done) | exact ⟨rfl, by rintro x ⟨⟩, by rintro ⟨⟩⟩

theorem localStep_ignored (hi : o.ignored = true) {c : o.Choice} {x : o.Reply} {w' : World}
    (hx : w.apply o c = some (x, w')) : LocalStep w i l o (.ok c) (.ok x) (l.next o (.ok x)) := by
  have hs : Silent ⟨i, o, .ok c, .ok x⟩ := silent_ignored hi
  cases o with
  | getLatestBlock chainId =>
    obtain ⟨rfl, -⟩ := Prod.mk.inj (Option.some.inj hx)
    cases c with
    | some b => exact .same _ _ _ hs
    | none =>
      cases hf : l.phase.unfinished with
      | false =>
        have hn : l.next (.getLatestBlock chainId) (.ok none) = l := Local.threw_of_finished hf
        rw [hn]
        exact .same _ _ _ hs
      | true =>
        have hn : l.next (.getLatestBlock chainId) (.ok none) = l.at .lost := Local.threw_of_unfinished hf
        rw [hn]
        exact .lost _ _ _ hs hf rfl
  | accountSendTransaction caller address tx =>
    cases caller with
    | transaction q => cases hi
    | cancellation => exact .same _ _ _ hs
  | _ => first | exact .same _ _ _ hs | cases hi

theorem localStep_set {t : Transaction} (hw : Writes l t) (applied : Bool) :
    LocalStep w i l (.setTransaction t) (.ok applied) (.ok ()) (l.next (.setTransaction t) (.ok ())) := by
  cases hreq : l.request with
  | mineJob q =>
    have hn : l.next (.setTransaction t) (.ok ()) =
        l.at (if l.held || t.isUserOp then .stored else .timedOut) := by simp [Local.next, hreq, Local.at]
    rw [hn]
    cases hheld : l.held with
    | true => exact .stored t applied hw fun _ _ => Or.inl hheld
    | false =>
      cases huser : t.isUserOp with
      | true => exact .stored t applied hw fun _ _ => Or.inr huser
      | false =>
        cases hw with
        | timedOut r q' hreq' hheld' hexhausted hread hidle hsent =>
          exact .timedOut r q applied hreq hheld hread hidle hsent huser
            (.timedOut r q' hreq' hheld' hexhausted hread hidle hsent)
        | mined r q' hashes receipt hreq' hheld' => exact absurd (hheld.symm.trans hheld') (by decide)
        | minedUserOp r q' raw receipt m hreq' hheld' => exact absurd (hheld.symm.trans hheld') (by decide)
        | sent r q' n hash block hphase hsend => exact absurd (hreq.symm.trans hsend.request) (by simp)
        | queued tx key simulate q' hreq' => exact absurd (hreq.symm.trans hreq') (by simp)
        | unpopulated r q' n m hreq' => exact absurd (hreq.symm.trans hreq') (by simp)
        | sentUserOp r q' n hash block hreq' => exact absurd (hreq.symm.trans hreq') (by simp)
        | resent r q' n hashes hash block hreq' => exact absurd (hreq.symm.trans hreq') (by simp)
        | failed r q' n m hreq' => exact absurd (hreq.symm.trans hreq') (by simp)
        | cancelledQueued r q' block hreq' => exact absurd (hreq.symm.trans hreq') (by simp)
        | cancelledSent r q' hash hreq' => exact absurd (hreq.symm.trans hreq') (by simp)
        | retried r q' b c fee priority hreq' => exact absurd (hreq.symm.trans hreq') (by simp)
        | syncRetried r q' b c hashes hash block hreq' => exact absurd (hreq.symm.trans hreq') (by simp)
  | _ =>
    have hn : l.next (.setTransaction t) (.ok ()) = l.at .stored := by simp [Local.next, hreq, Local.at]
    rw [hn]
    exact .stored t applied hw fun q hq => by rw [hreq] at hq; cases hq

theorem localStep {w' : World} (ho : Allowed l o) (he : w.effect o a = some (r, w')) :
    LocalStep w i l o a r (l.next o r) := by
  obtain ⟨e, rfl, -, -, ha⟩ | ⟨c, x, rfl, rfl, -, hx⟩ := World.effect_cases he
  · exact localStep_threw ho he ha
  · cases ho with
    | ignore _ hi => exact localStep_ignored hi hx
    | receipt chainId hash =>
      simp only [World.apply] at hx
      split_ifs at hx with hc
      obtain ⟨rfl, -⟩ := Prod.mk.inj (Option.some.inj hx)
      exact .receipt chainId hash _ c (hc.1 ▸ hc.2)
    | uuid tx key simulate hreq hidle =>
      simp only [World.apply] at hx
      split_ifs at hx with hc
      obtain ⟨rfl, -⟩ := Prod.mk.inj (Option.some.inj hx)
      exact .named _ _ _ ⟨rfl, by rintro x ⟨⟩, by rintro ⟨⟩⟩ c tx key simulate hreq hidle hc.2
    | «exists» tx key simulate q hreq hidle =>
      obtain ⟨rfl, -⟩ := Prod.mk.inj (Option.some.inj hx)
      cases hq : w.transactions q with
      | none => exact .named _ _ _ ⟨rfl, by rintro x ⟨⟩, by rintro ⟨⟩⟩ q tx key simulate hreq hidle hq
      | some t => exact .same _ _ _ ⟨rfl, by rintro x ⟨⟩, by rintro ⟨⟩⟩
    | get q hq hidle =>
      obtain ⟨rfl, -⟩ := Prod.mk.inj (Option.some.inj hx)
      exact .read q _ hq hidle
    | set t hw => exact localStep_set hw c
    | sendFirst r q n address tx hidle h =>
      obtain ⟨rfl, -⟩ := Prod.mk.inj (Option.some.inj hx)
      exact .acceptedFirst r q n ⟨address, tx⟩ hidle h
    | sendAgain r address tx hidle h =>
      obtain ⟨rfl, -⟩ := Prod.mk.inj (Option.some.inj hx)
      exact .acceptedAgain r ⟨address, tx⟩ hidle h
    | bundle r q n u hreq hheld hread hidle hqueued huser =>
      obtain ⟨rfl, -⟩ := Prod.mk.inj (Option.some.inj hx)
      exact .bundled r q n u hreq hheld hread hidle hqueued huser
    | mark r q n hash hphase h =>
      have hn : l.next (.saddSent r.wallet hash.nonce) (.ok x) = l.at (.marked hash) := by
        simp [Local.next, hphase, Local.at]
      rw [hn]
      exact .marked r q n hash hphase h
    | unmark r q m hreq hheld hread hidle hsent heoa hnonce =>
      have hn : l.next (.sremSent r.wallet m) (.ok x) = l.at .unmarked := by
        simp [Local.next, hheld, Local.at]
      rw [hn]
      exact .unmarked r q m x hreq hheld hread hidle hsent heoa hnonce
    | release r q m hreq hheld hread hphase heoa hnonce =>
      have hn : l.next (.sremSent r.wallet m) (.ok x) = l.at .stored := by
        simp [Local.next, hheld, Local.at]
      rw [hn]
      exact .released r q m x hreq hheld hread hphase heoa hnonce
    | sendCompleted q n hreq hheld hsettled =>
      exact .attempted _ _ _ ⟨rfl, by rintro x ⟨⟩, by rintro ⟨⟩⟩ _ hheld (Or.inl hsettled)
    | sendFailed q n hreq hheld hsettled =>
      exact .attempted _ _ _ ⟨rfl, by rintro x ⟨⟩, by rintro ⟨⟩⟩ _ hheld hsettled
    | mineCompleted q hreq hheld hsettled =>
      exact .attempted _ _ _ ⟨rfl, by rintro x ⟨⟩, by rintro ⟨⟩⟩ _ hheld (Or.inl hsettled)
    | mineFailed q hreq hheld hsettled =>
      exact .attempted _ _ _ ⟨rfl, by rintro x ⟨⟩, by rintro ⟨⟩⟩ _ hheld (Or.inl hsettled)
    | _ => exact .same _ _ _ ⟨rfl, by rintro x ⟨⟩, by rintro ⟨⟩⟩

end
end Engine
