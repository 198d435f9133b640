import Engine.Concurrent.Sequential
import Engine.Model.Schedule
import Engine.Source.NonceResyncWorker

/-! One run of the nonce resync worker with no other process in between: which gaps it closes. -/
namespace Engine
open Concurrent Program Function

/-- The calls of a run in which `KEYS` lists these wallets and the RPC has these counts, one of
which may be no number. -/
def resyncEffects (counts : Wallet → Option ℕ) (keys : List Wallet) : Effects Calls World := fun w o a =>
  match o, a with
  | .keysSent, .ok ks => if ks = keys then w.effect .keysSent (.ok ks) else none
  | .ethGetTransactionCountOrNaN k, .ok c =>
    if c = counts k then w.effect (.ethGetTransactionCountOrNaN k) (.ok c) else none
  | o, a => w.effect o a

/-- `n` is a nonce of `k` that the chain has not seen, that the counter is past, and that is
not marked as sent. -/
structure Skipped (w : World) (counts : Wallet → Option ℕ) (k : Wallet) (n : ℤ) : Prop where
  count : ∃ c : ℕ, counts k = some c ∧ (c : ℤ) ≤ n
  counter : ∃ d, w.nonce k = some d ∧ n < d
  unsent : n ∉ w.sent k

/-- Every skipped nonce of every wallet is recycled, and nothing else is. -/
structure Resynced (w w' : World) (counts : Wallet → Option ℕ) : Prop where
  closed : ∀ k n, Skipped w counts k n → n ∈ w'.recycled k
  nothingElse : ∀ k n, n ∈ w'.recycled k → n ∈ w.recycled k ∨ Skipped w counts k n

/-- The loop goes on after `k`: its count is a number, and its counter is ahead. -/
def GoesOn (w : World) (counts : Wallet → Option ℕ) (k : Wallet) : Prop :=
  ∃ c : ℕ, counts k = some c ∧ (c : ℤ) - 1 < (w.nonce k).getD 0

/-- The loop over the keys gets to `k`. -/
inductive Reached (w : World) (counts : Wallet → Option ℕ) (k : Wallet) : List Wallet → Prop
  | here (ks : List Wallet) : Reached w counts k (k :: ks)
  | later (k' : Wallet) (ks : List Wallet) (h : GoesOn w counts k') (hk : Reached w counts k ks) :
      Reached w counts k (k' :: ks)

section
variable {counts : Wallet → Option ℕ} {keys ks : List Wallet} {w w' w₁ : World} {k : Wallet} {n lo hi : ℤ}

theorem mem_noncesBetween : n ∈ noncesBetween lo hi ↔ lo ≤ n ∧ n < hi := by
  simp only [noncesBetween, List.mem_map, List.mem_range]
  constructor
  · intro h
    obtain ⟨i, hlt, rfl⟩ := h
    omega
  · intro h
    exact ⟨(n - lo).toNat, by omega, by omega⟩

/-- Some nonces of one wallet were recycled, and nothing else changed. -/
structure Recycles (w w' : World) (P : Wallet → ℤ → Prop) : Prop where
  sent : w'.sent = w.sent
  nonce : w'.nonce = w.nonce
  recycled : ∀ k n, n ∈ w'.recycled k ↔ n ∈ w.recycled k ∨ P k n

theorem recycles_refl (w : World) : Recycles w w fun _ _ => False := ⟨rfl, rfl, fun _ _ => by simp⟩

theorem Recycles.trans {P Q : Wallet → ℤ → Prop} (h : Recycles w w₁ P) (h' : Recycles w₁ w' Q) :
    Recycles w w' fun k n => P k n ∨ Q k n := by
  refine ⟨h'.sent.trans h.sent, h'.nonce.trans h.nonce, fun k n => ?_⟩
  rw [h'.recycled, h.recycled, or_assoc]

theorem Recycles.congr {P Q : Wallet → ℤ → Prop} (h : Recycles w w' P) (hPQ : ∀ k n, Q k n ↔ P k n) :
    Recycles w w' Q := ⟨h.sent, h.nonce, fun k n => by rw [h.recycled, hPQ]⟩

theorem runs_recycleUnlessSent (h : Runs (resyncEffects counts keys) w (recycleUnlessSent k n) (.ok ()) w') :
    Recycles w w' fun k' m => k' = k ∧ m = n ∧ n ∉ w.sent k := by
  obtain ⟨marked, w₁, hread, hrest⟩ := runs_bind_ok.mp h
  obtain ⟨a, ha⟩ := runs_perform.mp hread
  obtain ⟨e, he, -⟩ | ⟨c, x, -, hx, -, hc⟩ := World.effect_cases ha
  · cases he
  obtain ⟨rfl, rfl⟩ := Prod.mk.inj (Option.some.inj hc)
  cases hx
  by_cases hn : n ∈ w.sent k
  · simp only [hn, decide_true, if_true, pure_eq, runs_done] at hrest
    obtain ⟨-, rfl⟩ := hrest
    exact (recycles_refl _).congr fun k' m => by simp [hn]
  · simp only [hn, decide_false, if_false, Bool.false_eq_true] at hrest
    obtain ⟨a, ha⟩ := runs_perform.mp hrest
    obtain ⟨e, he, -⟩ | ⟨c, x, -, hx, -, hc⟩ := World.effect_cases ha
    · cases he
    obtain ⟨-, rfl⟩ := Prod.mk.inj (Option.some.inj hc)
    refine ⟨rfl, rfl, fun k' m => ?_⟩
    by_cases hk : k' = k
    · subst hk
      simp [hn, or_comm]
    · simp [hk]

/-- The round of one wallet. -/
theorem runs_forEach_recycleUnlessSent {ns : List ℤ}
    (h : Runs (resyncEffects counts keys) w (forEach (recycleUnlessSent k) ns) (.ok ()) w') :
    Recycles w w' fun k' m => k' = k ∧ m ∈ ns ∧ m ∉ w.sent k := by
  induction ns generalizing w with
  | nil =>
    obtain ⟨-, rfl⟩ := runs_done.mp h
    exact (recycles_refl _).congr fun k' m => by simp
  | cons n ns ih =>
    obtain ⟨_, w₁, hn, hns⟩ := runs_bind_ok.mp h
    have hone := runs_recycleUnlessSent hn
    have hrest := ih hns
    rw [hone.sent] at hrest
    refine (hone.trans hrest).congr fun k' m => ?_
    rw [List.mem_cons]
    constructor
    · intro hm
      obtain ⟨hk, rfl | hm, hsent⟩ := hm
      · exact Or.inl ⟨hk, rfl, hsent⟩
      · exact Or.inr ⟨hk, hm, hsent⟩
    · intro hm
      obtain ⟨hk, rfl, hsent⟩ | ⟨hk, hm, hsent⟩ := hm
      · exact ⟨hk, Or.inl rfl, hsent⟩
      · exact ⟨hk, Or.inr hm, hsent⟩

theorem skipped_congr (hs : w₁.sent = w.sent) (hn : w₁.nonce = w.nonce) :
    Skipped w₁ counts k n ↔ Skipped w counts k n := by
  constructor <;> intro h
  · exact ⟨h.count, hn ▸ h.counter, hs ▸ h.unsent⟩
  · exact ⟨h.count, hn ▸ h.counter, hs ▸ h.unsent⟩

theorem reached_congr (hn : w₁.nonce = w.nonce) : Reached w₁ counts k ks ↔ Reached w counts k ks := by
  constructor <;> intro h
  · induction h with
    | here ks => exact .here ks
    | later k' ks hk' _ ih => exact .later k' ks (by unfold GoesOn at hk' ⊢; rwa [hn] at hk') ih
  · induction h with
    | here ks => exact .here ks
    | later k' ks hk' _ ih => exact .later k' ks (by unfold GoesOn at hk' ⊢; rwa [hn]) ih

theorem not_reached_nil : ¬ Reached w counts k [] := by
  intro h
  cases h

theorem reached_cons {k' : Wallet} : Reached w counts k (k' :: ks) ↔
    k = k' ∨ (GoesOn w counts k' ∧ Reached w counts k ks) := by
  constructor
  · intro h
    cases h with
    | here => exact Or.inl rfl
    | later _ _ hg hk => exact Or.inr ⟨hg, hk⟩
  · intro h
    obtain rfl | ⟨hg, hk⟩ := h
    · exact .here ks
    · exact .later k' ks hg hk

/-- What a round of the loop reads first, before anything is recycled. -/
theorem runs_reads {f : Option ℕ → ℤ → Prog Unit}
    (h : Runs (resyncEffects counts keys) w ((getChain k.chainId).bind fun _ =>
      (await (.ethGetTransactionCountOrNaN k)).bind fun c => (inspectNonce k).bind fun d => f c d) (.ok ()) w') :
    Runs (resyncEffects counts keys) w (f (counts k) ((w.nonce k).getD 0)) (.ok ()) w' := by
  obtain ⟨chain, w₁, hchain, h⟩ := runs_bind_ok.mp h
  obtain ⟨c, w₂, hcount, h⟩ := runs_bind_ok.mp h
  obtain ⟨d, w₃, hinspect, h⟩ := runs_bind_ok.mp h
  obtain ⟨config, w₀, hconfig, hchain⟩ := runs_bind_ok.mp hchain
  obtain ⟨-, rfl⟩ := runs_done.mp hchain
  obtain ⟨a, ha⟩ := runs_perform.mp hconfig
  obtain ⟨e, he, -⟩ | ⟨c₀, x₀, -, -, -, hc₀⟩ := World.effect_cases ha
  · cases he
  obtain ⟨-, rfl⟩ := Prod.mk.inj (Option.some.inj hc₀)
  obtain ⟨hcounts, rfl⟩ : c = counts k ∧ w₂ = w := by
    obtain ⟨a, ha⟩ := runs_perform.mp hcount
    cases a with
    | error e => cases ha
    | ok c' =>
      simp only [resyncEffects] at ha
      split_ifs at ha with hc
      obtain ⟨hx, rfl⟩ := Prod.mk.inj (Option.some.inj ha)
      cases hx
      exact ⟨hc, rfl⟩
  obtain ⟨d₀, w₄, hget, hinspect⟩ := runs_bind_ok.mp hinspect
  obtain ⟨hd, rfl⟩ := runs_done.mp hinspect
  obtain ⟨a, ha⟩ := runs_perform.mp hget
  obtain ⟨e, he, -⟩ | ⟨c₁, x₁, -, hx₁, -, hc₁⟩ := World.effect_cases ha
  · cases he
  obtain ⟨rfl, rfl⟩ := Prod.mk.inj (Option.some.inj hc₁)
  cases hx₁
  cases hd
  rw [hcounts] at h
  exact h

/-- The loop over the keys recycles the skipped nonces of the wallets it gets to. -/
theorem runs_resyncKeys (h : Runs (resyncEffects counts keys) w (resyncKeys ks) (.ok ()) w') :
    Recycles w w' fun k n => Reached w counts k ks ∧ Skipped w counts k n := by
  induction ks generalizing w with
  | nil =>
    obtain ⟨-, rfl⟩ := runs_done.mp h
    exact (recycles_refl _).congr fun k n => by simp [not_reached_nil]
  | cons k ks ih =>
    have hround := runs_reads h
    cases hc : counts k with
    | none =>
      rw [hc] at hround
      obtain ⟨-, rfl⟩ := runs_done.mp hround
      refine (recycles_refl _).congr fun k' n => iff_of_false (fun hk => ?_) id
      obtain ⟨rfl | ⟨hg, -⟩, hs⟩ := (and_congr_left' reached_cons).mp hk
      · obtain ⟨c, hcount, -⟩ := hs.count
        cases hc.symm.trans hcount
      · obtain ⟨c, hcount, -⟩ := hg
        cases hc.symm.trans hcount
    | some c =>
      rw [hc] at hround
      dsimp only at hround
      split_ifs at hround with hahead
      · obtain ⟨-, rfl⟩ := runs_done.mp hround
        refine (recycles_refl _).congr fun k' n => iff_of_false (fun hk => ?_) id
        obtain ⟨rfl | ⟨hg, -⟩, hs⟩ := (and_congr_left' reached_cons).mp hk
        · obtain ⟨c', hcount, hle⟩ := hs.count
          obtain ⟨d, hd, hlt⟩ := hs.counter
          obtain rfl := Option.some.inj (hc.symm.trans hcount)
          rw [hd, Option.getD_some] at hahead
          omega
        · obtain ⟨c', hcount, hlt⟩ := hg
          obtain rfl := Option.some.inj (hc.symm.trans hcount)
          omega
      · obtain ⟨_, w₁, hloop, hrest⟩ := runs_bind_ok.mp hround
        have hone := runs_forEach_recycleUnlessSent hloop
        have hothers := ih hrest
        have hg : GoesOn w counts k := ⟨c, hc, by omega⟩
        refine (hone.trans hothers).congr fun k' n => ?_
        rw [reached_cons, reached_congr hone.nonce, skipped_congr hone.sent hone.nonce, mem_noncesBetween]
        have hskipped : k' = k → (Skipped w counts k' n ↔
            ((c : ℤ) - 1 + 1 ≤ n ∧ n < (w.nonce k).getD 0) ∧ n ∉ w.sent k) := by
          intro hk
          subst hk
          constructor
          · intro hs
            obtain ⟨c', hcount, hle⟩ := hs.count
            obtain ⟨d, hd, hlt⟩ := hs.counter
            obtain rfl := Option.some.inj (hc.symm.trans hcount)
            rw [hd, Option.getD_some]
            exact ⟨⟨by omega, hlt⟩, hs.unsent⟩
          · intro hs
            obtain ⟨⟨hle, hlt⟩, hunsent⟩ := hs
            refine ⟨⟨c, hc, by omega⟩, ?_, hunsent⟩
            cases hd : w.nonce k' with
            | none =>
              rw [hd, Option.getD_none] at hlt
              omega
            | some d => exact ⟨d, rfl, by simpa [hd] using hlt⟩
        constructor
        · intro hk
          obtain ⟨rfl | ⟨-, hr⟩, hs⟩ := hk
          · exact Or.inl ⟨rfl, ((hskipped rfl).mp hs).1, ((hskipped rfl).mp hs).2⟩
          · exact Or.inr ⟨hr, hs⟩
        · intro hk
          obtain ⟨hk, hrange, hunsent⟩ | ⟨hr, hs⟩ := hk
          · exact ⟨Or.inl hk, (hskipped hk).mpr ⟨hrange, hunsent⟩⟩
          · exact ⟨Or.inr ⟨hg, hr⟩, hs⟩

theorem runs_nonceResyncHandler (h : Runs (resyncEffects counts keys) w nonceResyncHandler (.ok ()) w') :
    Recycles w w' fun k n => Reached w counts k keys ∧ Skipped w counts k n := by
  obtain ⟨ks, w₁, hkeys, hloop⟩ := runs_bind_ok.mp h
  obtain ⟨rfl, rfl⟩ : ks = keys ∧ w₁ = w := by
    obtain ⟨a, ha⟩ := runs_perform.mp hkeys
    cases a with
    | error e => cases ha
    | ok ks' =>
      simp only [resyncEffects] at ha
      split_ifs at ha with hk
      obtain ⟨e', he, -⟩ | ⟨c', x', hc', hx', -, ha⟩ := World.effect_cases ha
      · cases he
      · cases hc'
        cases hx'
        simp only [World.apply] at ha
        split_ifs at ha
        obtain ⟨rfl, rfl⟩ := Prod.mk.inj (Option.some.inj ha)
        exact ⟨hk, rfl⟩
  exact runs_resyncKeys hloop

/-- One run closes every gap and recycles nothing else exactly when the loop gets to every
wallet that has a skipped nonce which is not recycled already. -/
theorem resynced_iff (h : Runs (resyncEffects counts keys) w nonceResyncHandler (.ok ()) w') :
    Resynced w w' counts ↔ ∀ k n, Skipped w counts k n → n ∉ w.recycled k → Reached w counts k keys := by
  have hr := (runs_nonceResyncHandler h).recycled
  constructor
  · intro hresynced k n hs hn
    rcases (hr k n).mp (hresynced.closed k n hs) with hold | ⟨hreached, -⟩
    · exact absurd hold hn
    · exact hreached
  · intro hreached
    refine ⟨fun k n hs => (hr k n).mpr ?_, fun k n hn => ?_⟩
    · by_cases hold : n ∈ w.recycled k
      · exact Or.inl hold
      · exact Or.inr ⟨hreached k n hs hold, hs⟩
    · rcases (hr k n).mp hn with hold | ⟨-, hs⟩
      · exact Or.inl hold
      · exact Or.inr hs

end

def walletOnChain (chainId : ℕ) : Wallet := ⟨chainId, 7⟩

/-- A wallet of chain 2 has used nonces up to 5, of which only 3 is marked as sent. -/
def skippedWorld : World :=
  { World.empty with
    nonce := update World.empty.nonce (walletOnChain 2) (some 5)
    sent := update World.empty.sent (walletOnChain 2) {3} }

/-- Every count is 2. -/
def answersTwo (keys : List Wallet) : Answers
  | .keysSent => .ok keys
  | .ethGetTransactionCountOrNaN _ => .ok (some 2)
  | o => usual o

theorem resynced_skipped : ∃ w', Resynced skippedWorld w' (fun _ => some 2) ∧
    2 ∈ w'.recycled (walletOnChain 2) ∧ 4 ∈ w'.recycled (walletOnChain 2) := by
  have hexec : ((nonceResyncHandler.exec (resyncEffects (fun _ => some 2) [walletOnChain 2]) skippedWorld
      (List.replicate 9 (answersTwo [walletOnChain 2]))).any fun r => r.1.toOption == some () &&
        decide (2 ∈ r.2.recycled (walletOnChain 2)) && decide (4 ∈ r.2.recycled (walletOnChain 2))) = true := by
    decide +kernel
  obtain ⟨⟨r, w'⟩, hrun, hr⟩ := (Option.any_eq_true _ _).mp hexec
  simp only [Bool.and_eq_true, beq_iff_eq, decide_eq_true_eq] at hr
  obtain ⟨⟨hok, h2⟩, h4⟩ := hr
  cases r with
  | error e => cases hok
  | ok u =>
    refine ⟨w', (resynced_iff (runs_of_exec hrun)).mpr fun k n hs _ => ?_, h2, h4⟩
    obtain ⟨d, hd, -⟩ := hs.counter
    by_cases hk : k = walletOnChain 2
    · subst hk
      exact .here []
    · simp [skippedWorld, World.empty, update_of_ne hk] at hd

/-- And a wallet of chain 1 has used nonce 1, which is marked as sent. -/
def upToDateWorld : World :=
  { skippedWorld with
    nonce := update skippedWorld.nonce (walletOnChain 1) (some 1)
    sent := update skippedWorld.sent (walletOnChain 1) {1} }

/-- `KEYS` lists the wallet of chain 1 first. It needs no resync, and the handler returns. -/
theorem not_resynced : ¬ ∀ (counts : Wallet → Option ℕ) (keys : List Wallet) (w w' : World), keys.Nodup →
    (∀ k, k ∈ keys ↔ w.sent k ≠ ∅) → Runs (resyncEffects counts keys) w nonceResyncHandler (.ok ()) w' →
    Resynced w w' counts := by
  intro hgeneral
  have hexec : ((nonceResyncHandler.exec (resyncEffects (fun _ => some 2) [walletOnChain 1, walletOnChain 2])
      upToDateWorld (List.replicate 4 (answersTwo [walletOnChain 1, walletOnChain 2]))).any fun r =>
        r.1.toOption == some () && decide (4 ∉ r.2.recycled (walletOnChain 2))) = true := by
    decide +kernel
  obtain ⟨⟨r, w'⟩, hrun, hr⟩ := (Option.any_eq_true _ _).mp hexec
  simp only [Bool.and_eq_true, beq_iff_eq, decide_eq_true_eq] at hr
  obtain ⟨hok, h4⟩ := hr
  cases r with
  | error e => cases hok
  | ok u =>
    have hkeys : ∀ k, k ∈ [walletOnChain 1, walletOnChain 2] ↔ upToDateWorld.sent k ≠ ∅ := by
      intro k
      by_cases h1 : k = walletOnChain 1
      · subst h1
        simp [upToDateWorld]
      · by_cases h2 : k = walletOnChain 2
        · subst h2
          simp [upToDateWorld, skippedWorld, update_of_ne h1]
        · simp [upToDateWorld, skippedWorld, World.empty, h1, h2]
    have hskipped : Skipped upToDateWorld (fun _ => some 2) (walletOnChain 2) 4 :=
      ⟨⟨2, rfl, by decide⟩, ⟨5, by decide, by decide⟩, by decide⟩
    exact h4 ((hgeneral _ _ _ _ (by decide) hkeys (runs_of_exec hrun)).closed _ _ hskipped)

end Engine
