import Engine.Nonces.Ownership

/-! Where the nonces of a wallet in use are. -/
namespace Engine
open Concurrent Program Function

inductive NoncePlace
  | attempt (i : ℕ)
  | recycled
  | cancelRun (i : ℕ)
  | finished
deriving DecidableEq

def Holding.place (l : Holding) (i : ℕ) : NoncePlace := if l.cancelling then .cancelRun i else .attempt i

inductive NonceAt (s : State nonceUsers) (k : Wallet) (n : ℤ) : NoncePlace → Prop
  | held (i : ℕ) (l : Holding) (hl : s.localOf nonceContract i = some l) (h : (k, n) ∈ l.held) :
      NonceAt s k n (l.place i)
  | recycled (h : n ∈ s.world.recycled k) : NonceAt s k n .recycled
  | finished (i : ℕ) (l : Holding) (hl : s.localOf nonceContract i = some l) (h : (k, n) ∈ l.finished) :
      NonceAt s k n .finished

/-- No Redis command throws. -/
def redisWorks : Guard nonceUsers where
  start _ _ := true
  call _ _ o a :=
    match a with
    | .ok _ => true
    | .error _ => !o.isRedis

section
variable {k : Wallet} {s s' : State nonceUsers} {i : ℕ} {l l' : Holding} {n : ℤ} {p : NoncePlace}

/-- What the other processes hold or used up. -/
inductive NonceElsewhere (s : State nonceUsers) (i : ℕ) (k : Wallet) (n : ℤ) : NoncePlace → Prop
  | held (j : ℕ) (l : Holding) (hj : j ≠ i) (hl : s.localOf nonceContract j = some l) (h : (k, n) ∈ l.held) :
      NonceElsewhere s i k n (l.place j)
  | finished (j : ℕ) (l : Holding) (hj : j ≠ i) (hl : s.localOf nonceContract j = some l)
      (h : (k, n) ∈ l.finished) : NonceElsewhere s i k n .finished

theorem nonceAt_iff (hl : s.localOf nonceContract i = some l) : NonceAt s k n p ↔
    NonceElsewhere s i k n p ∨ ((k, n) ∈ l.held ∧ p = l.place i) ∨ ((k, n) ∈ l.finished ∧ p = .finished) ∨
      (n ∈ s.world.recycled k ∧ p = .recycled) := by
  constructor
  · rintro (⟨j, l', hl', h⟩ | h | ⟨j, l', hl', h⟩)
    · by_cases hj : j = i
      · subst hj
        cases hl.symm.trans hl'
        exact Or.inr (Or.inl ⟨h, rfl⟩)
      · exact Or.inl (.held j l' hj hl' h)
    · exact Or.inr (Or.inr (Or.inr ⟨h, rfl⟩))
    · by_cases hj : j = i
      · subst hj
        cases hl.symm.trans hl'
        exact Or.inr (Or.inr (Or.inl ⟨h, rfl⟩))
      · exact Or.inl (.finished j l' hj hl' h)
  · rintro ((⟨j, l', hj, hl', h⟩ | ⟨j, l', hj, hl', h⟩) | ⟨h, rfl⟩ | ⟨h, rfl⟩ | ⟨h, rfl⟩)
    · exact .held j l' hl' h
    · exact .finished j l' hl' h
    · exact .held i l hl h
    · exact .finished i l hl h
    · exact .recycled h

theorem NonceElsewhere.ne_recycled (h : NonceElsewhere s i k n p) : p ≠ .recycled := by
  cases h with
  | held j l' hj hl' h =>
    unfold Holding.place
    split_ifs <;> simp
  | finished j l' hj hl' h => simp

theorem NonceElsewhere.ne_place (h : NonceElsewhere s i k n p) (l : Holding) : p ≠ l.place i := by
  cases h with
  | held j l' hj hl' h =>
    unfold Holding.place
    split_ifs <;> simp [hj]
  | finished j l' hj hl' h =>
    unfold Holding.place
    split_ifs <;> simp

theorem Holding.place_ne_recycled (l : Holding) (i : ℕ) : l.place i ≠ .recycled := by
  unfold Holding.place
  split_ifs <;> simp

theorem Holding.place_ne_finished (l : Holding) (i : ℕ) : l.place i ≠ .finished := by
  unfold Holding.place
  split_ifs <;> simp

theorem nonceElsewhere_congr (h : ∀ j, j ≠ i → s'.localOf nonceContract j = s.localOf nonceContract j) :
    NonceElsewhere s' i k n p ↔ NonceElsewhere s i k n p := by
  constructor
  · rintro (⟨j, l, hj, hl, hn⟩ | ⟨j, l, hj, hl, hn⟩)
    · exact .held j l hj (h j hj ▸ hl) hn
    · exact .finished j l hj (h j hj ▸ hl) hn
  · rintro (⟨j, l, hj, hl, hn⟩ | ⟨j, l, hj, hl, hn⟩)
    · exact .held j l hj ((h j hj).trans hl) hn
    · exact .finished j l hj ((h j hj).trans hl) hn

/-- What a call of a process can do to the nonces of one wallet. -/
inductive HoldStep (k : Wallet) (s s' : State nonceUsers) (i : ℕ) (l l' : Holding) : Prop
  | keep (hh : ∀ n, (k, n) ∈ l'.held ↔ (k, n) ∈ l.held) (hf : ∀ n, (k, n) ∈ l'.finished ↔ (k, n) ∈ l.finished)
      (hr : s'.world.recycled k = s.world.recycled k)
      (hc : (s.world.nonce k).getD 0 ≤ (s'.world.nonce k).getD 0) (hd : drawn k s'.trace = drawn k s.trace)
  | draw (n : ℤ) (hn : n = (s.world.nonce k).getD 0 + 1) (h : l.held = []) (h' : l'.held = [(k, n)])
      (hf : l'.finished = l.finished) (hr : s'.world.recycled k = s.world.recycled k)
      (hc : (s'.world.nonce k).getD 0 = n) (hd : drawn k s'.trace = (i, n) :: drawn k s.trace)
  | pop (n : ℤ) (hn : n ∈ s.world.recycled k) (h : l.held = []) (h' : l'.held = [(k, n)])
      (hf : l'.finished = l.finished)
      (hr : ∀ m, m ∈ s'.world.recycled k ↔ m ∈ s.world.recycled k ∧ m ≠ n)
      (hc : s'.world.nonce k = s.world.nonce k) (hd : drawn k s'.trace = (i, n) :: drawn k s.trace)
  | drain (h : l.held = []) (h' : ∀ n, (k, n) ∈ l'.held ↔ n ∈ s.world.recycled k)
      (hf : l'.finished = l.finished) (hr : ∀ m, m ∉ s'.world.recycled k)
      (hc : s'.world.nonce k = s.world.nonce k) (hd : drawn k s'.trace = drawn k s.trace)
  | recycle (n : ℤ) (h : l.held = (k, n) :: l'.held) (hf : l'.finished = l.finished)
      (hr : ∀ m, m ∈ s'.world.recycled k ↔ m = n ∨ m ∈ s.world.recycled k)
      (hc : s'.world.nonce k = s.world.nonce k) (hd : drawn k s'.trace = drawn k s.trace)
  | finish (n : ℤ) (h : l.held = (k, n) :: l'.held) (hf : l'.finished = (k, n) :: l.finished)
      (hr : s'.world.recycled k = s.world.recycled k)
      (hc : s'.world.nonce k = s.world.nonce k) (hd : drawn k s'.trace = drawn k s.trace)

theorem holdStep_finish (hr : s'.world.recycled k = s.world.recycled k)
    (hc : s'.world.nonce k = s.world.nonce k) (hd : drawn k s'.trace = drawn k s.trace) :
    HoldStep k s s' i l l.finish := by
  cases hl : l.held with
  | nil =>
    rw [Holding.finish_of_nil hl]
    exact .keep (fun _ => Iff.rfl) (fun _ => Iff.rfl) hr (by rw [hc]) hd
  | cons x rest =>
    obtain ⟨k', n⟩ := x
    by_cases hk : k' = k
    · subst hk
      exact .finish n (by simp [Holding.finish, hl]) (by simp [Holding.finish, hl]) hr hc hd
    · refine .keep (fun m => ?_) (fun m => ?_) hr (by rw [hc]) hd
      · simp [Holding.finish, hl, Ne.symm hk]
      · simp [Holding.finish, hl, Ne.symm hk]

/-- The call leaves the nonces of `k` alone. -/
theorem holdStep_idle (hl : l' = l) (hw : s'.world.recycled k = s.world.recycled k)
    (hc : (s.world.nonce k).getD 0 ≤ (s'.world.nonce k).getD 0) (hd : drawn k s'.trace = drawn k s.trace) :
    HoldStep k s s' i l l' :=
  .keep (fun _ => by rw [hl]) (fun _ => by rw [hl]) hw hc hd

theorem draws_of_keepsNonces {o : Op} (ho : o.keepsNonces = true) (tr : List (Event Calls)) (i : ℕ)
    (a : Except Err o.Choice) (r : Except Err o.Reply) : draws k tr ⟨i, o, a, r⟩ = none := by
  cases o <;> first | rfl | cases ho

private theorem draws_error (tr : List (Event Calls)) (i : ℕ) (o : Op) (a : Except Err o.Choice) (e : Err) :
    draws k tr ⟨i, o, a, .error e⟩ = none := by
  cases o <;> rfl

/-- Calls that take nothing can only raise the counter. -/
theorem apply_of_keepsNonces {w w' : World} {o : Op} (ho : o.keepsNonces = true) {c : o.Choice} {x : o.Reply}
    (h : w.apply o c = some (x, w')) :
    w'.recycled k = w.recycled k ∧ (w.nonce k).getD 0 ≤ (w'.nonce k).getD 0 := by
  have hnone : ∀ w₁ : World, w₁.recycled = w.recycled → w₁.nonce = w.nonce →
      w₁.recycled k = w.recycled k ∧ (w.nonce k).getD 0 ≤ (w₁.nonce k).getD 0 :=
    fun w₁ hr hn => ⟨by rw [hr], by rw [hn]⟩
  cases o with
  | evalNonceIfHigher k' count =>
    obtain ⟨-, rfl⟩ := Prod.mk.inj (Option.some.inj h)
    by_cases hk : k = k'
    · subst hk
      exact ⟨rfl, by simp⟩
    · exact ⟨rfl, by simp [update_of_ne hk]⟩
  | keysRecycled =>
    simp only [World.apply] at h
    split_ifs at h
    obtain ⟨-, rfl⟩ := Prod.mk.inj (Option.some.inj h)
    exact hnone _ rfl rfl
  | getConfig | getAccount | toSerializableTransaction | ethGetTransactionCount | ethBlockNumber
  | getLatestBlock | saddSent | zaddNonceMap =>
    obtain ⟨-, rfl⟩ := Prod.mk.inj (Option.some.inj h)
    exact hnone _ rfl rfl
  | _ => cases ho

theorem holdStep {o : Op} {a : Except Err o.Choice} {r : Except Err o.Reply}
    (st : Stepped nonceContract redisWorks s s' i l o a r) (hu : l.unset ≠ some k)
    (hpos : 1 ≤ (s.world.nonce k).getD 0) : HoldStep k s s' i l (l.next o r) := by
  have ho : Holding.Allowed l o := st.allowed
  have htr := st.traced
  obtain ⟨e, rfl, hw, -, ha⟩ | ⟨c, x, rfl, rfl, -, hx⟩ := World.effect_cases st.performed
  · have hredis : o.isRedis = false := by
      rcases ha with rfl | hl
      · simpa [redisWorks] using st.granted
      · cases o <;> first | rfl | cases hl
    have hd : drawn k s'.trace = drawn k s.trace := htr ▸ drawn_cons_of_none (draws_error _ _ _ _ _)
    rw [Holding.next_error, if_neg (by simp [hredis])]
    split_ifs
    · exact holdStep_finish (by rw [hw]) (by rw [hw]) hd
    · exact holdStep_idle rfl (by rw [hw]) (by rw [hw]) hd
  cases ho with
  | keep o ho =>
    obtain ⟨hr, hc⟩ := apply_of_keepsNonces (k := k) ho hx
    exact holdStep_idle (Holding.next_keep ho x) hr hc (htr ▸ drawn_cons_of_none (draws_of_keepsNonces ho _ _ _ _))
  | set k' v hk' =>
    have hk : k ≠ k' := fun h => hu (h ▸ hk')
    obtain ⟨-, hw⟩ := Prod.mk.inj (Option.some.inj hx)
    refine holdStep_idle rfl (by rw [← hw]) ?_ (htr ▸ drawn_cons_of_none rfl)
    rw [← hw]
    simp [update_of_ne hk]
  | pop k' h =>
    obtain ⟨hx, hw⟩ := Prod.mk.inj (Option.some.inj hx)
    by_cases hk : k' = k
    · subst hk
      cases hpop : (s.world.recycled k').popMin.1 with
      | none =>
        obtain rfl : x = none := hx.symm.trans hpop
        refine holdStep_idle rfl ?_ (by rw [← hw]) (htr ▸ drawn_cons_of_none (by simp [draws]))
        rw [← hw]
        simpa using SortedSet.popMin_none hpop
      | some n =>
        obtain rfl : x = some n := hx.symm.trans hpop
        obtain ⟨hmem, hrest⟩ := SortedSet.popMin_some hpop
        refine .pop n hmem h (by simp [Holding.next, Holding.take, h]) rfl ?_ (by rw [← hw])
          (htr ▸ drawn_cons_of_some (by simp [draws]))
        rw [← hw]
        simpa using hrest
    · have hr : s'.world.recycled k = s.world.recycled k := by
        rw [← hw]
        simp [update_of_ne (Ne.symm hk)]
      have hd : drawn k s'.trace = drawn k s.trace := htr ▸ drawn_cons_of_none (by simp [draws, hk])
      cases x with
      | none => exact holdStep_idle rfl hr (by rw [← hw]) hd
      | some n => exact .keep (by simp [Holding.next, Holding.take, Ne.symm hk]) (fun _ => Iff.rfl) hr (by rw [← hw]) hd
  | incr k' h =>
    obtain ⟨hx, hw⟩ := Prod.mk.inj (Option.some.inj hx)
    by_cases hk : k' = k
    · subst hk
      have hx1 : x ≠ 1 := by
        intro h1
        have : (s.world.nonce k').getD 0 + 1 = 1 := hx.trans h1
        omega
      have hnext : l.next (.incrNonce k') (.ok x) = l.take k' x := by simp [Holding.next, hx1]
      rw [hnext]
      refine .draw x hx.symm h (by simp [Holding.take, h]) rfl (by rw [← hw]) ?_
        (htr ▸ drawn_cons_of_some (by simp [draws, hx1]))
      rw [← hw]
      simpa using hx
    · have hd : drawn k s'.trace = drawn k s.trace := htr ▸ drawn_cons_of_none (by simp [draws, hk])
      have hc : (s.world.nonce k).getD 0 ≤ (s'.world.nonce k).getD 0 := by
        rw [← hw]
        simp [update_of_ne (Ne.symm hk)]
      simp only [Holding.next]
      split_ifs
      · exact .keep (fun _ => Iff.rfl) (fun _ => Iff.rfl) (by rw [← hw]) hc hd
      · exact .keep (by simp [Holding.take, Ne.symm hk]) (fun _ => Iff.rfl) (by rw [← hw]) hc hd
  | drain k' h =>
    have hd : drawn k s'.trace = drawn k s.trace := htr ▸ drawn_cons_of_none rfl
    cases c with
    | false =>
      obtain ⟨rfl, hw⟩ := Prod.mk.inj (Option.some.inj hx)
      exact holdStep_idle rfl (by rw [← hw]) (by rw [← hw]) hd
    | true =>
      obtain ⟨rfl, hw⟩ := Prod.mk.inj (Option.some.inj hx)
      by_cases hk : k' = k
      · subst hk
        refine .drain h (by simp [Holding.next, h]) rfl ?_ (by rw [← hw]) hd
        rw [← hw]
        simp
      · refine .keep (by simp [Holding.next, hk]) (fun _ => Iff.rfl) ?_ (by rw [← hw]) hd
        rw [← hw]
        simp [update_of_ne (Ne.symm hk)]
  | recycle k' n h =>
    obtain ⟨-, hw⟩ := Prod.mk.inj (Option.some.inj hx)
    have hd : drawn k s'.trace = drawn k s.trace := htr ▸ drawn_cons_of_none rfl
    obtain ⟨rest, hl⟩ := List.head?_eq_some_iff.mp h
    by_cases hk : k' = k
    · subst hk
      refine .recycle n (by simp [Holding.next, Holding.release, hl]) rfl ?_ (by rw [← hw]) hd
      rw [← hw]
      simp
    · refine .keep (by simp [Holding.next, Holding.release, hl, Ne.symm hk]) (fun _ => Iff.rfl) ?_ (by rw [← hw]) hd
      rw [← hw]
      simp [update_of_ne (Ne.symm hk)]
  | broadcast caller address tx h =>
    obtain ⟨-, hw⟩ := Prod.mk.inj (Option.some.inj hx)
    exact holdStep_finish (by rw [← hw]) (by rw [← hw]) (htr ▸ drawn_cons_of_none rfl)

theorem nodup_next {o : Op} (ho : Holding.Allowed l o) {a : Except Err o.Choice} {r : Except Err o.Reply}
    {w w' : World} (he : w.effect o a = some (r, w')) (h : l.held.Nodup) : (l.next o r).held.Nodup := by
  have hfinish : l.finish.held.Nodup := h.tail
  obtain ⟨e, rfl, -⟩ | ⟨c, x, rfl, rfl, -, hx⟩ := World.effect_cases he
  · rw [Holding.next_error]
    split_ifs
    · exact h
    · exact hfinish
    · exact h
  cases ho with
  | keep o ho => rwa [Holding.next_keep ho]
  | set k v hk => exact h
  | pop k hl =>
    cases x with
    | none => exact h
    | some n => simp [Holding.next, Holding.take, hl]
  | incr k hl =>
    simp only [Holding.next]
    split_ifs
    · exact h
    · simp [Holding.take, hl]
  | drain k hl =>
    cases x with
    | none => exact h
    | some ns =>
      have hns : ns = (w.recycled k).elems := by
        cases c <;> simp [World.apply] at hx
        exact hx.1.symm
      have hnodup : ns.Nodup := hns ▸ (w.recycled k).sorted.imp fun hab => ne_of_lt hab
      simp only [Holding.next, hl, List.append_nil]
      exact hnodup.map fun a b hab => (Prod.mk.inj hab).2
  | recycle k n hl => exact h.tail
  | broadcast caller address tx hl => exact hfinish

/-- Every nonce of the wallet that was handed out is in one place. -/
structure Owned (k : Wallet) (s : State nonceUsers) : Prop where
  pos : 1 ≤ (s.world.nonce k).getD 0
  set : ∀ i l, s.localOf nonceContract i = some l → l.unset ≠ some k
  nodup : ∀ i l, s.localOf nonceContract i = some l → l.held.Nodup
  le : ∀ n p, NonceAt s k n p → n ≤ (s.world.nonce k).getD 0
  exclusive : Exclusive (NonceAt s k)
  placed : ∀ i n, (i, n) ∈ drawn k s.trace → ∃ p, NonceAt s k n p

/-- The places after a call of process `i`. -/
theorem nonceAt_iff_after (h : ∀ j, j ≠ i → s'.localOf nonceContract j = s.localOf nonceContract j)
    (hl : s'.localOf nonceContract i = some l') (hc : l'.cancelling = l.cancelling) : NonceAt s' k n p ↔
    NonceElsewhere s i k n p ∨ ((k, n) ∈ l'.held ∧ p = l.place i) ∨ ((k, n) ∈ l'.finished ∧ p = .finished) ∨
      (n ∈ s'.world.recycled k ∧ p = .recycled) := by
  have hp : l'.place i = l.place i := by simp [Holding.place, hc]
  rw [Engine.nonceAt_iff hl, nonceElsewhere_congr h, hp]

/-- A call that hands nothing new out only moves nonces. -/
structure MovesOnly (k : Wallet) (s s' : State nonceUsers) : Prop where
  relocates : ∃ f, Relocates f (NonceAt s k) (NonceAt s' k)
  counter : (s.world.nonce k).getD 0 ≤ (s'.world.nonce k).getD 0
  drawn : ∀ j n, (j, n) ∈ drawn k s'.trace → (j, n) ∈ Engine.drawn k s.trace ∨ ∃ p, NonceAt s k n p

/-- A call that hands a new nonce out. -/
structure HandsOut (k : Wallet) (s s' : State nonceUsers) (n : ℤ) (p₀ : NoncePlace) : Prop where
  new : n = (s.world.nonce k).getD 0 + 1
  counter : (s'.world.nonce k).getD 0 = n
  drawn : ∀ j m, (j, m) ∈ drawn k s'.trace → m = n ∨ (j, m) ∈ Engine.drawn k s.trace
  places : ∀ m p, NonceAt s' k m p ↔ (m = n ∧ p = p₀) ∨ NonceAt s k m p

theorem HoldStep.moves_or_handsOut (st : HoldStep k s s' i l l') (hs : s.localOf nonceContract i = some l)
    (hat : ∀ n p, NonceAt s' k n p ↔ NonceElsewhere s i k n p ∨ ((k, n) ∈ l'.held ∧ p = l.place i) ∨
      ((k, n) ∈ l'.finished ∧ p = .finished) ∨ (n ∈ s'.world.recycled k ∧ p = .recycled))
    (hex : Exclusive (NonceAt s k)) (hnodup : l.held.Nodup) :
    MovesOnly k s s' ∨ ∃ n, HandsOut k s s' n (l.place i) := by
  have hat₀ := fun n p => nonceAt_iff (n := n) (p := p) (k := k) hs
  have hpr := l.place_ne_recycled i
  have hpf := l.place_ne_finished i
  cases st with
  | keep hh hf hr hc hd =>
    refine Or.inl ⟨⟨_, relocates_of_iff fun n p => ?_⟩, hc, fun j n hn => Or.inl (hd ▸ hn)⟩
    rw [hat, hat₀, hh, hf, hr]
  | draw n hn h h' hf hr hc hd =>
    refine Or.inr ⟨n, hn, hc, fun j m hm => ?_, fun m p => ?_⟩
    · rw [hd] at hm
      exact (List.mem_cons.mp hm).imp (fun he => (Prod.mk.inj he).2) id
    · rw [hat, hat₀, h, h', hf, hr]
      simp only [List.mem_singleton, Prod.mk.injEq, true_and, List.not_mem_nil, false_and, false_or]
      exact or_left_comm
  | pop n hn h h' hf hr hc hd =>
    have hat_n : NonceAt s k n .recycled := .recycled hn
    refine Or.inl ⟨⟨_, relocates_of_move (S := (· = n)) (b := l.place i) hex (fun m hm => hm ▸ hat_n) fun m p => ?_⟩,
      by rw [hc], fun j m hm => ?_⟩
    · have hne := fun he : NonceElsewhere s i k m p => he.ne_recycled
      rw [hat, hat₀, h, h', hf, hr]
      grind
    · rw [hd] at hm
      refine (List.mem_cons.mp hm).symm.imp id fun he => ?_
      exact ⟨_, (Prod.mk.inj he).2 ▸ hat_n⟩
  | drain h h' hf hr hc hd =>
    refine Or.inl ⟨⟨_, relocates_of_move (S := (· ∈ s.world.recycled k)) (b := l.place i) hex
      (fun m hm => .recycled hm) fun m p => ?_⟩, by rw [hc], fun j n hn => Or.inl (hd ▸ hn)⟩
    have hne := fun he : NonceElsewhere s i k m p => he.ne_recycled
    have hr' := hr m
    rw [hat, hat₀, h, h', hf]
    grind
  | recycle n h hf hr hc hd =>
    have hat_n : NonceAt s k n (l.place i) := .held i l hs (by simp [h])
    have hnot : (k, n) ∉ l'.held := (List.nodup_cons.mp (h ▸ hnodup)).1
    refine Or.inl ⟨⟨_, relocates_of_move (S := (· = n)) (b := .recycled) hex (fun m hm => hm ▸ hat_n) fun m p => ?_⟩,
      by rw [hc], fun j n hn => Or.inl (hd ▸ hn)⟩
    have hne := fun he : NonceElsewhere s i k m p => he.ne_place l
    have hmem : (k, m) ∈ l.held ↔ m = n ∨ (k, m) ∈ l'.held := by simp [h]
    rw [hat, hat₀, hf, hr, hmem]
    grind
  | finish n h hf hr hc hd =>
    have hat_n : NonceAt s k n (l.place i) := .held i l hs (by simp [h])
    have hnot : (k, n) ∉ l'.held := (List.nodup_cons.mp (h ▸ hnodup)).1
    refine Or.inl ⟨⟨_, relocates_of_move (S := (· = n)) (b := .finished) hex (fun m hm => hm ▸ hat_n) fun m p => ?_⟩,
      by rw [hc], fun j n hn => Or.inl (hd ▸ hn)⟩
    have hne := fun he : NonceElsewhere s i k m p => he.ne_place l
    have hmem : (k, m) ∈ l.held ↔ m = n ∨ (k, m) ∈ l'.held := by simp [h]
    have hmem' : (k, m) ∈ l'.finished ↔ m = n ∨ (k, m) ∈ l.finished := by simp [hf]
    rw [hat, hat₀, hr, hmem, hmem']
    grind

/-- `INCR` never replies 1 for a wallet in use. -/
theorem unset_next {o : Op} {a : Except Err o.Choice} {r : Except Err o.Reply} {w w' : World}
    (he : w.effect o a = some (r, w')) (hpos : 1 ≤ (w.nonce k).getD 0) (hu : l.unset ≠ some k) :
    (l.next o r).unset ≠ some k := by
  obtain ⟨e, rfl, -⟩ | ⟨c, x, rfl, rfl, -, hx⟩ := World.effect_cases he
  · rw [Holding.next_error]
    split_ifs <;> exact hu
  by_cases ho : ∃ k', o = .incrNonce k'
  · obtain ⟨k', rfl⟩ := ho
    obtain ⟨hx, -⟩ := Prod.mk.inj (Option.some.inj hx)
    simp only [Holding.next]
    split_ifs with h1
    · simp only [ne_eq, Option.some.injEq]
      rintro rfl
      have : (w.nonce k').getD 0 + 1 = 1 := hx.trans h1.1
      omega
    · simp [Holding.take]
  · unfold Holding.next
    split
    case h_1 => simp [Holding.take]
    case h_2 => exact absurd ⟨_, rfl⟩ ho
    all_goals first | exact hu | (split_ifs <;> exact hu)

theorem Owned.call (h : Owned k s) {o : Op} {a : Except Err o.Choice} {r : Except Err o.Reply}
    (st : Stepped nonceContract redisWorks s s' i l o a r) : Owned k s' := by
  have hstep := holdStep st (h.set i l st.caller) h.pos
  have hnodup := h.nodup i l st.caller
  have hmoves := hstep.moves_or_handsOut st.caller
    (fun n p => nonceAt_iff_after st.others st.self (Holding.next_cancelling o r)) h.exclusive hnodup
  have hset : ∀ j l', s'.localOf nonceContract j = some l' → l'.unset ≠ some k := by
    intro j l' hl'
    by_cases hj : j = i
    · subst hj
      cases st.self ▸ hl'
      exact unset_next st.performed h.pos (h.set j l st.caller)
    · exact h.set j l' (st.others j hj ▸ hl')
  have hnodup' : ∀ j l', s'.localOf nonceContract j = some l' → l'.held.Nodup := by
    intro j l' hl'
    by_cases hj : j = i
    · subst hj
      cases st.self ▸ hl'
      exact nodup_next st.allowed st.performed hnodup
    · exact h.nodup j l' (st.others j hj ▸ hl')
  rcases hmoves with ⟨⟨f, hf⟩, hc, hd⟩ | ⟨n, hn, hc, hd, hp⟩
  · refine ⟨le_trans h.pos hc, hset, hnodup', fun n p hp => ?_, hf.exclusive h.exclusive, fun j n hn => ?_⟩
    · obtain ⟨p', hp'⟩ := hf.placed.mp ⟨p, hp⟩
      exact le_trans (h.le n p' hp') hc
    · exact hf.placed.mpr ((hd j n hn).elim (h.placed j n) id)
  · have hpos := h.pos
    refine ⟨by omega, hset, hnodup', fun m p hm => ?_, h.exclusive.insert (fun p hp' => ?_) hp, fun j m hm => ?_⟩
    · rcases (hp m p).mp hm with ⟨rfl, -⟩ | hm
      · exact hc.ge
      · have := h.le m p hm
        omega
    · have := h.le n p hp'
      omega
    · rcases hd j m hm with rfl | hm
      · exact ⟨_, (hp m _).mpr (Or.inl ⟨rfl, rfl⟩)⟩
      · obtain ⟨p, hp'⟩ := h.placed j m hm
        exact ⟨p, (hp m p).mpr (Or.inr hp')⟩

theorem Owned.start (h : Owned k s) {j : ℕ} {kind : NonceUser}
    (st : Started nonceContract redisWorks s s' j kind) : Owned k s' := by
  obtain ⟨p, hp⟩ := st.started
  have hw : s.world = s'.world := by
    cases kind <;> exact (Prod.mk.inj (Option.some.inj hp)).2
  have hinit : nonceContract.init kind = { cancelling := (nonceContract.init kind).cancelling } := by
    cases kind <;> rfl
  have hself := st.self
  rw [hinit] at hself
  have hlocal : ∀ i l, s'.localOf nonceContract i = some l →
      s.localOf nonceContract i = some l ∨ (l.held = [] ∧ l.finished = [] ∧ l.unset = none) := by
    intro i l hl
    by_cases hi : i = j
    · subst hi
      cases hself ▸ hl
      exact Or.inr ⟨rfl, rfl, rfl⟩
    · exact Or.inl (st.others i hi ▸ hl)
  have hat : ∀ n p, NonceAt s' k n p ↔ NonceAt s k n p := by
    intro n p
    constructor
    · rintro (⟨i, l, hl, hn⟩ | hn | ⟨i, l, hl, hn⟩)
      · rcases hlocal i l hl with hl | hl
        · exact .held i l hl hn
        · simp [hl.1] at hn
      · exact .recycled (hw ▸ hn)
      · rcases hlocal i l hl with hl | hl
        · exact .finished i l hl hn
        · simp [hl.2.1] at hn
    · have hkeep : ∀ i l, s.localOf nonceContract i = some l → s'.localOf nonceContract i = some l := by
        intro i l hl
        refine (st.others i fun hi => ?_).trans hl
        cases (hi ▸ st.unused).symm.trans hl
      rintro (⟨i, l, hl, hn⟩ | hn | ⟨i, l, hl, hn⟩)
      · exact .held i l (hkeep i l hl) hn
      · exact .recycled (hw ▸ hn)
      · exact .finished i l (hkeep i l hl) hn
  have hrel := relocates_of_iff hat
  refine ⟨hw ▸ h.pos, fun i l hl => ?_, fun i l hl => ?_, fun n p hp => ?_, hrel.exclusive h.exclusive,
    fun i n hn => ?_⟩
  · exact (hlocal i l hl).elim (h.set i l) fun hl => by simp [hl.2.2]
  · exact (hlocal i l hl).elim (h.nodup i l) fun hl => by simp [hl.1]
  · exact hw ▸ h.le n p ((hat n p).mp hp)
  · exact hrel.placed.mpr (h.placed i n (st.traced ▸ hn))

private theorem owned {w : World} {v : ℤ} (hv : w.nonce k = some v) (h1 : 1 ≤ v) (hr : w.recycled k = .empty)
    (h : Reachable redisWorks (State.initial w) s) : Owned k s := by
  refine h.invariant nonceContract (Owned k) ?_ (fun s s' n kind _ ih st => ih.start st)
    (fun s s' i l o a r _ ih st => ih.call st)
  have hnone : ∀ n p, ¬ NonceAt (State.initial w) k n p := by
    rintro n p (⟨i, l, hl, -⟩ | hn | ⟨i, l, hl, -⟩)
    · simp [State.initial, State.localOf] at hl
    · simp [State.initial, hr] at hn
    · simp [State.initial, State.localOf] at hl
  exact ⟨by simpa [State.initial, hv] using h1, by simp [State.initial, State.localOf],
    by simp [State.initial, State.localOf], fun n p hn => absurd hn (hnone n p),
    fun n p _ hn => absurd hn (hnone n p), by simp [State.initial, drawn]⟩

/-- Every nonce that was ever handed out is in exactly one place. -/
theorem nonce_in_exactly_one_place {w : World} {v : ℤ} (hv : w.nonce k = some v) (h1 : 1 ≤ v)
    (hr : w.recycled k = .empty) (h : Reachable redisWorks (State.initial w) s) {i : ℕ} {n : ℤ}
    (hn : (i, n) ∈ drawn k s.trace) : ∃! p, NonceAt s k n p := by
  have ho := owned hv h1 hr h
  obtain ⟨p, hp⟩ := ho.placed i n hn
  exact ⟨p, hp, fun p' hp' => ho.exclusive n p' p hp' hp⟩

/-- A wallet whose last used nonce is 5. -/
def walletInUse : Wallet := ⟨1, 0⟩

def worldInUse : World := { World.empty with nonce := fun _ => some 5 }

def transferOf (q : QueueId) : Transaction :=
  { isUserOp := false, chainId := 1, «from» := 0, «to» := some 1, status := .queued, queueId := q }

def insufficientFunds : Err := .new "insufficient funds for gas * price + value"

/-- The broadcast of nonce 6 is rejected, a cancel run takes it, and another attempt draws 7. -/
def rejectedThenCancelled : List (Move nonceUsers) :=
  .start (NonceUser.sendAttempt (transferOf "first")) :: proceeds 0 6 ++
    answered 0 [throwing insufficientFunds, usual] ++ .start NonceUser.cancelRecycledNonces ::
    answered 1 [fun | .keysRecycled => .ok [walletInUse] | o => usual o, usual] ++
    .start (NonceUser.sendAttempt (transferOf "second")) :: proceeds 2 5

theorem nonce_in_exactly_one_place_rejected : ∃ s : State nonceUsers,
    drawn walletInUse s.trace = [(2, 7), (0, 6)] ∧
    (∃! p, NonceAt s walletInUse 6 p) ∧ ∃! p, NonceAt s walletInUse 7 p := by
  obtain ⟨s, hs, hr⟩ := exists_reachable_of_run redisWorks worldInUse rejectedThenCancelled
    (fun s => drawn walletInUse s.trace == [(2, 7), (0, 6)]) (by decide +kernel)
  have hd := beq_iff_eq.mp hr
  exact ⟨s, hd, nonce_in_exactly_one_place (v := 5) rfl (by decide) rfl hs (i := 0) (by simp [hd]),
    nonce_in_exactly_one_place (v := 5) rfl (by decide) rfl hs (i := 2) (by simp [hd])⟩

end
end Engine
