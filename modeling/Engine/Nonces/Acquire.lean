import Mathlib.Data.List.Nodup
import Engine.Model.Schedule
import Engine.Source.WalletNonce

/-! Runs of `acquireNonce` alone: no two calls return one nonce, as long as every
resync writes a count that covers what the wallet has given out. -/
namespace Engine
open Concurrent Program Function

/-- Any number of `acquireNonce` calls, each for a transaction and a wallet. -/
abbrev acquirers : Machine Calls AcquiredNonce where
  World := World
  Kind := QueueId × Wallet
  effect := World.effect
  start w k := some (acquireNonce k.1 k.2, w)

/-- How far a call of `acquireNonce` is. -/
inductive Acquiring
  | start
  /-- There was no recycled nonce. -/
  | nothingRecycled
  /-- `INCR` replied 1: the counter was not set. -/
  | unset
  | counted (transactionCount : ℕ)
  | synced
  | drew (nonce : ℤ)
deriving DecidableEq

namespace Acquiring

def next : Acquiring → (o : Op) → Except Err o.Reply → Acquiring
  | _, .zpopminRecycled _, .ok (some n) => .drew n
  | _, .zpopminRecycled _, .ok none => .nothingRecycled
  | .synced, .incrNonce _, .ok n => .drew n
  | _, .incrNonce _, .ok n => if n = 1 then .unset else .drew n
  | _, .ethGetTransactionCount _, .ok c => .counted c
  | _, .setNonce _ _, .ok _ => .synced
  | p, _, _ => p

inductive Allowed (k : Wallet) : Acquiring → Op → Prop
  | pop : Allowed k .start (.zpopminRecycled k)
  | incr : Allowed k .nothingRecycled (.incrNonce k)
  | config : Allowed k .unset .getConfig
  | count : Allowed k .unset (.ethGetTransactionCount k)
  | set (c : ℕ) : Allowed k (.counted c) (.setNonce k (c - 1))
  | incrAgain : Allowed k .synced (.incrNonce k)
  | map (n : ℤ) (q : QueueId) : Allowed k (.drew n) (.zaddNonceMap k n q)

def protocol : Protocol Calls where
  Local := Wallet × Acquiring
  next l o r := (l.1, l.2.next o r)
  allowed l := Allowed l.1 l.2
  possible _ _ := True

variable {k : Wallet}

theorem follows_updateNonceMap (q : QueueId) (n : ℤ) :
    (updateNonceMap k n q).Follows protocol (fun l _ => l = (k, .drew n)) (k, .drew n) :=
  follows_perform (.map n q) fun r _ => by cases r <;> rfl

theorem follows_sync : (syncLatestNonceFromOnchain k).Follows protocol
    (fun l r => l.1 = k ∧ (r = .ok () → l.2 = .synced)) (k, .unset) := by
  refine follows_getChain .config (fun _ _ => ?_) (fun e _ => ⟨rfl, by simp⟩)
  refine follows_await .count (fun c _ => ?_) (fun e _ => ⟨rfl, by simp⟩)
  refine follows_perform (.set c) fun r _ => ?_
  cases r with
  | ok u => exact ⟨rfl, fun _ => rfl⟩
  | error e => exact ⟨rfl, by simp⟩

theorem follows_incrementNonce : (incrementNonce k).Follows protocol
    (fun l r => l.1 = k ∧ ∀ n, r = .ok n → l.2 = .drew n) (k, .nothingRecycled) := by
  refine follows_await .incr (fun n _ => ?_) (fun e _ => ⟨rfl, by simp⟩)
  by_cases hn : n = 1
  · simp only [hn, protocol, next, ↓reduceIte]
    refine follows_sync.bind (fun l u hl => ?_) (fun l e hl => ⟨hl.1, by simp⟩)
    obtain rfl : l = (k, .synced) := Prod.ext hl.1 (hl.2 rfl)
    refine follows_perform .incrAgain fun r _ => ?_
    cases r with
    | ok n => exact ⟨rfl, fun m hm => by cases hm; rfl⟩
    | error e => exact ⟨rfl, by simp⟩
  · simp only [hn, protocol, next, ↓reduceIte]
    exact ⟨rfl, fun m hm => by cases hm; rfl⟩

theorem follows_acquireNonce (q : QueueId) : (acquireNonce q k).Follows protocol
    (fun l r => ∀ a, r = .ok a → l = (k, .drew a.nonce)) (k, .start) := by
  have hmap : ∀ n, ((updateNonceMap k n q).bind fun _ => done (⟨n, false⟩ : AcquiredNonce)).Follows protocol
      (fun l r => ∀ a, r = .ok a → l = (k, .drew a.nonce)) (k, .drew n) := fun n =>
    (follows_updateNonceMap q n).bind (fun l _ hl a ha => by cases ha; exact hl) (fun l e _ a ha => by cases ha)
  refine follows_await .pop (fun r _ => ?_) (fun e _ => by simp)
  cases r with
  | some n => exact hmap n
  | none =>
    refine follows_incrementNonce.bind (fun l n hl => ?_) (fun l e _ a ha => by cases ha)
    obtain rfl : l = (k, .drew n) := Prod.ext hl.1 (hl.2 n rfl)
    exact hmap n

end Acquiring

def acquireContract : Contract acquirers where
  toProtocol := Acquiring.protocol
  init k := (k.2, .start)
  ends l r := ∀ a, r = .ok a → l.2 = .drew a.nonce
  answers _ _ _ _ _ _ := trivial
  starts w k p w' h := by
    cases Option.some.inj h
    exact (Acquiring.follows_acquireNonce k.1).mono fun l r hl a ha => by rw [hl a ha]

/-- The event sets the counter. -/
def resyncs : Event Calls → Bool
  | ⟨_, .setNonce _ _, _, .ok _⟩ => true
  | _ => false

/-- Thread `i` has resynced the counter. -/
def resynced (i : ℕ) (tr : List (Event Calls)) : Bool := tr.any fun e => e.thread == i && resyncs e

/-- What an event draws for a wallet: a popped nonce, or what `INCR` replied, unless
it replied 1 to a thread that did not resync. -/
def draws (k : Wallet) (tr : List (Event Calls)) : Event Calls → Option ℤ
  | ⟨_, .zpopminRecycled k', _, .ok n⟩ => if k' = k then n else none
  | ⟨i, .incrNonce k', _, .ok n⟩ => if k' = k ∧ (n ≠ 1 ∨ resynced i tr = true) then some n else none
  | _ => none

/-- The nonces drawn for a wallet, with the threads that drew them. -/
def drawn (k : Wallet) : List (Event Calls) → List (ℕ × ℤ)
  | [] => []
  | e :: tr => ((draws k tr e).map fun n => (e.thread, n)).toList ++ drawn k tr

theorem mem_drawn_cons {k : Wallet} {e : Event Calls} {tr : List (Event Calls)} {x : ℕ × ℤ} :
    x ∈ drawn k (e :: tr) ↔ (draws k tr e = some x.2 ∧ e.thread = x.1) ∨ x ∈ drawn k tr := by
  simp only [drawn, List.mem_append, Option.mem_toList, Option.map_eq_some_iff]
  refine or_congr_left ⟨?_, fun h => ⟨x.2, h.1, Prod.ext h.2 rfl⟩⟩
  rintro ⟨n, hn, rfl⟩
  exact ⟨hn, rfl⟩

theorem resynced_cons {i : ℕ} {e : Event Calls} {tr : List (Event Calls)} :
    resynced i (e :: tr) = (e.thread == i && resyncs e || resynced i tr) := by
  unfold resynced
  rw [List.any_cons]

/-- Every resync of `k` writes at least every nonce drawn so far and every recycled one. -/
def coveringResyncs (k : Wallet) : Guard acquirers where
  start _ _ := true
  call s _ o _ :=
    match o with
    | .setNonce k' v => decide (k' = k →
        (∀ x ∈ drawn k s.trace, x.2 ≤ v) ∧ ∀ n ∈ (s.world.recycled k).elems, n ≤ v)
    | _ => true

section
variable {k : Wallet} {G : Guard acquirers} {s s' : State acquirers} {w : World}

/-- What the phase of a call says about the trace. -/
structure AcquireTraced (tr : List (Event Calls)) (i : ℕ) (l : Wallet × Acquiring) : Prop where
  unsynced : l.2 = .start ∨ l.2 = .nothingRecycled → resynced i tr = false
  synced : l.2 = .synced → resynced i tr = true
  drew : ∀ n, l.2 = .drew n → (i, n) ∈ drawn l.1 tr

theorem AcquireTraced.cons_of_ne {tr : List (Event Calls)} {i : ℕ} {l : Wallet × Acquiring}
    (h : AcquireTraced tr i l) {e : Event Calls} (he : e.thread ≠ i) : AcquireTraced (e :: tr) i l := by
  have hr : resynced i (e :: tr) = resynced i tr := by simp [resynced_cons, he]
  exact ⟨fun hl => hr ▸ h.unsynced hl, fun hl => hr ▸ h.synced hl,
    fun n hn => mem_drawn_cons.mpr (Or.inr (h.drew n hn))⟩

/-- A call of the thread itself. -/
theorem AcquireTraced.next {tr : List (Event Calls)} {i : ℕ} {l : Wallet × Acquiring}
    (h : AcquireTraced tr i l) {o : Op} (ho : Acquiring.Allowed l.1 l.2 o) (a : Except Err o.Choice)
    (r : Except Err o.Reply) : AcquireTraced (⟨i, o, a, r⟩ :: tr) i (l.1, l.2.next o r) := by
  obtain ⟨k, p⟩ := l
  cases r with
  | error e =>
    have hn : p.next o (.error e) = p := by cases ho <;> rfl
    have hr : resynced i (⟨i, o, a, .error e⟩ :: tr) = resynced i tr := by
      cases ho <;> simp [resynced_cons, resyncs]
    rw [hn]
    exact ⟨fun hl => hr ▸ h.unsynced hl, fun hl => hr ▸ h.synced hl,
      fun n hn => mem_drawn_cons.mpr (Or.inr (h.drew n hn))⟩
  | ok r =>
    cases ho with
    | pop =>
      have hu := h.unsynced (Or.inl rfl)
      cases r with
      | none =>
        refine ⟨fun _ => ?_, by simp [Acquiring.next], by simp [Acquiring.next]⟩
        simpa [resynced_cons, resyncs] using hu
      | some n =>
        refine ⟨by simp [Acquiring.next], by simp [Acquiring.next], fun m hm => ?_⟩
        cases hm
        exact mem_drawn_cons.mpr (Or.inl ⟨by simp [draws], rfl⟩)
    | incr =>
      have hu := h.unsynced (Or.inr rfl)
      by_cases hn : r = 1
      · subst hn
        exact ⟨by simp [Acquiring.next], by simp [Acquiring.next], by simp [Acquiring.next]⟩
      · refine ⟨by simp [Acquiring.next, hn], by simp [Acquiring.next, hn], fun m hm => ?_⟩
        simp only [Acquiring.next, hn, ↓reduceIte, Acquiring.drew.injEq] at hm
        subst hm
        exact mem_drawn_cons.mpr (Or.inl ⟨by simp [draws, hn], rfl⟩)
    | incrAgain =>
      have hs := h.synced rfl
      refine ⟨by simp [Acquiring.next], by simp [Acquiring.next], fun m hm => ?_⟩
      cases hm
      exact mem_drawn_cons.mpr (Or.inl ⟨by simp [draws, hs], rfl⟩)
    | config => exact ⟨by simp [Acquiring.next], by simp [Acquiring.next], by simp [Acquiring.next]⟩
    | count => exact ⟨by simp [Acquiring.next], by simp [Acquiring.next], by simp [Acquiring.next]⟩
    | set c => exact ⟨by simp [Acquiring.next], fun _ => by simp [resynced_cons, resyncs], by simp [Acquiring.next]⟩
    | map n q =>
      exact ⟨by simp [Acquiring.next], by simp [Acquiring.next],
        fun m hm => mem_drawn_cons.mpr (Or.inr (h.drew m hm))⟩

theorem acquireTraced (h : Reachable G (State.initial w) s) :
    ∀ i l, s.localOf acquireContract i = some l → AcquireTraced s.trace i l := by
  refine h.invariant acquireContract
    (fun s => ∀ i l, s.localOf acquireContract i = some l → AcquireTraced s.trace i l)
    (by simp [State.initial, State.localOf]) ?_ ?_
  · intro s s' n kind hc ih st i l hl
    rw [st.traced]
    by_cases hi : i = n
    · subst hi
      cases st.self ▸ hl
      have hr : resynced i s.trace = false :=
        List.any_eq_false.mpr fun e he => by simp [st.silent e he]
      exact ⟨fun _ => hr, by rintro ⟨⟩, by rintro _ ⟨⟩⟩
    · exact ih i l (st.others i hi ▸ hl)
  · intro s s' i l o a r hc ih st j l' hl
    rw [st.traced]
    by_cases hj : j = i
    · subst hj
      cases st.self ▸ hl
      exact (ih j l st.caller).next st.allowed a r
    · exact (ih j l' (st.others j hj ▸ hl)).cons_of_ne (Ne.symm hj)

/-- What one call can do to the nonces of a wallet. -/
inductive NonceStep (k : Wallet) (s s' : State acquirers) (i : ℕ) : Prop
  | idle (hc : s'.world.nonce k = s.world.nonce k) (hr : s'.world.recycled k = s.world.recycled k)
      (hd : drawn k s'.trace = drawn k s.trace)
  | pop (n : ℤ) (hn : (s.world.recycled k).popMin.1 = some n) (hc : s'.world.nonce k = s.world.nonce k)
      (hr : s'.world.recycled k = (s.world.recycled k).popMin.2)
      (hd : drawn k s'.trace = (i, n) :: drawn k s.trace)
  | incr (n : ℤ) (hn : n = (s.world.nonce k).getD 0 + 1) (hc : s'.world.nonce k = some n)
      (hr : s'.world.recycled k = s.world.recycled k)
      (hd : drawn k s'.trace = drawn k s.trace ∨ drawn k s'.trace = (i, n) :: drawn k s.trace)
  | resync (v : ℤ) (hv : G.call s i (.setNonce k v) (.ok ()) = true) (hc : s'.world.nonce k = some v)
      (hr : s'.world.recycled k = s.world.recycled k) (hd : drawn k s'.trace = drawn k s.trace)

theorem drawn_cons_of_none {k : Wallet} {e : Event Calls} {tr : List (Event Calls)}
    (h : draws k tr e = none) : drawn k (e :: tr) = drawn k tr := by simp [drawn, h]

theorem drawn_cons_of_some {k : Wallet} {e : Event Calls} {tr : List (Event Calls)} {n : ℤ}
    (h : draws k tr e = some n) : drawn k (e :: tr) = (e.thread, n) :: drawn k tr := by simp [drawn, h]

/-- A resync or an `INCR` of another wallet. -/
theorem nonceStep_of_ne {k' : Wallet} (hk : k' ≠ k) {i : ℕ} {v : Option ℤ}
    (hw : { s.world with nonce := update s.world.nonce k' v } = s'.world)
    (hd : drawn k s'.trace = drawn k s.trace) : NonceStep (G := G) k s s' i :=
  .idle (by rw [← hw]; exact update_of_ne hk.symm _ _) (by rw [← hw]) hd

private theorem nonceStep_incr {k' : Wallet} {i : ℕ} {a : Except Err Unit} {x : ℤ}
    (hx : s.world.apply (.incrNonce k') () = some (x, s'.world))
    (htr : s'.trace = ⟨i, .incrNonce k', a, .ok x⟩ :: s.trace) : NonceStep (G := G) k s s' i := by
  obtain ⟨hx, hw⟩ := Prod.mk.inj (Option.some.inj hx)
  by_cases hk : k' = k
  · subst hk
    refine .incr x hx.symm (by rw [← hw, ← hx]; exact update_self _ _ _) (by rw [← hw]) ?_
    cases hd : draws k' s.trace ⟨i, .incrNonce k', a, .ok x⟩ with
    | none => exact Or.inl (htr ▸ drawn_cons_of_none hd)
    | some n =>
      have hn : x = n := by
        simp only [draws, Option.ite_none_right_eq_some] at hd
        exact Option.some.inj hd.2
      exact Or.inr (htr ▸ drawn_cons_of_some (hn ▸ hd))
  · exact nonceStep_of_ne hk hw (htr ▸ drawn_cons_of_none (by simp [draws, hk]))

theorem nonceStep {i : ℕ} {l : Wallet × Acquiring} {o : Op} {a : Except Err o.Choice}
    {r : Except Err o.Reply} (st : Stepped acquireContract G s s' i l o a r) (k : Wallet) :
    NonceStep (G := G) k s s' i := by
  have ho : Acquiring.Allowed l.1 l.2 o := st.allowed
  have htr := st.traced
  obtain ⟨k', p⟩ := l
  obtain ⟨e, rfl, hw, -⟩ | ⟨c, x, rfl, rfl, -, hx⟩ := World.effect_cases st.performed
  · exact .idle (by rw [hw]) (by rw [hw]) (htr ▸ drawn_cons_of_none (by cases ho <;> rfl))
  cases ho with
  | pop =>
    obtain ⟨hx, hw⟩ := Prod.mk.inj (Option.some.inj hx)
    by_cases hk : k' = k
    · subst hk
      cases hpop : (s.world.recycled k').popMin.1 with
      | none =>
        refine .idle (by rw [← hw]) ?_ (htr ▸ drawn_cons_of_none ?_)
        · rw [← hw]
          simpa using SortedSet.popMin_none hpop
        · simp [draws, ← hx, hpop]
      | some n =>
        refine .pop n hpop (by rw [← hw]) (by rw [← hw]; simp) (htr ▸ drawn_cons_of_some ?_)
        simp [draws, ← hx, hpop]
    · refine .idle (by rw [← hw]) (by rw [← hw]; simp [update_of_ne (Ne.symm hk)]) ?_
      exact htr ▸ drawn_cons_of_none (by simp [draws, hk])
  | incr => exact nonceStep_incr hx htr
  | incrAgain => exact nonceStep_incr hx htr
  | set c =>
    obtain ⟨-, hw⟩ := Prod.mk.inj (Option.some.inj hx)
    by_cases hk : k' = k
    · subst hk
      exact .resync _ st.granted (by rw [← hw]; exact update_self _ _ _) (by rw [← hw]) (htr ▸ drawn_cons_of_none rfl)
    · exact nonceStep_of_ne hk hw (htr ▸ drawn_cons_of_none rfl)
  | config =>
    obtain ⟨-, hw⟩ := Prod.mk.inj (Option.some.inj hx)
    exact .idle (by rw [hw]) (by rw [hw]) (htr ▸ drawn_cons_of_none rfl)
  | count =>
    obtain ⟨-, hw⟩ := Prod.mk.inj (Option.some.inj hx)
    exact .idle (by rw [hw]) (by rw [hw]) (htr ▸ drawn_cons_of_none rfl)
  | map n q =>
    obtain ⟨-, hw⟩ := Prod.mk.inj (Option.some.inj hx)
    exact .idle (by rw [hw]) (by rw [hw]) (htr ▸ drawn_cons_of_none rfl)

/-- Every nonce drawn or recycled is covered by the counter, and none is there twice. -/
structure Uncontested (k : Wallet) (s : State acquirers) : Prop where
  drawn_le : ∀ x ∈ drawn k s.trace, x.2 ≤ (s.world.nonce k).getD 0
  recycled_le : ∀ n ∈ s.world.recycled k, n ≤ (s.world.nonce k).getD 0
  not_recycled : ∀ x ∈ drawn k s.trace, x.2 ∉ s.world.recycled k
  nodup : ((drawn k s.trace).map Prod.snd).Nodup

theorem Uncontested.step (h : Uncontested k s) {i : ℕ} (st : NonceStep (G := coveringResyncs k) k s s' i) :
    Uncontested k s' := by
  obtain ⟨hd, hr, hnr, hn⟩ := h
  cases st with
  | idle hc' hr' hd' =>
    constructor <;> simpa only [hc', hr', hd']
  | pop n hn' hc' hr' hd' =>
    obtain ⟨hmem, hpop⟩ := SortedSet.popMin_some hn'
    have hfresh : ∀ x ∈ drawn k s.trace, x.2 ≠ n := fun x hx he => hnr x hx (he ▸ hmem)
    refine ⟨?_, ?_, ?_, ?_⟩
    · rw [hd', hc', List.forall_mem_cons]
      exact ⟨hr n hmem, hd⟩
    · rw [hc', hr']
      exact fun m hm => hr m ((hpop m).mp hm).1
    · rw [hd', hr', List.forall_mem_cons]
      exact ⟨fun hm => ((hpop n).mp hm).2 rfl, fun x hx hm => hnr x hx ((hpop x.2).mp hm).1⟩
    · rw [hd', List.map_cons, List.nodup_cons]
      refine ⟨fun hm => ?_, hn⟩
      obtain ⟨x, hx, he⟩ := List.mem_map.mp hm
      exact hfresh x hx he
  | incr n hn' hc' hr' hd' =>
    have hlt : ∀ x ∈ drawn k s.trace, x.2 < n := fun x hx => by
      have := hd x hx
      omega
    have hrlt : ∀ m ∈ s.world.recycled k, m < n := fun m hm => by
      have := hr m hm
      omega
    have hrecycled : ∀ m ∈ s'.world.recycled k, m ≤ (s'.world.nonce k).getD 0 := by
      rw [hc', hr']
      exact fun m hm => (hrlt m hm).le
    rcases hd' with hd' | hd'
    · exact ⟨by rw [hd', hc']; exact fun x hx => (hlt x hx).le, hrecycled, by rwa [hd', hr'], by rwa [hd']⟩
    · refine ⟨?_, hrecycled, ?_, ?_⟩
      · rw [hd', hc', List.forall_mem_cons]
        exact ⟨le_refl n, fun x hx => (hlt x hx).le⟩
      · rw [hd', hr', List.forall_mem_cons]
        exact ⟨fun hm => lt_irrefl n (hrlt n hm), hnr⟩
      · rw [hd', List.map_cons, List.nodup_cons]
        refine ⟨fun hm => ?_, hn⟩
        obtain ⟨x, hx, he⟩ := List.mem_map.mp hm
        exact ne_of_lt (hlt x hx) he
  | resync v hv hc' hr' hd' =>
    simp only [coveringResyncs, decide_eq_true_eq, forall_const] at hv
    exact ⟨by rw [hd', hc']; exact hv.1, by rw [hr', hc']; exact hv.2, by rwa [hd', hr'], by rwa [hd']⟩

theorem uncontested (hw : ∀ n ∈ w.recycled k, n ≤ (w.nonce k).getD 0)
    (h : Reachable (coveringResyncs k) (State.initial w) s) : Uncontested k s := by
  refine h.invariant acquireContract (Uncontested k) ?_ ?_ ?_
  · exact ⟨by simp [State.initial, drawn], hw, by simp [State.initial, drawn], by simp [State.initial, drawn]⟩
  · intro s s' n kind hc ih st
    obtain ⟨p, hp⟩ := st.started
    obtain ⟨-, hw⟩ := Prod.mk.inj (Option.some.inj hp)
    obtain ⟨h1, h2, h3, h4⟩ := ih
    constructor <;> simpa only [st.traced, ← hw]
  · intro s s' i l o a r hc ih st
    exact ih.step (nonceStep st k)

private theorem after_wallet (l : Wallet × Acquiring) (i : ℕ) (tr : List (Event Calls)) :
    (acquireContract.after l i tr).1 = l.1 :=
  acquireContract.after_keeps (J := fun l' => l'.1 = l.1) rfl (fun _ _ _ h => h) i tr

/-- A call that returned has drawn what it returned. -/
theorem mem_drawn_of_returned (h : Reachable G (State.initial w) s) {i : ℕ} {q : QueueId}
    {a : AcquiredNonce} (hi : s.returned i = some ((q, k), a)) : (i, a.nonce) ∈ drawn k s.trace := by
  have hc := h.conforms acquireContract
  obtain ⟨⟨kind, p⟩, ht, hp⟩ := Option.bind_eq_some_iff.mp hi
  obtain ⟨a', ha, he⟩ := Option.map_eq_some_iff.mp hp
  obtain rfl := result?_eq_some.mp ha
  cases he
  have htraced := acquireTraced h i _ (localOf_eq acquireContract ht)
  have hdrew := htraced.drew a.nonce (hc.follows i (q, k) _ ht a rfl)
  have hk : (acquireContract.after (acquireContract.init (q, k)) i s.trace).1 = k := after_wallet _ _ _
  rwa [hk] at hdrew

/-- Two calls of `acquireNonce` for one wallet never return the same nonce. -/
theorem acquireNonce_unique (hw : ∀ n ∈ w.recycled k, n ≤ (w.nonce k).getD 0)
    (h : Reachable (coveringResyncs k) (State.initial w) s) {i j : ℕ} (hij : i ≠ j) {q q' : QueueId}
    {a b : AcquiredNonce} (hi : s.returned i = some ((q, k), a)) (hj : s.returned j = some ((q', k), b)) :
    a.nonce ≠ b.nonce := by
  intro hab
  have hnodup := (uncontested hw h).nodup
  have heq := List.inj_on_of_nodup_map hnodup (mem_drawn_of_returned h hi) (mem_drawn_of_returned h hj) hab
  exact hij (Prod.mk.inj heq).1

end

section
/-- The counts that the RPC returns for a wallet never go down. -/
def risingCounts : Guard acquirers where
  start _ _ := true
  call s _ o a :=
    match o, a with
    | .ethGetTransactionCount k, .ok c => s.trace.all fun
      | ⟨_, .ethGetTransactionCount k', _, .ok c'⟩ => decide (k' = k → c' ≤ c)
      | _ => true
    | _, _ => true

/-- Two calls in a row for a wallet that has sent nothing yet: both resync, and both
return nonce 0, since the first leaves the counter at 0. -/
def resyncTwice (k : Wallet) : List (Move acquirers) :=
  .start ("first", k) :: proceeds 0 7 ++ .start ("second", k) :: proceeds 1 7

theorem acquireNonce_not_unique : ¬ ∀ (w : World) (k : Wallet) (s : State acquirers) (i j : ℕ)
    (q q' : QueueId) (a b : AcquiredNonce), (∀ n ∈ w.recycled k, n ≤ (w.nonce k).getD 0) →
    Reachable risingCounts (State.initial w) s → i ≠ j → s.returned i = some ((q, k), a) →
    s.returned j = some ((q', k), b) → a.nonce ≠ b.nonce := by
  intro hgeneral
  obtain ⟨s, hs, hr⟩ := exists_reachable_of_run risingCounts World.empty (resyncTwice ⟨1, 0⟩)
    (fun s => s.returned 0 == some (("first", ⟨1, 0⟩), ⟨0, false⟩) &&
      s.returned 1 == some (("second", ⟨1, 0⟩), ⟨0, false⟩)) (by decide +kernel)
  simp only [Bool.and_eq_true, beq_iff_eq] at hr
  exact hgeneral World.empty ⟨1, 0⟩ s 0 1 _ _ _ _ (by simp [World.empty]) hs (by decide) hr.1 hr.2 rfl

/-- A wallet with three transactions on chain, first used by two calls at once. -/
def firstUse (k : Wallet) : List (Move acquirers) :=
  [.start ("first", k), .start ("second", k)] ++
    answered 0 [usual, usual, usual, withCount 3, usual] ++ answered 0 [usual, usual] ++ proceeds 1 3

theorem acquireNonce_unique_firstUse : ∃ s : State acquirers,
    s.returned 0 = some (("first", ⟨1, 0⟩), ⟨3, false⟩) ∧
    s.returned 1 = some (("second", ⟨1, 0⟩), ⟨4, false⟩) ∧ (3 : ℤ) ≠ 4 := by
  obtain ⟨s, hs, hr⟩ := exists_reachable_of_run (coveringResyncs ⟨1, 0⟩) World.empty (firstUse ⟨1, 0⟩)
    (fun s => s.returned 0 == some (("first", ⟨1, 0⟩), ⟨3, false⟩) &&
      s.returned 1 == some (("second", ⟨1, 0⟩), ⟨4, false⟩)) (by decide +kernel)
  simp only [Bool.and_eq_true, beq_iff_eq] at hr
  exact ⟨s, hr.1, hr.2, acquireNonce_unique (by simp [World.empty]) hs (by decide) hr.1 hr.2⟩

end
end Engine
