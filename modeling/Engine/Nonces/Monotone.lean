import Engine.Model.Schedule
import Engine.Nonces.Keyspace
import Engine.Source.Calls

/-! The conditional resync beside `acquireNonce`: the last used nonce of a wallet that has one only goes up. -/
namespace Engine.Nonces
open Concurrent Program

/-- No resync is started but the conditional one. -/
def onlyIfHigher : Guard allocator where
  start _
    | .syncLatestNonceFromOnchain _ => false
    | _ => true
  call _ _ _ _ := true

/-- What `INCR` replied on the last used nonce of `k`. -/
def incremented (k : Wallet) : Event Calls → Option ℤ
  | ⟨_, .incrNonce k', _, .ok n⟩ => if k' = k then some n else none
  | _ => none

/-- The count that the script was carried out with on the last used nonce of `k`. -/
def raisedTo (k : Wallet) : Event Calls → Option ℤ
  | ⟨_, .evalNonceIfHigher k' c, _, .ok _⟩ => if k' = k then some c else none
  | _ => none

/-- The replies to `INCR`, the last one first. -/
def increments (k : Wallet) (tr : List (Event Calls)) : List ℤ := tr.filterMap (incremented k)

/-! ### Who sets the counter -/

/-- The wallet that the program may set the counter of: it was told to, or its `INCR` replied 1. -/
def setProtocol : Protocol Calls where
  Local := Option Wallet
  next
    | l, .incrNonce k, .ok n => if n = 1 then some k else l
    | l, _, _ => l
  allowed l o := ∀ k n, o = .setNonce k n → l = some k
  possible _ _ := True

section
variable {k : Wallet} {l : Option Wallet}

/-- A call that neither counts nor sets. -/
def isPlain : Op → Bool
  | .incrNonce _ => false
  | .setNonce _ _ => false
  | _ => true

theorem ignores_plain {o : Op} (h : isPlain o = true) : setProtocol.Ignores l o := by
  constructor
  · rintro k n rfl
    cases h
  · intro r _
    cases o with
    | incrNonce k => cases h
    | _ => rfl

theorem plain_await {o : Op} (h : isPlain o = true) : (await o).Only fun o : Op => isPlain o = true := only_perform h

instance : HasChainCalls fun o : Op => isPlain o = true where
  asksChain o ho := by cases o <;> first | rfl | cases ho

/-- A program without such calls, and what comes after it. -/
theorem follows_plain {α β : Type} {p : Prog α} {f : α → Prog β} (h : p.Only fun o : Op => isPlain o = true)
    (hf : ∀ a, (f a).Follows setProtocol (fun _ _ => True) l) :
    (p.bind f).Follows setProtocol (fun _ _ => True) l :=
  h.follows_bind (fun _ ho => ignores_plain ho) hf fun _ => trivial

theorem follows_last {α : Type} {p : Prog α} (h : p.Only fun o : Op => isPlain o = true) :
    p.Follows setProtocol (fun _ _ => True) l :=
  h.follows_last (fun _ ho => ignores_plain ho) fun _ => trivial

theorem follows_syncLatestNonceFromOnchain :
    (syncLatestNonceFromOnchain k).Follows setProtocol (fun _ _ => True) (some k) := by
  refine follows_plain (only_getChain k.chainId) fun _ => follows_plain (plain_await rfl) fun c => ?_
  refine follows_perform ?_ fun _ _ => trivial
  intro k' n h
  cases h
  rfl

theorem follows_incr {α : Type} {f : ℤ → Prog α}
    (hf : ∀ n, (f n).Follows setProtocol (fun _ _ => True) (if n = 1 then some k else l)) :
    ((await (.incrNonce k)).bind f).Follows setProtocol (fun _ _ => True) l := by
  refine follows_await ?_ (fun n _ => hf n) fun _ _ => trivial
  intro k' n h
  cases h

theorem follows_acquireNonce (q : QueueId) :
    (acquireNonce q k).Follows setProtocol (fun _ _ => True) none := by
  have hmap : ∀ (n : ℤ) (l : Option Wallet), ((updateNonceMap k n q).bind fun _ =>
      (done (⟨n, false⟩ : AcquiredNonce) : Prog AcquiredNonce)).Follows setProtocol (fun _ _ => True) l :=
    fun n l => follows_plain (plain_await rfl) fun _ => trivial
  refine follows_plain (plain_await rfl) fun recycled => ?_
  cases recycled with
  | some n => exact hmap n none
  | none =>
    have hincr : (incrementNonce k).Follows setProtocol (fun _ _ => True) none := by
      refine follows_incr fun n => ?_
      by_cases hn : n = 1
      · simp only [hn, if_true]
        refine follows_syncLatestNonceFromOnchain.bind (fun l _ _ => ?_) fun _ _ _ => trivial
        refine follows_perform ?_ fun _ _ => trivial
        intro k' m h
        cases h
      · simp only [hn, if_false]
        exact trivial
    exact hincr.bind (fun l n _ => hmap n l) fun _ _ _ => trivial

def setContract : Contract allocator where
  toProtocol := setProtocol
  init
    | .syncLatestNonceFromOnchain k => some k
    | _ => none
  ends _ _ := True
  answers _ _ _ _ _ _ := trivial
  starts w kind p w' h := by
    cases h
    cases kind with
    | acquireNonce q k => exact (follows_acquireNonce q).bind (fun _ _ _ => trivial) fun _ _ _ => trivial
    | recycleNonce k n =>
      cases n with
      | none => trivial
      | some n => exact follows_last (plain_await rfl)
    | addSentNonce k n => exact follows_last (plain_await rfl)
    | removeSentNonce k n => exact follows_plain (plain_await rfl) fun _ => trivial
    | syncLatestNonceFromOnchain k => exact follows_syncLatestNonceFromOnchain
    | syncLatestNonceFromOnchainIfHigher k =>
      have hsync : (syncLatestNonceFromOnchainIfHigher k).Only fun o : Op => isPlain o = true :=
        only_syncLatestNonceFromOnchainIfHigher (fun _ _ => rfl) k
      exact follows_plain hsync fun _ => trivial

end
/-! ### What a call does to the counter -/

section
variable {s s' : Keyspace} {k k' : Wallet} {n m c : ℤ} {i : ℕ}

/-- The counter after a call, and what the trace shows of the call. -/
inductive Counts (k : Wallet) (n : ℤ) (e : Event Calls) : ℤ → Prop
  | still (hi : incremented k e = none) (hr : raisedTo k e = none) : Counts k n e n
  | incr (hi : incremented k e = some (n + 1)) (hr : raisedTo k e = none) : Counts k n e (n + 1)
  | script (c : ℤ) (hi : incremented k e = none) (hr : raisedTo k e = some c) : Counts k n e (max (c - 1) n)

theorem respond_keeps {α β : Type} {read : Except Err α} {f : α → β × Keyspace} {key : String}
    (h : ∀ a, (f a).2.readString key = s.readString key) : (s.respond read f).2.readString key = s.readString key := by
  cases read with
  | ok a => exact h a
  | error e => rfl

private theorem lastUsedNonceKey_ne (h : k' ≠ k) : lastUsedNonceKey k ≠ lastUsedNonceKey k' := by
  intro hkey
  have hkind : KeyKind.lastUsed.key k = KeyKind.lastUsed.key k' := hkey
  exact h (KeyKind.key_inj.mp hkind).2.symm

private theorem counts_apply {o : Op} {choice : o.Choice} {x : Except Err o.Reply × Keyspace}
    (hn : s.readString (lastUsedNonceKey k) = .ok (some n)) (hset : ∀ m, o ≠ .setNonce k m)
    (hx : s.apply o choice = some x) :
    ∃ n', x.2.readString (lastUsedNonceKey k) = .ok (some n') ∧ Counts k n ⟨i, o, .ok choice, x.1⟩ n' := by
  have hzset : ∀ (k' : Wallet) (z : SortedSet ℤ), (s.putZset (recycledNoncesKey k') z).readString (lastUsedNonceKey k) =
      s.readString (lastUsedNonceKey k) := fun k' z =>
    Keyspace.readString_congr (Keyspace.lookup_putZset (KeyKind.key_ne .lastUsed .recycled (by decide)) z)
  have hsets : ∀ (k' : Wallet) (z : Finset ℤ), (s.putSet (sentNoncesKey k') z).readString (lastUsedNonceKey k) =
      s.readString (lastUsedNonceKey k) := fun k' z =>
    Keyspace.readString_congr (Keyspace.lookup_putSet (KeyKind.key_ne .lastUsed .sent (by decide)) z)
  have hother : ∀ (k' : Wallet) (m : ℤ), k' ≠ k →
      (s.setString (lastUsedNonceKey k') m).readString (lastUsedNonceKey k) =
      s.readString (lastUsedNonceKey k) := fun k' m hk =>
    Keyspace.readString_congr (Keyspace.lookup_setString (lastUsedNonceKey_ne hk) m)
  cases o with
  | zpopminRecycled k' =>
    cases hx
    exact ⟨n, (respond_keeps fun z => hzset k' _).trans hn, .still rfl rfl⟩
  | zaddRecycled k' m =>
    cases hx
    exact ⟨n, (respond_keeps fun z => hzset k' _).trans hn, .still rfl rfl⟩
  | incrNonce k' =>
    cases hx
    by_cases hk : k' = k
    · subst hk
      rw [hn]
      exact ⟨n + 1, Keyspace.readString_setString _, .incr (if_pos rfl) rfl⟩
    · refine ⟨n, (respond_keeps fun m => hother k' _ hk).trans hn, .still ?_ rfl⟩
      cases s.readString (lastUsedNonceKey k') with
      | ok m => exact if_neg hk
      | error e => rfl
  | setNonce k' m =>
    cases hx
    have hk : k' ≠ k := by
      rintro rfl
      exact hset m rfl
    exact ⟨n, (hother k' m hk).trans hn, .still rfl rfl⟩
  | evalNonceIfHigher k' c =>
    cases hx
    by_cases hk : k' = k
    · subst hk
      rw [hn]
      exact ⟨max (c - 1) n, Keyspace.readString_setString _, .script c rfl (if_pos rfl)⟩
    · refine ⟨n, (respond_keeps fun m => hother k' _ hk).trans hn, .still rfl ?_⟩
      cases s.readString (lastUsedNonceKey k') with
      | ok m => exact if_neg hk
      | error e => rfl
  | saddSent k' m =>
    cases hx
    exact ⟨n, (respond_keeps fun z => hsets k' _).trans hn, .still rfl rfl⟩
  | sremSent k' m =>
    cases hx
    exact ⟨n, (respond_keeps fun z => hsets k' _).trans hn, .still rfl rfl⟩
  | sismemberSent k' m =>
    cases hx
    refine ⟨n, Eq.trans (respond_keeps ?_) hn, .still rfl rfl⟩
    exact fun _ => rfl
  | getNonce k' =>
    cases hx
    refine ⟨n, Eq.trans (respond_keeps ?_) hn, .still rfl rfl⟩
    exact fun _ => rfl
  | zaddNonceMap k' m q =>
    cases hx
    have hmap : ∀ z, Keyspace.readString (s.insert (nonceMapKey k') (.nonceMap z)) (lastUsedNonceKey k) =
        s.readString (lastUsedNonceKey k) := fun z =>
      Keyspace.readString_congr (AList.lookup_insert_ne (KeyKind.key_ne .lastUsed .nonceMap (by decide)))
    exact ⟨n, (respond_keeps fun z => hmap _).trans hn, .still rfl rfl⟩
  | getConfig =>
    cases hx
    exact ⟨n, hn, .still rfl rfl⟩
  | ethGetTransactionCount k' =>
    cases hx
    exact ⟨n, hn, .still rfl rfl⟩
  | _ => cases hx

theorem counts_effect {o : Op} {a : Except Err o.Choice} {r : Except Err o.Reply}
    (hn : s.readString (lastUsedNonceKey k) = .ok (some n)) (hset : ∀ m, o ≠ .setNonce k m)
    (he : s.effect o a = some (r, s')) :
    ∃ n', s'.readString (lastUsedNonceKey k) = .ok (some n') ∧ Counts k n ⟨i, o, a, r⟩ n' := by
  cases a with
  | ok choice => exact counts_apply hn hset he
  | error e =>
    simp only [Keyspace.effect] at he
    split at he
    · cases he
    · cases he
      exact ⟨n, hn, .still (by cases o <;> rfl) (by cases o <;> rfl)⟩

/-- What a run shows on the counter: it is at `n`, and it was at `v` at first. -/
structure Ordered (k : Wallet) (v n : ℤ) (tr : List (Event Calls)) : Prop where
  started : v ≤ n
  counted : ∀ m ∈ increments k tr, v < m ∧ m ≤ n
  raised : ∀ e ∈ tr, ∀ c, raisedTo k e = some c → c - 1 ≤ n
  increasing : (increments k tr).Pairwise (· > ·)
  above : ∀ later e earlier c, tr = later ++ e :: earlier → raisedTo k e = some c →
    ∀ m ∈ increments k later, max c (v + 1) ≤ m

theorem Counts.le {e : Event Calls} (h : Counts k n e m) : n ≤ m := by
  cases h with
  | still => exact Int.le_refl n
  | incr => omega
  | script c => exact Int.le_max_right _ _

theorem increments_cons (e : Event Calls) (tr : List (Event Calls)) :
    increments k (e :: tr) = (incremented k e).toList ++ increments k tr := by
  unfold increments
  rw [List.filterMap_cons]
  cases incremented k e <;> rfl

theorem Ordered.step {v : ℤ} {e : Event Calls} {tr : List (Event Calls)} (h : Ordered k v n tr) (he : Counts k n e m) :
    Ordered k v m (e :: tr) := by
  have hle := he.le
  have hnew : ∀ x, incremented k e = some x → x = n + 1 ∧ m = n + 1 := by
    intro x hx
    cases he with
    | still hi => rw [hi] at hx; cases hx
    | incr hi =>
      rw [hi] at hx
      cases hx
      exact ⟨rfl, rfl⟩
    | script c hi => rw [hi] at hx; cases hx
  have hmem : ∀ x l, x ∈ increments k (e :: l) → incremented k e = some x ∨ x ∈ increments k l := by
    intro x l hx
    rw [increments_cons, List.mem_append, Option.mem_toList] at hx
    exact hx
  refine ⟨le_trans h.started hle, ?_, ?_, ?_, ?_⟩
  · intro x hx
    have hstarted := h.started
    rcases hmem x tr hx with hx | hx
    · obtain ⟨rfl, rfl⟩ := hnew x hx
      omega
    · have hcounted := h.counted x hx
      omega
  · intro e' he' c hc
    rcases List.mem_cons.mp he' with rfl | he'
    · cases he with
      | still _ hr => rw [hr] at hc; cases hc
      | incr _ hr => rw [hr] at hc; cases hc
      | script c' _ hr =>
        rw [hr] at hc
        cases hc
        exact Int.le_max_left _ _
    · exact le_trans (h.raised e' he' c hc) hle
  · rw [increments_cons]
    cases hx : incremented k e with
    | none => exact h.increasing
    | some x =>
      obtain ⟨rfl, -⟩ := hnew x hx
      refine List.pairwise_cons.mpr ⟨fun y hy => ?_, h.increasing⟩
      have hy := (h.counted y hy).2
      omega
  · intro later e' earlier c hsplit hc x hx
    cases later with
    | nil => cases hx
    | cons e'' later =>
      obtain ⟨rfl, htr⟩ := List.cons.inj hsplit
      rcases hmem x later hx with hx | hx
      · obtain ⟨rfl, -⟩ := hnew x hx
        have hstarted := h.started
        have hraised := h.raised e' (htr ▸ List.mem_append_right _ List.mem_cons_self) c hc
        omega
      · exact h.above later e' earlier c htr hc x hx

end
/-! ### Runs -/

section
variable {k : Wallet} {v : ℤ} {s s' : State allocator}

/-- The counter of `k` is set and in order, and no program is about to set it. -/
structure Steady (k : Wallet) (v : ℤ) (s : State allocator) : Prop where
  ordered : ∃ n, s.world.readString (lastUsedNonceKey k) = .ok (some n) ∧ Ordered k v n s.trace
  unset : ∀ i, s.localOf setContract i ≠ some (some k)

theorem Steady.start {j : ℕ} {kind : Kind} (h : Steady k v s) (st : Started setContract onlyIfHigher s s' j kind) :
    Steady k v s' := by
  have hworld : s'.world = s.world := by
    obtain ⟨p, hp⟩ := st.started
    exact (congrArg Prod.snd (Option.some.inj hp)).symm
  refine ⟨?_, fun i hi => ?_⟩
  · rw [hworld, st.traced]
    exact h.ordered
  · by_cases hij : i = j
    · subst hij
      have hinit := Option.some.inj (st.self.symm.trans hi)
      have hgranted := st.granted
      cases kind with
      | syncLatestNonceFromOnchain k' => cases hgranted
      | _ => cases hinit
    · exact h.unset i ((st.others i hij).symm.trans hi)

/-- The step of a call; the counter does not go down. -/
theorem Steady.call {i : ℕ} {l : Option Wallet} {o : Op} {a : Except Err o.Choice} {r : Except Err o.Reply}
    (h : Steady k v s) (hv : 1 ≤ v) (st : Stepped setContract onlyIfHigher s s' i l o a r) : Steady k v s' ∧
      ∀ n, s.world.readString (lastUsedNonceKey k) = .ok (some n) →
        ∃ n', s'.world.readString (lastUsedNonceKey k) = .ok (some n') ∧ n ≤ n' := by
  obtain ⟨n, hn, hordered⟩ := h.ordered
  have hl : l ≠ some k := by
    rintro rfl
    exact h.unset i st.caller
  have hset : ∀ m, o ≠ .setNonce k m := fun m ho => hl (st.allowed k m ho)
  obtain ⟨n', hn', hcounts⟩ := counts_effect (i := i) hn hset st.performed
  have hordered' : Ordered k v n' s'.trace := st.traced ▸ hordered.step hcounts
  refine ⟨⟨⟨n', hn', hordered'⟩, fun j hj => ?_⟩, fun m hm => ⟨n', hn', ?_⟩⟩
  · by_cases hji : j = i
    · subst hji
      have hnext : setProtocol.next l o r = some k := Option.some.inj (st.self.symm.trans hj)
      cases o with
      | incrNonce k' =>
        cases r with
        | error e => exact hl hnext
        | ok m =>
          by_cases hm : m = 1
          · obtain rfl : k' = k := Option.some.inj ((if_pos hm).symm.trans hnext)
            have hmem : m ∈ increments k' s'.trace := by
              rw [st.traced, increments_cons]
              exact List.mem_append_left _ (Option.mem_toList.mpr (if_pos rfl))
            exact absurd (lt_of_lt_of_eq (hordered'.counted m hmem).1 hm) (not_lt.mpr hv)
          · exact hl ((if_neg hm).symm.trans hnext)
      | _ => exact hl hnext
    · exact h.unset j ((st.others j hji).symm.trans hj)
  · obtain rfl := Option.some.inj (Except.ok.inj (hn.symm.trans hm))
    exact hcounts.le

end
end Engine.Nonces
