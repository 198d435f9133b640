import Mathlib.Data.List.AList
import Mathlib.Data.String.Basic
import Engine.Concurrent.Machine
import Engine.Model.Effect
import Engine.Nonces.Keys
import Engine.Source.WalletNonce
import Engine.Store.Redis

/-! The nonces in Redis, by the texts of their keys: what the calls of `walletNonce.ts` do there. -/
namespace Engine.Nonces
open Concurrent

/-- What a key holds. A number stands for its text, and a recycled nonce is its own score. -/
inductive Value
  | string (n : ℤ)
  | set (members : Finset ℤ)
  | zset (members : SortedSet ℤ)
  | nonceMap (queueIds : Redis.ZSet QueueId)

abbrev Keyspace := AList fun _ : String => Value

def wrongType : Err := Err.new "WRONGTYPE Operation against a key holding the wrong kind of value"

namespace Keyspace

def readString (s : Keyspace) (key : String) : Except Err (Option ℤ) :=
  match s.lookup key with
  | none => .ok none
  | some (.string n) => .ok (some n)
  | some _ => .error wrongType

def readSet (s : Keyspace) (key : String) : Except Err (Finset ℤ) :=
  match s.lookup key with
  | none => .ok ∅
  | some (.set members) => .ok members
  | some _ => .error wrongType

def readZset (s : Keyspace) (key : String) : Except Err (SortedSet ℤ) :=
  match s.lookup key with
  | none => .ok .empty
  | some (.zset members) => .ok members
  | some _ => .error wrongType

def readNonceMap (s : Keyspace) (key : String) : Except Err (Redis.ZSet QueueId) :=
  match s.lookup key with
  | none => .ok .empty
  | some (.nonceMap queueIds) => .ok queueIds
  | some _ => .error wrongType

def setString (s : Keyspace) (key : String) (n : ℤ) : Keyspace := s.insert key (.string n)

/-- An empty set is not kept. -/
def putSet (s : Keyspace) (key : String) (members : Finset ℤ) : Keyspace :=
  if members = ∅ then s.erase key else s.insert key (.set members)

def putZset (s : Keyspace) (key : String) (members : SortedSet ℤ) : Keyspace :=
  if members.elems = [] then s.erase key else s.insert key (.zset members)

/-- A command on a value that was read, or the error of the read. -/
def respond {α β : Type} (s : Keyspace) (read : Except Err α) (f : α → β × Keyspace) : Except Err β × Keyspace :=
  match read with
  | .ok a => (.ok (f a).1, (f a).2)
  | .error e => (.error e, s)

/-- The calls of `walletNonce.ts`, with what the outside decided about them. -/
def apply (s : Keyspace) : (o : Op) → o.Choice → Option (Except Err o.Reply × Keyspace)
  | .zpopminRecycled k, _ => some (s.respond (s.readZset (recycledNoncesKey k)) fun z =>
      (z.popMin.1, s.putZset (recycledNoncesKey k) z.popMin.2))
  | .zaddRecycled k n, _ => some (s.respond (s.readZset (recycledNoncesKey k)) fun z =>
      ((), s.putZset (recycledNoncesKey k) (z.add n)))
  | .incrNonce k, _ => some (s.respond (s.readString (lastUsedNonceKey k)) fun n =>
      (n.getD 0 + 1, s.setString (lastUsedNonceKey k) (n.getD 0 + 1)))
  | .setNonce k v, _ => some (.ok (), s.setString (lastUsedNonceKey k) v)
  | .evalNonceIfHigher k c, _ => some (s.respond (s.readString (lastUsedNonceKey k)) fun n =>
      (max (c - 1) (n.getD 0), s.setString (lastUsedNonceKey k) (max (c - 1) (n.getD 0))))
  | .saddSent k n, _ => some (s.respond (s.readSet (sentNoncesKey k)) fun members =>
      ((), s.putSet (sentNoncesKey k) (insert n members)))
  | .sremSent k n, _ => some (s.respond (s.readSet (sentNoncesKey k)) fun members =>
      (decide (n ∈ members), s.putSet (sentNoncesKey k) (members.erase n)))
  | .sismemberSent k n, _ => some (s.respond (s.readSet (sentNoncesKey k)) fun members => (decide (n ∈ members), s))
  | .getNonce k, _ => some (s.respond (s.readString (lastUsedNonceKey k)) fun n => (n, s))
  | .zaddNonceMap k n q, _ => some (s.respond (s.readNonceMap (nonceMapKey k)) fun z =>
      ((), s.insert (nonceMapKey k) (.nonceMap (Redis.ZSet.insert z n q))))
  | .getConfig, c => some (.ok c, s)
  | .ethGetTransactionCount _, c => some (.ok c, s)
  | _, _ => none

def effect (s : Keyspace) (o : Op) : Except Err o.Choice → Option (Except Err o.Reply × Keyspace)
  | .error e => if o.neverThrows then none else some (.error e, s)
  | .ok c => s.apply o c

end Keyspace

/-- Any number of allocator calls over one Redis. -/
inductive Kind
  | acquireNonce (queueId : QueueId) (k : Wallet)
  | recycleNonce (k : Wallet) (nonce : Option ℤ)
  | addSentNonce (k : Wallet) (nonce : ℤ)
  | removeSentNonce (k : Wallet) (nonce : ℤ)
  | syncLatestNonceFromOnchain (k : Wallet)
  | syncLatestNonceFromOnchainIfHigher (k : Wallet)
deriving DecidableEq

def Kind.program : Kind → Prog Unit
  | .acquireNonce queueId k => do
    let _ ← Engine.acquireNonce queueId k
    pure ()
  | .recycleNonce k nonce => Engine.recycleNonce k nonce
  | .addSentNonce k nonce => Engine.addSentNonce k nonce
  | .removeSentNonce k nonce => do
    let _ ← Engine.removeSentNonce k nonce
    pure ()
  | .syncLatestNonceFromOnchain k => Engine.syncLatestNonceFromOnchain k
  | .syncLatestNonceFromOnchainIfHigher k => do
    let _ ← Engine.syncLatestNonceFromOnchainIfHigher k
    pure ()

abbrev allocator : Machine Calls Unit where
  World := Keyspace
  Kind := Kind
  effect := Keyspace.effect
  start s k := some (k.program, s)

/-! ### Keys of four kinds -/

inductive KeyKind
  | lastUsed
  | recycled
  | sent
  | nonceMap
deriving DecidableEq

namespace KeyKind

def text : KeyKind → String
  | lastUsed => "nonce"
  | recycled => "nonce-recycled"
  | sent => "nonce-sent"
  | nonceMap => "nonce-map"

def key : KeyKind → Wallet → String
  | lastUsed, k => lastUsedNonceKey k
  | recycled, k => recycledNoncesKey k
  | sent, k => sentNoncesKey k
  | nonceMap, k => nonceMapKey k

/-- What a key of the kind holds. Redis keeps no empty sets. -/
def Holds : KeyKind → Value → Prop
  | lastUsed, .string _ => True
  | recycled, .zset members => members.elems ≠ []
  | sent, .set members => members ≠ ∅
  | nonceMap, .nonceMap _ => True
  | _, _ => False

theorem key_eq (kind : KeyKind) (k : Wallet) : kind.key k = keyOf kind.text k := by
  cases kind with
  | lastUsed => exact lastUsedNonceKey_eq k
  | recycled => exact recycledNoncesKey_eq k
  | sent => exact sentNoncesKey_eq k
  | nonceMap => exact nonceMapKey_eq k

theorem not_mem_text (kind : KeyKind) : ':' ∉ kind.text.toList := by
  cases kind <;> decide

private theorem text_inj {kind kind' : KeyKind} (h : kind.text = kind'.text) : kind = kind' := by
  revert h
  cases kind <;> cases kind' <;> decide

theorem key_inj {kind kind' : KeyKind} {k k' : Wallet} : kind.key k = kind'.key k' ↔ kind = kind' ∧ k = k' := by
  rw [key_eq, key_eq, keyOf_inj kind.not_mem_text kind'.not_mem_text]
  exact and_congr_left fun _ => ⟨text_inj, congrArg text⟩

theorem key_ne (kind kind' : KeyKind) {k k' : Wallet} (h : kind ≠ kind') : kind.key k ≠ kind'.key k' :=
  fun heq => h (key_inj.mp heq).1

end KeyKind

/-- The nonces' keys hold what they should, and no other key begins as those of the last used nonces. -/
structure WellFormed (s : Keyspace) : Prop where
  typed : ∀ kind k v, s.lookup (KeyKind.key kind k) = some v → kind.Holds v
  named : ∀ key v rest, s.lookup key = some v → key.toList = "nonce:".toList ++ rest → ∃ k, key = lastUsedNonceKey k

namespace WellFormed
variable {s : Keyspace} {kind : KeyKind} {k : Wallet} {v : Value}

theorem empty : WellFormed ∅ := by
  constructor
  · intro kind k v h
    cases h
  · intro key v rest h
    cases h

theorem erase (h : WellFormed s) (key : String) : WellFormed (s.erase key) := by
  have hlookup : ∀ key' v, (s.erase key).lookup key' = some v → s.lookup key' = some v := by
    intro key' v hv
    by_cases hkey : key' = key
    · subst hkey
      rw [AList.lookup_erase] at hv
      cases hv
    · rwa [AList.lookup_erase_ne hkey] at hv
  constructor
  · intro kind k v hv
    exact h.typed kind k v (hlookup _ _ hv)
  · intro key' v rest hv hkey
    exact h.named key' v rest (hlookup _ _ hv) hkey

theorem insert (kind : KeyKind) (h : WellFormed s) (hv : kind.Holds v) : WellFormed (s.insert (kind.key k) v) := by
  constructor
  · intro kind' k' v' hv'
    by_cases hkey : kind'.key k' = kind.key k
    · obtain ⟨rfl, rfl⟩ := KeyKind.key_inj.mp hkey
      rw [AList.lookup_insert] at hv'
      cases hv'
      exact hv
    · rw [AList.lookup_insert_ne hkey] at hv'
      exact h.typed kind' k' v' hv'
  · intro key' v' rest hv' hkey'
    by_cases hkey : key' = kind.key k
    · subst hkey
      have hcons : "nonce:".toList ++ rest = "nonce".toList ++ ':' :: rest := rfl
      rw [KeyKind.key_eq, toList_keyOf, hcons, append_cons_inj_of_not_mem kind.not_mem_text (by decide)] at hkey'
      refine ⟨k, ?_⟩
      rw [KeyKind.key_eq, String.toList_inj.mp hkey'.1, lastUsedNonceKey_eq]
    · rw [AList.lookup_insert_ne hkey] at hv'
      exact h.named key' v' rest hv' hkey'

theorem setString (h : WellFormed s) (n : ℤ) : WellFormed (s.setString (lastUsedNonceKey k) n) := by
  exact insert .lastUsed h trivial

theorem putSet (h : WellFormed s) (members : Finset ℤ) : WellFormed (s.putSet (sentNoncesKey k) members) := by
  unfold Keyspace.putSet
  split
  case isTrue => exact h.erase _
  case isFalse hne =>
    exact insert .sent h hne

theorem putZset (h : WellFormed s) (members : SortedSet ℤ) : WellFormed (s.putZset (recycledNoncesKey k) members) := by
  unfold Keyspace.putZset
  split
  case isTrue => exact h.erase _
  case isFalse hne =>
    exact insert .recycled h hne

theorem respond {α β : Type} {read : Except Err α} {f : α → β × Keyspace} (h : WellFormed s)
    (hf : ∀ a, WellFormed (f a).2) : WellFormed (s.respond read f).2 := by
  cases read with
  | ok a => exact hf a
  | error e => exact h

theorem apply {o : Op} {c : o.Choice} {x : Except Err o.Reply × Keyspace} (h : WellFormed s)
    (hx : s.apply o c = some x) : WellFormed x.2 := by
  cases o with
  | zpopminRecycled k =>
    cases hx
    exact h.respond fun z => h.putZset _
  | zaddRecycled k n =>
    cases hx
    exact h.respond fun z => h.putZset _
  | incrNonce k =>
    cases hx
    exact h.respond fun n => h.setString _
  | setNonce k n =>
    cases hx
    exact h.setString _
  | evalNonceIfHigher k c =>
    cases hx
    exact h.respond fun n => h.setString _
  | saddSent k n =>
    cases hx
    exact h.respond fun members => h.putSet _
  | sremSent k n =>
    cases hx
    exact h.respond fun members => h.putSet _
  | sismemberSent k n =>
    cases hx
    exact h.respond fun members => h
  | getNonce k =>
    cases hx
    exact h.respond fun n => h
  | zaddNonceMap k n q =>
    cases hx
    exact h.respond fun z => insert .nonceMap h trivial
  | getConfig =>
    cases hx
    exact h
  | ethGetTransactionCount k =>
    cases hx
    exact h
  | _ => cases hx

theorem effect {o : Op} {a : Except Err o.Choice} {x : Except Err o.Reply × Keyspace} (h : WellFormed s)
    (hx : s.effect o a = some x) : WellFormed x.2 := by
  cases a with
  | ok c => exact h.apply hx
  | error e =>
    simp only [Keyspace.effect] at hx
    split at hx
    · cases hx
    · cases hx
      exact h

theorem readString (h : WellFormed s) (hk : lastUsedNonceKey k ∈ s) :
    ∃ n, s.readString (lastUsedNonceKey k) = .ok (some n) := by
  obtain ⟨v, hv⟩ := Option.isSome_iff_exists.mp (AList.lookup_isSome.mpr hk)
  have hholds := h.typed .lastUsed k v hv
  unfold Keyspace.readString
  rw [hv]
  cases v with
  | string n => exact ⟨n, rfl⟩
  | _ => exact hholds.elim

theorem readSet (h : WellFormed s) (k : Wallet) : ∃ members, s.readSet (sentNoncesKey k) = .ok members := by
  unfold Keyspace.readSet
  cases hv : s.lookup (sentNoncesKey k) with
  | none => exact ⟨∅, rfl⟩
  | some v =>
    have hholds := h.typed .sent k v hv
    cases v with
    | set members => exact ⟨members, rfl⟩
    | _ => exact hholds.elim

theorem readNonceMap (h : WellFormed s) (k : Wallet) : ∃ z, s.readNonceMap (nonceMapKey k) = .ok z := by
  unfold Keyspace.readNonceMap
  cases hv : s.lookup (nonceMapKey k) with
  | none => exact ⟨.empty, rfl⟩
  | some v =>
    have hholds := h.typed .nonceMap k v hv
    cases v with
    | nonceMap z => exact ⟨z, rfl⟩
    | _ => exact hholds.elim

/-- The members of a sorted set are not those of a set. -/
theorem readSet_recycled (h : WellFormed s) (hv : s.lookup (recycledNoncesKey k) ≠ none) :
    s.readSet (recycledNoncesKey k) = .error wrongType := by
  unfold Keyspace.readSet
  cases hlookup : s.lookup (recycledNoncesKey k) with
  | none => exact absurd hlookup hv
  | some v =>
    have hholds := h.typed .recycled k v hlookup
    cases v with
    | zset members => rfl
    | _ => exact hholds.elim

end WellFormed

/-- Every state that the allocator reaches, in any interleaving, is well formed. -/
theorem wellFormed_of_reachable {G : Guard allocator} {s₀ s : State allocator} (h : Reachable G s₀ s)
    (h₀ : WellFormed s₀.world) : WellFormed s.world := by
  induction h with
  | refl => exact h₀
  | step _ hs ih =>
    obtain ⟨kind, p, w, -, hp, rfl⟩ | ⟨i, kind, o, next, a, r, w, -, -, he, rfl⟩ := step_cases hs
    · cases hp
      exact ih
    · exact ih.effect he

/-! ### The nonces of the wallets -/

namespace Keyspace
variable {s : Keyspace} {key key' : String}

theorem readString_setString (n : ℤ) : (s.setString key n).readString key = .ok (some n) := by
  unfold readString setString
  rw [AList.lookup_insert]

theorem readString_congr {s' : Keyspace} (h : s'.lookup key = s.lookup key) : s'.readString key = s.readString key := by
  unfold readString
  rw [h]

theorem readSet_congr {s' : Keyspace} (h : s'.lookup key = s.lookup key) : s'.readSet key = s.readSet key := by
  unfold readSet
  rw [h]

theorem readZset_congr {s' : Keyspace} (h : s'.lookup key = s.lookup key) : s'.readZset key = s.readZset key := by
  unfold readZset
  rw [h]

theorem readNonceMap_congr {s' : Keyspace} (h : s'.lookup key = s.lookup key) :
    s'.readNonceMap key = s.readNonceMap key := by
  unfold readNonceMap
  rw [h]

theorem lookup_setString (h : key' ≠ key) (n : ℤ) : (s.setString key n).lookup key' = s.lookup key' :=
  AList.lookup_insert_ne h

theorem lookup_putSet (h : key' ≠ key) (members : Finset ℤ) : (s.putSet key members).lookup key' = s.lookup key' := by
  unfold putSet
  split
  · exact AList.lookup_erase_ne h
  · exact AList.lookup_insert_ne h

theorem lookup_putZset (h : key' ≠ key) (members : SortedSet ℤ) :
    (s.putZset key members).lookup key' = s.lookup key' := by
  unfold putZset
  split
  · exact AList.lookup_erase_ne h
  · exact AList.lookup_insert_ne h

theorem readSet_putSet (members : Finset ℤ) : (s.putSet key members).readSet key = .ok members := by
  unfold readSet putSet
  by_cases hempty : members = ∅
  · rw [if_pos hempty, AList.lookup_erase, hempty]
  · rw [if_neg hempty, AList.lookup_insert]

theorem readZset_putZset (members : SortedSet ℤ) : (s.putZset key members).readZset key = .ok members := by
  unfold readZset putZset
  by_cases hempty : members.elems = []
  · rw [if_pos hempty, AList.lookup_erase]
    obtain ⟨l, hl⟩ := members
    obtain rfl : l = [] := hempty
    rfl
  · rw [if_neg hempty, AList.lookup_insert]

end Keyspace

/-- A key of the keyspace shows what the world has. -/
def KeyKind.Shows (s : Keyspace) (w : World) : KeyKind → Wallet → Prop
  | .lastUsed, k => s.readString (lastUsedNonceKey k) = .ok (w.nonce k)
  | .recycled, k => s.readZset (recycledNoncesKey k) = .ok (w.recycled k)
  | .sent, k => s.readSet (sentNoncesKey k) = .ok (w.sent k)
  | .nonceMap, k => ∃ z, s.readNonceMap (nonceMapKey k) = .ok z

/-- The keyspace has the nonces of the world. -/
def Represents (s : Keyspace) (w : World) : Prop := ∀ kind k, KeyKind.Shows s w kind k

section
variable {s s' : Keyspace} {w w' : World} {kind : KeyKind} {k : Wallet}

theorem KeyKind.Shows.congr (h : KeyKind.Shows s w kind k) (hlookup : s'.lookup (kind.key k) = s.lookup (kind.key k)) :
    KeyKind.Shows s' w kind k := by
  cases kind with
  | lastUsed => exact (Keyspace.readString_congr hlookup).trans h
  | recycled => exact (Keyspace.readZset_congr hlookup).trans h
  | sent => exact (Keyspace.readSet_congr hlookup).trans h
  | nonceMap =>
    obtain ⟨z, hz⟩ := h
    exact ⟨z, (Keyspace.readNonceMap_congr hlookup).trans hz⟩

/-- One key is written, and the world changes there. -/
theorem Represents.change (kind : KeyKind) (h : Represents s w)
    (hlookup : ∀ key, key ≠ kind.key k → s'.lookup key = s.lookup key)
    (hworld : ∀ kind' k', kind' ≠ kind ∨ k' ≠ k → KeyKind.Shows s w kind' k' → KeyKind.Shows s w' kind' k')
    (hself : KeyKind.Shows s' w' kind k) : Represents s' w' := by
  intro kind' k'
  by_cases hsame : kind' = kind ∧ k' = k
  · obtain ⟨rfl, rfl⟩ := hsame
    exact hself
  · have hne : kind'.key k' ≠ kind.key k := fun hkey => hsame (KeyKind.key_inj.mp hkey)
    exact (hworld kind' k' (not_and_or.mp hsame) (h kind' k')).congr (hlookup _ hne)

theorem represents_empty : Represents ∅ World.empty := by
  intro kind k
  cases kind with
  | nonceMap => exact ⟨.empty, rfl⟩
  | _ => rfl

theorem Represents.setString (h : Represents s w) (n : ℤ) :
    Represents (s.setString (lastUsedNonceKey k) n) { w with nonce := Function.update w.nonce k (some n) } := by
  refine h.change .lastUsed (fun key hkey => Keyspace.lookup_setString hkey n) ?_ ?_
  · intro kind' k' hne hshows
    cases kind' with
    | lastUsed =>
      have hk : k' ≠ k := hne.resolve_left fun hkind => hkind rfl
      exact hshows.trans (congrArg Except.ok (Function.update_of_ne hk _ _).symm)
    | _ => exact hshows
  · have hself : Function.update w.nonce k (some n) k = some n := Function.update_self _ _ _
    exact (Keyspace.readString_setString n).trans (congrArg Except.ok hself.symm)

theorem Represents.putZset (h : Represents s w) (members : SortedSet ℤ) :
    Represents (s.putZset (recycledNoncesKey k) members)
      { w with recycled := Function.update w.recycled k members } := by
  refine h.change .recycled (fun key hkey => Keyspace.lookup_putZset hkey members) ?_ ?_
  · intro kind' k' hne hshows
    cases kind' with
    | recycled =>
      have hk : k' ≠ k := hne.resolve_left fun hkind => hkind rfl
      exact hshows.trans (congrArg Except.ok (Function.update_of_ne hk _ _).symm)
    | _ => exact hshows
  · have hself : Function.update w.recycled k members k = members := Function.update_self _ _ _
    exact (Keyspace.readZset_putZset members).trans (congrArg Except.ok hself.symm)

theorem Represents.putSet (h : Represents s w) (members : Finset ℤ) :
    Represents (s.putSet (sentNoncesKey k) members) { w with sent := Function.update w.sent k members } := by
  refine h.change .sent (fun key hkey => Keyspace.lookup_putSet hkey members) ?_ ?_
  · intro kind' k' hne hshows
    cases kind' with
    | sent =>
      have hk : k' ≠ k := hne.resolve_left fun hkind => hkind rfl
      exact hshows.trans (congrArg Except.ok (Function.update_of_ne hk _ _).symm)
    | _ => exact hshows
  · have hself : Function.update w.sent k members k = members := Function.update_self _ _ _
    exact (Keyspace.readSet_putSet members).trans (congrArg Except.ok hself.symm)

theorem Represents.putNonceMap (h : Represents s w) (z : Redis.ZSet QueueId) :
    Represents (s.insert (nonceMapKey k) (.nonceMap z)) w := by
  refine h.change .nonceMap (fun key hkey => AList.lookup_insert_ne hkey) (fun _ _ _ hshows => hshows) ?_
  refine ⟨z, ?_⟩
  unfold Keyspace.readNonceMap
  rw [AList.lookup_insert]

/-- A call does in the keyspace what it does in the world. -/
theorem Represents.apply {o : Op} {c : o.Choice} {x : Except Err o.Reply × Keyspace} {y : o.Reply × World}
    (h : Represents s w) (hx : s.apply o c = some x) (hy : w.apply o c = some y) :
    x.1 = .ok y.1 ∧ Represents x.2 y.2 := by
  cases o with
  | zpopminRecycled k =>
    cases hx
    cases hy
    rw [h .recycled k]
    exact ⟨rfl, h.putZset _⟩
  | zaddRecycled k n =>
    cases hx
    cases hy
    rw [h .recycled k]
    exact ⟨rfl, h.putZset _⟩
  | incrNonce k =>
    cases hx
    cases hy
    rw [h .lastUsed k]
    exact ⟨rfl, h.setString _⟩
  | setNonce k n =>
    cases hx
    cases hy
    exact ⟨rfl, h.setString _⟩
  | evalNonceIfHigher k c =>
    cases hx
    cases hy
    rw [h .lastUsed k]
    exact ⟨rfl, h.setString _⟩
  | saddSent k n =>
    cases hx
    cases hy
    rw [h .sent k]
    exact ⟨rfl, h.putSet _⟩
  | sremSent k n =>
    cases hx
    cases hy
    rw [h .sent k]
    exact ⟨rfl, h.putSet _⟩
  | sismemberSent k n =>
    cases hx
    cases hy
    rw [h .sent k]
    exact ⟨rfl, h⟩
  | getNonce k =>
    cases hx
    cases hy
    rw [h .lastUsed k]
    exact ⟨rfl, h⟩
  | zaddNonceMap k n q =>
    cases hx
    cases hy
    obtain ⟨z, hz⟩ := h .nonceMap k
    rw [hz]
    exact ⟨rfl, h.putNonceMap _⟩
  | getConfig =>
    cases hx
    cases hy
    exact ⟨rfl, h⟩
  | ethGetTransactionCount k =>
    cases hx
    cases hy
    exact ⟨rfl, h⟩
  | _ => cases hx

end
end Engine.Nonces
