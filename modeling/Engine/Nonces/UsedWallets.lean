import Mathlib.Data.Finset.Sort
import Mathlib.Data.List.Perm.Basic
import Engine.Concurrent.Alone
import Engine.Nonces.Keyspace

/-! The wallets that have a last used nonce, as the admin routes find them: by `KEYS` with a pattern. -/
namespace Engine.Nonces
open Concurrent Program

/-- An order that a reply of Redis comes in. -/
structure Arrangement (α : Type) where
  apply : List α → List α
  perm : ∀ l, (apply l).Perm l

inductive Command
  | get (key : String)
  | smembers (key : String)

inductive Reply
  | string (n : Option ℤ)
  | array (members : List ℤ)

/-- The calls that only the admin routes make. -/
inductive AdminOp
  | keys (pattern : String)
  | del (keys : List String)
  | pipeline (commands : List Command)

/-- A pipeline has one entry for each command, the error of the command included. -/
@[reducible] def AdminOp.Reply : AdminOp → Type
  | .keys _ => List String
  | .del _ => Unit
  | .pipeline _ => List (Except Err Nonces.Reply)

@[reducible] def AdminOp.Choice : AdminOp → Type
  | .keys _ => Arrangement String
  | .del _ => Unit
  | .pipeline _ => Arrangement ℤ

abbrev AdminCalls : Interface := Calls.extend AdminOp AdminOp.Reply AdminOp.Choice

namespace Keyspace

def del (s : Keyspace) (keys : List String) : Keyspace := keys.foldl (fun s key => s.erase key) s

def command (s : Keyspace) (order : Arrangement ℤ) : Command → Except Err Reply
  | .get key => (s.readString key).map .string
  | .smembers key => (s.readSet key).map fun members => .array (order.apply members.sort)

def adminEffect (s : Keyspace) : (o : AdminCalls.Op) → Except Err (AdminCalls.Choice o) →
    Option (Except Err (AdminCalls.Reply o) × Keyspace)
  | .inl o, a => s.effect o a
  | .inr _, .error e => some (.error e, s)
  | .inr (.keys pattern), .ok order => some (.ok (order.apply (s.keys.filter (globMatches pattern))), s)
  | .inr (.del keys), .ok _ => some (.ok (), s.del keys)
  | .inr (.pipeline commands), .ok order => some (.ok (commands.map (s.command order)), s)

end Keyspace

/-- What the outside says while a route runs alone: no nonce is mined then. -/
structure Outside where
  config : Except Err Config
  transactionCount : Wallet → Except Err ℕ
  keyOrder : Arrangement String
  memberOrder : Arrangement ℤ

namespace Outside

/-- The lookup of a wallet's transaction count, with that of its chain before it. -/
def count (x : Outside) (k : Wallet) : Except Err ℕ := do
  let _ ← x.config
  x.transactionCount k

/-- Redis answers every command. -/
def calls (x : Outside) : Oracle Calls
  | .getConfig => x.config
  | .ethGetTransactionCount k => x.transactionCount k
  | .zpopminRecycled _ => .ok ()
  | .zaddRecycled _ _ => .ok ()
  | .incrNonce _ => .ok ()
  | .setNonce _ _ => .ok ()
  | .evalNonceIfHigher _ _ => .ok ()
  | .saddSent _ _ => .ok ()
  | .sremSent _ _ => .ok ()
  | .sismemberSent _ _ => .ok ()
  | .getNonce _ => .ok ()
  | .zaddNonceMap _ _ _ => .ok ()
  | _ => .error (Err.new "Connection is closed.")

def admin (x : Outside) : Oracle AdminCalls
  | .inl o => x.calls o
  | .inr (.keys _) => .ok x.keyOrder
  | .inr (.del _) => .ok ()
  | .inr (.pipeline _) => .ok x.memberOrder

end Outside

section
variable {α : Type} {x : Outside} {k : Wallet} {c : ℕ} {e : Err} {s : Keyspace} {f : ℕ → Prog α}

/-- The lookup before the rest of a program: `f` goes on from the count. -/
def withCount (k : Wallet) (f : ℕ → Prog α) : Prog α := do
  let _ ← getChain k.chainId
  let transactionCount ← await (.ethGetTransactionCount k)
  f transactionCount

theorem getChain_run (x : Outside) (k : Wallet) (s : Keyspace) :
    (getChain k.chainId).runWith Keyspace.effect x.calls s = some (x.config.map fun _ => k.chainId, s) := by
  have hcall : (await .getConfig).runWith Keyspace.effect x.calls s = some (x.config, s) := by
    rw [runWith_perform]
    show s.effect .getConfig x.config = _
    cases x.config with
    | ok config => rfl
    | error e => rfl
  unfold getChain
  cases hconfig : x.config with
  | ok config =>
    rw [hconfig] at hcall
    exact runWith_bind_ok hcall
  | error e =>
    rw [hconfig] at hcall
    exact runWith_bind_error hcall

theorem ethGetTransactionCount_run (x : Outside) (k : Wallet) (s : Keyspace) :
    (await (.ethGetTransactionCount k)).runWith Keyspace.effect x.calls s = some (x.transactionCount k, s) := by
  rw [runWith_perform]
  show s.effect (.ethGetTransactionCount k) (x.transactionCount k) = _
  cases x.transactionCount k with
  | ok c => rfl
  | error e => rfl

theorem withCount_ok (h : x.count k = .ok c) :
    (withCount k f).runWith Keyspace.effect x.calls s = (f c).runWith Keyspace.effect x.calls s := by
  have hchain := getChain_run x k s
  have hcount := ethGetTransactionCount_run x k s
  unfold Outside.count at h
  cases hconfig : x.config with
  | error e =>
    rw [hconfig] at h
    cases h
  | ok config =>
    rw [hconfig] at h hchain
    have hc : x.transactionCount k = .ok c := h
    rw [hc] at hcount
    exact (runWith_bind_ok hchain).trans (runWith_bind_ok hcount)

theorem withCount_error (h : x.count k = .error e) :
    (withCount k f).runWith Keyspace.effect x.calls s = some (.error e, s) := by
  have hchain := getChain_run x k s
  have hcount := ethGetTransactionCount_run x k s
  unfold Outside.count at h
  cases hconfig : x.config with
  | error e' =>
    rw [hconfig] at h hchain
    cases h
    exact runWith_bind_error hchain
  | ok config =>
    rw [hconfig] at h hchain
    have hc : x.transactionCount k = .error e := h
    rw [hc] at hcount
    exact (runWith_bind_ok hchain).trans (runWith_bind_error hcount)

/-- The lookup of one wallet, with the value that it sets. -/
def resync (x : Outside) (s : Keyspace) (k : Wallet) : Keyspace :=
  match x.count k with
  | .ok c => s.setString (lastUsedNonceKey k) (c - 1)
  | .error _ => s

theorem syncLatestNonceFromOnchain_run (x : Outside) (k : Wallet) (s : Keyspace) :
    (syncLatestNonceFromOnchain k).runWith Keyspace.effect x.calls s =
      some ((x.count k).map fun _ => (), resync x s k) := by
  have hsync : syncLatestNonceFromOnchain k = withCount k fun c => await (.setNonce k ((c : ℤ) - 1)) := rfl
  rw [hsync]
  unfold resync
  cases h : x.count k with
  | ok c => exact (withCount_ok h).trans (runWith_perform _)
  | error e => exact withCount_error h

end

/-- Every lookup finds the count `c`. -/
def countIs (c : ℕ) : Outside := ⟨.ok ⟨0, 0⟩, fun _ => .ok c, ⟨id, fun _ => .refl _⟩, ⟨id, fun _ => .refl _⟩⟩

def usedWallet : Wallet := ⟨1, 0⟩

abbrev AdminProg (α : Type) := Program AdminCalls α

def keys (pattern : String) : AdminProg (List String) := perform (I := AdminCalls) (.inr (.keys pattern))

def del (keys : List String) : AdminProg Unit := perform (I := AdminCalls) (.inr (.del keys))

def ofExcept {α : Type} : Except Err α → AdminProg α
  | .ok a => pure a
  | .error e => throw e

/-- `keys.map((key) => …)`. -/
def walletsOf (keys : List String) : AdminProg (List Wallet) := ofExcept (keys.mapM splitKey)

def getUsedBackendWallets (chainId : Option ℕ) (walletAddress : Option Address) : AdminProg (List Wallet) := do
  let keys ← keys (walletPattern chainId walletAddress)
  walletsOf keys

/-! ### What is found -/

section
variable {s : Keyspace} {x : Outside} {key : String} {k : Wallet} {chainId : Option ℕ} {walletAddress : Option Address}

/-- The wallet passes the filters. -/
def Fits (chainId : Option ℕ) (walletAddress : Option Address) (k : Wallet) : Prop :=
  (∀ c ∈ chainId, k.chainId = c) ∧ ∀ a ∈ walletAddress, k.walletAddress = a

theorem fits_none (k : Wallet) : Fits none none k :=
  ⟨fun _ hc => absurd hc (Option.not_mem_none _), fun _ ha => absurd ha (Option.not_mem_none _)⟩

theorem lastUsedNonceKey_inj {k k' : Wallet} (h : lastUsedNonceKey k = lastUsedNonceKey k') : k = k' := by
  have hkey : KeyKind.lastUsed.key k = KeyKind.lastUsed.key k' := h
  exact (KeyKind.key_inj.mp hkey).2

private theorem splitKey_lastUsedNonceKey (k : Wallet) : splitKey (lastUsedNonceKey k) = .ok k := by
  rw [lastUsedNonceKey_eq]
  exact splitKey_keyOf (by decide)

/-- In a well-formed state the keys that the pattern matches are those of wallets that fit. -/
theorem WellFormed.matches_iff (h : WellFormed s) :
    key ∈ s.keys.filter (globMatches (walletPattern chainId walletAddress)) ↔
    ∃ k, key = lastUsedNonceKey k ∧ lastUsedNonceKey k ∈ s ∧ Fits chainId walletAddress k := by
  rw [List.mem_filter, ← AList.mem_keys]
  constructor
  · intro hkey
    obtain ⟨v, hv⟩ := Option.isSome_iff_exists.mp (AList.lookup_isSome.mpr hkey.1)
    obtain ⟨chainText, addressText, htext, -, -⟩ := globMatches_walletPattern_iff.mp hkey.2
    obtain ⟨k, rfl⟩ := h.named key v _ hv htext
    exact ⟨k, rfl, hkey.1, globMatches_walletPattern.mp hkey.2⟩
  · rintro ⟨k, rfl, hmem, hfits⟩
    exact ⟨hmem, globMatches_walletPattern.mpr hfits⟩

theorem mapM_splitKey {keys : List String} (h : ∀ key ∈ keys, ∃ k, key = lastUsedNonceKey k) :
    ∃ ws, keys.mapM splitKey = .ok ws ∧ ws.map lastUsedNonceKey = keys := by
  have hsplit : ∀ key ∈ keys, ∃ k, splitKey key = .ok k ∧ lastUsedNonceKey k = key ∧ True := by
    intro key hkey
    obtain ⟨k, rfl⟩ := h key hkey
    exact ⟨k, splitKey_lastUsedNonceKey k, rfl, trivial⟩
  obtain ⟨ws, hws, hkeys, -⟩ := mapM_of_forall hsplit
  exact ⟨ws, hws, hkeys.trans (List.map_id keys)⟩

/-- Every matching wallet is found, and found once. -/
theorem getUsedBackendWallets_run (x : Outside) (chainId : Option ℕ) (walletAddress : Option Address)
    (h : WellFormed s) :
    ∃ ws, (getUsedBackendWallets chainId walletAddress).runWith Keyspace.adminEffect x.admin s = some (.ok ws, s) ∧
      ws.Nodup ∧ ∀ k, k ∈ ws ↔ lastUsedNonceKey k ∈ s ∧ Fits chainId walletAddress k := by
  let found := x.keyOrder.apply (s.keys.filter (globMatches (walletPattern chainId walletAddress)))
  have hperm : found.Perm (s.keys.filter (globMatches (walletPattern chainId walletAddress))) := x.keyOrder.perm _
  have hnodup : found.Nodup := hperm.nodup_iff.mpr (s.nodupKeys.filter _)
  have hmem : ∀ key, key ∈ found ↔ ∃ k, key = lastUsedNonceKey k ∧ lastUsedNonceKey k ∈ s ∧
    Fits chainId walletAddress k :=
    fun key => hperm.mem_iff.trans h.matches_iff
  obtain ⟨ws, hws, hfound⟩ := mapM_splitKey fun key hkey => ((hmem key).mp hkey).imp fun _ hk => hk.1
  refine ⟨ws, ?_, ?_, ?_⟩
  · have hkeys : (keys (walletPattern chainId walletAddress)).runWith Keyspace.adminEffect x.admin s =
      some (.ok found, s) :=
      runWith_perform _
    have hwallets : walletsOf found = pure ws := congrArg ofExcept hws
    exact (runWith_bind_ok hkeys).trans (by rw [hwallets]; rfl)
  · rw [← hfound] at hnodup
    exact hnodup.of_map
  · intro k
    have hk : k ∈ ws ↔ lastUsedNonceKey k ∈ found := by
      rw [← hfound, List.mem_map]
      exact ⟨fun hk => ⟨k, hk, rfl⟩, fun ⟨k', hk', heq⟩ => lastUsedNonceKey_inj heq ▸ hk'⟩
    rw [hk, hmem]
    constructor
    · rintro ⟨k', heq, hk'⟩
      rwa [lastUsedNonceKey_inj heq]
    · intro hk
      exact ⟨k, rfl, hk⟩

end
end Engine.Nonces
