import Mathlib.Data.Prod.Lex
import Mathlib.Logic.Function.Basic
import Engine.Concurrent.SortedSet

/-! A Redis keyspace with strings and sorted sets, and the commands on it. A command on a
key that holds the other kind of value replies `WRONGTYPE`. -/
namespace Redis
open Concurrent Function

/-- Members by score, and by themselves where scores are equal. -/
abbrev ZSet (μ : Type) [LinearOrder μ] := SortedSet (ℤ ×ₗ μ)

inductive CommandError
  | wrongType
deriving DecidableEq

/-- What a key holds. The text of a string is kept as the value it was made from. -/
inductive Value (α μ : Type) [LinearOrder μ]
  | string (a : α)
  | zset (z : ZSet μ)

abbrev Keyspace (κ α μ : Type) [LinearOrder μ] := κ → Option (Value α μ)

namespace ZSet
variable {μ : Type} [LinearOrder μ]

/-- `ZADD`: a member has one score. -/
def insert (z : ZSet μ) (score : ℤ) (m : μ) : ZSet μ :=
  (z.filter fun x => (ofLex x).2 ≠ m).add (toLex (score, m))

def members (z : ZSet μ) : List μ := z.elems.map fun x => (ofLex x).2

/-- The ranks from `start` to `stop`, both included; negative ones count from the end. -/
def range (l : List β) (start stop : ℤ) : List β :=
  let first := if start < 0 then start + l.length else start
  let last := if stop < 0 then stop + l.length else stop
  (l.take (last + 1).toNat).drop first.toNat

/-- `ZREMRANGEBYRANK`. -/
def removeRange (z : ZSet μ) (start stop : ℤ) : ZSet μ := z.filter fun x => x ∉ range z.elems start stop

theorem mem_members {z : ZSet μ} {m : μ} : m ∈ z.members ↔ ∃ score, toLex (score, m) ∈ z := by
  simp only [members, List.mem_map]
  constructor
  · intro h
    obtain ⟨x, hx, rfl⟩ := h
    exact ⟨(ofLex x).1, hx⟩
  · intro h
    obtain ⟨score, hx⟩ := h
    exact ⟨_, hx, rfl⟩

theorem mem_members_insert {z : ZSet μ} {score : ℤ} {m m' : μ} :
    m' ∈ (insert z score m).members ↔ m' = m ∨ m' ∈ z.members := by
  simp only [mem_members, insert, SortedSet.mem_add, SortedSet.mem_filter]
  constructor
  · intro h
    obtain ⟨s, hs | ⟨hs, -⟩⟩ := h
    · exact Or.inl (Prod.mk.inj (toLex.injective hs)).2
    · exact Or.inr ⟨s, hs⟩
  · intro h
    by_cases hm : m' = m
    · subst hm
      exact ⟨score, Or.inl rfl⟩
    · obtain ⟨s, hs⟩ := h.resolve_left hm
      exact ⟨s, Or.inr ⟨hs, by simp [hm]⟩⟩

theorem mem_members_of_removeRange {z : ZSet μ} {start stop : ℤ} {m : μ}
    (h : m ∈ (removeRange z start stop).members) : m ∈ z.members := by
  obtain ⟨s, hs⟩ := mem_members.mp h
  exact mem_members.mpr ⟨s, (SortedSet.mem_filter.mp hs).1⟩

end ZSet

namespace Keyspace
variable {κ α μ : Type} [LinearOrder μ] [DecidableEq κ]

/-- `SET` replaces whatever the key holds. -/
def set (s : Keyspace κ α μ) (k : κ) (a : α) : Keyspace κ α μ := update s k (some (.string a))

def get (s : Keyspace κ α μ) (k : κ) : Except CommandError (Option α) :=
  match s k with
  | none => .ok none
  | some (.string a) => .ok (some a)
  | some (.zset _) => .error .wrongType

/-- `MGET` replies nil for a key that does not hold a string. -/
def mget (s : Keyspace κ α μ) (ks : List κ) : List (Option α) :=
  ks.map fun k => match s k with
    | some (.string a) => some a
    | _ => none

def «exists» (s : Keyspace κ α μ) (k : κ) : Bool := (s k).isSome

/-- `UNLINK`: how many keys there were, and the keyspace without them. -/
def unlink (s : Keyspace κ α μ) : List κ → ℕ × Keyspace κ α μ
  | [] => (0, s)
  | k :: ks => ((unlink (update s k none) ks).1 + (if s.exists k then 1 else 0), (unlink (update s k none) ks).2)

/-- The sorted set at a key; a missing key is an empty one. -/
def zset (s : Keyspace κ α μ) (k : κ) : Except CommandError (ZSet μ) :=
  match s k with
  | none => .ok .empty
  | some (.zset z) => .ok z
  | some (.string _) => .error .wrongType

/-- An empty sorted set is not kept. -/
def putZset (s : Keyspace κ α μ) (k : κ) (z : ZSet μ) : Keyspace κ α μ :=
  update s k (if z.elems = [] then none else some (.zset z))

/-- A command of a pipeline that changes a sorted set; its error is not looked at. -/
def modifyZset (s : Keyspace κ α μ) (k : κ) (f : ZSet μ → ZSet μ) : Keyspace κ α μ :=
  match s.zset k with
  | .ok z => s.putZset k (f z)
  | .error _ => s

def zadd (s : Keyspace κ α μ) (k : κ) (score : ℤ) (m : μ) : Keyspace κ α μ := s.modifyZset k (ZSet.insert · score m)

def zremrangebyrank (s : Keyspace κ α μ) (k : κ) (start stop : ℤ) : Keyspace κ α μ :=
  s.modifyZset k (ZSet.removeRange · start stop)

def zrange (s : Keyspace κ α μ) (k : κ) (start stop : ℤ) : Except CommandError (List μ) :=
  (s.zset k).map fun z => ZSet.range z.members start stop

def zrevrange (s : Keyspace κ α μ) (k : κ) (start stop : ℤ) : Except CommandError (List μ) :=
  (s.zset k).map fun z => ZSet.range z.members.reverse start stop

def zcard (s : Keyspace κ α μ) (k : κ) : Except CommandError ℕ := (s.zset k).map fun z => z.elems.length

variable {s : Keyspace κ α μ} {k k' : κ} {z : ZSet μ} {a : α}

theorem zset_putZset : (s.putZset k z).zset k = .ok z := by
  unfold zset putZset
  by_cases hz : z.elems = []
  · obtain ⟨l, hl⟩ := z
    obtain rfl : l = [] := hz
    simp [SortedSet.empty]
  · simp [hz]

theorem putZset_of_ne (h : k' ≠ k) : s.putZset k z k' = s k' := update_of_ne h _ _

theorem modifyZset_of_ne {f : ZSet μ → ZSet μ} (h : k' ≠ k) : s.modifyZset k f k' = s k' := by
  unfold modifyZset
  cases s.zset k with
  | ok z => exact putZset_of_ne h
  | error e => rfl

theorem zset_modifyZset {f : ZSet μ → ZSet μ} (h : s.zset k = .ok z) : (s.modifyZset k f).zset k = .ok (f z) := by
  unfold modifyZset
  rw [h]
  exact zset_putZset

omit [DecidableEq κ] in
theorem zset_congr {s' : Keyspace κ α μ} (h : s' k = s k) : s'.zset k = s.zset k := by
  unfold zset
  rw [h]

theorem unlink_apply {ks : List κ} : (s.unlink ks).2 k = if k ∈ ks then none else s k := by
  induction ks generalizing s with
  | nil => simp [unlink]
  | cons k' ks ih =>
    simp only [unlink, ih, List.mem_cons]
    by_cases hk : k = k'
    · subst hk
      simp
    · simp [hk]

end Keyspace
end Redis
