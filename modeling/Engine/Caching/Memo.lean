import Mathlib.Data.List.Basic

/-! Caches that may forget what they hold, and functions computed through them. -/
namespace Caching

/-- A cache: what it holds under a key is what was put there last, as long as it holds anything. -/
structure Cache (K V : Type) where
  State : Type
  new : State
  has : State → K → Bool
  get : State → K → Option V × State
  set : State → K → V → State
  held : State → K → Option V
  held_new : ∀ k, held new k = none
  has_eq : ∀ s k, has s k = (held s k).isSome
  get_eq : ∀ s k, (get s k).1 = held s k
  held_get : ∀ s k k', held (get s k).2 k' = held s k'
  held_set : ∀ s k v, held (set s k v) k = some v
  of_held_set : ∀ s k v k' v', k' ≠ k → held (set s k v) k' = some v' → held s k' = some v'

namespace Cache
variable {K V : Type} (C : Cache K V) (f : K → V)

/-- `f k`, which is computed and put into the cache when it is not there. -/
def memo (s : C.State) (k : K) : Option V × C.State := C.get (if C.has s k then s else C.set s k (f k)) k

/-- Everything in the cache is a value of `f`. -/
def Sound (s : C.State) : Prop := ∀ k v, C.held s k = some v → v = f k

variable {C f} {s : C.State}

theorem sound_new : C.Sound f C.new := by
  intro k v hk
  rw [C.held_new] at hk
  cases hk

theorem Sound.set (h : C.Sound f s) (k : K) : C.Sound f (C.set s k (f k)) := by
  intro k' v hk
  by_cases heq : k' = k
  · subst heq
    rw [C.held_set] at hk
    exact (Option.some.inj hk).symm
  · exact h k' v (C.of_held_set s k (f k) k' v heq hk)

/-- Whatever was forgotten, the cache gives the value of the function. -/
theorem Sound.memo (h : C.Sound f s) (k : K) : (C.memo f s k).1 = some (f k) ∧ C.Sound f (C.memo f s k).2 := by
  unfold Cache.memo
  have hget : ∀ s', C.Sound f s' → (C.held s' k).isSome = true →
      (C.get s' k).1 = some (f k) ∧ C.Sound f (C.get s' k).2 := by
    intro s' hs' hk
    obtain ⟨v, hv⟩ := Option.isSome_iff_exists.mp hk
    refine ⟨?_, fun k' v' hk' => ?_⟩
    · rw [C.get_eq, hv, hs' k v hv]
    · rw [C.held_get] at hk'
      exact hs' k' v' hk'
  split_ifs with hhas
  · rw [C.has_eq] at hhas
    exact hget s h hhas
  · refine hget _ (h.set k) ?_
    rw [C.held_set]
    rfl

end Cache

/-! ### Least recently used -/

section
variable {K V : Type} [DecidableEq K]

/-- The entries, the one that was used last first. -/
abbrev Entries (K V : Type) := List (K × V)

namespace Entries

def lookup (s : Entries K V) (k : K) : Option V := (s.find? fun e => e.1 = k).map Prod.snd

def without (s : Entries K V) (k : K) : Entries K V := s.filter fun e => e.1 ≠ k

theorem lookup_cons_self (s : Entries K V) (k : K) (v : V) : lookup ((k, v) :: s) k = some v := by
  unfold lookup
  simp

theorem lookup_cons_of_ne {s : Entries K V} {k k' : K} {v : V} (h : k' ≠ k) :
    lookup ((k, v) :: s) k' = lookup s k' := by
  unfold lookup
  rw [List.find?_cons_of_neg]
  simpa using fun heq => h heq.symm

theorem lookup_without_of_ne {s : Entries K V} {k k' : K} (h : k' ≠ k) : (s.without k).lookup k' = s.lookup k' := by
  induction s with
  | nil => rfl
  | cons e s ih =>
    obtain ⟨x, v⟩ := e
    unfold without at ih ⊢
    by_cases hx : x = k
    · subst hx
      rw [List.filter_cons_of_neg (by simp), ih, lookup_cons_of_ne h]
    · rw [List.filter_cons_of_pos (by simpa using hx)]
      by_cases hx' : k' = x
      · subst hx'
        rw [lookup_cons_self, lookup_cons_self]
      · rw [lookup_cons_of_ne hx', lookup_cons_of_ne hx', ih]

private theorem lookup_of_take {s : Entries K V} {n : ℕ} {k : K} {v : V} (h : lookup (s.take n) k = some v) :
    lookup s k = some v := by
  unfold lookup at h ⊢
  obtain ⟨e, he, hv⟩ := Option.map_eq_some_iff.mp h
  have hmem : s.find? (fun e => e.1 = k) = some e := by
    rw [← List.take_append_drop n s, List.find?_append, he]
    rfl
  rw [hmem, ← hv]
  rfl

/-- The entry that is got becomes the first. -/
def get (s : Entries K V) (k : K) : Option V × Entries K V :=
  match s.lookup k with
  | some v => (some v, (k, v) :: s.without k)
  | none => (none, s)

end Entries

/-- A cache of `n + 1` entries that forgets the one that was not used for longest. -/
def lru (n : ℕ) : Cache K V where
  State := Entries K V
  new := []
  has s k := (s.lookup k).isSome
  get := Entries.get
  set s k v := ((k, v) :: s.without k).take (n + 1)
  held := Entries.lookup
  held_new _ := rfl
  has_eq _ _ := rfl
  get_eq s k := by
    unfold Entries.get
    split <;> rename_i hk <;> exact hk.symm
  held_get s k k' := by
    unfold Entries.get
    split
    · rename_i v hv
      by_cases hk : k' = k
      · subst hk
        rw [Entries.lookup_cons_self, hv]
      · rw [Entries.lookup_cons_of_ne hk, Entries.lookup_without_of_ne hk]
    · rfl
  held_set s k v := by
    rw [List.take_succ_cons]
    exact Entries.lookup_cons_self _ k v
  of_held_set s k v k' v' hne h := by
    have hall := Entries.lookup_of_take h
    rwa [Entries.lookup_cons_of_ne hne, Entries.lookup_without_of_ne hne] at hall

end
end Caching
