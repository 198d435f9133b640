import Mathlib.Algebra.BigOperators.Group.List.Basic
import Engine.Nonces.UsedWallets
import Engine.Store.Listed

/-! The pruning of the nonce maps, `pruneNonceMaps` of `nonceMap.ts`. -/
namespace Engine.Nonces
open Concurrent Program Redis

/-- One `ZREMRANGEBYRANK` of a pipeline. -/
structure RankRange where
  key : String
  start : ℤ
  stop : ℤ

inductive MapOp
  | keys (pattern : String)
  | exec (commands : List RankRange)

/-- A pipeline gives `null`, or one entry for each command. -/
@[reducible] def MapOp.Reply : MapOp → Type
  | .keys _ => List String
  | .exec _ => Option (List (Except Err ℕ))

/-- What becomes of a command of a pipeline. -/
inductive Fate
  | answered
  /-- The command is carried out, its reply is lost. -/
  | unanswered
  | refused

@[reducible] def MapOp.Choice : MapOp → Type
  | .keys _ => Arrangement String
  | .exec _ => Option (String → Fate)

abbrev MapCalls : Interface := ⟨MapOp, MapOp.Reply, MapOp.Choice, Err⟩

abbrev MapProg (α : Type) := Program MapCalls α

namespace Keyspace

/-- The members of a sorted set that are left, and how many were removed. -/
def cut {α : Type} [LinearOrder α] (z : SortedSet α) (c : RankRange) : SortedSet α × ℕ :=
  (z.filter fun x => x ∉ ZSet.range z.elems c.start c.stop,
    (z.elems.filter fun x => x ∈ ZSet.range z.elems c.start c.stop).length)

def putNonceMap (s : Keyspace) (key : String) (queueIds : ZSet QueueId) : Keyspace :=
  if queueIds.elems = [] then s.erase key else s.insert key (.nonceMap queueIds)

def zremrangebyrank (s : Keyspace) (c : RankRange) : Except Err ℕ × Keyspace :=
  match s.lookup c.key with
  | none => (.ok 0, s)
  | some (.zset z) => (.ok (cut z c).2, s.putZset c.key (cut z c).1)
  | some (.nonceMap z) => (.ok (cut z c).2, s.putNonceMap c.key (cut z c).1)
  | some _ => (.error wrongType, s)

def pipelined (s : Keyspace) (c : RankRange) : Fate → Except Err ℕ × Keyspace
  | .answered => s.zremrangebyrank c
  | .unanswered => (.error (Err.new "Connection is closed."), (s.zremrangebyrank c).2)
  | .refused => (.error (Err.new "Command aborted."), s)

def pipeline (fates : String → Fate) (s : Keyspace) : List RankRange → List (Except Err ℕ) × Keyspace
  | [] => ([], s)
  | c :: cs => ((s.pipelined c (fates c.key)).1 :: (pipeline fates (s.pipelined c (fates c.key)).2 cs).1,
      (pipeline fates (s.pipelined c (fates c.key)).2 cs).2)

def mapEffect (s : Keyspace) : (o : MapOp) → Except Err o.Choice → Option (Except Err o.Reply × Keyspace)
  | _, .error e => some (.error e, s)
  | .keys pattern, .ok order => some (.ok (order.apply (s.keys.filter (globMatches pattern))), s)
  | .exec _, .ok none => some (.ok none, s)
  | .exec commands, .ok (some fates) => some (.ok (some (s.pipeline fates commands).1), (s.pipeline fates commands).2)

end Keyspace

def numDeleted (numDeleted : ℕ) : Except Err ℕ → ℕ
  | .ok result => numDeleted + result
  | .error _ => numDeleted

/-- `count` is `env.NONCE_MAP_COUNT`. -/
def pruneNonceMaps (count : ℕ) : MapProg ℕ := do
  let keys ← perform (I := MapCalls) (.keys "nonce-map:*")
  let results ← perform (I := MapCalls) (.exec (keys.map fun key => ⟨key, 0, -count⟩))
  match results with
  | none => pure 0
  | some results => pure (results.foldl numDeleted 0)

/-- The order of the reply to `KEYS`, and what becomes of the pipeline. -/
structure MapOutside where
  keyOrder : Arrangement String
  fates : Option (String → Fate)

def MapOutside.calls (x : MapOutside) : Oracle MapCalls
  | .keys _ => .ok x.keyOrder
  | .exec _ => .ok x.fates

/-- The command on the key is sent, carried out and answered. -/
def MapOutside.succeeds (x : MapOutside) (key : String) : Bool :=
  globMatches "nonce-map:*" key && match x.fates with
    | none => false
    | some fates => match fates key with
      | .answered => true
      | _ => false

namespace Keyspace

/-- The members of a nonce map by their ranks. -/
def mapAt (s : Keyspace) (key : String) : List QueueId :=
  match s.lookup key with
  | some (.nonceMap z) => z.members
  | _ => []

/-- How many members a sorted set has. -/
def cardAt (s : Keyspace) (key : String) : ℕ :=
  match s.lookup key with
  | some (.zset z) => z.elems.length
  | some (.nonceMap z) => z.elems.length
  | _ => 0

end Keyspace

/-- The maps whose command succeeded keep their newest members, and `total` members are gone from them. -/
structure KeepsNewest (count : ℕ) (x : MapOutside) (s s' : Keyspace) (total : ℕ) : Prop where
  newest : ∀ key z, s.lookup key = some (.nonceMap z) → x.succeeds key = true →
    s'.mapAt key = Pruning.newest count z.members
  total : total = ((s.keys.filter x.succeeds).map fun key => s.cardAt key - s'.cardAt key).sum

section
variable {s s' : Keyspace} {c : RankRange} {key : String} {fate : Fate} {fates : String → Fate} {count : ℕ}

/-! ### One command -/

theorem length_cut {α : Type} [LinearOrder α] (z : SortedSet α) (c : RankRange) :
    z.elems.length - (Keyspace.cut z c).1.elems.length = (Keyspace.cut z c).2 := by
  have hsplit := z.elems.length_eq_length_filter_add fun x => decide (x ∈ ZSet.range z.elems c.start c.stop)
  have hleft : (Keyspace.cut z c).1.elems =
      z.elems.filter fun x => !decide (x ∈ ZSet.range z.elems c.start c.stop) :=
    List.filter_congr fun x _ => decide_not
  rw [hleft]
  show _ = (z.elems.filter fun x => decide (x ∈ ZSet.range z.elems c.start c.stop)).length
  omega

theorem lookup_putZset (z : SortedSet ℤ) :
    (s.putZset key z).lookup key = if z.elems = [] then none else some (.zset z) := by
  unfold Keyspace.putZset
  split_ifs
  · rw [AList.lookup_erase]
  · rw [AList.lookup_insert]

theorem lookup_putNonceMap (z : ZSet QueueId) :
    (s.putNonceMap key z).lookup key = if z.elems = [] then none else some (.nonceMap z) := by
  unfold Keyspace.putNonceMap
  split_ifs
  · rw [AList.lookup_erase]
  · rw [AList.lookup_insert]

theorem mapAt_putNonceMap (z : ZSet QueueId) : (s.putNonceMap key z).mapAt key = z.members := by
  unfold Keyspace.mapAt
  rw [lookup_putNonceMap]
  split_ifs with hz
  · exact (congrArg (List.map _) hz).symm
  · rfl

theorem zremrangebyrank_of_ne (h : key ≠ c.key) : (s.zremrangebyrank c).2.lookup key = s.lookup key := by
  unfold Keyspace.zremrangebyrank
  split
  · rfl
  · unfold Keyspace.putZset
    split_ifs
    · exact AList.lookup_erase_ne h
    · exact AList.lookup_insert_ne h
  · unfold Keyspace.putNonceMap
    split_ifs
    · exact AList.lookup_erase_ne h
    · exact AList.lookup_insert_ne h
  · rfl

/-- A command depends on its own key only. -/
theorem zremrangebyrank_congr (h : s.lookup c.key = s'.lookup c.key) :
    (s.zremrangebyrank c).1 = (s'.zremrangebyrank c).1 ∧
      (s.zremrangebyrank c).2.lookup c.key = (s'.zremrangebyrank c).2.lookup c.key := by
  unfold Keyspace.zremrangebyrank
  rw [← h]
  cases hvalue : s.lookup c.key with
  | none => exact ⟨rfl, h⟩
  | some v =>
    cases v with
    | zset z => exact ⟨rfl, by simp only [lookup_putZset]⟩
    | nonceMap z => exact ⟨rfl, by simp only [lookup_putNonceMap]⟩
    | string n => exact ⟨rfl, h⟩
    | set members => exact ⟨rfl, h⟩

/-- The reply counts what is gone. -/
theorem zremrangebyrank_count :
    numDeleted 0 (s.zremrangebyrank c).1 = s.cardAt c.key - (s.zremrangebyrank c).2.cardAt c.key := by
  unfold Keyspace.zremrangebyrank Keyspace.cardAt
  cases hvalue : s.lookup c.key with
  | none => simp [numDeleted, hvalue]
  | some v =>
    cases v with
    | zset z =>
      simp only [lookup_putZset, numDeleted, Nat.zero_add, ← length_cut]
      split_ifs with hz
      · rw [hz]
        rfl
      · rfl
    | nonceMap z =>
      simp only [lookup_putNonceMap, numDeleted, Nat.zero_add, ← length_cut]
      split_ifs with hz
      · rw [hz]
        rfl
      · rfl
    | string n => simp [numDeleted, hvalue]
    | set members => simp [numDeleted, hvalue]

theorem pipelined_of_ne (h : key ≠ c.key) : (s.pipelined c fate).2.lookup key = s.lookup key := by
  cases fate with
  | answered => exact zremrangebyrank_of_ne h
  | unanswered => exact zremrangebyrank_of_ne h
  | refused => rfl

private theorem pipelined_congr (h : s.lookup c.key = s'.lookup c.key) :
    (s.pipelined c fate).1 = (s'.pipelined c fate).1 ∧
    (s.pipelined c fate).2.lookup c.key = (s'.pipelined c fate).2.lookup c.key := by
  cases fate with
  | answered => exact zremrangebyrank_congr h
  | unanswered => exact ⟨rfl, (zremrangebyrank_congr h).2⟩
  | refused => exact ⟨rfl, h⟩

/-! ### The pipeline -/

private theorem pipeline_of_not_mem {cs : List RankRange} (h : key ∉ cs.map RankRange.key) :
    (s.pipeline fates cs).2.lookup key = s.lookup key := by
  induction cs generalizing s with
  | nil => rfl
  | cons c cs ih =>
    rw [List.map_cons, List.mem_cons, not_or] at h
    exact (ih h.2).trans (pipelined_of_ne h.1)

/-- Commands on different keys do what each would do first. -/
theorem pipeline_eq {cs : List RankRange} (h : (cs.map RankRange.key).Nodup) :
    (s.pipeline fates cs).1 = cs.map (fun c => (s.pipelined c (fates c.key)).1) ∧
      ∀ c ∈ cs, (s.pipeline fates cs).2.lookup c.key = (s.pipelined c (fates c.key)).2.lookup c.key := by
  induction cs generalizing s with
  | nil => exact ⟨rfl, fun c hc => absurd hc List.not_mem_nil⟩
  | cons c cs ih =>
    obtain ⟨hc, hcs⟩ := List.nodup_cons.mp h
    obtain ⟨hreplies, hlookup⟩ := ih (s := (s.pipelined c (fates c.key)).2) hcs
    have hsame : ∀ c' ∈ cs, (s.pipelined c (fates c.key)).2.lookup c'.key = s.lookup c'.key := by
      intro c' hc'
      exact pipelined_of_ne fun heq => hc (heq ▸ List.mem_map_of_mem hc')
    constructor
    · show _ :: _ = _ :: _
      rw [hreplies]
      exact congrArg _ (List.map_congr_left fun c' hc' => (pipelined_congr (hsame c' hc')).1)
    · intro c' hc'
      rcases List.mem_cons.mp hc' with rfl | hc'
      · exact pipeline_of_not_mem hc
      · exact (hlookup c' hc').trans (pipelined_congr (hsame c' hc')).2

theorem foldl_numDeleted (results : List (Except Err ℕ)) (n : ℕ) :
    results.foldl numDeleted n = n + (results.map (numDeleted 0)).sum := by
  induction results generalizing n with
  | nil => rfl
  | cons r results ih =>
    rw [List.foldl_cons, ih, List.map_cons, List.sum_cons, ← Nat.add_assoc]
    congr 1
    cases r with
    | ok result => simp [numDeleted]
    | error e => rfl

/-! ### The window -/

/-- How many of `n` members the command of a pruning leaves at most. -/
def left (count n : ℕ) : ℕ := if count = 0 then n - 1 else count - 1

private theorem range_count {α : Type} (l : List α) (count : ℕ) :
    ZSet.range l 0 (-(count : ℤ)) = Pruning.oldest (left count l.length) l := by
  unfold left
  split_ifs with hcount
  · subst hcount
    have htake : l.take 1 = l.take (l.length - (l.length - 1)) := by
      cases l with
      | nil => rfl
      | cons x l => simp
    exact htake
  · have hstop : -(count : ℤ) = -((count - 1 : ℕ) : ℤ) - 1 := by omega
    rw [hstop]
    exact Pruning.range_keep l _

/-- The command leaves the newest members, but one too few or one only is gone. -/
theorem mapAt_zremrangebyrank {z : ZSet QueueId} (h : s.lookup key = some (.nonceMap z)) :
    (s.zremrangebyrank ⟨key, 0, -count⟩).2.mapAt key = Pruning.newest (left count z.elems.length) z.members := by
  unfold Keyspace.zremrangebyrank
  rw [h]
  have hcut : (Keyspace.cut z ⟨key, 0, -count⟩).1 = ZSet.removeRange z 0 (-(count : ℤ)) :=
    congrArg z.filter (funext fun x => decide_eq_decide.mpr Iff.rfl)
  refine (mapAt_putNonceMap _).trans ?_
  rw [hcut]
  exact Pruning.members_removeRange_of_range (range_count z.elems count)

private theorem newest_eq_iff {α : Type} {l : List α} {n m : ℕ} :
    Pruning.newest n l = Pruning.newest m l ↔ min n l.length = min m l.length := by
  unfold Pruning.newest
  constructor
  · intro h
    have hlength := congrArg List.length h
    rw [List.length_drop, List.length_drop] at hlength
    omega
  · intro h
    have hdrop : l.length - n = l.length - m := by omega
    rw [hdrop]

theorem left_newest {z : ZSet QueueId} :
    Pruning.newest (left count z.elems.length) z.members = Pruning.newest count z.members ↔
      z.elems.length < count ∨ count = 0 ∧ z.elems.length ≤ 1 := by
  have hlength : z.members.length = z.elems.length := List.length_map _
  rw [newest_eq_iff, hlength]
  unfold left
  split_ifs <;> omega

/-! ### The pruning -/

variable {x : MapOutside}

/-- The keys in the order of the reply. -/
def MapOutside.found (x : MapOutside) (s : Keyspace) : List String :=
  x.keyOrder.apply (s.keys.filter (globMatches "nonce-map:*"))

theorem nodup_found : (x.found s).Nodup := ((x.keyOrder.perm _).nodup_iff).mpr (s.nodupKeys.filter _)

theorem mem_found : key ∈ x.found s ↔ key ∈ s ∧ globMatches "nonce-map:*" key = true := by
  unfold MapOutside.found
  rw [(x.keyOrder.perm _).mem_iff, List.mem_filter, ← AList.mem_keys]

theorem pruneNonceMaps_aborted (h : x.fates = none) :
    (pruneNonceMaps count).runWith Keyspace.mapEffect x.calls s = some (.ok 0, s) := by
  have hkeys : (perform (I := MapCalls) (.keys "nonce-map:*")).runWith Keyspace.mapEffect x.calls s =
      some (.ok (x.found s), s) := runWith_perform _
  have hexec : ∀ commands, (perform (I := MapCalls) (.exec commands)).runWith Keyspace.mapEffect x.calls s =
      some (.ok none, s) := by
    intro commands
    rw [runWith_perform]
    show s.mapEffect (.exec commands) (.ok x.fates) = _
    rw [h]
    rfl
  unfold pruneNonceMaps
  exact (runWith_bind_ok hkeys).trans (runWith_bind_ok (hexec _))

theorem pruneNonceMaps_run (h : x.fates = some fates) :
    (pruneNonceMaps count).runWith Keyspace.mapEffect x.calls s =
      some (.ok (((x.found s).map fun key => numDeleted 0 (s.pipelined ⟨key, 0, -count⟩ (fates key)).1).sum),
        (s.pipeline fates ((x.found s).map fun key => ⟨key, 0, -count⟩)).2) := by
  have hkeys : (perform (I := MapCalls) (.keys "nonce-map:*")).runWith Keyspace.mapEffect x.calls s =
      some (.ok (x.found s), s) := runWith_perform _
  have hexec : ∀ commands, (perform (I := MapCalls) (.exec commands)).runWith Keyspace.mapEffect x.calls s =
      some (.ok (some (s.pipeline fates commands).1), (s.pipeline fates commands).2) := by
    intro commands
    rw [runWith_perform]
    show s.mapEffect (.exec commands) (.ok x.fates) = _
    rw [h]
    rfl
  have hnodup : ((x.found s).map fun key => (⟨key, 0, -count⟩ : RankRange)).map RankRange.key = x.found s := by
    rw [List.map_map]
    exact List.map_id _
  unfold pruneNonceMaps
  refine ((runWith_bind_ok hkeys).trans (runWith_bind_ok (hexec _))).trans ?_
  show some (Except.ok (List.foldl numDeleted 0 _), _) = _
  rw [foldl_numDeleted, (pipeline_eq (hnodup.symm ▸ nodup_found)).1, List.map_map, List.map_map, Nat.zero_add]
  rfl

/-- What the command on a key that was found does to it. -/
theorem lookup_pruned (count : ℕ) (fates : String → Fate) (hkey : key ∈ x.found s) :
    (s.pipeline fates ((x.found s).map fun key => ⟨key, 0, -count⟩)).2.lookup key =
      (s.pipelined ⟨key, 0, -count⟩ (fates key)).2.lookup key := by
  have hkeys : ((x.found s).map fun key => (⟨key, 0, -count⟩ : RankRange)).map RankRange.key = x.found s := by
    rw [List.map_map]
    exact List.map_id _
  exact (pipeline_eq (hkeys.symm ▸ nodup_found)).2 ⟨key, 0, -count⟩ (List.mem_map_of_mem hkey)

theorem mapAt_congr (h : s.lookup key = s'.lookup key) : s.mapAt key = s'.mapAt key := by
  unfold Keyspace.mapAt
  rw [h]

theorem cardAt_congr (h : s.lookup key = s'.lookup key) : s.cardAt key = s'.cardAt key := by
  unfold Keyspace.cardAt
  rw [h]

theorem succeeds_iff (h : x.fates = some fates) :
    x.succeeds key = true ↔ globMatches "nonce-map:*" key = true ∧ fates key = .answered := by
  unfold MapOutside.succeeds
  rw [h, Bool.and_eq_true]
  refine and_congr_right fun _ => ?_
  cases hfate : fates key <;> simp [hfate]

theorem mapAt_pruned {z : ZSet QueueId} (h : x.fates = some fates) (hz : s.lookup key = some (.nonceMap z))
    (hsucceeds : x.succeeds key = true) :
    (s.pipeline fates ((x.found s).map fun key => ⟨key, 0, -count⟩)).2.mapAt key =
      Pruning.newest (left count z.elems.length) z.members := by
  obtain ⟨hmatch, hfate⟩ := (succeeds_iff h).mp hsucceeds
  have hkey : key ∈ x.found s := mem_found.mpr ⟨AList.lookup_isSome.mp (by rw [hz]; rfl), hmatch⟩
  have hlookup := lookup_pruned count fates hkey
  rw [hfate] at hlookup
  exact (mapAt_congr hlookup).trans (mapAt_zremrangebyrank hz)

/-- The number that is returned is right whatever the window is. -/
theorem total_pruned (h : x.fates = some fates) :
    ((x.found s).map fun key => numDeleted 0 (s.pipelined ⟨key, 0, -count⟩ (fates key)).1).sum =
      ((s.keys.filter x.succeeds).map fun key => s.cardAt key -
        (s.pipeline fates ((x.found s).map fun key => ⟨key, 0, -count⟩)).2.cardAt key).sum := by
  let removed := fun key => s.cardAt key - (s.pipeline fates ((x.found s).map fun key => ⟨key, 0, -count⟩)).2.cardAt key
  have hone : ∀ key ∈ x.found s, numDeleted 0 (s.pipelined ⟨key, 0, -count⟩ (fates key)).1 =
      if x.succeeds key = true then removed key else 0 := by
    intro key hkey
    have hlookup := lookup_pruned count fates hkey
    split_ifs with hsucceeds
    · have hfate := ((succeeds_iff h).mp hsucceeds).2
      rw [hfate] at hlookup ⊢
      refine zremrangebyrank_count.trans ?_
      show _ = s.cardAt key - _
      rw [cardAt_congr hlookup]
      rfl
    · cases hfate : fates key with
      | answered => exact absurd ((succeeds_iff h).mpr ⟨(mem_found.mp hkey).2, hfate⟩) hsucceeds
      | unanswered => rfl
      | refused => rfl
  have hfilter : s.keys.filter x.succeeds = (s.keys.filter (globMatches "nonce-map:*")).filter x.succeeds := by
    rw [List.filter_filter]
    refine List.filter_congr fun key _ => ?_
    unfold MapOutside.succeeds
    cases globMatches "nonce-map:*" key <;> simp
  calc ((x.found s).map fun key => numDeleted 0 (s.pipelined ⟨key, 0, -count⟩ (fates key)).1).sum
      = ((x.found s).map fun key => if x.succeeds key = true then removed key else 0).sum :=
        congrArg List.sum (List.map_congr_left hone)
    _ = (((x.found s).filter x.succeeds).map removed).sum := by
      rw [List.sum_map_ite]
      simp
    _ = ((s.keys.filter x.succeeds).map removed).sum := by
      rw [hfilter]
      exact (((x.keyOrder.perm _).filter _).map _).sum_eq

/-- A pruning keeps the newest members of the maps whose command succeeded exactly where each of these maps has
less members than are kept, or one at most when none are kept. -/
theorem keepsNewest_iff (count : ℕ) (x : MapOutside) (s : Keyspace) :
    (∃ total s', (pruneNonceMaps count).runWith Keyspace.mapEffect x.calls s = some (.ok total, s') ∧
      KeepsNewest count x s s' total) ↔
    ∀ key z, s.lookup key = some (.nonceMap z) → x.succeeds key = true →
      z.elems.length < count ∨ count = 0 ∧ z.elems.length ≤ 1 := by
  cases hfates : x.fates with
  | none =>
    have hnone : ∀ key, x.succeeds key = false := by
      intro key
      unfold MapOutside.succeeds
      rw [hfates, Bool.and_false]
    constructor
    · intro _ key z _ hsucceeds
      rw [hnone] at hsucceeds
      cases hsucceeds
    · intro _
      refine ⟨0, s, pruneNonceMaps_aborted hfates, ?_, ?_⟩
      · intro key z _ hsucceeds
        rw [hnone] at hsucceeds
        cases hsucceeds
      · rw [List.filter_eq_nil_iff.mpr fun key _ => by simp [hnone key]]
        rfl
  | some fates =>
    rw [pruneNonceMaps_run hfates]
    constructor
    · intro h key z hz hsucceeds
      obtain ⟨total, s', hrun, hkeeps⟩ := h
      cases hrun
      exact left_newest.mp ((mapAt_pruned hfates hz hsucceeds).symm.trans (hkeeps.newest key z hz hsucceeds))
    · intro h
      refine ⟨_, _, rfl, ?_, total_pruned hfates⟩
      intro key z hz hsucceeds
      exact (mapAt_pruned hfates hz hsucceeds).trans (left_newest.mpr (h key z hz hsucceeds))

/-- Redis answers every command, in the order of its keys. -/
def answering : MapOutside := ⟨⟨id, fun l => .refl l⟩, some fun _ => .answered⟩

/-- One wallet's map with two nonces. -/
def twoNonces : ZSet QueueId := ZSet.insert (ZSet.insert .empty 10 "e0fa731e") 11 "d111435a"

def mapOfTwo : Keyspace := (∅ : Keyspace).insert "nonce-map:137:0xaa" (.nonceMap twoNonces)

/-- Two are to be kept, and one is. -/
theorem not_keepsNewest : ¬ ∃ total s', (pruneNonceMaps 2).runWith Keyspace.mapEffect answering.calls mapOfTwo =
    some (.ok total, s') ∧ KeepsNewest 2 answering mapOfTwo s' total := by
  intro h
  obtain ⟨total, s', hrun, hkeeps⟩ := h
  have hfates : answering.fates = some fun _ => .answered := rfl
  have hz : mapOfTwo.lookup "nonce-map:137:0xaa" = some (.nonceMap twoNonces) := AList.lookup_insert _
  have hsucceeds : answering.succeeds "nonce-map:137:0xaa" = true := by decide
  rw [pruneNonceMaps_run hfates] at hrun
  cases hrun
  have hless := left_newest.mp ((mapAt_pruned hfates hz hsucceeds).symm.trans (hkeeps.newest _ _ hz hsucceeds))
  revert hless
  decide

end
end Engine.Nonces
