import Mathlib.Algebra.Order.Floor.Semiring
import Mathlib.Data.Rat.Floor
import Mathlib.Order.Interval.Finset.Nat
import Engine.Concurrent.Machine

/-! `server/middleware/rateLimit.ts`: any number of server processes count the requests of each
minute under one key, which expires. -/
namespace Engine.RateLimit
open Concurrent Program Function

inductive Err
  /-- The command was not performed. -/
  | refused
  /-- The command was performed, and its reply was lost. -/
  | lost
  | custom (message : String) (statusCode : ℕ) (code : String)
deriving DecidableEq

inductive Op
  /-- `new Date().getTime()` -/
  | now
  /-- `INCR rate-limit:global:<epochTimeInMinutes>` -/
  | incr (epochTimeInMinutes : ℕ)
  | expire (epochTimeInMinutes seconds : ℕ)
deriving DecidableEq

@[reducible] def Op.Reply : Op → Type
  | .now => ℕ
  | .incr _ => ℕ
  | .expire _ _ => Unit

abbrev Calls : Interface := ⟨Op, Op.Reply, fun _ => Unit, Err⟩

abbrev await (o : Op) : Program Calls o.Reply := Program.perform (I := Calls) o

/-- A Redis counter, and when it expires. -/
structure Counter where
  count : ℕ
  expiresAt : Option ℕ := none
deriving DecidableEq

/-- Times are in milliseconds since the epoch, of one clock that all servers and Redis go by. -/
structure World where
  now : ℕ
  counters : ℕ → Option Counter

namespace World

/-- The counter, unless it has expired. -/
def live (w : World) (m : ℕ) : Option Counter := (w.counters m).filter fun c => c.expiresAt.all fun t => w.now < t

def incremented (w : World) (m : ℕ) : Counter :=
  match w.live m with
  | some c => { c with count := c.count + 1 }
  | none => { count := 1 }

def expiring (w : World) (m seconds : ℕ) : Option Counter :=
  (w.live m).map fun c => { c with expiresAt := some (w.now + 1000 * seconds) }

def apply (w : World) : (o : Op) → o.Reply × World
  | .now => (w.now, w)
  | .incr m => ((w.incremented m).count, { w with counters := update w.counters m (some (w.incremented m)) })
  | .expire m seconds => ((), { w with counters := update w.counters m (w.expiring m seconds) })

/-- A command may be refused, or performed without its reply. -/
def effect (w : World) (o : Op) : Except Err Unit → Option (Except Err o.Reply × World)
  | .ok _ => some (.ok (w.apply o).1, (w.apply o).2)
  | .error .refused => if o = .now then none else some (.error .refused, w)
  | .error .lost => if o = .now then none else some (.error .lost, (w.apply o).2)
  | .error (.custom _ _ _) => none

end World

/-- `env.GLOBAL_RATE_LIMIT_PER_MIN`, a number and its text. -/
structure Limit where
  value : ℚ
  text : String

def tooManyRequests (limit : Limit) : Err :=
  .custom ("Too many requests. Please reduce your calls to " ++ limit.text ++
    " requests/minute or update the \"GLOBAL_RATE_LIMIT_PER_MIN\" env var.") 429 "TOO_MANY_REQUESTS"

def notLimited (url : String) : Bool := url = "/" || url = "/json"

def withRateLimit (limit : Limit) (url : String) : Program Calls Unit :=
  if notLimited url then pure ()
  else do
    let time ← await .now
    let epochTimeInMinutes := time / (1000 * 60)
    let count ← await (.incr epochTimeInMinutes)
    -- not awaited
    tryCatch (await (.expire epochTimeInMinutes (2 * 60))) fun _ => pure ()
    if limit.value < count then throw (tooManyRequests limit) else pure ()

inductive Kind
  | onRequest (url : String)
  | timePasses (milliseconds : ℕ)
deriving DecidableEq

/-- All server processes, the clock, and Redis. -/
abbrev servers (limit : Limit) : Machine Calls Unit where
  World := World
  Kind := Kind
  effect := World.effect
  start w
    | .onRequest url => some (withRateLimit limit url, w)
    | .timePasses milliseconds => some (pure (), { w with now := w.now + milliseconds })

/-- A counter is incremented less than a minute after its own minute. -/
def prompt (limit : Limit) : Guard (servers limit) where
  start _ _ := true
  call s _
    | .incr m, _ => s.world.now < 60000 * (m + 2)
    | _, _ => true

/-- The request `i` has read the clock in minute `m`. -/
def madeIn {limit : Limit} (s : State (servers limit)) (m i : ℕ) : Bool :=
  s.trace.any fun
    | ⟨j, .now, _, .ok t⟩ => j = i && t / 60000 = m
    | _ => false

/-- The request `i`, made in minute `m`, was let through. -/
def letThrough {limit : Limit} (s : State (servers limit)) (m i : ℕ) : Bool :=
  madeIn s m i && s.threads[i]?.any fun
    | (.onRequest _, .done _) => true
    | _ => false

/-- The request `i`, made in minute `m`, was refused because of the limit. -/
def turnedAway {limit : Limit} (s : State (servers limit)) (m i : ℕ) : Bool :=
  madeIn s m i && s.threads[i]?.any fun
    | (.onRequest _, .raise e) => e = tooManyRequests limit
    | _ => false

/-- The call increments the counter of minute `m`. -/
def increments (m : ℕ) (e : Event Calls) : Bool := e.op = .incr m && e.answer ≠ .error .refused

/-! ### Contract -/

/-- How far a request is. -/
inductive Progress
  | fresh (free : Bool)
  | timed (m : ℕ)
  | counted (m count : ℕ)
  | failed (m : ℕ)

namespace Progress

/-- The minute that the request was made in. -/
def minute : Progress → Option ℕ
  | fresh _ => none
  | timed m => some m
  | counted m _ => some m
  | failed m => some m

def next : Progress → (o : Op) → Except Err o.Reply → Progress
  | fresh _, .now, .ok t => timed (t / 60000)
  | timed m, .incr _, .ok count => counted m count
  | timed m, .incr _, .error _ => failed m
  | l, _, _ => l

def Allowed : Progress → Op → Prop
  | fresh free, .now => free = false
  | timed m, .incr m' => m' = m
  | counted m _, .expire m' seconds => m' = m ∧ seconds = 120
  | _, _ => False

def Ends (limit : Limit) : Progress → Except Err Unit → Prop
  | fresh free, .ok _ => free = true
  | counted _ count, .ok _ => count ≤ limit.value
  | counted _ count, .error e => e = tooManyRequests limit ∧ limit.value < count
  | failed _, .error e => e = .refused ∨ e = .lost
  | _, _ => False

end Progress

/-- A command that fails says so, and the clock does not. -/
def Op.possible : (o : Op) → Except Err o.Reply → Prop
  | .now, .error _ => False
  | _, .error e => e = .refused ∨ e = .lost
  | _, .ok _ => True

abbrev protocol : Protocol Calls where
  Local := Progress
  next := Progress.next
  allowed := Progress.Allowed
  possible := Op.possible

theorem follows_withRateLimit (limit : Limit) (url : String) :
    (withRateLimit limit url).Follows protocol (Progress.Ends limit) (.fresh (notLimited url)) := by
  unfold withRateLimit
  split_ifs with hurl
  · exact hurl
  · have hfree : notLimited url = false := by simpa using hurl
    refine follows_await (P := protocol) hfree (fun t _ => ?_) fun e he => he.elim
    refine follows_await (P := protocol) rfl (fun count _ => ?_) fun e he => he
    have hexpire : (tryCatch (await (.expire (t / (1000 * 60)) (2 * 60))) fun _ => pure () :
        Program Calls Unit).Follows protocol (fun l r => l = Progress.counted (t / 60000) count ∧ r = .ok ())
        (Progress.counted (t / 60000) count) := by
      refine Follows.handle (Q := fun l _ => l = Progress.counted (t / 60000) count) ?_ (fun l u hl => ⟨hl, rfl⟩)
        fun l e hl => ⟨hl, rfl⟩
      exact follows_perform (P := protocol) ⟨rfl, rfl⟩ fun r _ => by cases r <;> rfl
    refine hexpire.bind (fun l u hl => ?_) fun l e hl => by cases hl.2
    obtain ⟨rfl, -⟩ := hl
    split_ifs with hcount
    · exact ⟨rfl, hcount⟩
    · exact not_lt.mp hcount

theorem possible_of_effect {w w' : World} {o : Op} {a : Except Err Unit} {r : Except Err o.Reply}
    (h : w.effect o a = some (r, w')) : o.possible r := by
  cases a with
  | ok u =>
    obtain ⟨rfl, -⟩ := Prod.mk.inj (Option.some.inj h)
    cases o <;> trivial
  | error e =>
    cases e with
    | refused =>
      simp only [World.effect] at h
      split_ifs at h with ho
      obtain ⟨rfl, -⟩ := Prod.mk.inj (Option.some.inj h)
      cases o with
      | now => exact absurd rfl ho
      | _ => exact Or.inl rfl
    | lost =>
      simp only [World.effect] at h
      split_ifs at h with ho
      obtain ⟨rfl, -⟩ := Prod.mk.inj (Option.some.inj h)
      cases o with
      | now => exact absurd rfl ho
      | _ => exact Or.inr rfl
    | custom => cases h

def contract (limit : Limit) : Contract (servers limit) where
  toProtocol := protocol
  init
    | .onRequest url => .fresh (notLimited url)
    | .timePasses _ => .fresh true
  ends := Progress.Ends limit
  answers _ _ _ _ _ h := possible_of_effect h
  starts w k p w' h := by
    cases k with
    | onRequest url =>
      obtain ⟨rfl, -⟩ := Prod.mk.inj (Option.some.inj h)
      exact follows_withRateLimit limit url
    | timePasses milliseconds =>
      obtain ⟨rfl, -⟩ := Prod.mk.inj (Option.some.inj h)
      exact rfl

section
variable {limit : Limit} {G : Guard (servers limit)} {s s' : State (servers limit)} {w w' : World} {i j m n : ℕ}
  {l : Progress} {o : Op} {a : Except Err Unit} {r : Except Err o.Reply} {k : Kind}

/-- How far the request `i` is. -/
abbrev progress (s : State (servers limit)) (i : ℕ) : Option Progress := s.localOf (contract limit) i

abbrev Called (G : Guard (servers limit)) (s s' : State (servers limit)) (i : ℕ) (l : Progress) (o : Op)
    (a : Except Err Unit) (r : Except Err o.Reply) : Prop := Stepped (contract limit) G s s' i l o a r

/-! ### What a step does -/

theorem world_of_effect (h : w.effect o a = some (r, w')) :
    (a = .error .refused ∧ w' = w ∧ r = .error .refused) ∨ (w' = (w.apply o).2 ∧ a ≠ .error .refused ∧
      ∀ x, r = .ok x → x = (w.apply o).1) := by
  cases a with
  | ok u =>
    obtain ⟨rfl, rfl⟩ := Prod.mk.inj (Option.some.inj h)
    exact Or.inr ⟨rfl, nofun, fun x hx => (Except.ok.inj hx).symm⟩
  | error e =>
    cases e with
    | refused =>
      simp only [World.effect] at h
      split_ifs at h
      obtain ⟨rfl, rfl⟩ := Prod.mk.inj (Option.some.inj h)
      exact Or.inl ⟨rfl, rfl, rfl⟩
    | lost =>
      simp only [World.effect] at h
      split_ifs at h
      obtain ⟨rfl, rfl⟩ := Prod.mk.inj (Option.some.inj h)
      exact Or.inr ⟨rfl, nofun, nofun⟩
    | custom => cases h

theorem now_of_effect (h : w.effect o a = some (r, w')) : w'.now = w.now := by
  rcases world_of_effect h with ⟨-, rfl, -⟩ | ⟨rfl, -, -⟩
  · rfl
  · cases o <;> rfl

/-- Starting a request changes nothing, and time only passes. -/
theorem world_of_start (st : Started (contract limit) G s s' n k) :
    s'.world.counters = s.world.counters ∧ s.world.now ≤ s'.world.now ∧
      ∃ free, (contract limit).init k = .fresh free := by
  obtain ⟨p, hp⟩ := st.started
  cases k with
  | onRequest url =>
    have hw := (Prod.mk.inj (Option.some.inj hp)).2
    rw [← hw]
    exact ⟨rfl, Nat.le_refl _, _, rfl⟩
  | timePasses milliseconds =>
    have hw := (Prod.mk.inj (Option.some.inj hp)).2
    rw [← hw]
    exact ⟨rfl, Nat.le_add_right _ _, _, rfl⟩

theorem progress_after_call (st : Called G s s' i l o a r) {l' : Progress} (h : progress s' j = some l') :
    (j = i ∧ l' = l.next o r) ∨ (j ≠ i ∧ progress s j = some l') := by
  by_cases hj : j = i
  · subst hj
    exact Or.inl ⟨rfl, (Option.some.inj (st.self.symm.trans h)).symm⟩
  · exact Or.inr ⟨hj, (st.others j hj).symm.trans h⟩

theorem progress_after_start (st : Started (contract limit) G s s' n k) {l' : Progress}
    (h : progress s' j = some l') : (∃ free, l' = .fresh free) ∨ (j ≠ n ∧ progress s j = some l') := by
  by_cases hj : j = n
  · subst hj
    obtain ⟨free, hfree⟩ := (world_of_start st).2.2
    exact Or.inl ⟨free, (Option.some.inj (st.self.symm.trans h)).symm.trans hfree⟩
  · exact Or.inr ⟨hj, (st.others j hj).symm.trans h⟩

/-- Where a request can come from by one call. -/
theorem Progress.counted_of_next {count : ℕ} (h : l.next o r = .counted m count) :
    l = .counted m count ∨ ∃ m', l = .timed m ∧ o = .incr m' ∧ HEq r (Except.ok count : Except Err ℕ) := by
  cases l with
  | fresh free =>
    cases o with
    | now => cases r <;> cases h
    | _ => cases h
  | timed m' =>
    cases o with
    | incr m'' =>
      cases r with
      | ok c =>
        obtain ⟨rfl, rfl⟩ := Progress.counted.inj h
        exact Or.inr ⟨m'', rfl, rfl, HEq.rfl⟩
      | error e => cases h
    | _ => cases h
  | counted m' c => exact Or.inl h
  | failed m' => cases h

theorem Progress.minute_of_next (h : (l.next o r).minute = some m) :
    l.minute = some m ∨ ∃ free t, l = .fresh free ∧ o = .now ∧ HEq r (Except.ok t : Except Err ℕ) ∧ t / 60000 = m := by
  cases l with
  | fresh free =>
    cases o with
    | now =>
      cases r with
      | ok t => exact Or.inr ⟨free, t, rfl, rfl, HEq.rfl, Option.some.inj h⟩
      | error e => cases h
    | _ => cases h
  | timed m' =>
    cases o with
    | incr m'' => cases r <;> exact Or.inl h
    | _ => exact Or.inl h
  | counted m' c => exact Or.inl h
  | failed m' => exact Or.inl h

theorem Progress.minute_next (h : l.minute = some m) : (l.next o r).minute = some m := by
  cases l with
  | fresh free => cases h
  | timed m' =>
    cases o with
    | incr m'' => cases r <;> exact h
    | _ => exact h
  | counted m' c => exact h
  | failed m' => exact h

/-! ### Every request is in one minute -/

/-- A request that has read the clock is in the minute that it read. -/
theorem minute_of_madeIn {w : World} (h : Reachable G (State.initial w) s) (hm : madeIn s m i = true) :
    ∃ l, progress s i = some l ∧ l.minute = some m := by
  refine h.invariant (contract limit) (fun s => madeIn s m i = true → ∃ l, progress s i = some l ∧ l.minute = some m)
    ?_ ?_ ?_ hm
  · intro hm
    cases hm
  · intro s s' n k _ ih st hm
    unfold madeIn at hm
    rw [st.traced] at hm
    obtain ⟨l, hl, hminute⟩ := ih hm
    have hne : i ≠ n := by
      rintro rfl
      cases st.unused.symm.trans hl
    exact ⟨l, (st.others i hne).trans hl, hminute⟩
  · intro s s' j l o a r _ ih st hm
    unfold madeIn at hm
    rw [st.traced, List.any_cons, Bool.or_eq_true] at hm
    rcases hm with hnew | hold
    · cases o with
      | now =>
        cases r with
        | error e => cases hnew
        | ok t =>
          have htime : (decide (j = i) && decide (t / 60000 = m)) = true := hnew
          rw [Bool.and_eq_true, decide_eq_true_eq, decide_eq_true_eq] at htime
          obtain ⟨rfl, rfl⟩ := htime
          have hallowed : l.Allowed .now := st.allowed
          cases l with
          | fresh free => exact ⟨_, st.self, rfl⟩
          | timed m => exact hallowed.elim
          | counted m c => exact hallowed.elim
          | failed m => exact hallowed.elim
      | incr m' => cases r <;> cases hnew
      | expire m' seconds => cases r <;> cases hnew
    · obtain ⟨l', hl', hminute⟩ := ih hold
      by_cases hij : i = j
      · subst hij
        obtain rfl := Option.some.inj (st.caller.symm.trans hl')
        exact ⟨_, st.self, Progress.minute_next hminute⟩
      · exact ⟨l', (st.others i hij).trans hl', hminute⟩

/-- A request that was let through was counted in its minute, within the limit. -/
theorem counted_of_letThrough {w : World} (h : Reachable G (State.initial w) s) (hi : letThrough s m i = true) :
    ∃ count, progress s i = some (.counted m count) ∧ count ≤ limit.value := by
  unfold letThrough at hi
  rw [Bool.and_eq_true, Option.any_eq_true] at hi
  obtain ⟨hm, ⟨k, p⟩, hthread, hdone⟩ := hi
  obtain ⟨l, hl, hminute⟩ := minute_of_madeIn h hm
  have hfollows := (h.conforms (contract limit)).follows i k p hthread
  rw [Option.some.inj ((localOf_eq (contract limit) hthread).symm.trans hl)] at hfollows
  cases k with
  | timePasses milliseconds => cases hdone
  | onRequest url =>
    cases p with
    | done u =>
      have hends : Progress.Ends limit l (.ok u) := hfollows
      cases l with
      | fresh free => cases hminute
      | timed m' => exact hends.elim
      | counted m' c =>
        obtain rfl : m' = m := Option.some.inj hminute
        exact ⟨c, hl, hends⟩
      | failed m' => exact hends.elim
    | raise e => cases hdone
    | call o next => cases hdone

/-- A request that was turned away was counted in its minute, above the limit. -/
theorem counted_of_turnedAway {w : World} (h : Reachable G (State.initial w) s) (hi : turnedAway s m i = true) :
    ∃ count, progress s i = some (.counted m count) ∧ limit.value < count := by
  unfold turnedAway at hi
  rw [Bool.and_eq_true, Option.any_eq_true] at hi
  obtain ⟨hm, ⟨k, p⟩, hthread, hraised⟩ := hi
  obtain ⟨l, hl, hminute⟩ := minute_of_madeIn h hm
  have hfollows := (h.conforms (contract limit)).follows i k p hthread
  rw [Option.some.inj ((localOf_eq (contract limit) hthread).symm.trans hl)] at hfollows
  cases k with
  | timePasses milliseconds => cases hraised
  | onRequest url =>
    cases p with
    | done u => cases hraised
    | raise e =>
      obtain rfl : e = tooManyRequests limit := of_decide_eq_true hraised
      have hends : Progress.Ends limit l (.error (tooManyRequests limit)) := hfollows
      cases l with
      | fresh free => cases hminute
      | timed m' => exact hends.elim
      | counted m' c =>
        obtain rfl : m' = m := Option.some.inj hminute
        exact ⟨c, hl, hends.2⟩
      | failed m' => rcases hends with hends | hends <;> cases hends
    | call o next => cases hraised

/-! ### No more than the limit -/

/-- The counters while requests of their minute are counted: they go up, and do not expire. -/
structure Counting (s : State (servers limit)) : Prop where
  past : ∀ i l m, progress s i = some l → l.minute = some m → 60000 * m ≤ s.world.now
  below : ∀ i m count, progress s i = some (.counted m count) → 1 ≤ count ∧
    (60000 * (m + 2) ≤ s.world.now ∨ ∃ c, s.world.counters m = some c ∧ count ≤ c.count)
  distinct : ∀ i j m count, progress s i = some (.counted m count) → progress s j = some (.counted m count) → i = j
  expiry : ∀ m c t, s.world.counters m = some c → c.expiresAt = some t → 60000 * (m + 2) ≤ t

/-- A counter that has not expired is incremented by one. -/
theorem incremented_eq (hw : ∀ c t, w.counters m = some c → c.expiresAt = some t → w.now < t) :
    w.incremented m = { (w.counters m).getD { count := 0 } with
      count := ((w.counters m).getD { count := 0 }).count + 1 } := by
  unfold World.incremented World.live
  cases hc : w.counters m with
  | none => rfl
  | some c =>
    have hlive : (c.expiresAt.all fun t => decide (w.now < t)) = true := by
      cases ht : c.expiresAt with
      | none => rfl
      | some t => exact decide_eq_true (hw c t hc ht)
    rw [Option.filter_some, if_pos hlive]
    rfl

theorem Counting.start (h : Counting s) (st : Started (contract limit) G s s' n k) : Counting s' := by
  obtain ⟨hcounters, hnow, -⟩ := world_of_start st
  refine ⟨fun i l m hl hm => ?_, fun i m count hi => ?_, fun i j m count hi hj => ?_, fun m c t hc ht => ?_⟩
  · rcases progress_after_start st hl with ⟨free, rfl⟩ | ⟨-, hold⟩
    · cases hm
    · have hpast := h.past i l m hold hm
      omega
  · rcases progress_after_start st hi with ⟨free, hfree⟩ | ⟨-, hold⟩
    · cases hfree
    · obtain ⟨hpos, hbelow⟩ := h.below i m count hold
      refine ⟨hpos, ?_⟩
      rcases hbelow with hlate | ⟨c, hc, hle⟩
      · exact Or.inl (hlate.trans hnow)
      · exact Or.inr ⟨c, hcounters ▸ hc, hle⟩
  · rcases progress_after_start st hi with ⟨free, hfree⟩ | ⟨-, hi⟩
    · cases hfree
    · rcases progress_after_start st hj with ⟨free, hfree⟩ | ⟨-, hj⟩
      · cases hfree
      · exact h.distinct i j m count hi hj
  · rw [hcounters] at hc
    exact h.expiry m c t hc ht

/-- The counters after a command: one was incremented, or given its time to live, or they are as they were. -/
theorem counters_of_effect (h : w.effect o a = some (r, w')) :
    w'.counters = w.counters ∨ (∃ m, o = .incr m ∧ w'.counters = update w.counters m (some (w.incremented m))) ∨
      ∃ m seconds, o = .expire m seconds ∧ w'.counters = update w.counters m (w.expiring m seconds) := by
  rcases world_of_effect h with ⟨-, rfl, -⟩ | ⟨rfl, -, -⟩
  · exact Or.inl rfl
  · cases o with
    | now => exact Or.inl rfl
    | incr m => exact Or.inr (Or.inl ⟨m, rfl, rfl⟩)
    | expire m seconds => exact Or.inr (Or.inr ⟨m, seconds, rfl, rfl⟩)

theorem Counting.past_call (h : Counting s) (st : Called G s s' i l o a r) {l' : Progress}
    (hl' : progress s' j = some l') (hm : l'.minute = some m) : 60000 * m ≤ s'.world.now := by
  have hnow := now_of_effect st.performed
  rcases progress_after_call st hl' with ⟨rfl, rfl⟩ | ⟨-, hold⟩
  · rcases Progress.minute_of_next hm with hold | ⟨free, t, rfl, rfl, hr, rfl⟩
    · have hpast := h.past j l m st.caller hold
      omega
    · -- the clock was read just now
      obtain rfl := eq_of_heq hr
      rcases world_of_effect st.performed with ⟨-, -, hrefused⟩ | ⟨-, -, hreply⟩
      · cases hrefused
      · have ht : t = s.world.now := hreply t rfl
        omega
  · have hpast := h.past j l' m hold hm
    omega

/-- A counter that a request may increment has not expired. -/
theorem Counting.live (h : Counting s) (hnow : s.world.now < 60000 * (m + 2)) :
    s.world.incremented m = { (s.world.counters m).getD { count := 0 } with
      count := ((s.world.counters m).getD { count := 0 }).count + 1 } := by
  refine incremented_eq fun c t hc ht => ?_
  have hexpiry := h.expiry m c t hc ht
  omega

/-- What was counted before is below the counter. -/
theorem Counting.lt_incremented (h : Counting s) (hnow : s.world.now < 60000 * (m + 2)) {count : ℕ}
    (hi : progress s i = some (.counted m count)) : count < (s.world.incremented m).count := by
  rw [h.live hnow]
  obtain ⟨-, hlate | ⟨c, hc, hle⟩⟩ := h.below i m count hi
  · omega
  · rw [hc]
    exact Nat.lt_succ_of_le hle

/-- The request that was just counted. -/
theorem Called.count_eq {count : ℕ}
    (st : Called (prompt limit) s s' i (.timed m) (.incr n) a (.ok count : Except Err ℕ)) :
    n = m ∧ s.world.now < 60000 * (m + 2) ∧ count = (s.world.incremented m).count ∧
      s'.world.counters = update s.world.counters m (some (s.world.incremented m)) := by
  obtain rfl : n = m := st.allowed
  have hgranted : s.world.now < 60000 * (n + 2) := of_decide_eq_true st.granted
  rcases world_of_effect st.performed with ⟨-, -, hrefused⟩ | ⟨hw, -, hreply⟩
  · cases hrefused
  · exact ⟨rfl, hgranted, hreply count rfl, congrArg World.counters hw⟩

/-- An earlier count stays below its counter. -/
theorem Counting.below_kept (h : Counting s) (st : Called (prompt limit) s s' i l o a r) {count : ℕ}
    (hj : progress s j = some (.counted m count)) :
    60000 * (m + 2) ≤ s'.world.now ∨ ∃ c, s'.world.counters m = some c ∧ count ≤ c.count := by
  have hnow := now_of_effect st.performed
  rcases (h.below j m count hj).2 with hlate | ⟨c, hc, hle⟩
  · exact Or.inl (hnow ▸ hlate)
  · rcases counters_of_effect st.performed with hsame | ⟨m', rfl, hincr⟩ | ⟨m', seconds, rfl, hexpire⟩
    · exact Or.inr ⟨c, hsame ▸ hc, hle⟩
    · by_cases hm : m = m'
      · subst hm
        have hgranted : s.world.now < 60000 * (m + 2) := of_decide_eq_true st.granted
        have hlt := h.lt_incremented hgranted hj
        refine Or.inr ⟨_, ?_, hlt.le⟩
        rw [hincr, update_self]
      · refine Or.inr ⟨c, ?_, hle⟩
        rw [hincr, update_of_ne hm]
        exact hc
    · by_cases hm : m = m'
      · subst hm
        by_cases hlate : 60000 * (m + 2) ≤ s.world.now
        · exact Or.inl (hnow ▸ hlate)
        · have hlive : (c.expiresAt.all fun t => decide (s.world.now < t)) = true := by
            cases ht : c.expiresAt with
            | none => rfl
            | some t =>
              have hexpiry := h.expiry m c t hc ht
              exact decide_eq_true (by omega)
          refine Or.inr ⟨{ c with expiresAt := some (s.world.now + 1000 * seconds) }, ?_, hle⟩
          rw [hexpire, update_self]
          unfold World.expiring World.live
          rw [hc, Option.filter_some, if_pos hlive]
          rfl
      · refine Or.inr ⟨c, ?_, hle⟩
        rw [hexpire, update_of_ne hm]
        exact hc

theorem Counting.below_call (h : Counting s) (st : Called (prompt limit) s s' i l o a r) {count : ℕ}
    (hj : progress s' j = some (.counted m count)) : 1 ≤ count ∧
      (60000 * (m + 2) ≤ s'.world.now ∨ ∃ c, s'.world.counters m = some c ∧ count ≤ c.count) := by
  have hkept : ∀ j, progress s j = some (.counted m count) → 1 ≤ count ∧
      (60000 * (m + 2) ≤ s'.world.now ∨ ∃ c, s'.world.counters m = some c ∧ count ≤ c.count) :=
    fun j hj => ⟨(h.below j m count hj).1, h.below_kept st hj⟩
  rcases progress_after_call st hj with ⟨rfl, hnext⟩ | ⟨-, hold⟩
  · rcases Progress.counted_of_next hnext.symm with rfl | ⟨m', rfl, rfl, hr⟩
    · exact hkept j st.caller
    · obtain rfl := eq_of_heq hr
      obtain ⟨rfl, hgranted, rfl, hcounters⟩ := Called.count_eq st
      refine ⟨?_, Or.inr ⟨_, ?_, Nat.le_refl _⟩⟩
      · rw [h.live hgranted]
        exact Nat.le_add_left 1 _
      · rw [hcounters, update_self]
  · exact hkept j hold

/-- A new count is above all others. -/
theorem Counting.distinct_call (h : Counting s) (st : Called (prompt limit) s s' i l o a r) {count : ℕ}
    (hj : progress s' j = some (.counted m count)) (hj' : progress s' n = some (.counted m count)) : j = n := by
  have hnew : ∀ n, l.next o r = .counted m count → progress s n = some (.counted m count) → n = i := by
    intro n hnext hn
    rcases Progress.counted_of_next hnext with rfl | ⟨m', rfl, rfl, hr⟩
    · exact h.distinct n i m count hn st.caller
    · obtain rfl := eq_of_heq hr
      obtain ⟨rfl, hgranted, rfl, -⟩ := Called.count_eq st
      exact absurd (h.lt_incremented hgranted hn) (Nat.lt_irrefl _)
  rcases progress_after_call st hj with ⟨rfl, hnext⟩ | ⟨hne, hj⟩ <;>
    rcases progress_after_call st hj' with ⟨rfl, hnext'⟩ | ⟨hne', hj'⟩
  · rfl
  · exact (hnew n hnext.symm hj').symm
  · exact hnew j hnext'.symm hj
  · exact h.distinct j n m count hj hj'

theorem Counting.expiry_call (h : Counting s) (st : Called (prompt limit) s s' i l o a r) {c : Counter} {t : ℕ}
    (hc : s'.world.counters m = some c) (ht : c.expiresAt = some t) : 60000 * (m + 2) ≤ t := by
  rcases counters_of_effect st.performed with hsame | ⟨m', rfl, hincr⟩ | ⟨m', seconds, rfl, hexpire⟩
  · exact h.expiry m c t (hsame ▸ hc) ht
  · by_cases hm : m = m'
    · subst hm
      have hgranted : s.world.now < 60000 * (m + 2) := of_decide_eq_true st.granted
      rw [hincr, update_self, h.live hgranted] at hc
      obtain rfl := Option.some.inj hc
      cases hold : s.world.counters m with
      | none =>
        rw [hold] at ht
        cases ht
      | some c =>
        rw [hold] at ht
        exact h.expiry m c t hold ht
    · rw [hincr, update_of_ne hm] at hc
      exact h.expiry m c t hc ht
  · by_cases hm : m = m'
    · subst hm
      have hallowed : l.Allowed (.expire m seconds) := st.allowed
      cases l with
      | counted m' count =>
        -- two minutes from a moment that is not before the minute
        obtain ⟨rfl, rfl⟩ : m = m' ∧ seconds = 120 := hallowed
        have hpast := h.past i (.counted m count) m st.caller rfl
        rw [hexpire, update_self] at hc
        obtain ⟨c', -, rfl⟩ := Option.map_eq_some_iff.mp hc
        obtain rfl := Option.some.inj ht
        omega
      | fresh free => exact hallowed.elim
      | timed m' => exact hallowed.elim
      | failed m' => exact hallowed.elim
    · rw [hexpire, update_of_ne hm] at hc
      exact h.expiry m c t hc ht

theorem Counting.call (h : Counting s) (st : Called (prompt limit) s s' i l o a r) : Counting s' :=
  ⟨fun _ _ _ hl' hm => h.past_call st hl' hm, fun _ _ _ hj => h.below_call st hj,
    fun _ _ _ _ hj hj' => h.distinct_call st hj hj', fun _ _ _ hc ht => h.expiry_call st hc ht⟩

theorem counting (hw : ∀ m, w.counters m = none) (h : Reachable (prompt limit) (State.initial w) s) : Counting s := by
  refine h.invariant (contract limit) Counting ?_ (fun _ _ _ _ _ ih st => ih.start st)
    (fun _ _ _ _ _ _ _ _ ih st => ih.call st)
  refine ⟨fun i l m hl => ?_, fun i m count hi => ?_, fun i j m count hi => ?_, fun m c t hc => ?_⟩
  · cases hl
  · cases hi
  · cases hi
  · cases (hw m).symm.trans hc

/-- The number that a request was counted with. -/
def countOf (s : State (servers limit)) (i : ℕ) : ℕ :=
  match progress s i with
  | some (.counted _ count) => count
  | _ => 0

/-- Over all server processes, which go by one clock, no more requests of one minute are let through than the limit
says. Those of `/` and `/json`, which read no clock, are not among them. -/
theorem let_through_le (hw : ∀ m, w.counters m = none) (h : Reachable (prompt limit) (State.initial w) s) {is : List ℕ}
    (hnodup : is.Nodup) (his : ∀ i ∈ is, letThrough s m i = true) : is.length ≤ ⌊limit.value⌋₊ := by
  have hcounting := counting hw h
  have hcounted : ∀ i ∈ is, ∃ count, progress s i = some (.counted m count) ∧ countOf s i = count ∧
      1 ≤ count ∧ count ≤ ⌊limit.value⌋₊ := by
    intro i hi
    obtain ⟨count, hl, hle⟩ := counted_of_letThrough h (his i hi)
    have hpos := (hcounting.below i m count hl).1
    refine ⟨count, hl, ?_, hpos, Nat.le_floor hle⟩
    unfold countOf
    rw [hl]
  have hmaps : ∀ i ∈ is.toFinset, countOf s i ∈ Finset.Icc 1 ⌊limit.value⌋₊ := by
    intro i hi
    obtain ⟨count, -, hcount, hpos, hle⟩ := hcounted i (List.mem_toFinset.mp hi)
    rw [hcount]
    exact Finset.mem_Icc.mpr ⟨hpos, hle⟩
  have hinj : Set.InjOn (countOf s) is.toFinset := by
    intro i hi j hj hij
    obtain ⟨count, hl, hcount, -⟩ := hcounted i (List.mem_toFinset.mp hi)
    obtain ⟨count', hl', hcount', -⟩ := hcounted j (List.mem_toFinset.mp hj)
    have hsame : count = count' := hcount.symm.trans (hij.trans hcount')
    exact hcounting.distinct i j m count hl (hsame ▸ hl')
  have hcard := Finset.card_le_card_of_injOn (countOf s) hmaps hinj
  rw [List.toFinset_card_of_nodup hnodup, Nat.card_Icc] at hcard
  omega

/-- Three requests of one minute, where two are allowed. The second one is counted between the clock and the count of
the first one, whose expiry is not set. -/
def threeRequests : List (Move (servers ⟨2, "2"⟩)) :=
  [.start (.onRequest "/chain/get-all"), .start (.onRequest "/json"), .start (.onRequest "/chain/get-all"),
    .call 0 fun _ => .ok (), .call 2 fun _ => .ok (), .call 2 fun _ => .ok (), .call 2 fun _ => .ok (),
    .start (.timePasses 5000), .start (.onRequest "/chain/get-all"), .call 0 fun _ => .ok (),
    .call 0 fun _ => .error .refused, .call 4 fun _ => .ok (), .call 4 fun _ => .ok (), .call 4 fun _ => .error .lost]

theorem let_through_le_twoOfThree : ∃ s : State (servers ⟨2, "2"⟩), letThrough s 0 0 = true ∧
    letThrough s 0 2 = true ∧ turnedAway s 0 4 = true ∧ [0, 2].length ≤ ⌊(2 : ℚ)⌋₊ := by
  obtain ⟨s, hs, hr⟩ := exists_reachable_of_run (prompt ⟨2, "2"⟩) ⟨0, fun _ => none⟩ threeRequests
    (fun s => letThrough s 0 0 && letThrough s 0 2 && turnedAway s 0 4) (by decide +kernel)
  simp only [Bool.and_eq_true] at hr
  obtain ⟨⟨hfirst, hsecond⟩, hthird⟩ := hr
  refine ⟨s, hfirst, hsecond, hthird, let_through_le (m := 0) (fun _ => rfl) hs (by decide) fun i hi => ?_⟩
  rw [List.mem_cons, List.mem_singleton] at hi
  rcases hi with rfl | rfl
  · exact hfirst
  · exact hsecond

/-! ### No request is turned away early -/

/-- Neither a counter nor a count exceeds the number of increments. -/
structure Bounded (s : State (servers limit)) : Prop where
  counter : ∀ m c, s.world.counters m = some c → c.count ≤ s.trace.countP (increments m)
  counted : ∀ i m count, progress s i = some (.counted m count) → count ≤ s.trace.countP (increments m)

private theorem count_incremented_le (h : ∀ c, w.counters m = some c → c.count ≤ n) :
    (w.incremented m).count ≤ n + 1 := by
  unfold World.incremented World.live
  cases hc : w.counters m with
  | none => exact Nat.le_add_left 1 n
  | some c =>
    rw [Option.filter_some]
    split_ifs
    · exact Nat.succ_le_succ (h c hc)
    · exact Nat.le_add_left 1 n

theorem bounded (hw : ∀ m, w.counters m = none) (h : Reachable G (State.initial w) s) : Bounded s := by
  refine h.invariant (contract limit) Bounded ?_ ?_ ?_
  · refine ⟨fun m c hc => ?_, fun i m count hi => ?_⟩
    · cases (hw m).symm.trans hc
    · cases hi
  · intro s s' n k _ ih st
    refine ⟨fun m c hc => ?_, fun i m count hi => ?_⟩
    · rw [(world_of_start st).1] at hc
      rw [st.traced]
      exact ih.counter m c hc
    · rw [st.traced]
      rcases progress_after_start st hi with ⟨free, hfree⟩ | ⟨-, hold⟩
      · cases hfree
      · exact ih.counted i m count hold
  · intro s s' i l o a r _ ih st
    have hmono : ∀ m, s.trace.countP (increments m) ≤ s'.trace.countP (increments m) := by
      intro m
      rw [st.traced, List.countP_cons]
      exact Nat.le_add_right _ _
    -- a counter that was incremented has one more increment in the trace
    have hincremented : ∀ m, o = .incr m → a ≠ .error .refused →
        (s.world.incremented m).count ≤ s'.trace.countP (increments m) := by
      intro m ho ha
      have hone : increments m ⟨i, o, a, r⟩ = true := by
        unfold increments
        rw [Bool.and_eq_true]
        exact ⟨decide_eq_true ho, decide_eq_true ha⟩
      rw [st.traced, List.countP_cons, if_pos hone]
      exact count_incremented_le fun c hc => ih.counter m c hc
    refine ⟨fun m c hc => ?_, fun j m count hj => ?_⟩
    · rcases world_of_effect st.performed with ⟨-, hsame, -⟩ | ⟨hw', ha, -⟩
      · rw [hsame] at hc
        exact (ih.counter m c hc).trans (hmono m)
      · rcases counters_of_effect st.performed with hsame | ⟨m', ho, hincr⟩ | ⟨m', seconds, ho, hexpire⟩
        · rw [hsame] at hc
          exact (ih.counter m c hc).trans (hmono m)
        · by_cases hm : m = m'
          · subst hm
            rw [hincr, update_self] at hc
            obtain rfl := Option.some.inj hc
            exact hincremented m ho ha
          · rw [hincr, update_of_ne hm] at hc
            exact (ih.counter m c hc).trans (hmono m)
        · by_cases hm : m = m'
          · subst hm
            rw [hexpire, update_self] at hc
            obtain ⟨c', hc', rfl⟩ := Option.map_eq_some_iff.mp hc
            exact (ih.counter m c' (Option.filter_eq_some_iff.mp hc').1).trans (hmono m)
          · rw [hexpire, update_of_ne hm] at hc
            exact (ih.counter m c hc).trans (hmono m)
    · rcases progress_after_call st hj with ⟨rfl, hnext⟩ | ⟨-, hold⟩
      · rcases Progress.counted_of_next hnext.symm with rfl | ⟨m', rfl, rfl, hr⟩
        · exact (ih.counted j m count st.caller).trans (hmono m)
        · obtain rfl : m' = m := st.allowed
          obtain rfl := eq_of_heq hr
          rcases world_of_effect st.performed with ⟨-, -, hrefused⟩ | ⟨-, ha, hreply⟩
          · cases hrefused
          · have hcount : count = (s.world.incremented m').count := hreply count rfl
            rw [hcount]
            exact hincremented m' rfl ha
      · exact (ih.counted j m count hold).trans (hmono m)

/-- A request is turned away only when more requests than the limit says were counted in its minute. -/
theorem turned_away_above (hw : ∀ m, w.counters m = none) (h : Reachable G (State.initial w) s)
    (hi : turnedAway s m i = true) : limit.value < s.trace.countP (increments m) := by
  obtain ⟨count, hl, hlt⟩ := counted_of_turnedAway h hi
  have hle := (bounded hw h).counted i m count hl
  have hcast : (count : ℚ) ≤ s.trace.countP (increments m) := by exact_mod_cast hle
  exact hlt.trans_le hcast

/-- Two requests of one minute, where one is allowed. -/
def twoRequests : List (Move (servers ⟨1, "1"⟩)) :=
  [.start (.onRequest "/chain/get-all"), .start (.timePasses 5000), .start (.onRequest "/chain/get-all")] ++
    (List.replicate 3 (.call 0 fun _ => .ok ())) ++ (List.replicate 3 (.call 2 fun _ => .ok ()))

theorem turned_away_above_second : ∃ s : State (servers ⟨1, "1"⟩), turnedAway s 0 2 = true ∧
    (1 : ℚ) < s.trace.countP (increments 0) := by
  obtain ⟨s, hs, hr⟩ := exists_reachable_of_run (prompt ⟨1, "1"⟩) ⟨0, fun _ => none⟩ twoRequests
    (fun s => turnedAway s 0 2) (by decide +kernel)
  exact ⟨s, hr, turned_away_above (fun _ => rfl) hs hr⟩

end
end Engine.RateLimit
