import Engine.Auth.Decision
import Engine.Revocation.Contract

/-! After a revocation: what has to hold of the cache and of the lookups that are on their
way for no later request to be authenticated. -/
namespace Engine.Revocation

open Concurrent Program
open Auth (Tokens Outside Thrown)

/-- A revocation of a token: by its row, or a logout with it. An empty token is none. -/
def Kind.revokes (o : Outside) (jwt : String) : Kind → Prop
  | .revokeAccessToken id => idOf o jwt = some id
  | .logout token => truthy token = some jwt
  | _ => False

/-- A request with a token. -/
def Kind.requests (jwt : String) : Kind → Prop
  | .accessToken jwt' => jwt' = jwt
  | .websocket jwt' => jwt' = jwt
  | _ => False

/-- Once a revocation of a token has succeeded, no request with it that starts then is authenticated. -/
def RevocationEffective (o : Outside) (G : Guard (tokenRequests o)) (w : World) : Prop :=
  ∀ s s' : State (tokenRequests o), Reachable G (State.initial w) s → Reachable G s s' →
    ∀ i n jwt k k', s.returned i = some (k, .success) → Kind.revokes o jwt k →
      s.threads.length ≤ n → s'.returned n = some (k', .authenticated) → ¬ Kind.requests jwt k'

/-- A row of the token that is not revoked. -/
def isActive (id : String) (row : Tokens) : Bool := row.id = id ∧ row.revokedAt = none

/-- A lookup that has read such a row, and has not cached it. -/
def Phase.holds (id : String) : Phase → Bool
  | .found _ row => isActive id row
  | _ => false

section
variable {o : Outside}

/-- A lookup on its way has read a row of the token that was not revoked. -/
def lookupHolds (s : State (tokenRequests o)) (id : String) : Bool :=
  (List.range s.threads.length).any fun i => (s.localOf (tokenContract o) i).any (·.holds id)

/-- The cache has such a row. -/
def World.holds (w : World) (id : String) : Bool := w.accessTokenCache.any fun entry => entry.2.any (isActive id)

/-- When a revocation clears the cache, no lookup on its way has read the row before it was
revoked. When a logout tries to write the row, neither a lookup nor the cache has it as it was
before, and if that throws the row is revoked already or not there. -/
def freshRevocations (o : Outside) : Guard (tokenRequests o) where
  start _ _ := true
  call s i op a :=
    match s.localOf (tokenContract o) i, op with
    | some (.revoked id), .clearCache => !lookupHolds s id
    | some (.leaving _), .updateRevokedAt id =>
      !lookupHolds s id && !s.world.holds id && (a.isOk || !s.world.tokens.rows.any (isActive id))
    | _, _ => true

def anyOrder (o : Outside) : Guard (tokenRequests o) where
  start _ _ := true
  call _ _ _ _ := true

/-- Nothing says any more that the token is active. -/
structure Dead (s : State (tokenRequests o)) (id : String) : Prop where
  rows : ∀ row ∈ s.world.tokens.rows, isActive id row = false
  cache : ∀ jwt row, (jwt, some row) ∈ s.world.accessTokenCache → isActive id row = false
  found : ∀ i jwt row, s.localOf (tokenContract o) i = some (.found jwt row) → isActive id row = false

/-- A row that is cached or held is the one that the token names. -/
structure Named (s : State (tokenRequests o)) : Prop where
  cache : ∀ jwt row, (jwt, some row) ∈ s.world.accessTokenCache → idOf o jwt = some row.id
  found : ∀ i jwt row, s.localOf (tokenContract o) i = some (.found jwt row) → idOf o jwt = some row.id
  checked : ∀ i jwt row, s.localOf (tokenContract o) i = some (.checked jwt row) → idOf o jwt = some row.id

variable {G : Guard (tokenRequests o)} {s s' : State (tokenRequests o)} {i n : ℕ} {l : Phase} {op : Op}
  {a : Except Thrown op.Choice} {r : Except Thrown op.Reply} {id : String} {w w' : World} {k : Kind}

abbrev Asked (G : Guard (tokenRequests o)) (s s' : State (tokenRequests o)) (i : ℕ) (l : Phase) (op : Op)
    (a : Except Thrown op.Choice) (r : Except Thrown op.Reply) : Prop := Stepped (tokenContract o) G s s' i l op a r

theorem world_of_started (st : Started (tokenContract o) G s s' n k) : s'.world = s.world := by
  obtain ⟨p, hp⟩ := st.started
  cases k <;> exact (Prod.mk.inj (Option.some.inj hp)).2.symm

private theorem isActive_revokeRow {id' : String} {now : ℕ} {row : Tokens} (h : isActive id row = false) :
    isActive id (World.revokeRow id' now row) = false := by
  unfold World.revokeRow
  split_ifs with hid
  · simp [isActive]
  · exact h

/-- What is not active does not become active. -/
theorem rows_of_effect (he : w.effect op a = some (r, w')) (h : ∀ row ∈ w.tokens.rows, isActive id row = false) :
    ∀ row ∈ w'.tokens.rows, isActive id row = false := by
  obtain ⟨e, -, -, rfl⟩ | ⟨c, x, -, -, hx⟩ := World.effect_cases he
  · exact h
  · cases op with
    | updateRevokedAt id' =>
      simp only [World.apply] at hx
      split_ifs at hx
      cases Option.some.inj hx
      intro row hrow
      obtain ⟨row', hrow', rfl⟩ := List.mem_map.mp hrow
      exact isActive_revokeRow (h row' hrow')
    | _ =>
      cases Option.some.inj hx
      exact h

/-- A cached entry was cached before, or is what the call sets. -/
theorem cached_of_effect {entry : String × Option Tokens} (he : w.effect op a = some (r, w'))
    (h : entry ∈ w'.accessTokenCache) : entry ∈ w.accessTokenCache ∨ op = .setCached entry.1 entry.2 := by
  obtain ⟨e, -, -, rfl⟩ | ⟨c, x, -, -, hx⟩ := World.effect_cases he
  · exact Or.inl h
  · cases op with
    | setCached jwt accessToken =>
      cases Option.some.inj hx
      obtain rfl | h := List.mem_cons.mp h
      · exact Or.inr rfl
      · exact Or.inl (List.mem_of_mem_filter h)
    | clearCache =>
      cases Option.some.inj hx
      cases h
    | updateRevokedAt id =>
      simp only [World.apply] at hx
      split_ifs at hx
      cases Option.some.inj hx
      exact Or.inl h
    | _ =>
      cases Option.some.inj hx
      exact Or.inl h

/-- A row that is looked up is in the table. -/
theorem row_of_findToken {row : Tokens} {a : Except Thrown (Op.findToken id).Choice}
    (he : w.effect (.findToken id) a = some (.ok (some row), w')) : row ∈ w.tokens.rows ∧ row.id = id := by
  obtain ⟨e, -, hr, -⟩ | ⟨c, x, -, hr, hx⟩ := World.effect_cases he
  · cases hr
  · have hfind : w.tokens.find? id = x := (Prod.mk.inj (Option.some.inj hx)).1
    rw [← Except.ok.inj hr] at hfind
    exact Keyset.Table.find?_eq_some.mp hfind

/-- A row that is read from the cache is cached. -/
theorem cached_of_getCached {jwt : String} {row : Tokens} {a : Except Thrown (Op.getCached jwt).Choice}
    (he : w.effect (.getCached jwt) a = some (.ok (some (some row)), w')) : (jwt, some row) ∈ w.accessTokenCache := by
  obtain ⟨e, -, hr, -⟩ | ⟨c, x, -, hr, hx⟩ := World.effect_cases he
  · cases hr
  · have hlookup : w.accessTokenCache.lookup jwt = x := (Prod.mk.inj (Option.some.inj hx)).1
    rw [← Except.ok.inj hr] at hlookup
    obtain ⟨before, after, hentries, -⟩ := List.lookup_eq_some_iff.mp hlookup
    rw [hentries]
    exact List.mem_append_right before List.mem_cons_self

/-- A lookup that holds a row has read the one that the token names. -/
theorem found_of_call {jwt : String} {row : Tokens} (st : Asked G s s' i l op a r) (h : l.next op r = .found jwt row) :
    row ∈ s.world.tokens.rows ∧ idOf o jwt = some row.id := by
  have hallowed : l.Allowed o op := st.allowed
  have hperformed : s.world.effect op a = some (r, s'.world) := st.performed
  cases hallowed with
  | findToken jwt' id hid =>
    cases r with
    | error e => cases h
    | ok token =>
      cases token with
      | none => cases h
      | some row' =>
        cases h
        obtain ⟨hmem, hrow⟩ := row_of_findToken hperformed
        exact ⟨hmem, hrow ▸ hid⟩
  | getCached jwt' =>
    cases r with
    | error e => cases h
    | ok cached =>
      cases cached with
      | none => cases h
      | some cached =>
        cases cached <;> cases h
  | revoke id => cases r <;> cases h
  | _ => cases h

/-- A request has its row from the cache, or has cached it, or had it before. -/
theorem checked_of_call {jwt : String} {row : Tokens} (st : Asked G s s' i l op a r)
    (h : l.next op r = .checked jwt row) :
    (jwt, some row) ∈ s.world.accessTokenCache ∨ l = .found jwt row ∨ l = .checked jwt row := by
  have hallowed : l.Allowed o op := st.allowed
  have hperformed : s.world.effect op a = some (r, s'.world) := st.performed
  cases hallowed with
  | getCached jwt' =>
    cases r with
    | error e => cases h
    | ok cached =>
      cases cached with
      | none => cases h
      | some cached =>
        cases cached with
        | none => cases h
        | some row' =>
          cases h
          exact Or.inl (cached_of_getCached hperformed)
  | findToken jwt' id hid =>
    cases r with
    | error e => cases h
    | ok token => cases token <;> cases h
  | revoke id => cases r <;> cases h
  | setCached jwt' row' =>
    cases h
    exact Or.inr (Or.inl rfl)
  | getUser jwt' row' =>
    cases h
    exact Or.inr (Or.inr rfl)
  | checkIp jwt' row' =>
    cases h
    exact Or.inr (Or.inr rfl)
  | _ => cases h

/-- A row is cached by the lookup that holds it. -/
theorem found_of_setCached {jwt : String} {row : Tokens} (h : l.Allowed o (.setCached jwt (some row))) :
    l = .found jwt row := by
  cases h
  rfl

/-- The cached rows after a call. -/
theorem cached_of_call {jwt : String} {row : Tokens} (st : Asked G s s' i l op a r)
    (h : (jwt, some row) ∈ s'.world.accessTokenCache) :
    (jwt, some row) ∈ s.world.accessTokenCache ∨ s.localOf (tokenContract o) i = some (.found jwt row) := by
  obtain h | rfl := cached_of_effect st.performed h
  · exact Or.inl h
  · have hl := found_of_setCached st.allowed
    exact Or.inr (hl ▸ st.caller)

/-- The phase that a program started in. -/
def Phase.origin : Phase → Phase
  | .other => .other
  | .request jwt | .found jwt _ | .checked jwt _ => .request jwt
  | .revoking id | .revoked id | .cleared id => .revoking id
  | .leaving id | .left id => .leaving id

theorem Phase.origin_next : (l.next op r).origin = l.origin := by
  cases l with
  | request jwt =>
    show (Phase.nextRequest jwt op r).origin = _
    unfold Phase.nextRequest
    split <;> rfl
  | revoking id =>
    show (Phase.nextRevoking id op r).origin = _
    unfold Phase.nextRevoking
    split <;> rfl
  | _ => rfl

theorem Kind.origin_phase (k : Kind) : (k.phase o).origin = k.phase o := by
  cases k with
  | logout jwt =>
    show (Phase.ofLogout o jwt).origin = Phase.ofLogout o jwt
    unfold Phase.ofLogout
    split
    · rfl
    · split <;> rfl
  | _ => rfl

private theorem origin_after (k : Kind) (i : ℕ) (tr : List (Event Calls)) :
    ((tokenContract o).after ((tokenContract o).init k) i tr).origin = k.phase o :=
  (tokenContract o).after_keeps (J := fun l => Phase.origin l = k.phase o) k.origin_phase
    (fun _ _ _ h => Phase.origin_next.trans h) i tr

/-- A phase that no program starts in is not one of a program that was just started. -/
theorem localOf_of_started {j : ℕ} {l : Phase} (st : Started (tokenContract o) G s s' n k) (hl : l.origin ≠ l)
    (h : s'.localOf (tokenContract o) j = some l) : s.localOf (tokenContract o) j = some l := by
  obtain ⟨-, rfl⟩ | ⟨-, hj⟩ := st.localOf h
  · exact absurd k.origin_phase hl
  · exact hj

/-- What a program that returned ended with. -/
theorem ends_of_returned {x : Outcome} (hs : Reachable G (State.initial w) s) (h : s.returned i = some (k, x)) :
    ∃ l, s.localOf (tokenContract o) i = some l ∧ l.origin = k.phase o ∧ Phase.Ends l (.ok x) := by
  obtain ⟨⟨k', p⟩, hi, hresult⟩ := Option.bind_eq_some_iff.mp h
  obtain ⟨x', hx, heq⟩ := Option.map_eq_some_iff.mp hresult
  obtain ⟨rfl, rfl⟩ := Prod.mk.inj heq
  have hdone : p = done x' := result?_eq_some.mp hx
  have hfollows := (hs.conforms (tokenContract o)).follows i k' p hi
  rw [hdone] at hfollows
  exact ⟨_, localOf_eq (tokenContract o) hi, origin_after k' i s.trace, hfollows⟩

theorem Dead.start (h : Dead s id) (st : Started (tokenContract o) G s s' n k) : Dead s' id where
  rows := by
    rw [world_of_started st]
    exact h.rows
  cache := by
    rw [world_of_started st]
    exact h.cache
  found j jwt row hj := h.found j jwt row (localOf_of_started st (by simp [Phase.origin]) hj)

theorem Dead.call (h : Dead s id) (st : Asked G s s' i l op a r) : Dead s' id where
  rows := rows_of_effect st.performed h.rows
  cache jwt row hcached := by
    obtain hcached | hfound := cached_of_call st hcached
    · exact h.cache jwt row hcached
    · exact h.found i jwt row hfound
  found j jwt row hj := by
    obtain ⟨-, hn⟩ | ⟨-, hj⟩ := st.localOf hj
    · exact h.rows row (found_of_call st hn.symm).1
    · exact h.found j jwt row hj

theorem Named.start (h : Named s) (st : Started (tokenContract o) G s s' n k) : Named s' where
  cache := by
    rw [world_of_started st]
    exact h.cache
  found j jwt row hj := h.found j jwt row (localOf_of_started st (by simp [Phase.origin]) hj)
  checked j jwt row hj := h.checked j jwt row (localOf_of_started st (by simp [Phase.origin]) hj)

theorem Named.call (h : Named s) (st : Asked G s s' i l op a r) : Named s' where
  cache jwt row hcached := by
    obtain hcached | hfound := cached_of_call st hcached
    · exact h.cache jwt row hcached
    · exact h.found i jwt row hfound
  found j jwt row hj := by
    obtain ⟨-, hn⟩ | ⟨-, hj⟩ := st.localOf hj
    · exact (found_of_call st hn.symm).2
    · exact h.found j jwt row hj
  checked j jwt row hj := by
    obtain ⟨-, hn⟩ | ⟨-, hj⟩ := st.localOf hj
    · obtain hcached | rfl | rfl := checked_of_call st hn.symm
      · exact h.cache jwt row hcached
      · exact h.found i jwt row st.caller
      · exact h.checked i jwt row st.caller
    · exact h.checked j jwt row hj

theorem Named.reachable (hw : w.accessTokenCache = []) (hs : Reachable G (State.initial w) s) : Named s := by
  refine hs.invariant (tokenContract o) Named ?_ (fun _ _ _ _ _ ih st => ih.start st)
    (fun _ _ _ _ _ _ _ _ ih st => ih.call st)
  constructor
  · intro jwt row hcached
    have hcached : (jwt, some row) ∈ w.accessTokenCache := hcached
    rw [hw] at hcached
    cases hcached
  · intro i jwt row h
    cases h
  · intro i jwt row h
    cases h

/-- A revocation that has written the row has revoked it, and one that is over has left
nothing that says that the token is active. -/
structure Safe (s : State (tokenRequests o)) : Prop where
  revoked : ∀ i id, s.localOf (tokenContract o) i = some (.revoked id) →
    ∀ row ∈ s.world.tokens.rows, isActive id row = false
  cleared : ∀ i id, s.localOf (tokenContract o) i = some (.cleared id) → Dead s id
  left : ∀ i id, s.localOf (tokenContract o) i = some (.left id) → Dead s id

theorem Safe.start (h : Safe s) (st : Started (tokenContract o) G s s' n k) : Safe s' where
  revoked j id hj := by
    rw [world_of_started st]
    exact h.revoked j id (localOf_of_started st (by simp [Phase.origin]) hj)
  cleared j id hj := (h.cleared j id (localOf_of_started st (by simp [Phase.origin]) hj)).start st
  left j id hj := (h.left j id (localOf_of_started st (by simp [Phase.origin]) hj)).start st

theorem found_of_not_lookupHolds (h : lookupHolds s id = false) (i : ℕ) (jwt : String) (row : Tokens)
    (hl : s.localOf (tokenContract o) i = some (.found jwt row)) : isActive id row = false := by
  have hlt : i < s.threads.length := by
    obtain ⟨t, ht, -⟩ := Option.map_eq_some_iff.mp hl
    exact (List.getElem?_eq_some_iff.mp ht).1
  have hnone := List.any_eq_false.mp h i (List.mem_range.mpr hlt)
  rw [hl] at hnone
  exact Bool.eq_false_iff.mpr hnone

theorem cache_of_not_holds (h : w.holds id = false) (jwt : String) (row : Tokens)
    (hcached : (jwt, some row) ∈ w.accessTokenCache) : isActive id row = false :=
  Bool.eq_false_iff.mpr (List.any_eq_false.mp h (jwt, some row) hcached)

theorem revoked_of_effect {now : Except Thrown ℕ} (he : w.effect (.updateRevokedAt id) now = some (.ok (), w')) :
    ∀ row ∈ w'.tokens.rows, isActive id row = false := by
  obtain ⟨e, -, hr, -⟩ | ⟨c, x, -, hr, hx⟩ := World.effect_cases he
  · cases hr
  · simp only [World.apply] at hx
    split_ifs at hx
    cases Option.some.inj hx
    intro row hrow
    obtain ⟨row', -, rfl⟩ := List.mem_map.mp hrow
    unfold World.revokeRow
    split_ifs with hid
    · simp [isActive]
    · simp [isActive, hid]

private theorem cache_of_clear {a : Except Thrown Unit} {r : Except Thrown Unit}
    (he : w.effect .clearCache a = some (r, w')) :
    w'.accessTokenCache = [] := by
  obtain ⟨e, rfl, -, -⟩ | ⟨c, x, -, -, hx⟩ := World.effect_cases he
  · cases he
  · cases Option.some.inj hx
    rfl

/-- A revocation clears the cache while no lookup holds the row. -/
theorem dead_of_clear {a : Except Thrown Unit} {r : Except Thrown Unit} (h : Safe s)
    (st : Stepped (tokenContract o) (freshRevocations o) s s' i (.revoked id) .clearCache a r) : Dead s' id := by
  have hgranted : (freshRevocations o).call s i .clearCache a = true := st.granted
  have hcaller : s.localOf (tokenContract o) i = some (.revoked id) := st.caller
  have hperformed : s.world.effect .clearCache a = some (r, s'.world) := st.performed
  have hholds : lookupHolds s id = false := by
    unfold freshRevocations at hgranted
    dsimp only at hgranted
    rw [hcaller] at hgranted
    simpa using hgranted
  have hempty : s'.world.accessTokenCache = [] := cache_of_clear hperformed
  constructor
  · exact rows_of_effect hperformed (h.revoked i id hcaller)
  · intro jwt row hcached
    rw [hempty] at hcached
    cases hcached
  · intro j jwt row hj
    obtain ⟨-, hn⟩ | ⟨-, hj⟩ := st.localOf hj
    · cases hn
    · exact found_of_not_lookupHolds hholds j jwt row hj

/-- A logout tries to write the row while nothing has it as it was before. -/
theorem dead_of_logout {a : Except Thrown ℕ} {r : Except Thrown Unit}
    (st : Stepped (tokenContract o) (freshRevocations o) s s' i (.leaving id) (.updateRevokedAt id) a r) :
    Dead s' id := by
  have hgranted : (freshRevocations o).call s i (.updateRevokedAt id) a = true := st.granted
  have hcaller : s.localOf (tokenContract o) i = some (.leaving id) := st.caller
  have hperformed : s.world.effect (.updateRevokedAt id) a = some (r, s'.world) := st.performed
  unfold freshRevocations at hgranted
  dsimp only at hgranted
  rw [hcaller] at hgranted
  simp only [Bool.and_eq_true, Bool.or_eq_true, Bool.not_eq_true'] at hgranted
  obtain ⟨⟨hholds, hcache⟩, hwritten⟩ := hgranted
  constructor
  · obtain hok | hnone := hwritten
    · cases a with
      | error e => cases hok
      | ok now =>
        cases r with
        | error e =>
          obtain ⟨y, -, hy⟩ := Option.map_eq_some_iff.mp hperformed
          cases hy
        | ok u => exact revoked_of_effect hperformed
    · exact rows_of_effect hperformed fun row hrow => Bool.eq_false_iff.mpr (List.any_eq_false.mp hnone row hrow)
  · intro jwt row hcached
    obtain hcached | hfound := cached_of_call st hcached
    · exact cache_of_not_holds hcache jwt row hcached
    · rw [hcaller] at hfound
      cases hfound
  · intro j jwt row hj
    obtain ⟨-, hn⟩ | ⟨-, hj⟩ := st.localOf hj
    · cases hn
    · exact found_of_not_lookupHolds hholds j jwt row hj

/-- Where a revocation gets to `revoked`. -/
theorem rows_of_revoked (st : Asked G s s' i l op a r) (h : l.next op r = .revoked id) :
    ∀ row ∈ s'.world.tokens.rows, isActive id row = false := by
  have hallowed : l.Allowed o op := st.allowed
  have hperformed : s.world.effect op a = some (r, s'.world) := st.performed
  cases hallowed with
  | revoke id' =>
    cases r with
    | error e => cases h
    | ok u =>
      cases h
      exact revoked_of_effect hperformed
  | getCached jwt' =>
    cases r with
    | error e => cases h
    | ok cached =>
      cases cached with
      | none => cases h
      | some cached => cases cached <;> cases h
  | findToken jwt' id' hid =>
    cases r with
    | error e => cases h
    | ok token => cases token <;> cases h
  | _ => cases h

private theorem of_next_cleared (h : l.next op r = .cleared id) : l = .revoked id ∨ l = .cleared id := by
  cases l with
  | request jwt =>
    have h : Phase.nextRequest jwt op r = .cleared id := h
    unfold Phase.nextRequest at h
    split at h <;> cases h
  | revoking id' =>
    have h : Phase.nextRevoking id' op r = .cleared id := h
    unfold Phase.nextRevoking at h
    split at h <;> cases h
  | revoked id' =>
    cases h
    exact Or.inl rfl
  | cleared id' =>
    cases h
    exact Or.inr rfl
  | _ => cases h

private theorem of_next_left (h : l.next op r = .left id) : l = .leaving id ∨ l = .left id := by
  cases l with
  | request jwt =>
    have h : Phase.nextRequest jwt op r = .left id := h
    unfold Phase.nextRequest at h
    split at h <;> cases h
  | revoking id' =>
    have h : Phase.nextRevoking id' op r = .left id := h
    unfold Phase.nextRevoking at h
    split at h <;> cases h
  | leaving id' =>
    cases h
    exact Or.inl rfl
  | left id' =>
    cases h
    exact Or.inr rfl
  | _ => cases h

theorem Safe.call (h : Safe s) (st : Asked (freshRevocations o) s s' i l op a r) : Safe s' where
  revoked j id hj := by
    obtain ⟨-, hn⟩ | ⟨-, hj⟩ := st.localOf hj
    · exact rows_of_revoked st hn.symm
    · exact rows_of_effect st.performed (h.revoked j id hj)
  cleared j id hj := by
    obtain ⟨-, hn⟩ | ⟨-, hj⟩ := st.localOf hj
    · obtain rfl | rfl := of_next_cleared hn.symm
      · have hallowed : (Phase.revoked id).Allowed o op := st.allowed
        cases hallowed
        exact dead_of_clear h st
      · exact (h.cleared i id st.caller).call st
    · exact (h.cleared j id hj).call st
  left j id hj := by
    obtain ⟨-, hn⟩ | ⟨-, hj⟩ := st.localOf hj
    · obtain rfl | rfl := of_next_left hn.symm
      · have hallowed : (Phase.leaving id).Allowed o op := st.allowed
        cases hallowed
        exact dead_of_logout st
      · exact (h.left i id st.caller).call st
    · exact (h.left j id hj).call st

theorem Safe.reachable (hs : Reachable (freshRevocations o) (State.initial w) s) : Safe s := by
  refine hs.invariant (tokenContract o) Safe ?_ (fun _ _ _ _ _ ih st => ih.start st)
    (fun _ _ _ _ _ _ _ _ ih st => ih.call st)
  constructor
  · intro i id h
    cases h
  · intro i id h
    cases h
  · intro i id h
    cases h

/-- What holds from a revocation on, of the programs that are started after the first `m`. -/
structure Ended (m : ℕ) (id : String) (s : State (tokenRequests o)) : Prop where
  dead : Dead s id
  checked : ∀ i jwt row, m ≤ i → s.localOf (tokenContract o) i = some (.checked jwt row) → isActive id row = false

theorem Ended.start {m : ℕ} (h : Ended m id s) (st : Started (tokenContract o) G s s' n k) : Ended m id s' where
  dead := h.dead.start st
  checked j jwt row hm hj := h.checked j jwt row hm (localOf_of_started st (by simp [Phase.origin]) hj)

theorem Ended.call {m : ℕ} (h : Ended m id s) (st : Asked G s s' i l op a r) : Ended m id s' where
  dead := h.dead.call st
  checked j jwt row hm hj := by
    obtain ⟨rfl, hn⟩ | ⟨-, hj⟩ := st.localOf hj
    · obtain hcached | rfl | rfl := checked_of_call st hn.symm
      · exact h.dead.cache jwt row hcached
      · exact h.dead.found j jwt row st.caller
      · exact h.checked j jwt row hm st.caller
    · exact h.checked j jwt row hm hj

theorem Ended.reachable (hs : Reachable G (State.initial w) s) (hs' : Reachable G s s') (h : Dead s id) :
    Ended s.threads.length id s' := by
  refine hs.invariant_from (tokenContract o) hs' (Ended s.threads.length id) ⟨h, ?_⟩
    (fun _ _ _ _ _ ih st => ih.start st)
    (fun _ _ _ _ _ _ _ _ ih st => ih.call st)
  intro i jwt row hm hl
  obtain ⟨t, ht, -⟩ := Option.map_eq_some_iff.mp hl
  have hlt := (List.getElem?_eq_some_iff.mp ht).1
  omega

private theorem parseJWT_of_idOf {jwt : String} (h : idOf o jwt = some id) : o.parseJWT jwt = .ok (some id) := by
  unfold idOf at h
  cases hparse : o.parseJWT jwt with
  | error e =>
    rw [hparse] at h
    cases h
  | ok jti =>
    rw [hparse] at h
    have hjti := (Option.filter_eq_some_iff.mp h).1
    rw [hjti]

/-- A revocation that succeeded has left nothing that says that the token is active. -/
theorem dead_of_returned {jwt : String} (hs : Reachable (freshRevocations o) (State.initial w) s)
    (h : s.returned i = some (k, .success)) (hk : k.revokes o jwt) (hid : idOf o jwt = some id) : Dead s id := by
  obtain ⟨l, hl, horigin, hends⟩ := ends_of_returned hs h
  have hsafe := Safe.reachable hs
  have hphase : k.phase o = .revoking id ∨ k.phase o = .leaving id := by
    cases k with
    | revokeAccessToken id' =>
      have hid' : id' = id := Option.some.inj (hk.symm.trans hid)
      exact Or.inl (congrArg Phase.revoking hid')
    | logout token =>
      have htoken : truthy token = some jwt := hk
      refine Or.inr ?_
      show Phase.ofLogout o token = .leaving id
      unfold Phase.ofLogout
      rw [htoken]
      dsimp only
      rw [parseJWT_of_idOf hid]
    | accessToken jwt' => cases hk
    | websocket jwt' => cases hk
  obtain rfl | ⟨id', rfl⟩ | ⟨id', rfl⟩ := hends.success rfl
  · obtain hphase | hphase := hphase
    · cases horigin.trans hphase
    · cases horigin.trans hphase
  · obtain hphase | hphase := hphase
    · cases horigin.trans hphase
      exact hsafe.cleared i id hl
    · cases horigin.trans hphase
  · obtain hphase | hphase := hphase
    · cases horigin.trans hphase
    · cases horigin.trans hphase
      exact hsafe.left i id hl

/-- A revocation is effective in every run whose revocations find no row of the token as it
was before. -/
theorem revocation_effective (hw : w.accessTokenCache = []) : RevocationEffective o (freshRevocations o) w := by
  intro s s' hs hs' i n jwt k k' hrevoked hk hn hrequest hk'
  obtain ⟨l, hl, horigin, hends⟩ := ends_of_returned (hs.trans hs') hrequest
  obtain ⟨jwt', row, rfl, hactive⟩ := hends.authenticated rfl
  have hjwt : jwt' = jwt := by
    cases k' with
    | accessToken _ =>
      cases horigin
      exact hk'
    | websocket _ =>
      cases horigin
      exact hk'
    | revokeAccessToken _ => cases hk'
    | logout _ => cases hk'
  subst hjwt
  have hid : idOf o jwt' = some row.id := (Named.reachable hw (hs.trans hs')).checked n jwt' row hl
  have hended := Ended.reachable hs hs' (dead_of_returned hs hrevoked hk hid)
  have hinactive := hended.checked n jwt' row hn hl
  rw [isActive, hactive] at hinactive
  simp at hinactive

end

/-! ### Runs -/

/-- A token, and nothing else, can be parsed. -/
def oneToken : Outside :=
  { Auth.refusingPackages with
    parseJWT := fun jwt => if jwt = "token" then .ok (some "id") else .error (.error "Invalid JWT") }

def oneRow : World where
  tokens := ⟨[{ id := "id", revokedAt := none }], List.nodup_singleton _⟩

/-- The user is an admin, and the IP is allowed. -/
def admitting : (op : Op) → Except Thrown op.Choice
  | .updateRevokedAt _ => .ok 1
  | .getUser _ => .ok (some { address := "0xadmin", session := some { permissions := "ADMIN" } })
  | .checkIpInAllowlist => .ok true
  | .getCached _ | .setCached _ _ | .clearCache | .findToken _ => .ok ()

abbrev starts (k : Kind) : Move (tokenRequests oneToken) := .start k

def proceeds (i n : ℕ) : List (Move (tokenRequests oneToken)) := List.replicate n (.call i admitting)

/-- A request, and then a revocation of its token. -/
def requestRevoked : List (Move (tokenRequests oneToken)) :=
  starts (.accessToken "token") :: proceeds 0 5 ++ starts (.revokeAccessToken "id") :: proceeds 1 2

theorem revocation_effective_requestRevoked :
    (∃ s, Reachable (freshRevocations oneToken) (State.initial oneRow) s ∧
      s.returned 0 = some (.accessToken "token", .authenticated) ∧
      s.returned 1 = some (.revokeAccessToken "id", .success)) ∧
    RevocationEffective oneToken (freshRevocations oneToken) oneRow := by
  constructor
  · obtain ⟨s, hs, hcheck⟩ := exists_reachable_of_run (freshRevocations oneToken) oneRow requestRevoked
      (fun s => decide (s.returned 0 = some (.accessToken "token", .authenticated) ∧
        s.returned 1 = some (.revokeAccessToken "id", .success))) (by decide +kernel)
    exact ⟨s, hs, of_decide_eq_true hcheck⟩
  · exact revocation_effective rfl

/-- A request and a logout with its token. -/
def requestLeft : List (Move (tokenRequests oneToken)) :=
  starts (.accessToken "token") :: proceeds 0 5 ++ starts (.logout (some "token")) :: proceeds 1 1

/-- The next request. -/
def requestAgain : List (Move (tokenRequests oneToken)) := starts (.accessToken "token") :: proceeds 2 3

theorem not_revocation_effective :
    ¬ ∀ (o : Outside) (w : World), w.accessTokenCache = [] → RevocationEffective o (anyOrder o) w := by
  intro hgeneral
  obtain ⟨s, s', hs, hs', hcheck⟩ := exists_reachable_of_runs (anyOrder oneToken) oneRow requestLeft requestAgain
    (fun s s' => decide (s.returned 1 = some (.logout (some "token"), .success) ∧ s.threads.length ≤ 2 ∧
      s'.returned 2 = some (.accessToken "token", .authenticated))) (by decide +kernel)
  obtain ⟨hleft, hlength, hagain⟩ := of_decide_eq_true hcheck
  exact hgeneral oneToken oneRow rfl s s' hs hs' 1 2 "token" _ _ hleft rfl hlength hagain rfl

end Engine.Revocation
