import Engine.Concurrent.Locks
import Engine.Revocation.Requests

/-! How far a request or a revocation is, and what it may do then. -/
namespace Engine.Revocation

open Concurrent Program
open Auth (Tokens Outside Thrown ThirdwebAuthUser isOwnerOrAdmin)

inductive Phase
  | other
  /-- A request without a row yet. -/
  | request (jwt : String)
  /-- It has read a row, and has not cached it. -/
  | found (jwt : String) (row : Tokens)
  /-- It has its row. -/
  | checked (jwt : String) (row : Tokens)
  /-- A revocation that has not written the row. -/
  | revoking (id : String)
  /-- It has, and has not cleared the cache. -/
  | revoked (id : String)
  | cleared (id : String)
  /-- A logout that has not tried to write the row. -/
  | leaving (id : String)
  | left (id : String)
deriving DecidableEq

namespace Phase

def nextRequest (jwt : String) : (o : Op) → Except Thrown o.Reply → Phase
  | .getCached _, .ok (some (some row)) => .checked jwt row
  | .findToken _, .ok (some row) => .found jwt row
  | _, _ => .request jwt

def nextRevoking (id : String) : (o : Op) → Except Thrown o.Reply → Phase
  | .updateRevokedAt _, .ok _ => .revoked id
  | _, _ => .revoking id

def next (l : Phase) (o : Op) (r : Except Thrown o.Reply) : Phase :=
  match l with
  | .other => .other
  | .request jwt => nextRequest jwt o r
  | .found jwt row => .checked jwt row
  | .checked jwt row => .checked jwt row
  | .revoking id => nextRevoking id o r
  | .revoked id => .cleared id
  | .cleared id => .cleared id
  | .leaving id => .left id
  | .left id => .left id

variable (o : Outside)

/-- A request reads the row of its token and caches that, and a revocation writes its row
and clears the cache. -/
inductive Allowed : Phase → Op → Prop
  | getCached (jwt : String) : Allowed (.request jwt) (.getCached jwt)
  | findToken (jwt id : String) (h : idOf o jwt = some id) : Allowed (.request jwt) (.findToken id)
  | setNull (jwt : String) : Allowed (.request jwt) (.setCached jwt none)
  | setCached (jwt : String) (row : Tokens) : Allowed (.found jwt row) (.setCached jwt (some row))
  | getUser (jwt : String) (row : Tokens) : Allowed (.checked jwt row) (.getUser jwt)
  | checkIp (jwt : String) (row : Tokens) : Allowed (.checked jwt row) .checkIpInAllowlist
  | revoke (id : String) : Allowed (.revoking id) (.updateRevokedAt id)
  | clear (id : String) : Allowed (.revoked id) .clearCache
  | logout (id : String) : Allowed (.leaving id) (.updateRevokedAt id)

def protocol : Protocol Calls where
  Local := Phase
  next := next
  allowed := Allowed o
  possible _ _ := True

/-- Who is authenticated has a row that is not revoked; a revocation that succeeds has
cleared the cache, and a logout has tried to write the row. -/
structure Ends (l : Phase) (r : Except Thrown Outcome) : Prop where
  authenticated : r = .ok .authenticated → ∃ jwt row, l = .checked jwt row ∧ row.revokedAt = none
  success : r = .ok .success → l = .other ∨ (∃ id, l = .cleared id) ∨ ∃ id, l = .left id

variable {o} {l : Phase} {jwt : String} {row : Tokens}

theorem ends_error {e : Thrown} : Ends l (.error e) where
  authenticated h := by cases h
  success h := by cases h

theorem ends_unauthorized : Ends l (.ok .unauthorized) where
  authenticated h := by cases h
  success h := by cases h

theorem ends_authenticated (h : row.revokedAt = none) : Ends (.checked jwt row) (.ok .authenticated) where
  authenticated _ := ⟨jwt, row, rfl, h⟩
  success h := by cases h

theorem ends_success (h : l = .other ∨ (∃ id, l = .cleared id) ∨ ∃ id, l = .left id) : Ends l (.ok .success) where
  authenticated h := by cases h
  success _ := h

/-- A request that goes on with a row has checked it. -/
def Holds (jwt : String) (l : Phase) (token : Option Tokens) : Prop := ∀ row, token = some row → l = .checked jwt row

theorem holds_none : Holds jwt l none := by
  intro row h
  cases h

theorem holds_checked : Holds jwt (.checked jwt row) (some row) := by
  intro row' h
  rw [Option.some.inj h]

/-- A token's row, before it is cached. -/
def Fetched (jwt : String) (l : Phase) (token : Option Tokens) : Prop :=
  (token = none ∧ l = .request jwt) ∨ ∃ row, token = some row ∧ l = .found jwt row

theorem follows_getToken : (getToken o jwt).Follows (protocol o)
    (fun l r => ∀ token, r = .ok token → Fetched jwt l token) (.request jwt) := by
  unfold getToken Shared.getToken
  cases hparse : o.parseJWT jwt with
  | error e =>
    intro token h
    cases h
  | ok jti =>
    simp only [ofExcept, pure_eq, bind_eq, done_bind]
    cases hid : truthy jti with
    | none =>
      intro token h
      exact Or.inl ⟨(Except.ok.inj h).symm, rfl⟩
    | some id =>
      have hidOf : idOf o jwt = some id := by
        unfold idOf
        rw [hparse]
        exact hid
      apply follows_perform (P := protocol o) (.findToken jwt id hidOf)
      intro r _ token h
      rw [h]
      cases token with
      | none => exact Or.inl ⟨rfl, rfl⟩
      | some row => exact Or.inr ⟨row, rfl, rfl⟩

theorem follows_getAccessToken : (getAccessToken o jwt).Follows (protocol o)
    (fun l r => ∀ token, r = .ok token → Holds jwt l token) (.request jwt) := by
  have hmiss : ∀ l : Phase, l = .request jwt → (Program.bind (getToken o jwt) fun accessToken => do
      await (.setCached jwt accessToken)
      return accessToken).Follows (protocol o) (fun l r => ∀ token, r = .ok token → Holds jwt l token) l := by
    intro l hl
    subst hl
    apply follows_getToken.bind
    · intro l accessToken hfetched
      obtain ⟨rfl, rfl⟩ | ⟨row, rfl, rfl⟩ := hfetched accessToken rfl
      · refine follows_await (P := protocol o) (.setNull jwt) (fun _ _ => ?_) (fun e _ token h => ?_)
        · intro token h
          rw [← Except.ok.inj h]
          exact holds_none
        · cases h
      · refine follows_await (P := protocol o) (.setCached jwt row) (fun _ _ => ?_) (fun e _ token h => ?_)
        · intro token h
          rw [← Except.ok.inj h]
          exact holds_checked
        · cases h
    · intro l e _ token h
      cases h
  unfold getAccessToken Shared.getAccessToken
  refine follows_await (P := protocol o) (.getCached jwt) (fun cached _ => ?_) (fun e _ token h => ?_)
  · cases cached with
    | none => exact hmiss _ rfl
    | some cached =>
      cases cached with
      | none => exact hmiss _ rfl
      | some row =>
        intro token h
        rw [← Except.ok.inj h]
        exact holds_checked
  · cases h

/-- Past the lookup, only a row that is not revoked is authenticated. -/
theorem follows_authenticateToken {token : Option Tokens} (h : Holds jwt l token) :
    (authenticateToken jwt token).Follows (protocol o) Ends l := by
  unfold authenticateToken
  cases token with
  | none => exact ends_unauthorized
  | some row =>
    obtain rfl := h row rfl
    split_ifs with hrevoked
    · have hactive : row.revokedAt = none := of_decide_eq_true hrevoked
      refine follows_await (P := protocol o) (.getUser jwt row) (fun user _ => ?_) (fun _ _ => ends_error)
      split_ifs
      · exact ends_unauthorized
      · refine follows_await (P := protocol o) (.checkIp jwt row) (fun allowed _ => ?_) (fun _ _ => ends_error)
        split_ifs
        · exact ends_authenticated hactive
        · exact ends_unauthorized
    · exact ends_unauthorized

theorem follows_authenticateWebsocket {token : Option Tokens} (h : Holds jwt l token) :
    (authenticateWebsocket jwt token).Follows (protocol o) Ends l := by
  unfold authenticateWebsocket
  cases token with
  | none => exact ends_unauthorized
  | some row =>
    obtain rfl := h row rfl
    split_ifs with hrevoked
    · have hactive : row.revokedAt = none := of_decide_eq_true hrevoked
      refine follows_await (P := protocol o) (.getUser jwt row) (fun user _ => ?_) (fun _ _ => ends_error)
      refine follows_await (P := protocol o) (.checkIp jwt row) (fun allowed _ => ?_) (fun _ _ => ends_error)
      split_ifs
      · exact ends_unauthorized
      · exact ends_authenticated hactive
      · exact ends_unauthorized
    · exact ends_unauthorized

theorem follows_handleAccessToken : (Revocation.handleAccessToken o jwt).Follows (protocol o) Ends (.request jwt) := by
  have hcaught : (tryCatch (getAccessToken o jwt) fun _ => return none).Follows (protocol o)
      (fun l r => ∀ token, r = .ok token → Holds jwt l token) (.request jwt) := by
    apply follows_getAccessToken.handle
    · intro l token h
      exact h
    · intro l e _ token h
      rw [← Except.ok.inj h]
      exact holds_none
  exact hcaught.bind (fun _ token h => follows_authenticateToken (h token rfl)) (fun _ _ _ => ends_error)

theorem follows_handleWebsocketAuth : (Revocation.handleWebsocketAuth o jwt).Follows (protocol o) Ends (.request jwt) :=
  follows_getAccessToken.bind (fun _ token h => follows_authenticateWebsocket (h token rfl)) (fun _ _ _ => ends_error)

theorem follows_revokeAccessToken (id : String) :
    (Revocation.revokeAccessToken id).Follows (protocol o) Ends (.revoking id) := by
  refine follows_await (P := protocol o) (.revoke id) (fun _ _ => ?_) (fun _ _ => ends_error)
  refine follows_await (P := protocol o) (.clear id) (fun _ _ => ?_) (fun _ _ => ends_error)
  exact ends_success (Or.inr (Or.inl ⟨id, rfl⟩))

/-- Where a logout starts: the row that it writes, if the token names one. -/
def ofLogout (o : Outside) (jwt : Option String) : Phase :=
  match truthy jwt with
  | none => .other
  | some jwt =>
    match o.parseJWT jwt with
    | .ok (some jti) => .leaving jti
    | _ => .other

theorem follows_onLogout (token : Option String) :
    (Revocation.onLogout o token).Follows (protocol o) Ends (ofLogout o token) := by
  unfold Revocation.onLogout ofLogout
  cases truthy token with
  | none => exact ends_success (Or.inl rfl)
  | some jwt =>
    cases hparse : o.parseJWT jwt with
    | error e =>
      dsimp only
      rw [hparse]
      exact ends_error
    | ok jti =>
      dsimp only
      rw [hparse]
      cases jti with
      | none => exact ends_success (Or.inl rfl)
      | some jti =>
        have htried : (tryCatch (await (.updateRevokedAt jti)) fun _ => return ()).Follows (protocol o)
            (fun l _ => l = .left jti) (.leaving jti) := by
          refine Follows.handle (Q := fun (l : Phase) _ => l = .left jti) ?_ (fun _ _ h => h) (fun _ _ h => h)
          exact follows_perform (P := protocol o) (.logout jti) fun _ _ => rfl
        apply htried.bind
        · intro l _ hl
          exact ends_success (Or.inr (Or.inr ⟨jti, hl⟩))
        · exact fun _ _ _ => ends_error

end Phase

def Kind.phase (o : Outside) : Kind → Phase
  | .accessToken jwt => .request jwt
  | .websocket jwt => .request jwt
  | .revokeAccessToken id => .revoking id
  | .logout jwt => Phase.ofLogout o jwt

def tokenContract (o : Outside) : Contract (tokenRequests o) where
  toProtocol := Phase.protocol o
  init := Kind.phase o
  ends := Phase.Ends
  answers _ _ _ _ _ _ := trivial
  starts w k p w' h := by
    cases k with
    | accessToken jwt =>
      cases Option.some.inj h
      exact Phase.follows_handleAccessToken
    | websocket jwt =>
      cases Option.some.inj h
      exact Phase.follows_handleWebsocketAuth
    | revokeAccessToken id =>
      cases Option.some.inj h
      exact Phase.follows_revokeAccessToken id
    | logout jwt =>
      cases Option.some.inj h
      exact Phase.follows_onLogout jwt

end Engine.Revocation
