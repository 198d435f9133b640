import Engine.Auth.OnRequest
import Engine.Concurrent.Machine

/-! Requests with an access token, and the two requests that revoke one, by their reads and
writes of the cache and their database steps. -/
namespace Engine.Revocation

open Concurrent Program
open Auth (Tokens Outside Thrown ThirdwebAuthUser isOwnerOrAdmin)

/-- The table and the process's cache. The entries of a `Map`, one for each key. -/
structure World where
  tokens : Keyset.Table Tokens.id
  accessTokenCache : List (String × Option Tokens) := []

inductive Op
  -- the cache
  | getCached (jwt : String)
  | setCached (jwt : String) (accessToken : Option Tokens)
  | clearCache
  -- the database
  | findToken (id : String)
  | updateRevokedAt (id : String)
  -- the rest of the authentication
  | getUser (jwt : String)
  | checkIpInAllowlist
deriving DecidableEq

@[reducible] def Op.Reply : Op → Type
  | .getCached _ => Option (Option Tokens)
  | .findToken _ => Option Tokens
  | .getUser _ => Option ThirdwebAuthUser
  | .checkIpInAllowlist => Bool
  | _ => Unit

/-- The date of a revocation, the user and whether the IP is allowed come from outside. -/
@[reducible] def Op.Choice : Op → Type
  | .updateRevokedAt _ => ℕ
  | .getUser _ => Option ThirdwebAuthUser
  | .checkIpInAllowlist => Bool
  | _ => Unit

/-- The cache does not throw. -/
def Op.throws : Op → Bool
  | .getCached _ | .setCached _ _ | .clearCache => false
  | _ => true

abbrev Calls : Interface := ⟨Op, Op.Reply, Op.Choice, Thrown⟩

abbrev Prog (α : Type) := Program Calls α

abbrev await (o : Op) : Prog o.Reply := Program.perform (I := Calls) o

namespace World

/-- `accessTokenCache.set`. -/
def cached (w : World) (jwt : String) (accessToken : Option Tokens) : World :=
  { w with accessTokenCache := (jwt, accessToken) :: w.accessTokenCache.filter (·.1 ≠ jwt) }

/-- `UPDATE tokens SET revokedAt`, on one row. -/
def revokeRow (id : String) (now : ℕ) (row : Tokens) : Tokens :=
  if row.id = id then { row with revokedAt := some now } else row

private theorem id_revokeRow (id : String) (now : ℕ) (row : Tokens) : (revokeRow id now row).id = row.id := by
  unfold revokeRow
  split_ifs <;> rfl

def revoked (w : World) (id : String) (now : ℕ) : World :=
  { w with tokens := w.tokens.modify (revokeRow id now) (id_revokeRow id now) }

/-- A successful call. An update finds its row. -/
def apply (w : World) : (o : Op) → o.Choice → Option (o.Reply × World)
  | .getCached jwt, _ => some (w.accessTokenCache.lookup jwt, w)
  | .setCached jwt accessToken, _ => some ((), w.cached jwt accessToken)
  | .clearCache, _ => some ((), { w with accessTokenCache := [] })
  | .findToken id, _ => some (w.tokens.find? id, w)
  | .updateRevokedAt id, now => if (w.tokens.find? id).isSome then some ((), w.revoked id now) else none
  | .getUser _, user => some (user, w)
  | .checkIpInAllowlist, allowed => some (allowed, w)

/-- A call that throws did nothing. -/
def effect (w : World) (o : Op) : Except Thrown o.Choice → Option (Except Thrown o.Reply × World)
  | .error e => if o.throws then some (.error e, w) else none
  | .ok c => (w.apply o c).map fun r => (.ok r.1, r.2)

theorem effect_cases {w w' : World} {o : Op} {a : Except Thrown o.Choice} {r : Except Thrown o.Reply}
    (h : w.effect o a = some (r, w')) :
    (∃ e, a = .error e ∧ r = .error e ∧ w' = w) ∨ ∃ c x, a = .ok c ∧ r = .ok x ∧ w.apply o c = some (x, w') := by
  cases a with
  | error e =>
    unfold effect at h
    split_ifs at h
    cases Option.some.inj h
    exact Or.inl ⟨e, rfl, rfl, rfl⟩
  | ok c =>
    obtain ⟨⟨x, w''⟩, hx, he⟩ := Option.map_eq_some_iff.mp h
    cases he
    exact Or.inr ⟨c, x, rfl, rfl, hx⟩

end World

/-- What a request is answered: whether it is authenticated, or that it succeeded. -/
inductive Outcome
  | authenticated
  | unauthorized
  | success
deriving DecidableEq

section
variable (o : Outside)

def getToken (jwt : String) : Prog (Option Tokens) :=
  Shared.getToken (ofExcept (o.parseJWT jwt)) fun id => await (.findToken id)

def getAccessToken (jwt : String) : Prog (Option Tokens) :=
  Shared.getAccessToken (await (.getCached jwt)) (getToken o jwt) fun accessToken => await (.setCached jwt accessToken)

/-- `handleAccessToken` once it has the token. -/
def authenticateToken (jwt : String) (token : Option Tokens) : Prog Outcome :=
  if token.any (·.revokedAt = none) then do
    let user ← await (.getUser jwt)
    if !isOwnerOrAdmin user then
      return .unauthorized
    else
      let isIpInAllowlist ← await .checkIpInAllowlist
      if isIpInAllowlist then
        return .authenticated
      else
        return .unauthorized
  else
    return .unauthorized

def handleAccessToken (jwt : String) : Prog Outcome := do
  let token ← tryCatch (getAccessToken o jwt) fun _ => return none
  authenticateToken jwt token

/-- `handleWebsocketAuth` once it has the token. -/
def authenticateWebsocket (jwt : String) (token : Option Tokens) : Prog Outcome :=
  if token.any (·.revokedAt = none) then do
    let user ← await (.getUser jwt)
    let isIpInAllowlist ← await .checkIpInAllowlist
    if !isIpInAllowlist then
      return .unauthorized
    else if isOwnerOrAdmin user then
      return .authenticated
    else
      return .unauthorized
  else
    return .unauthorized

def handleWebsocketAuth (jwt : String) : Prog Outcome := do
  let token ← getAccessToken o jwt
  authenticateWebsocket jwt token

/-- `POST /auth/access-tokens/revoke`. -/
def revokeAccessToken (id : String) : Prog Outcome := do
  await (.updateRevokedAt id)
  await .clearCache
  return .success

/-- The callback of `POST /auth/logout`, with the request's token. Without a `jti` the
update is refused. What the update throws is only logged. -/
def onLogout (jwt : Option String) : Prog Outcome :=
  match truthy jwt with
  | none => return .success
  | some jwt =>
    match o.parseJWT jwt with
    | .error e => throw e
    | .ok none => return .success
    | .ok (some jti) => do
      tryCatch (await (.updateRevokedAt jti)) fun _ => return ()
      return .success

inductive Kind
  | accessToken (jwt : String)
  | websocket (jwt : String)
  | revokeAccessToken (id : String)
  | logout (jwt : Option String)
deriving DecidableEq

abbrev tokenRequests : Machine Calls Outcome where
  World := World
  Kind := Kind
  effect := World.effect
  start w
    | .accessToken jwt => some (handleAccessToken o jwt, w)
    | .websocket jwt => some (handleWebsocketAuth o jwt, w)
    | .revokeAccessToken id => some (revokeAccessToken id, w)
    | .logout jwt => some (onLogout o jwt, w)

/-- The row that a token names, if it can be looked up. -/
def idOf (jwt : String) : Option String :=
  match o.parseJWT jwt with
  | .ok jti => truthy jti
  | .error _ => none

end
end Engine.Revocation
