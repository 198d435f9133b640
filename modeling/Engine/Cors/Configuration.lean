import Engine.Concurrent.Machine
import Engine.Text.Separated

/-! The requests that change the configured origins, by their reads and writes of a server
process's cache and their database steps. -/
namespace Engine.Cors

open Concurrent Program

/-- URLs to check and add if missing. -/
def mandatoryAllowedCorsUrls : List String := ["https://thirdweb.com", "https://embed.ipfscdn.io"]

inductive Thrown
  | customError (message : String) (statusCode : ℕ) (code : String)
  /-- What the database client throws. -/
  | database
deriving DecidableEq

/-- The row of the configuration, and the `_config` of each server process. -/
structure World where
  accessControlAllowOrigin : String
  config : ℕ → Option String := fun _ => none

inductive Op
  | getCached (p : ℕ)
  | setCached (p : ℕ) (config : Option String)
  | findConfiguration
  | updateConfiguration (accessControlAllowOrigin : String)
deriving DecidableEq

@[reducible] def Op.Reply : Op → Type
  | .getCached _ => Option String
  | .setCached _ _ => Unit
  | .findConfiguration => String
  | .updateConfiguration _ => String

/-- A variable of the process does not throw. -/
def Op.throws : Op → Bool
  | .getCached _ | .setCached _ _ => false
  | .findConfiguration | .updateConfiguration _ => true

abbrev Calls : Interface := ⟨Op, Op.Reply, fun _ => Unit, Thrown⟩

abbrev Prog (α : Type) := Program Calls α

abbrev await (o : Op) : Prog o.Reply := Program.perform (I := Calls) o

namespace World

/-- A successful call. -/
def apply (w : World) : (o : Op) → o.Reply × World
  | .getCached p => (w.config p, w)
  | .setCached p config => ((), { w with config := fun p' => if p' = p then config else w.config p' })
  | .findConfiguration => (w.accessControlAllowOrigin, w)
  | .updateConfiguration list => (list, { w with accessControlAllowOrigin := list })

/-- A call that throws did nothing. -/
def effect (w : World) (o : Op) : Except Thrown Unit → Option (Except Thrown o.Reply × World)
  | .error e => if o.throws ∧ e = .database then some (.error e, w) else none
  | .ok _ => some (.ok (w.apply o).1, (w.apply o).2)

theorem effect_cases {w w' : World} {o : Op} {a : Except Thrown Unit} {r : Except Thrown o.Reply}
    (h : w.effect o a = some (r, w')) :
    (r = .error .database ∧ w' = w) ∨ (r = .ok (w.apply o).1 ∧ w' = (w.apply o).2) := by
  cases a with
  | error e =>
    obtain ⟨hthrows, h⟩ := Option.ite_none_right_eq_some.mp h
    obtain ⟨-, rfl⟩ := hthrows
    cases h
    exact Or.inl ⟨rfl, rfl⟩
  | ok u =>
    cases Option.some.inj h
    exact Or.inr ⟨rfl, rfl⟩

end World

/-- An empty list is filled with the mandatory URLs. Filling another field that is missing only
reads the list later. -/
def getConfiguration : Prog String := do
  let config ← await .findConfiguration
  if config = "" then
    await (.updateConfiguration (join ',' mandatoryAllowedCorsUrls))
  else
    return config

def retrieveConfig (p : ℕ) : Prog String := do
  let config ← getConfiguration
  await (.setCached p (some config))
  return config

def getConfig (p : ℕ) (retrieveFromCache : Bool) : Prog String := do
  match ← await (.getCached p) with
  | some config => if retrieveFromCache then return config else retrieveConfig p
  | none => retrieveConfig p

/-- The loop that pushes the required URLs that are not in the list. -/
def withRequired (urls : List String) : List String :=
  mandatoryAllowedCorsUrls.foldl (fun urls url => if url ∈ urls then urls else urls ++ [url]) urls

/-- The list that `addUrlToCorsConfiguration` stores. -/
def addUrls (urlsToAdd : List String) (oldConfig : String) : String :=
  join ',' (dedupe (withRequired (urlsToAdd.map trim) ++ split ',' oldConfig))

/-- The list that `removeUrlToCorsConfiguration` stores. -/
def removeUrls (urlsToRemove : List String) (currentConfig : String) : String :=
  join ',' (dedupe (((split ',' currentConfig).map trim).filter (· ∉ urlsToRemove.map trim)))

/-- The list that `setUrlsToCorsConfiguration` stores. -/
def setUrls (urls : List String) : String := join ',' (dedupe (urls.map trim ++ mandatoryAllowedCorsUrls))

def containsMandatoryUrl (urlsToRemove : List String) : Bool :=
  (urlsToRemove.map trim).any (· ∈ mandatoryAllowedCorsUrls)

def cannotRemove : Thrown :=
  .customError ("Cannot remove URLs: " ++ join ',' mandatoryAllowedCorsUrls) 400 "BAD_REQUEST"

/-- Store a list, and respond with the updated configuration. -/
def storeAndFetch (p : ℕ) (list : String) : Prog (List String) := do
  let _ ← await (.updateConfiguration list)
  let config ← getConfig p false
  return split ',' config

/-- `POST /configuration/cors`. -/
def addUrlToCorsConfiguration (p : ℕ) (urlsToAdd : List String) : Prog (List String) := do
  let oldConfig ← getConfig p true
  storeAndFetch p (addUrls urlsToAdd oldConfig)

/-- `DELETE /configuration/cors`. -/
def removeUrlToCorsConfiguration (p : ℕ) (urlsToRemove : List String) : Prog (List String) := do
  let currentConfig ← getConfig p true
  if containsMandatoryUrl urlsToRemove then
    throw cannotRemove
  else
    storeAndFetch p (removeUrls urlsToRemove currentConfig)

/-- `PUT /configuration/cors`. -/
def setUrlsToCorsConfiguration (p : ℕ) (urls : List String) : Prog (List String) := storeAndFetch p (setUrls urls)

/-- A request to the server process `p`. -/
inductive Request
  | add (p : ℕ) (urlsToAdd : List String)
  | remove (p : ℕ) (urlsToRemove : List String)
  | set (p : ℕ) (urls : List String)
  /-- Another use of the configuration, which may fill or renew the cache. -/
  | getConfig (p : ℕ) (retrieveFromCache : Bool)
  /-- `invalidateConfig`. -/
  | clearCache (p : ℕ)
deriving DecidableEq

def fetchConfig (p : ℕ) (retrieveFromCache : Bool) : Prog (List String) := do
  let config ← getConfig p retrieveFromCache
  return split ',' config

def invalidateConfig (p : ℕ) : Prog (List String) := do
  await (.setCached p none)
  return []

abbrev corsRequests : Machine Calls (List String) where
  World := World
  Kind := Request
  effect := World.effect
  start w
    | .add p urlsToAdd => some (addUrlToCorsConfiguration p urlsToAdd, w)
    | .remove p urlsToRemove => some (removeUrlToCorsConfiguration p urlsToRemove, w)
    | .set p urls => some (setUrlsToCorsConfiguration p urls, w)
    | .getConfig p retrieveFromCache => some (fetchConfig p retrieveFromCache, w)
    | .clearCache p => some (invalidateConfig p, w)

/-- A list as the set of its URLs. -/
def urlsOf (list : String) : Set String := {url | url ∈ split ',' list}

def mandatory : Set String := {url | url ∈ mandatoryAllowedCorsUrls}

/-- The URLs of a request, without the white space around them. -/
def trimmed (urls : List String) : Set String := {url | url ∈ urls.map trim}

/-- What a request is for: the set of allowed URLs that it leaves of one. -/
def Request.applyTo (allowed : Set String) : Request → Set String
  | .add _ urlsToAdd => trimmed urlsToAdd ∪ mandatory ∪ allowed
  | .remove _ urlsToRemove =>
    if containsMandatoryUrl urlsToRemove then allowed else trim '' allowed \ trimmed urlsToRemove
  | .set _ urls => trimmed urls ∪ mandatory
  | .getConfig _ _ | .clearCache _ => allowed

/-- Every request has returned, or was rejected as a bad one. -/
def Answered (s : State corsRequests) : Prop :=
  ∀ (i : ℕ) (k : Request) (p : Prog (List String)), s.threads[i]? = some (k, p) →
    (∃ urls, p = .done urls) ∨ p = .raise cannotRemove

/-- The allowed URLs that the request of a thread leaves. -/
def applyAt (s : State corsRequests) (allowed : Set String) (i : ℕ) : Set String :=
  match s.threads[i]? with
  | some t => t.1.applyTo allowed
  | none => allowed

/-- The allowed URLs are those that all requests, in some order, leave of those of `w`. -/
def Composed (w : World) (s : State corsRequests) : Prop :=
  ∃ order : List ℕ, order.Nodup ∧ (∀ i, i ∈ order ↔ i < s.threads.length) ∧
    urlsOf s.world.accessControlAllowOrigin = order.foldl (applyAt s) (urlsOf w.accessControlAllowOrigin)

/-- Every mandatory URL is allowed in every state, and when all requests are answered they compose. -/
def Compose (G : Guard corsRequests) (w : World) : Prop :=
  ∀ s, Reachable G (State.initial w) s → mandatory ⊆ urlsOf s.world.accessControlAllowOrigin ∧
    (Answered s → Composed w s)

end Engine.Cors
