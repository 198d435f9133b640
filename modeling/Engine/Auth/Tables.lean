import Engine.Caching.Meets
import Engine.Model.Types
import Engine.Paging.Table
import Engine.Source.Shared
import Mathlib.Logic.Function.Basic

/-! The requests that `onRequest` decides on, the packages it calls, the tables it reads
and the caches over them. -/
namespace Engine.Auth

open Caching

structure Headers where
  upgrade : Option String := none
  authorization : Option String := none
  others : List (String × String) := []

/-- A query key may be repeated. The body is its JSON text. -/
structure Request where
  method : String
  url : String
  headers : Headers := {}
  params : List (String × String) := []
  query : List (String × List String) := []
  cookies : List (String × String) := []
  body : Option String := none
  ip : String

/-- `req.query.token`, when it is a string. A repeated key gives an array. -/
def Request.token (req : Request) : Option String :=
  match req.query.lookup "token" with
  | some [token] => some token
  | _ => none

/-- What is thrown: a string, or an error. -/
inductive Thrown
  | text (error : String)
  | tokenExpiredError
  | error (message : String)
deriving DecidableEq

/-- A value of which only the type, the truthiness and the string matter. -/
inductive JsValue
  | undefined
  | text (s : String)
  | other (truthy : Bool)
deriving DecidableEq

def JsValue.truthy : JsValue → Bool
  | .undefined => false
  | .text s => s ≠ ""
  | .other truthy => truthy

structure JwtPayload where
  iss : Option String := none
  bodyHash : JsValue := .undefined

structure JwtHeader where
  kid : Option String := none

structure Jwt where
  header : JwtHeader
  payload : JwtPayload

structure Session where
  permissions : String
deriving DecidableEq

structure ThirdwebAuthUser where
  address : String
  session : Option Session := none
deriving DecidableEq

structure AuthResponse where
  isAuthed : Bool
  user : Option ThirdwebAuthUser := none
  error : Option String := none
deriving DecidableEq

/-- What an auth webhook is sent of the request. -/
structure AuthWebhookBody where
  url : String
  method : String
  headers : Headers
  params : List (String × String)
  query : List (String × List String)
  cookies : List (String × String)
  body : Option String

structure Env where
  THIRDWEB_API_SECRET_KEY : String
  ADMIN_WALLET_ADDRESS : String
  ENCRYPTION_PASSWORD : String
  ENABLE_KEYPAIR_AUTH : Bool

/-- The environment and the packages: `getToken`, `parseJWT`, `getUser` and
`authenticateJWT` of thirdweb auth, `jsonwebtoken`, `uuid`, `crypto`, `fetch` and
`LocalWallet`, a wallet being its private key. -/
structure Outside where
  env : Env
  getJWT : Request → Option String
  /-- Null for what is no token; what can not be parsed may throw. -/
  decode : String → Except Thrown (Option Jwt)
  verify : String → String → String → Except Thrown JwtPayload
  /-- The `jti` of the payload. -/
  parseJWT : String → Except Thrown (Option String)
  getUser : Request → Except Thrown (Option ThirdwebAuthUser)
  /-- A token, the domain and the issuer. -/
  authenticateJWT : String → String → String → Except Thrown ThirdwebAuthUser
  uuidValidate : String → Bool
  sha256 : String → String
  /-- Whether the response of the URL is ok. -/
  fetch : String → AuthWebhookBody → Except Thrown Bool
  getAddress : String → String
  importKey : String → String → Except Thrown String
  exportKey : String → String → String
  /-- A wallet is imported with the password it was exported with. -/
  importKey_exportKey : ∀ key password, importKey (exportKey key password) password = .ok key

/-- A row of `tokens`. -/
structure Tokens where
  id : String
  revokedAt : Option ℕ
deriving DecidableEq

/-- A row of `keypairs`. -/
structure Keypairs where
  hash : String
  publicKey : String
  algorithm : String
deriving DecidableEq

/-- A row of `permissions`. -/
structure Permissions where
  walletAddress : String
  permissions : String
deriving DecidableEq

/-- The row of `configuration`. The auth wallet is only written as an export, by earlier
versions with the secret key. -/
structure Configuration (o : Outside) where
  ipAllowlist : List String
  authWalletEncryptedJson : String
  exported : ∃ key password, (password = o.env.ENCRYPTION_PASSWORD ∨ password = o.env.THIRDWEB_API_SECRET_KEY) ∧
    authWalletEncryptedJson = o.exportKey key password

structure Database (o : Outside) where
  tokens : Keyset.Table Tokens.id
  keypairs : Keyset.Table Keypairs.hash
  permissions : Keyset.Table Permissions.walletAddress
  webhooks : Keyset.Table Webhooks.id
  configuration : Configuration o

/-- `new LocalWallet()` holds no key yet. -/
structure LocalWallet where
  privateKey : Option String := none
deriving DecidableEq

/-- What is done to the connection of a websocket request. -/
inductive SocketCall
  | write (text : String)
  | destroy
deriving DecidableEq

/-- The tables, the caches and the socket of the request. -/
structure State (o : Outside) where
  db : Database o
  accessTokenCache : String → Option (Option Tokens) := fun _ => none
  keypairCache : String → Option (Option Keypairs) := fun _ => none
  webhookCache : WebhooksEventTypes → Option (List Webhooks) := fun _ => none
  config : Option (Configuration o) := none
  authWallet : Option LocalWallet := none
  socket : List SocketCall := []

abbrev M (o : Outside) (A : Type) := Stateful Thrown (State o) A

section
variable (o : Outside)

def getToken (jwt : String) : M o (Option Tokens) :=
  Shared.getToken (liftM (o.parseJWT jwt)) fun id => do return (← get).db.tokens.find? id

def getAccessToken (jwt : String) : M o (Option Tokens) :=
  Shared.getAccessToken (do return (← get).accessTokenCache jwt) (getToken o jwt) fun accessToken =>
    modify fun s => { s with accessTokenCache := Function.update s.accessTokenCache jwt (some accessToken) }

theorem getAccessToken_eq (jwt : String) :
    getAccessToken o jwt = readThrough (fun s => (s.accessTokenCache jwt).join.map some) (getToken o jwt)
      fun accessToken s =>
        { s with accessTokenCache := Function.update s.accessTokenCache jwt (some accessToken) } := by
  funext s
  have hread : (do return (← get).accessTokenCache jwt : M o (Option (Option Tokens))).run s =
      (.ok (s.accessTokenCache jwt), s) := rfl
  unfold readThrough
  refine (run_bind_ok hread).trans (Eq.trans ?_ (run_get_bind _ s).symm)
  dsimp only
  cases s.accessTokenCache jwt with
  | none => rfl
  | some cached =>
    cases cached with
    | none => rfl
    | some accessToken => rfl

def getKeypairByHash (hash : String) : M o (Option Keypairs) := do
  return (← get).db.keypairs.find? hash

def getKeypairByPublicKey (publicKey : String) : M o (Option Keypairs) := getKeypairByHash o (o.sha256 publicKey)

/-- A cached `null` is no hit. -/
def cachedKeypair (key : String) (read : M o (Option Keypairs)) : M o (Option Keypairs) :=
  readThrough (fun s => (s.keypairCache key).join.map some) read
    fun keypair s => { s with keypairCache := Function.update s.keypairCache key (some keypair) }

def getKeypair (publicKey publicKeyHash : Option String) : M o (Option Keypairs) :=
  match truthy publicKey, truthy publicKeyHash with
  | some publicKey, _ => cachedKeypair o ("public-key:" ++ publicKey) (getKeypairByPublicKey o publicKey)
  | none, some publicKeyHash => cachedKeypair o ("public-key-hash:" ++ publicKeyHash) (getKeypairByHash o publicKeyHash)
  | none, none => throw (.error "Must provide \"publicKey\" or \"publicKeyHash\".")

/-- The admin wallet gets its row when it is first looked up. -/
def getPermissions (walletAddress : String) : M o (Option Permissions) := do
  match (← get).db.permissions.find? walletAddress.toLower with
  | some permissions => return some permissions
  | none =>
    if walletAddress.toLower = o.env.ADMIN_WALLET_ADDRESS.toLower then
      let row : Permissions := { walletAddress := walletAddress.toLower, permissions := "ADMIN" }
      modify fun s => { s with db := { s.db with permissions := s.db.permissions.insert [row] } }
      return some row
    else
      return none

def getAllWebhooks : M o (List Webhooks) := do
  return ((← get).db.webhooks.rows.filter (·.revokedAt = none)).mergeSort fun x y => x.id ≤ y.id

def getWebhooksByEventType (eventType : WebhooksEventTypes) : M o (List Webhooks) :=
  readThrough (fun s => s.webhookCache eventType)
    (do return (← getAllWebhooks o).filter (·.eventType = eventType))
    fun webhooks s => { s with webhookCache := Function.update s.webhookCache eventType (some webhooks) }

def getConfiguration : M o (Configuration o) := do
  return (← get).db.configuration

def getConfig : M o (Configuration o) :=
  readThrough (·.config) (getConfiguration o) fun config s => { s with config := some config }

def updateConfiguration (configuration : Configuration o) : M o Unit :=
  modify fun s => { s with db := { s.db with configuration := configuration } }

/-- `authWallet.import`, on the wallet of the cache. -/
def importWallet (encryptedJson password : String) : M o String := do
  let key ← liftM (o.importKey encryptedJson password)
  modify fun s => { s with authWallet := some { privateKey := some key } }
  return key

/-- The `catch` block of `getAuthWallet`. The cached configuration is not renewed. -/
def reencryptAuthWallet (config : Configuration o) : M o String := do
  let key ← importWallet o config.authWalletEncryptedJson o.env.THIRDWEB_API_SECRET_KEY
  let configuration := (← get).db.configuration
  updateConfiguration o { configuration with
    authWalletEncryptedJson := o.exportKey key o.env.ENCRYPTION_PASSWORD
    exported := ⟨key, o.env.ENCRYPTION_PASSWORD, Or.inl rfl, rfl⟩ }
  return key

/-- The cache is set before the import. -/
def openAuthWallet (config : Configuration o) : M o LocalWallet := do
  modify fun s => { s with authWallet := some {} }
  let key ← tryCatch (importWallet o config.authWalletEncryptedJson o.env.ENCRYPTION_PASSWORD)
    fun _ => reencryptAuthWallet o config
  return { privateKey := some key }

def getAuthWallet : M o LocalWallet := do
  match (← get).authWallet with
  | some authWallet => return authWallet
  | none => do
    let config ← getConfig o
    openAuthWallet o config

/-- A wallet without a key throws. -/
def LocalWallet.getAddress (wallet : LocalWallet) : M o String :=
  match wallet.privateKey with
  | some key => return o.getAddress key
  | none => throw (.error "Wallet not initialized")

end
end Engine.Auth
