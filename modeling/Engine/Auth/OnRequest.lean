import Engine.Auth.Tables

/-! `onRequest` and its handlers, `server/middleware/auth.ts`. -/
namespace Engine.Auth

open Caching

def THIRDWEB_DASHBOARD_ISSUER : String := "0x016757dDf2Ab6a998a4729A80a091308d9059E17"

def ADMIN_QUEUES_BASEPATH : String := "/admin/queues"

def unauthorizedIp : String :=
  "Unauthorized IP Address. See: https://portal.thirdweb.com/engine/features/security"

/-- `headers.authorization?.split(" ")[1]`. -/
def Request.bearer (req : Request) : Option String := do
  let authorization ← req.headers.authorization
  let word ← (authorization.toList.splitOn ' ')[1]?
  return String.ofList word

/-- `user?.session?.permissions` is the owner's or an admin's. -/
def isOwnerOrAdmin (user : Option ThirdwebAuthUser) : Bool :=
  match user.bind (·.session) with
  | some session => session.permissions = "OWNER" ∨ session.permissions = "ADMIN"
  | none => false

section
variable (o : Outside)

def checkIpInAllowlist (req : Request) : M o Bool := do
  let config ← getConfig o
  return config.ipAllowlist.length = 0 ∨ req.ip ∈ config.ipAllowlist

def handlePublicEndpoints (req : Request) : AuthResponse :=
  if req.method = "GET" ∧ (req.url = "/favicon.ico" ∨ req.url = "/" ∨ req.url = "/system/health" ∨ req.url = "/json" ∨
      startsWith req.url "/auth/user" ∨ startsWith req.url "/transaction/status") then
    { isAuthed := true }
  else if req.method = "POST" ∧ (startsWith req.url "/auth/payload" ∨ startsWith req.url "/auth/login" ∨
      startsWith req.url "/auth/switch-account" ∨ startsWith req.url "/auth/logout") then
    { isAuthed := true }
  else if req.method = "POST" ∧ startsWith req.url "/relayer/" ∧ o.uuidValidate (slice req.url "/relayer/".length) then
    { isAuthed := true }
  else if startsWith req.url ADMIN_QUEUES_BASEPATH then
    { isAuthed := true }
  else
    { isAuthed := false }

/-- Destroy the websocket connection. -/
def refuseWebsocket : M o AuthResponse := do
  modify fun s => { s with socket := s.socket ++ [.write "HTTP/1.1 401 Unauthorized\r\n\r\n", .destroy] }
  return { isAuthed := false }

/-- `getAccessToken` without a token throws in `parseJWT`. -/
def handleWebsocketAuth (req : Request) : M o AuthResponse := do
  match req.token with
  | none => throw (.error "Cannot read properties of undefined (reading 'split')")
  | some jwt => do
    let token ← getAccessToken o jwt
    if token.any (·.revokedAt = none) then
      -- Set as a header for `getUser` to parse the token.
      let user ← liftM (o.getUser { req with headers := { req.headers with authorization := some ("Bearer " ++ jwt) } })
      let isIpInAllowlist ← checkIpInAllowlist o req
      if !isIpInAllowlist then
        return { isAuthed := false, error := some unauthorizedIp }
      else if isOwnerOrAdmin user then
        return { isAuthed := true, user := user }
      else
        refuseWebsocket o
    else
      refuseWebsocket o

def hashRequestBody (req : Request) : M o String :=
  match req.body with
  | some body => return o.sha256 body
  | none => throw (.error "The \"data\" argument must be of type string. Received undefined")

/-- A `bodyHash` must match a hash of the POST request body. -/
def checkBodyHash (req : Request) (bodyHash : JsValue) : M o Unit := do
  if req.method = "POST" ∧ bodyHash.truthy then
    let hash ← hashRequestBody o req
    if bodyHash ≠ .text hash then
      throw (.text ("The request body does not match the hash in the access token. See: " ++
        "https://portal.thirdweb.com/engine/features/keypair-authentication"))

/-- The `try` block of `handleKeypairAuth`. A string that is thrown is `error`. -/
def verifyKeypair (jwt : String) (req : Request) (publicKey publicKeyHash : Option String) : M o AuthResponse := do
  match ← getKeypair o publicKey publicKeyHash with
  | none => throw (.text "The provided public key is incorrect or not added to Engine.")
  | some keypair => do
    let payload ← liftM (o.verify jwt keypair.publicKey keypair.algorithm)
    checkBodyHash o req payload.bodyHash
    let isIpInAllowlist ← checkIpInAllowlist o req
    if !isIpInAllowlist then
      throw (.text unauthorizedIp)
    else
      return { isAuthed := true }

/-- The `error` that the `catch` block of `handleKeypairAuth` ends with. -/
def keypairError : Thrown → String
  | .tokenExpiredError => "Keypair token is expired."
  | .text error => error
  | .error _ =>
    "Error parsing \"Authorization\" header. See: https://portal.thirdweb.com/engine/features/access-tokens"

def handleKeypairAuth (jwt : String) (req : Request) (publicKey publicKeyHash : Option String) : M o AuthResponse :=
  if !o.env.ENABLE_KEYPAIR_AUTH then
    return { isAuthed := false }
  else
    tryCatch (verifyKeypair o jwt req publicKey publicKeyHash) fun e =>
      return { isAuthed := false, error := some (keypairError e) }

/-- The lookup of `handleAccessToken`: without a row for a token that cannot be parsed. -/
def findAccessToken (jwt : String) : M o (Option Tokens) :=
  tryCatch (getAccessToken o jwt) fun _ => return none

def handleAccessToken (jwt : String) (req : Request) : M o AuthResponse := do
  let token ← findAccessToken o jwt
  if token.any (·.revokedAt = none) then
    let user ← liftM (o.getUser req)
    if !isOwnerOrAdmin user then
      return { isAuthed := false }
    else
      let isIpInAllowlist ← checkIpInAllowlist o req
      if !isIpInAllowlist then
        return { isAuthed := false, error := some unauthorizedIp }
      else
        return { isAuthed := true, user := user }
  else
    return { isAuthed := false }

/-- No user when the token is refused. -/
def handleSiwe (jwt domain issuer : String) : Option ThirdwebAuthUser := (o.authenticateJWT jwt domain issuer).toOption

def handleDashboardAuth (jwt : String) : M o AuthResponse :=
  match (handleSiwe o jwt "thirdweb.com" THIRDWEB_DASHBOARD_ISSUER).or
      (handleSiwe o jwt "thirdweb-preview.com" THIRDWEB_DASHBOARD_ISSUER) with
  | none => return { isAuthed := false }
  | some user => do
    match ← getPermissions o user.address with
    | none => return { isAuthed := false }
    | some res =>
      if res.permissions = "OWNER" ∨ res.permissions = "ADMIN" then
        return {
          isAuthed := true
          user := some { address := user.address, session := some { permissions := res.permissions } } }
      else
        return { isAuthed := false }

def handleSecretKey (req : Request) : M o AuthResponse := do
  if req.bearer = some o.env.THIRDWEB_API_SECRET_KEY then
    let authWallet ← getAuthWallet o
    let address ← authWallet.getAddress o
    return { isAuthed := true, user := some { address := address, session := some { permissions := "ADMIN" } } }
  else
    return { isAuthed := false }

/-- `sendWebhookRequest`: not ok when `fetch` throws. -/
def sendWebhookRequest (webhook : Webhooks) (body : AuthWebhookBody) : Bool :=
  match o.fetch webhook.url body with
  | .ok ok => ok
  | .error _ => false

def handleAuthWebhooks (req : Request) : M o AuthResponse := do
  let authWebhooks ← getWebhooksByEventType o .auth
  if authWebhooks.length > 0 ∧ authWebhooks.all fun webhook => sendWebhookRequest o webhook
      { url := req.url, method := req.method, headers := req.headers, params := req.params, query := req.query,
        cookies := req.cookies, body := req.body } then
    return { isAuthed := true }
  else
    return { isAuthed := false }

/-- The handler of a decoded token, when its `iss` or its `kid` selects one. -/
def handleJwt (req : Request) (jwt : String) (decoded : Jwt) : Option (M o AuthResponse) :=
  match truthy decoded.payload.iss, truthy decoded.header.kid with
  | some publicKey, _ => some do
    let authWallet ← getAuthWallet o
    let address ← authWallet.getAddress o
    if publicKey = address then
      handleAccessToken o jwt req
    else if publicKey = THIRDWEB_DASHBOARD_ISSUER then
      handleDashboardAuth o jwt
    else
      handleKeypairAuth o jwt req (some publicKey) none
  | none, some publicKeyHash => some (handleKeypairAuth o jwt req none (some publicKeyHash))
  | none, none => none

/-- The token of the request and what it decodes to. -/
def decodedJwt (req : Request) : Except Thrown (Option (String × Jwt)) :=
  match truthy (o.getJWT req) with
  | none => .ok none
  | some jwt => (o.decode jwt).map fun decoded => decoded.map fun decoded => (jwt, decoded)

/-- The end of `onRequest`, for a request that no handler was selected for. -/
def handleOther (req : Request) : M o AuthResponse := do
  let secretKeyResp ← handleSecretKey o req
  if secretKeyResp.isAuthed then
    return secretKeyResp
  else
    let authWebhooksResp ← handleAuthWebhooks o req
    if authWebhooksResp.isAuthed then
      return authWebhooksResp
    else
      return { isAuthed := false }

/-- `onRequest` past the public endpoints. -/
def handleAuthorization (req : Request) : M o AuthResponse := do
  let decoded ← (liftM (decodedJwt o req) : M o (Option (String × Jwt)))
  match decoded with
  | none => handleOther o req
  | some (jwt, decoded) => (handleJwt o req jwt decoded).getD (handleOther o req)

/-- The `upgrade` header asks for a websocket. -/
def isWebsocket (req : Request) : Bool := req.headers.upgrade.any (·.toLower = "websocket")

def onRequest (req : Request) : M o AuthResponse :=
  if isWebsocket req then
    handleWebsocketAuth o req
  else if (handlePublicEndpoints o req).isAuthed then
    return handlePublicEndpoints o req
  else
    handleAuthorization o req

end
end Engine.Auth
