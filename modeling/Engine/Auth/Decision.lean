import Engine.Auth.Consistent

/-! Which scheme a request is decided by, when it passes, and that `onRequest` admits
exactly the requests that pass. -/
namespace Engine.Auth

open Caching

inductive Scheme
  | websocket
  | publicEndpoint
  | unreadable (jwt : String)
  | accessToken (jwt : String)
  | dashboard (jwt : String)
  | publicKey (jwt publicKey : String)
  | publicKeyHash (jwt hash : String)
  | secretKey
  | authWebhooks

def Websocket (req : Request) : Prop :=
  ∃ upgrade, req.headers.upgrade = some upgrade ∧ upgrade.toLower = "websocket"

/-- A value that is there and not empty. -/
def Present (s : Option String) (x : String) : Prop := s = some x ∧ x ≠ ""

def OwnerOrAdmin (permissions : String) : Prop := permissions = "OWNER" ∨ permissions = "ADMIN"

section
variable (o : Outside)

inductive PublicEndpoint (method url : String) : Prop
  | page (hmethod : method = "GET") (h : url ∈ ["/favicon.ico", "/", "/system/health", "/json"])
  | get (pre rest : String) (hmethod : method = "GET") (hpre : pre ∈ ["/auth/user", "/transaction/status"])
      (h : url = pre ++ rest)
  | post (pre rest : String) (hmethod : method = "POST")
      (hpre : pre ∈ ["/auth/payload", "/auth/login", "/auth/switch-account", "/auth/logout"]) (h : url = pre ++ rest)
  | relay (relayerId : String) (hmethod : method = "POST") (hid : o.uuidValidate relayerId = true)
      (h : url = "/relayer/" ++ relayerId)
  | queues (rest : String) (h : url = "/admin/queues" ++ rest)

/-- Neither a websocket nor a public endpoint. -/
structure Private (req : Request) : Prop where
  websocket : ¬ Websocket req
  endpoint : ¬ PublicEndpoint o req.method req.url

/-- The request carries a token that can be decoded. -/
structure Carries (req : Request) (jwt : String) (decoded : Jwt) : Prop where
  token : Present (o.getJWT req) jwt
  decoded : o.decode jwt = .ok (some decoded)

/-- The request carries a token that `decode` throws on. -/
structure Unreadable (req : Request) (jwt : String) : Prop where
  token : Present (o.getJWT req) jwt
  throws : ∃ e, o.decode jwt = .error e

/-- The request carries no token with an `iss` or a `kid`. -/
structure NoIssuer (req : Request) : Prop where
  readable : ∀ jwt, ¬ Unreadable o req jwt
  issuer : ∀ jwt decoded, Carries o req jwt decoded →
    (∀ iss, ¬ Present decoded.payload.iss iss) ∧ ∀ kid, ¬ Present decoded.header.kid kid

variable (db : Database o)

/-- The address of the auth wallet. -/
def AuthWallet (address : String) : Prop :=
  ∃ key, authWalletKey o db.configuration.authWalletEncryptedJson = some key ∧ o.getAddress key = address

/-- The scheme that decides on a request. It depends on the fields of the request and on
the auth wallet only. -/
inductive Selects (req : Request) : Scheme → Prop
  | websocket (h : Websocket req) : Selects req .websocket
  | publicEndpoint (hws : ¬ Websocket req) (h : PublicEndpoint o req.method req.url) : Selects req .publicEndpoint
  | unreadable {jwt : String} (hpriv : Private o req) (hjwt : Unreadable o req jwt) : Selects req (.unreadable jwt)
  | accessToken {jwt iss : String} {decoded : Jwt} (hpriv : Private o req) (hjwt : Carries o req jwt decoded)
      (hiss : Present decoded.payload.iss iss) (h : AuthWallet o db iss) : Selects req (.accessToken jwt)
  | dashboard {jwt : String} {decoded : Jwt} (hpriv : Private o req) (hjwt : Carries o req jwt decoded)
      (hiss : Present decoded.payload.iss THIRDWEB_DASHBOARD_ISSUER) (h : ¬ AuthWallet o db THIRDWEB_DASHBOARD_ISSUER) :
      Selects req (.dashboard jwt)
  | publicKey {jwt iss : String} {decoded : Jwt} (hpriv : Private o req) (hjwt : Carries o req jwt decoded)
      (hiss : Present decoded.payload.iss iss) (hwallet : ¬ AuthWallet o db iss) (h : iss ≠ THIRDWEB_DASHBOARD_ISSUER) :
      Selects req (.publicKey jwt iss)
  | publicKeyHash {jwt kid : String} {decoded : Jwt} (hpriv : Private o req) (hjwt : Carries o req jwt decoded)
      (hiss : ∀ iss, ¬ Present decoded.payload.iss iss) (h : Present decoded.header.kid kid) :
      Selects req (.publicKeyHash jwt kid)
  | secretKey (hpriv : Private o req) (hissuer : NoIssuer o req) (h : req.bearer = some o.env.THIRDWEB_API_SECRET_KEY) :
      Selects req .secretKey
  | authWebhooks (hpriv : Private o req) (hissuer : NoIssuer o req)
      (h : req.bearer ≠ some o.env.THIRDWEB_API_SECRET_KEY) : Selects req .authWebhooks

def IpAllowed (req : Request) : Prop :=
  db.configuration.ipAllowlist = [] ∨ req.ip ∈ db.configuration.ipAllowlist

/-- A stored token that is not revoked. Whether it is from a login or an access token is not looked at. -/
def ActiveToken (jwt : String) : Prop := ∃ token, StoredToken o db jwt token ∧ token.revokedAt = none

/-- The user of the token of a request is the owner or an admin. -/
def AdminUser (req : Request) : Prop :=
  ∃ user session, o.getUser req = .ok (some user) ∧ user.session = some session ∧ OwnerOrAdmin session.permissions

def SiweUser (jwt : String) (user : ThirdwebAuthUser) : Prop :=
  o.authenticateJWT jwt "thirdweb.com" THIRDWEB_DASHBOARD_ISSUER = .ok user ∨
    (∀ user', o.authenticateJWT jwt "thirdweb.com" THIRDWEB_DASHBOARD_ISSUER ≠ .ok user') ∧
      o.authenticateJWT jwt "thirdweb-preview.com" THIRDWEB_DASHBOARD_ISSUER = .ok user

/-- The permissions of a wallet. The admin wallet needs no row. -/
def HasPermission (walletAddress permissions : String) : Prop :=
  (∃ row ∈ db.permissions.rows, row.walletAddress = walletAddress.toLower ∧ row.permissions = permissions) ∨
    (∀ row ∈ db.permissions.rows, row.walletAddress ≠ walletAddress.toLower) ∧
      walletAddress.toLower = o.env.ADMIN_WALLET_ADDRESS.toLower ∧ permissions = "ADMIN"

/-- A hash in the token is the one of the body of a POST request. -/
def BodyMatches (req : Request) (bodyHash : JsValue) : Prop :=
  req.method = "POST" → bodyHash.truthy = true → ∃ body, req.body = some body ∧ bodyHash = .text (o.sha256 body)

/-- The token is signed with, and not expired under, the stored keypair of a hash. -/
def SignedBy (req : Request) (jwt hash : String) : Prop :=
  ∃ keypair ∈ db.keypairs.rows, keypair.hash = hash ∧
    ∃ payload, o.verify jwt keypair.publicKey keypair.algorithm = .ok payload ∧ BodyMatches o req payload.bodyHash

def webhookBody (req : Request) : AuthWebhookBody :=
  { url := req.url, method := req.method, headers := req.headers, params := req.params, query := req.query,
    cookies := req.cookies, body := req.body }

/-- Every auth webhook answers ok, and there is one. -/
def WebhooksAgree (req : Request) : Prop :=
  (∃ webhook ∈ db.webhooks.rows, webhook.eventType = .auth ∧ webhook.revokedAt = none) ∧
    ∀ webhook ∈ db.webhooks.rows, webhook.eventType = .auth → webhook.revokedAt = none →
      o.fetch webhook.url (webhookBody req) = .ok true

/-- What a scheme asks of a request. -/
def Passes (req : Request) : Scheme → Prop
  | .websocket => ∃ jwt, req.token = some jwt ∧ ActiveToken o db jwt ∧
      AdminUser o { req with headers := { req.headers with authorization := some ("Bearer " ++ jwt) } } ∧
        IpAllowed o db req
  | .publicEndpoint => True
  | .unreadable _ => False
  | .accessToken jwt => ActiveToken o db jwt ∧ AdminUser o req ∧ IpAllowed o db req
  | .dashboard jwt => ∃ user permissions, SiweUser o jwt user ∧ HasPermission o db user.address permissions ∧
      OwnerOrAdmin permissions
  | .publicKey jwt publicKey => o.env.ENABLE_KEYPAIR_AUTH = true ∧ SignedBy o db req jwt (o.sha256 publicKey) ∧
      IpAllowed o db req
  | .publicKeyHash jwt hash => o.env.ENABLE_KEYPAIR_AUTH = true ∧ SignedBy o db req jwt hash ∧ IpAllowed o db req
  | .secretKey => True
  | .authWebhooks => WebhooksAgree o db req

end

/-- The request is authenticated. An exception is not. -/
def Admits (r : Except Thrown AuthResponse) : Prop := ∃ response, r = .ok response ∧ response.isAuthed = true

section
variable {o : Outside} {db : Database o}

theorem admits_ok {response : AuthResponse} : Admits (.ok response) ↔ response.isAuthed = true := by
  constructor
  · intro h
    obtain ⟨r, hr, hauthed⟩ := h
    rw [Except.ok.inj hr]
    exact hauthed
  · intro h
    exact ⟨response, rfl, h⟩

theorem not_admits_error {e : Thrown} : ¬ Admits (.error e) := by
  intro h
  obtain ⟨r, hr, _⟩ := h
  cases hr

theorem meets_checkIpInAllowlist (req : Request) : Meets (Agrees o db) (checkIpInAllowlist o req) fun r =>
    ∃ allowed, r = .ok allowed ∧ (allowed = true ↔ IpAllowed o db req) := by
  unfold checkIpInAllowlist
  apply Meets.bind meets_getConfig
  · intro config hconfig
    obtain ⟨c, hc, hsame⟩ := hconfig
    apply Meets.pure
    refine ⟨_, rfl, ?_⟩
    rw [decide_eq_true_eq, Except.ok.inj hc, hsame.ipAllowlist, List.length_eq_zero_iff]
    exact Iff.rfl
  · intro e he
    obtain ⟨c, hc, _⟩ := he
    cases hc

theorem isWebsocket_iff {req : Request} : isWebsocket req = true ↔ Websocket req := by
  unfold isWebsocket Websocket
  rw [Option.any_eq_true]
  simp only [decide_eq_true_eq]

private theorem isAuthed_handlePublicEndpoints (req : Request) : (handlePublicEndpoints o req).isAuthed = true ↔
    (req.method = "GET" ∧ (req.url = "/favicon.ico" ∨ req.url = "/" ∨ req.url = "/system/health" ∨ req.url = "/json" ∨
      startsWith req.url "/auth/user" = true ∨ startsWith req.url "/transaction/status" = true)) ∨
    (req.method = "POST" ∧ (startsWith req.url "/auth/payload" = true ∨ startsWith req.url "/auth/login" = true ∨
      startsWith req.url "/auth/switch-account" = true ∨ startsWith req.url "/auth/logout" = true)) ∨
    (req.method = "POST" ∧ startsWith req.url "/relayer/" = true ∧
      o.uuidValidate (slice req.url "/relayer/".length) = true) ∨
    startsWith req.url ADMIN_QUEUES_BASEPATH = true := by
  unfold handlePublicEndpoints
  split_ifs with hget hpost hrelay hqueues
  · exact iff_of_true rfl (Or.inl hget)
  · exact iff_of_true rfl (Or.inr (Or.inl hpost))
  · exact iff_of_true rfl (Or.inr (Or.inr (Or.inl hrelay)))
  · exact iff_of_true rfl (Or.inr (Or.inr (Or.inr hqueues)))
  · apply iff_of_false not_false
    intro h
    obtain h | h | h | h := h
    · exact hget h
    · exact hpost h
    · exact hrelay h
    · exact hqueues h

theorem isAuthed_iff_publicEndpoint (req : Request) :
    (handlePublicEndpoints o req).isAuthed = true ↔ PublicEndpoint o req.method req.url := by
  rw [isAuthed_handlePublicEndpoints]
  simp only [startsWith_iff]
  constructor
  · intro h
    obtain ⟨hmethod, h⟩ | ⟨hmethod, h⟩ | ⟨hmethod, h, hid⟩ | ⟨rest, h⟩ := h
    · obtain h | h | h | h | ⟨rest, h⟩ | ⟨rest, h⟩ := h
      case inr.inr.inr.inr.inl => exact PublicEndpoint.get _ rest hmethod (by simp) h
      case inr.inr.inr.inr.inr => exact PublicEndpoint.get _ rest hmethod (by simp) h
      all_goals exact PublicEndpoint.page hmethod (by simp [h])
    · obtain ⟨rest, h⟩ | ⟨rest, h⟩ | ⟨rest, h⟩ | ⟨rest, h⟩ := h
      all_goals exact PublicEndpoint.post _ rest hmethod (by simp) h
    · obtain ⟨rest, hrest⟩ := h
      rw [hrest, slice_append] at hid
      exact PublicEndpoint.relay rest hmethod hid hrest
    · exact PublicEndpoint.queues rest h
  · intro h
    cases h with
    | page hmethod h =>
      simp only [List.mem_cons, List.not_mem_nil, or_false] at h
      refine Or.inl ⟨hmethod, ?_⟩
      obtain h | h | h | h := h
      · exact Or.inl h
      · exact Or.inr (Or.inl h)
      · exact Or.inr (Or.inr (Or.inl h))
      · exact Or.inr (Or.inr (Or.inr (Or.inl h)))
    | get pre rest hmethod hpre h =>
      simp only [List.mem_cons, List.not_mem_nil, or_false] at hpre
      refine Or.inl ⟨hmethod, Or.inr (Or.inr (Or.inr (Or.inr ?_)))⟩
      obtain rfl | rfl := hpre
      · exact Or.inl ⟨rest, h⟩
      · exact Or.inr ⟨rest, h⟩
    | post pre rest hmethod hpre h =>
      simp only [List.mem_cons, List.not_mem_nil, or_false] at hpre
      refine Or.inr (Or.inl ⟨hmethod, ?_⟩)
      obtain rfl | rfl | rfl | rfl := hpre
      · exact Or.inl ⟨rest, h⟩
      · exact Or.inr (Or.inl ⟨rest, h⟩)
      · exact Or.inr (Or.inr (Or.inl ⟨rest, h⟩))
      · exact Or.inr (Or.inr (Or.inr ⟨rest, h⟩))
    | relay relayerId hmethod hid h =>
      refine Or.inr (Or.inr (Or.inl ⟨hmethod, ⟨relayerId, h⟩, ?_⟩))
      rw [h, slice_append]
      exact hid
    | queues rest h => exact Or.inr (Or.inr (Or.inr ⟨rest, h⟩))

/-- A handler that decides by `p`. -/
def Decides (db : Database o) (handler : M o AuthResponse) (p : Prop) : Prop :=
  Meets (Agrees o db) handler fun r => Admits r ↔ p

theorem Decides.admit {response : AuthResponse} {p : Prop} (hauthed : response.isAuthed = true) (h : p) :
    Decides db (return response) p := Meets.pure (iff_of_true (admits_ok.mpr hauthed) h)

theorem Decides.refuse {response : AuthResponse} {p : Prop} (hauthed : response.isAuthed = false) (h : ¬ p) :
    Decides db (return response) p := by
  apply Meets.pure
  rw [admits_ok, hauthed]
  exact iff_of_false Bool.false_ne_true h

theorem Decides.throw {e : Thrown} {p : Prop} (h : ¬ p) : Decides db (throw e) p :=
  Meets.throw (iff_of_false not_admits_error h)

theorem Decides.bind {A : Type} {c : M o A} {f : A → M o AuthResponse} {q : Except Thrown A → Prop} {p : Prop}
    (hc : Meets (Agrees o db) c q) (hok : ∀ a, q (.ok a) → Decides db (f a) p) (herror : ∀ e, q (.error e) → ¬ p) :
    Decides db (c >>= f) p := Meets.bind hc hok fun e he => iff_of_false not_admits_error (herror e he)

/-- A handler that decides by `p` and does not throw. -/
def Answers (db : Database o) (handler : M o AuthResponse) (p : Prop) : Prop :=
  Meets (Agrees o db) handler fun r => ∃ response, r = .ok response ∧ (response.isAuthed = true ↔ p)

theorem Answers.return {response : AuthResponse} {p : Prop} (h : response.isAuthed = true ↔ p) :
    Answers db (return response) p := Meets.pure ⟨response, rfl, h⟩

theorem Answers.decides {handler : M o AuthResponse} {p : Prop} (h : Answers db handler p) : Decides db handler p := by
  apply Meets.imp h
  intro r hr
  obtain ⟨response, rfl, hp⟩ := hr
  rw [admits_ok]
  exact hp

theorem Answers.bind {handler : M o AuthResponse} {f : AuthResponse → M o AuthResponse} {p q : Prop}
    (hc : Answers db handler p)
    (hf : ∀ response : AuthResponse, (response.isAuthed = true ↔ p) → Answers db (f response) q) :
    Answers db (handler >>= f) q := by
  apply Meets.bind hc
  · intro response h
    obtain ⟨response', heq, hp⟩ := h
    rw [Except.ok.inj heq]
    exact hf response' hp
  · intro e he
    obtain ⟨response, heq, _⟩ := he
    cases heq

/-- The last check of three handlers. -/
theorem decides_checkIp {req : Request} {p : Prop} {yes no : M o AuthResponse}
    (hyes : IpAllowed o db req → Decides db yes p)
    (hno : ¬ IpAllowed o db req → Decides db no p) :
    Decides db (do
      let isIpInAllowlist ← checkIpInAllowlist o req
      if !isIpInAllowlist then no else yes) p := by
  apply Decides.bind (meets_checkIpInAllowlist req)
  · intro isIpInAllowlist hallowed
    obtain ⟨allowed, heq, hallowed⟩ := hallowed
    rw [Except.ok.inj heq]
    cases allowed with
    | true => exact hyes (hallowed.mp rfl)
    | false => exact hno fun h => Bool.false_ne_true (hallowed.mpr h)
  · intro e he
    obtain ⟨allowed, heq, _⟩ := he
    cases heq

theorem decides_refuseWebsocket {p : Prop} (h : ¬ p) : Decides db (refuseWebsocket o) p :=
  Meets.modify_bind (fun _ hs => { hs with }) (Decides.refuse rfl h)

private theorem isOwnerOrAdmin_iff {user : Option ThirdwebAuthUser} : isOwnerOrAdmin user = true ↔
    ∃ user' session, user = some user' ∧ user'.session = some session ∧ OwnerOrAdmin session.permissions := by
  unfold isOwnerOrAdmin
  constructor
  · intro h
    cases user with
    | none => cases h
    | some user =>
      cases hsession : user.session with
      | none =>
        rw [Option.bind_some, hsession] at h
        cases h
      | some session =>
        rw [Option.bind_some, hsession] at h
        have hpermissions := of_decide_eq_true h
        exact ⟨user, session, rfl, hsession, hpermissions⟩
  · intro h
    obtain ⟨user', session, rfl, hsession, h⟩ := h
    rw [Option.bind_some, hsession]
    unfold OwnerOrAdmin at h
    exact decide_eq_true h

/-- A user that `getUser` gives is tested for the permissions of `AdminUser`. -/
theorem adminUser_iff {req : Request} {user : Option ThirdwebAuthUser} (h : o.getUser req = .ok user) :
    AdminUser o req ↔ isOwnerOrAdmin user = true := by
  rw [isOwnerOrAdmin_iff]
  unfold AdminUser
  rw [h]
  simp only [Except.ok.injEq]

/-- A token is active if and only if the row that was found for it is not revoked. -/
theorem activeToken_iff {jwt : String} {token : Option Tokens} (h : FindsToken db jwt (.ok token)) :
    ActiveToken o db jwt ↔ token.any (·.revokedAt = none) = true := by
  unfold ActiveToken
  rw [Option.any_eq_true]
  simp only [decide_eq_true_eq]
  constructor
  · intro hactive
    obtain ⟨row, hrow, hrevoked⟩ := hactive
    exact ⟨row, Except.ok.inj ((h row).mpr hrow), hrevoked⟩
  · intro hfound
    obtain ⟨row, rfl, hrevoked⟩ := hfound
    exact ⟨row, (h row).mp rfl, hrevoked⟩

private theorem not_activeToken_of_error {jwt : String} {e : Thrown} (h : FindsToken db jwt (.error e)) :
    ¬ ActiveToken o db jwt := by
  intro hactive
  obtain ⟨row, hrow, _⟩ := hactive
  cases (h row).mpr hrow

theorem decides_handleWebsocketAuth (req : Request) :
    Decides db (handleWebsocketAuth o req) (Passes o db req .websocket) := by
  unfold handleWebsocketAuth Passes
  cases htoken : req.token with
  | none =>
    apply Decides.throw
    intro h
    obtain ⟨jwt, hjwt, _⟩ := h
    cases hjwt
  | some jwt =>
    simp only [Option.some.injEq, exists_eq_left']
    apply Decides.bind (meets_getAccessToken jwt)
    · intro token hfinds
      rw [activeToken_iff hfinds]
      split_ifs with hactive
      · apply Decides.bind (Meets.liftExcept (p := fun r => r = o.getUser _) rfl)
        · intro user huser
          rw [adminUser_iff huser.symm]
          apply decides_checkIp
          · intro hip
            split_ifs with hadmin
            · exact Decides.admit rfl ⟨hactive, hadmin, hip⟩
            · exact decides_refuseWebsocket fun h => hadmin h.2.1
          · intro hip
            exact Decides.refuse rfl fun h => hip h.2.2
        · intro e he h
          obtain ⟨_, ⟨user, _, huser, _⟩, _⟩ := h
          rw [huser] at he
          cases he
      · exact decides_refuseWebsocket fun h => hactive h.1
    · intro e he h
      exact not_activeToken_of_error he h.1

theorem meets_findAccessToken (jwt : String) : Meets (Agrees o db) (findAccessToken o jwt) fun r =>
    ∃ token, r = .ok token ∧ FindsToken db jwt (.ok token) := by
  unfold findAccessToken
  apply Meets.tryCatch (meets_getAccessToken jwt)
  · intro token hfinds
    exact ⟨token, rfl, hfinds⟩
  · intro e he
    apply Meets.pure
    refine ⟨none, rfl, fun token => ?_⟩
    constructor
    · intro h
      cases h
    · intro hstored
      cases (he token).mpr hstored

theorem decides_handleAccessToken (jwt : String) (req : Request) :
    Decides db (handleAccessToken o jwt req) (Passes o db req (.accessToken jwt)) := by
  show Decides db (handleAccessToken o jwt req) (ActiveToken o db jwt ∧ AdminUser o req ∧ IpAllowed o db req)
  unfold handleAccessToken
  apply Decides.bind (meets_findAccessToken jwt)
  · intro token hfound
    obtain ⟨_, heq, hfinds⟩ := hfound
    rw [← Except.ok.inj heq] at hfinds
    rw [activeToken_iff hfinds]
    split_ifs with hactive
    · apply Decides.bind (Meets.liftExcept (p := fun r => r = o.getUser req) rfl)
      · intro user huser
        rw [adminUser_iff huser.symm]
        cases hadmin : isOwnerOrAdmin user with
        | false => exact Decides.refuse rfl fun h => Bool.false_ne_true h.2.1
        | true =>
          apply decides_checkIp
          · intro hip
            exact Decides.admit rfl ⟨hactive, rfl, hip⟩
          · intro hip
            exact Decides.refuse rfl fun h => hip h.2.2
      · intro e he h
        obtain ⟨_, ⟨user, _, huser, _⟩, _⟩ := h
        rw [huser] at he
        cases he
    · exact Decides.refuse rfl fun h => hactive h.1
  · intro e he
    obtain ⟨_, heq, _⟩ := he
    cases heq

/-- `checkBodyHash` throws exactly when the hash is not the body's. -/
theorem meets_checkBodyHash (req : Request) (bodyHash : JsValue) :
    Meets (Agrees o db) (checkBodyHash o req bodyHash) fun r =>
    r = .ok () ∧ BodyMatches o req bodyHash ∨ (∃ e, r = .error e) ∧ ¬ BodyMatches o req bodyHash := by
  unfold checkBodyHash
  split_ifs with hpost
  · obtain ⟨hmethod, htruthy⟩ := hpost
    unfold hashRequestBody
    cases hbody : req.body with
    | none =>
      have hno : ¬ BodyMatches o req bodyHash := by
        intro h
        obtain ⟨body, hsome, _⟩ := h hmethod htruthy
        rw [hbody] at hsome
        cases hsome
      apply Meets.bind (Meets.throw (p := fun r => ∃ e, r = .error e) ⟨_, rfl⟩)
      · intro hash h
        obtain ⟨e, h⟩ := h
        cases h
      · intro e _
        exact Or.inr ⟨⟨e, rfl⟩, hno⟩
    | some body =>
      rw [pure_bind]
      split_ifs with hne
      · apply Meets.throw
        refine Or.inr ⟨⟨_, rfl⟩, fun h => hne ?_⟩
        obtain ⟨body', hsome, hhash⟩ := h hmethod htruthy
        rw [hbody] at hsome
        rw [hhash, Option.some.inj hsome]
      · apply Meets.pure
        exact Or.inl ⟨rfl, fun _ _ => ⟨body, hbody, not_not.mp hne⟩⟩
  · apply Meets.pure
    exact Or.inl ⟨rfl, fun hmethod htruthy => absurd ⟨hmethod, htruthy⟩ hpost⟩

/-- The `try` block of `handleKeypairAuth`, when the keypair is looked up by `hash`. -/
theorem decides_verifyKeypair {jwt hash : String} {req : Request} {publicKey publicKeyHash : Option String}
    (hlookup : Yields (Agrees o db) (getKeypair o publicKey publicKeyHash) (.ok (db.keypairs.find? hash))) :
    Decides db (verifyKeypair o jwt req publicKey publicKeyHash) (SignedBy o db req jwt hash ∧ IpAllowed o db req) := by
  unfold verifyKeypair
  apply Yields.bind hlookup
  cases hfind : db.keypairs.find? hash with
  | none =>
    apply Decides.throw
    intro h
    obtain ⟨⟨keypair, hmem, hhash, _⟩, _⟩ := h
    exact Keyset.Table.find?_eq_none.mp hfind keypair hmem hhash
  | some keypair =>
    obtain ⟨hmem, hhash⟩ := Keyset.Table.find?_eq_some.mp hfind
    have hsigned : SignedBy o db req jwt hash ↔ ∃ payload,
      o.verify jwt keypair.publicKey keypair.algorithm = .ok payload ∧
        BodyMatches o req payload.bodyHash := by
      constructor
      · intro h
        obtain ⟨keypair', hmem', hhash', h⟩ := h
        rw [db.keypairs.eq_of_key_eq hmem hmem' (hhash.trans hhash'.symm)]
        exact h
      · intro h
        exact ⟨keypair, hmem, hhash, h⟩
    rw [hsigned]
    apply Decides.bind (Meets.liftExcept (p := fun r => r = o.verify jwt keypair.publicKey keypair.algorithm) rfl)
    · intro payload hverify
      rw [← hverify]
      simp only [Except.ok.injEq, exists_eq_left']
      apply Decides.bind (meets_checkBodyHash req payload.bodyHash)
      · intro _ hbody
        obtain ⟨_, hbody⟩ | ⟨⟨e, he⟩, _⟩ := hbody
        · apply decides_checkIp
          · intro hip
            exact Decides.admit rfl ⟨hbody, hip⟩
          · intro hip
            exact Decides.throw fun h => hip h.2
        · cases he
      · intro e hbody h
        obtain ⟨he, _⟩ | ⟨_, hbody⟩ := hbody
        · cases he
        · exact hbody h.1
    · intro e he h
      obtain ⟨⟨payload, hpayload, _⟩, _⟩ := h
      rw [hpayload] at he
      cases he

/-- What is thrown in the `try` block is answered, and not authenticated. -/
theorem decides_handleKeypairAuth {jwt hash : String} {req : Request} {publicKey publicKeyHash : Option String}
    (hlookup : Yields (Agrees o db) (getKeypair o publicKey publicKeyHash) (.ok (db.keypairs.find? hash))) :
    Decides db (handleKeypairAuth o jwt req publicKey publicKeyHash)
      (o.env.ENABLE_KEYPAIR_AUTH = true ∧ SignedBy o db req jwt hash ∧ IpAllowed o db req) := by
  unfold handleKeypairAuth
  cases henabled : o.env.ENABLE_KEYPAIR_AUTH with
  | false => exact Decides.refuse rfl fun h => Bool.false_ne_true h.1
  | true =>
    simp only [true_and]
    apply Meets.tryCatch (decides_verifyKeypair hlookup)
    · intro response h
      exact h
    · intro e h
      exact Decides.refuse rfl fun hpass => not_admits_error (h.mpr hpass)

private theorem handleSiwe_eq_some {jwt domain issuer : String} {user : ThirdwebAuthUser} :
    handleSiwe o jwt domain issuer = some user ↔ o.authenticateJWT jwt domain issuer = .ok user := by
  unfold handleSiwe
  cases o.authenticateJWT jwt domain issuer with
  | ok user' => simp [Except.toOption]
  | error e => simp [Except.toOption]

private theorem siweUser_iff {jwt : String} {user : ThirdwebAuthUser} : SiweUser o jwt user ↔
    (handleSiwe o jwt "thirdweb.com" THIRDWEB_DASHBOARD_ISSUER).or
      (handleSiwe o jwt "thirdweb-preview.com" THIRDWEB_DASHBOARD_ISSUER) = some user := by
  rw [Option.or_eq_some_iff, Option.eq_none_iff_forall_ne_some]
  simp only [ne_eq, handleSiwe_eq_some]
  exact Iff.rfl

private theorem hasPermission_iff {walletAddress permissions : String} :
    HasPermission o db walletAddress permissions ↔ db.permission o walletAddress = some permissions := by
  cases hfind : db.permissions.find? walletAddress.toLower with
  | some row =>
    obtain ⟨hmem, hkey⟩ := Keyset.Table.find?_eq_some.mp hfind
    rw [Database.permission_of_some hfind, Option.some.injEq]
    constructor
    · intro h
      obtain ⟨row', hmem', hkey', h⟩ | ⟨hno, _⟩ := h
      · rw [db.permissions.eq_of_key_eq hmem hmem' (hkey.trans hkey'.symm)]
        exact h
      · exact absurd hkey (hno row hmem)
    · intro h
      exact Or.inl ⟨row, hmem, hkey, h⟩
  | none =>
    have hno := Keyset.Table.find?_eq_none.mp hfind
    rw [Database.permission_of_none hfind]
    constructor
    · intro h
      obtain ⟨row, hmem, hkey, _⟩ | ⟨_, hadmin, h⟩ := h
      · exact absurd hkey (hno row hmem)
      · rw [if_pos hadmin, h]
    · intro h
      split_ifs at h with hadmin
      exact Or.inr ⟨hno, hadmin, (Option.some.inj h).symm⟩

theorem decides_handleDashboardAuth (jwt : String) (req : Request) :
    Decides db (handleDashboardAuth o jwt) (Passes o db req (.dashboard jwt)) := by
  show Decides db (handleDashboardAuth o jwt)
    (∃ user permissions, SiweUser o jwt user ∧ HasPermission o db user.address permissions ∧ OwnerOrAdmin permissions)
  simp only [siweUser_iff, hasPermission_iff]
  unfold handleDashboardAuth
  cases (handleSiwe o jwt "thirdweb.com" THIRDWEB_DASHBOARD_ISSUER).or
      (handleSiwe o jwt "thirdweb-preview.com" THIRDWEB_DASHBOARD_ISSUER) with
  | none =>
    apply Decides.refuse rfl
    intro h
    obtain ⟨user, _, huser, _⟩ := h
    cases huser
  | some user =>
    simp only [Option.some.injEq, exists_and_left, exists_eq_left']
    apply Decides.bind (meets_getPermissions user.address)
    · intro res hres
      obtain ⟨row, heq, hpermission⟩ := hres
      rw [← hpermission, Except.ok.inj heq]
      cases row with
      | none =>
        apply Decides.refuse rfl
        intro h
        obtain ⟨_, hnone, _⟩ := h
        cases hnone
      | some row =>
        simp only [Option.map_some, Option.some.injEq, exists_eq_left']
        split_ifs with hpermissions
        · exact Decides.admit rfl hpermissions
        · exact Decides.refuse rfl hpermissions
    · intro e he
      obtain ⟨row, heq, _⟩ := he
      cases heq

theorem yields_authWalletAddress {key : String}
    (hkey : authWalletKey o db.configuration.authWalletEncryptedJson = some key) :
    Yields (Agrees o db) (do
      let authWallet ← getAuthWallet o
      authWallet.getAddress o) (.ok (o.getAddress key)) :=
  Yields.bind (yields_getAuthWallet hkey) (Meets.pure rfl)

theorem answers_handleSecretKey (req : Request) :
    Answers db (handleSecretKey o req) (req.bearer = some o.env.THIRDWEB_API_SECRET_KEY) := by
  obtain ⟨key, hkey⟩ := db.configuration.exists_authWalletKey
  unfold handleSecretKey
  split_ifs with hbearer
  · rw [← bind_assoc]
    exact Yields.bind (yields_authWalletAddress hkey) (Answers.return (iff_of_true rfl hbearer))
  · exact Answers.return (iff_of_false Bool.false_ne_true hbearer)

private theorem sendWebhookRequest_iff {webhook : Webhooks} {body : AuthWebhookBody} :
    sendWebhookRequest o webhook body = true ↔ o.fetch webhook.url body = .ok true := by
  unfold sendWebhookRequest
  cases o.fetch webhook.url body with
  | ok ok => simp
  | error e => simp

private theorem mem_authWebhooks {webhook : Webhooks} : webhook ∈ db.authWebhooks o ↔
    webhook ∈ db.webhooks.rows ∧ webhook.eventType = .auth ∧ webhook.revokedAt = none := by
  unfold Database.authWebhooks
  rw [List.mem_filter, List.mem_mergeSort, List.mem_filter, decide_eq_true_eq, decide_eq_true_eq]
  tauto

theorem answers_handleAuthWebhooks (req : Request) : Answers db (handleAuthWebhooks o req)
    (WebhooksAgree o db req) := by
  have hagree : WebhooksAgree o db req ↔ (db.authWebhooks o).length > 0 ∧
      ((db.authWebhooks o).all fun webhook => sendWebhookRequest o webhook (webhookBody req)) = true := by
    rw [gt_iff_lt, List.length_pos_iff_exists_mem, List.all_eq_true]
    simp only [mem_authWebhooks, sendWebhookRequest_iff, and_imp]
    exact Iff.rfl
  rw [hagree]
  unfold handleAuthWebhooks
  apply Yields.bind yields_getWebhooksByEventType
  split_ifs with h
  · exact Answers.return (iff_of_true rfl h)
  · exact Answers.return (iff_of_false Bool.false_ne_true h)

theorem present_iff {s : Option String} {x : String} : Present s x ↔ truthy s = some x := truthy_eq_some.symm

theorem truthy_eq_none {s : Option String} : truthy s = none ↔ ∀ x, ¬ Present s x := by
  simp only [present_iff]
  exact Option.eq_none_iff_forall_ne_some

theorem decodedJwt_of_token {req : Request} {jwt : String} (h : Present (o.getJWT req) jwt) :
    decodedJwt o req = (o.decode jwt).map fun decoded => decoded.map fun decoded => (jwt, decoded) := by
  unfold decodedJwt
  rw [present_iff.mp h]

theorem decodedJwt_of_noToken {req : Request} (h : ∀ jwt, ¬ Present (o.getJWT req) jwt) :
    decodedJwt o req = .ok none := by
  unfold decodedJwt
  rw [truthy_eq_none.mpr h]

theorem carries_iff {req : Request} {jwt : String} {decoded : Jwt} :
    Carries o req jwt decoded ↔ decodedJwt o req = .ok (some (jwt, decoded)) := by
  constructor
  · intro h
    rw [decodedJwt_of_token h.token, h.decoded]
    rfl
  · intro h
    by_cases htoken : ∃ jwt', Present (o.getJWT req) jwt'
    · obtain ⟨jwt', htoken⟩ := htoken
      rw [decodedJwt_of_token htoken] at h
      cases hread : o.decode jwt' with
      | error e =>
        rw [hread] at h
        cases h
      | ok read =>
        rw [hread] at h
        obtain ⟨decoded', rfl, hpair⟩ := Option.map_eq_some_iff.mp (Except.ok.inj h)
        cases hpair
        exact ⟨htoken, hread⟩
    · rw [decodedJwt_of_noToken (not_exists.mp htoken)] at h
      cases h

theorem exists_unreadable_iff {req : Request} :
    (∃ jwt, Unreadable o req jwt) ↔ ∃ e, decodedJwt o req = .error e := by
  constructor
  · intro h
    obtain ⟨jwt, htoken, e, hdecode⟩ := h
    refine ⟨e, ?_⟩
    rw [decodedJwt_of_token htoken, hdecode]
    rfl
  · intro h
    obtain ⟨e, h⟩ := h
    by_cases htoken : ∃ jwt, Present (o.getJWT req) jwt
    · obtain ⟨jwt, htoken⟩ := htoken
      rw [decodedJwt_of_token htoken] at h
      cases hread : o.decode jwt with
      | error e' => exact ⟨jwt, htoken, e', hread⟩
      | ok read =>
        rw [hread] at h
        cases h
    · rw [decodedJwt_of_noToken (not_exists.mp htoken)] at h
      cases h

theorem onRequest_of_private {req : Request} (h : Private o req) : onRequest o req = handleAuthorization o req := by
  unfold onRequest
  rw [if_neg fun hws => h.websocket (isWebsocket_iff.mp hws),
    if_neg fun hpublic => h.endpoint ((isAuthed_iff_publicEndpoint req).mp hpublic)]

/-- No handler but one of the token's is asked, once its `iss` or its `kid` selects it. -/
theorem handleAuthorization_of_carries {req : Request} {jwt : String} {decoded : Jwt} (h : Carries o req jwt decoded) :
    handleAuthorization o req = (handleJwt o req jwt decoded).getD (handleOther o req) := by
  unfold handleAuthorization
  rw [carries_iff.mp h]
  rfl

theorem handleAuthorization_of_noIssuer {req : Request} (h : NoIssuer o req) :
    handleAuthorization o req = handleOther o req := by
  cases hdecoded : decodedJwt o req with
  | error e =>
    obtain ⟨jwt, hunreadable⟩ := exists_unreadable_iff.mpr ⟨e, hdecoded⟩
    exact absurd hunreadable (h.readable jwt)
  | ok read =>
    cases read with
    | none =>
      unfold handleAuthorization
      rw [hdecoded]
      rfl
    | some pair =>
      have hcarries : Carries o req pair.1 pair.2 := carries_iff.mpr hdecoded
      obtain ⟨hiss, hkid⟩ := h.issuer pair.1 pair.2 hcarries
      rw [handleAuthorization_of_carries hcarries]
      unfold handleJwt
      rw [truthy_eq_none.mpr hiss, truthy_eq_none.mpr hkid]
      rfl

/-- What `decode` throws, `onRequest` throws. -/
theorem handleAuthorization_of_unreadable {req : Request} {jwt : String} (h : Unreadable o req jwt) :
    ∃ e, handleAuthorization o req = throw e := by
  obtain ⟨e, hdecoded⟩ := exists_unreadable_iff.mp ⟨jwt, h⟩
  refine ⟨e, ?_⟩
  unfold handleAuthorization
  rw [hdecoded]
  rfl

/-- A token with an `iss` is decided by comparing it with the auth wallet's address. -/
theorem decides_of_iss {req : Request} {jwt iss key : String} {decoded : Jwt} {p : Prop}
    (hjwt : Carries o req jwt decoded)
    (hiss : Present decoded.payload.iss iss)
    (hkey : authWalletKey o db.configuration.authWalletEncryptedJson = some key)
    (h : Decides db (if iss = o.getAddress key then handleAccessToken o jwt req
      else if iss = THIRDWEB_DASHBOARD_ISSUER then handleDashboardAuth o jwt
      else handleKeypairAuth o jwt req (some iss) none) p) : Decides db (handleAuthorization o req) p := by
  rw [handleAuthorization_of_carries hjwt]
  unfold handleJwt
  rw [present_iff.mp hiss]
  show Decides db (getAuthWallet o >>= _) p
  rw [← bind_assoc]
  exact Yields.bind (yields_authWalletAddress hkey) h

theorem authWallet_iff {key address : String}
    (hkey : authWalletKey o db.configuration.authWalletEncryptedJson = some key) :
    AuthWallet o db address ↔ address = o.getAddress key := by
  unfold AuthWallet
  rw [hkey]
  simp only [Option.some.injEq, exists_eq_left', eq_comm]

/-- The secret key, and else the auth webhooks. -/
theorem answers_handleOther (req : Request) : Answers db (handleOther o req)
    (req.bearer = some o.env.THIRDWEB_API_SECRET_KEY ∨ WebhooksAgree o db req) := by
  unfold handleOther
  apply Answers.bind (answers_handleSecretKey req)
  intro secretKeyResp hsecret
  split_ifs with hauthed
  · exact Answers.return (iff_of_true hauthed (Or.inl (hsecret.mp hauthed)))
  · apply Answers.bind (answers_handleAuthWebhooks req)
    intro authWebhooksResp hwebhooks
    split_ifs with hauthed'
    · exact Answers.return (iff_of_true hauthed' (Or.inr (hwebhooks.mp hauthed')))
    · apply Answers.return
      apply iff_of_false Bool.false_ne_true
      intro h
      obtain h | h := h
      · exact hauthed (hsecret.mpr h)
      · exact hauthed' (hwebhooks.mpr h)

/-- A request is decided by the scheme that is selected, whatever the others say of it. -/
theorem decides_of_selects {req : Request} {scheme : Scheme} (h : Selects o db req scheme) :
    Decides db (onRequest o req) (Passes o db req scheme) := by
  obtain ⟨key, hkey⟩ := db.configuration.exists_authWalletKey
  cases h with
  | websocket h =>
    unfold onRequest
    rw [if_pos (isWebsocket_iff.mpr h)]
    exact decides_handleWebsocketAuth req
  | publicEndpoint hws h =>
    have hauthed := (isAuthed_iff_publicEndpoint req).mpr h
    unfold onRequest
    rw [if_neg fun h => hws (isWebsocket_iff.mp h), if_pos hauthed]
    exact Decides.admit hauthed trivial
  | unreadable hpriv hjwt =>
    obtain ⟨e, hthrows⟩ := handleAuthorization_of_unreadable hjwt
    rw [onRequest_of_private hpriv, hthrows]
    exact Decides.throw not_false
  | accessToken hpriv hjwt hiss h =>
    rw [onRequest_of_private hpriv]
    apply decides_of_iss hjwt hiss hkey
    rw [if_pos ((authWallet_iff hkey).mp h)]
    exact decides_handleAccessToken _ req
  | dashboard hpriv hjwt hiss h =>
    rw [onRequest_of_private hpriv]
    apply decides_of_iss hjwt hiss hkey
    rw [if_neg fun heq => h ((authWallet_iff hkey).mpr heq), if_pos rfl]
    exact decides_handleDashboardAuth _ req
  | publicKey hpriv hjwt hiss hwallet h =>
    rw [onRequest_of_private hpriv]
    apply decides_of_iss hjwt hiss hkey
    rw [if_neg fun heq => hwallet ((authWallet_iff hkey).mpr heq), if_neg h]
    exact decides_handleKeypairAuth (yields_getKeypair_publicKey hiss.2 none)
  | publicKeyHash hpriv hjwt hiss h =>
    rw [onRequest_of_private hpriv, handleAuthorization_of_carries hjwt]
    unfold handleJwt
    rw [truthy_eq_none.mpr hiss, present_iff.mp h]
    exact decides_handleKeypairAuth (yields_getKeypair_publicKeyHash h.2)
  | secretKey hpriv hissuer h =>
    rw [onRequest_of_private hpriv, handleAuthorization_of_noIssuer hissuer]
    apply Meets.imp (answers_handleOther req).decides
    intro r hr
    exact hr.trans (iff_of_true (Or.inl h) trivial)
  | authWebhooks hpriv hissuer h =>
    rw [onRequest_of_private hpriv, handleAuthorization_of_noIssuer hissuer]
    apply Meets.imp (answers_handleOther req).decides
    intro r hr
    exact hr.trans (or_iff_right h)

/-- Some scheme decides on each request. -/
theorem exists_selects (db : Database o) (req : Request) : ∃ scheme, Selects o db req scheme := by
  by_cases hws : Websocket req
  · exact ⟨.websocket, Selects.websocket hws⟩
  by_cases hpublic : PublicEndpoint o req.method req.url
  · exact ⟨.publicEndpoint, Selects.publicEndpoint hws hpublic⟩
  have hpriv : Private o req := ⟨hws, hpublic⟩
  by_cases hreadable : ∃ jwt, Unreadable o req jwt
  · obtain ⟨jwt, hjwt⟩ := hreadable
    exact ⟨.unreadable jwt, Selects.unreadable hpriv hjwt⟩
  by_cases hissuer : NoIssuer o req
  · by_cases hbearer : req.bearer = some o.env.THIRDWEB_API_SECRET_KEY
    · exact ⟨.secretKey, Selects.secretKey hpriv hissuer hbearer⟩
    · exact ⟨.authWebhooks, Selects.authWebhooks hpriv hissuer hbearer⟩
  · have hissued : ¬ ∀ jwt decoded, Carries o req jwt decoded →
        (∀ iss, ¬ Present decoded.payload.iss iss) ∧ ∀ kid, ¬ Present decoded.header.kid kid :=
      fun hnone => hissuer ⟨fun jwt hjwt => hreadable ⟨jwt, hjwt⟩, hnone⟩
    push Not at hissued
    obtain ⟨jwt, decoded, hjwt, hissuer⟩ := hissued
    by_cases hiss : ∃ iss, Present decoded.payload.iss iss
    · obtain ⟨iss, hiss⟩ := hiss
      by_cases hwallet : AuthWallet o db iss
      · exact ⟨.accessToken jwt, Selects.accessToken hpriv hjwt hiss hwallet⟩
      · by_cases hdashboard : iss = THIRDWEB_DASHBOARD_ISSUER
        · subst hdashboard
          exact ⟨.dashboard jwt, Selects.dashboard hpriv hjwt hiss hwallet⟩
        · exact ⟨.publicKey jwt iss, Selects.publicKey hpriv hjwt hiss hwallet hdashboard⟩
    · have hnone : ∀ iss, ¬ Present decoded.payload.iss iss := fun iss h => hiss ⟨iss, h⟩
      obtain ⟨kid, hkid⟩ := hissuer hnone
      exact ⟨.publicKeyHash jwt kid, Selects.publicKeyHash hpriv hjwt hnone hkid⟩

/-- A state whose tables are those of `db` agrees with its own. -/
theorem Agrees.consistent {s : State o} (h : Agrees o db s) : Consistent o s where
  tokens := rfl
  keypairs := rfl
  webhooks := rfl
  permission _ := rfl
  configuration := Configuration.Same.refl _
  accessTokenCache jwt token hcached := by
    have hstored := h.accessTokenCache jwt token hcached
    exact ⟨h.tokens ▸ hstored.stored, hstored.named, hstored.truthy⟩
  publicKeyCache publicKey keypair hcached := by
    rw [h.keypairs]
    exact h.publicKeyCache publicKey keypair hcached
  publicKeyHashCache hash keypair hcached := by
    rw [h.keypairs]
    exact h.publicKeyHashCache hash keypair hcached
  webhookCache webhooks hcached := by
    unfold Database.authWebhooks
    rw [h.webhooks]
    exact h.webhookCache webhooks hcached
  config config hcached := by
    obtain ⟨hip, hwallet⟩ := h.config config hcached
    exact ⟨hip.trans h.configuration.ipAllowlist.symm, hwallet.trans h.configuration.authWallet.symm⟩
  authWallet wallet hcached := by
    rw [h.configuration.authWallet]
    exact h.authWallet wallet hcached

/-- The caches agree with the tables after each request of a run. -/
theorem consistent_onRequest {s : State o} (h : Consistent o s) (req : Request) :
    Consistent o ((onRequest o req).run s).2 := by
  obtain ⟨scheme, hscheme⟩ := exists_selects s.db req
  exact (decides_of_selects hscheme s h).2.consistent

end

section
/-- Packages that refuse every token. A wallet is exported as the password and the key. -/
def refusingPackages : Outside where
  env := { THIRDWEB_API_SECRET_KEY := "secret", ADMIN_WALLET_ADDRESS := "0xadmin", ENCRYPTION_PASSWORD := "password",
           ENABLE_KEYPAIR_AUTH := false }
  getJWT := Request.bearer
  decode _ := .ok none
  verify _ _ _ := .error (.error "jwt malformed")
  parseJWT _ := .error (.error "Invalid JWT")
  getUser _ := .ok none
  authenticateJWT _ _ _ := .error (.error "Invalid JWT")
  uuidValidate _ := false
  sha256 text := text
  fetch _ _ := .error (.error "fetch failed")
  getAddress key := key
  importKey encryptedJson password :=
    if startsWith encryptedJson (password ++ ":") then .ok (slice encryptedJson (password ++ ":").length)
    else .error (.error "invalid password")
  exportKey key password := password ++ ":" ++ key
  importKey_exportKey key password := by
    rw [if_pos (startsWith_iff.mpr ⟨key, rfl⟩), slice_append]

/-- Its auth wallet was exported by an earlier version. -/
def emptyDatabase : Database refusingPackages where
  tokens := .empty _
  keypairs := .empty _
  permissions := .empty _
  webhooks := .empty _
  configuration :=
    { ipAllowlist := ["10.0.0.1"], authWalletEncryptedJson := "secret:0xauth",
      exported := ⟨"0xauth", "secret", Or.inr rfl, rfl⟩ }

end
end Engine.Auth
