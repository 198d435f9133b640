import Engine.Auth.OnRequest

/-! What the reads of `onRequest` return, while the caches agree with the tables. -/
namespace Engine.Auth

open Caching

section
variable (o : Outside)

/-- The key of the auth wallet in an encrypted JSON, the encryption password tried first. -/
def authWalletKey (encryptedJson : String) : Option String :=
  match o.importKey encryptedJson o.env.ENCRYPTION_PASSWORD with
  | .ok key => some key
  | .error _ => (o.importKey encryptedJson o.env.THIRDWEB_API_SECRET_KEY).toOption

/-- The permissions that `getPermissions` finds or gives. -/
def Database.permission (db : Database o) (walletAddress : String) : Option String :=
  match db.permissions.find? walletAddress.toLower with
  | some row => some row.permissions
  | none => if walletAddress.toLower = o.env.ADMIN_WALLET_ADDRESS.toLower then some "ADMIN" else none

def Database.authWebhooks (db : Database o) : List Webhooks :=
  ((db.webhooks.rows.filter (·.revokedAt = none)).mergeSort fun x y => x.id ≤ y.id).filter (·.eventType = .auth)

/-- Two configurations with one allowlist and one auth wallet. -/
structure Configuration.Same (c d : Configuration o) : Prop where
  ipAllowlist : c.ipAllowlist = d.ipAllowlist
  authWallet : authWalletKey o c.authWalletEncryptedJson = authWalletKey o d.authWalletEncryptedJson

/-- The row of `tokens` that a token names. -/
structure StoredToken (db : Database o) (jwt : String) (token : Tokens) : Prop where
  stored : token ∈ db.tokens.rows
  named : o.parseJWT jwt = .ok (some token.id)
  truthy : token.id ≠ ""

/-- The tables of `s` are those of `db`, up to the writes of `getPermissions` and
`getAuthWallet`, and each entry of a cache is what the tables say. -/
structure Agrees (db : Database o) (s : State o) : Prop where
  tokens : s.db.tokens = db.tokens
  keypairs : s.db.keypairs = db.keypairs
  webhooks : s.db.webhooks = db.webhooks
  permission : ∀ walletAddress, s.db.permission o walletAddress = db.permission o walletAddress
  configuration : s.db.configuration.Same o db.configuration
  accessTokenCache : ∀ jwt token, s.accessTokenCache jwt = some (some token) → StoredToken o db jwt token
  publicKeyCache : ∀ publicKey keypair, s.keypairCache ("public-key:" ++ publicKey) = some (some keypair) →
    db.keypairs.find? (o.sha256 publicKey) = some keypair
  publicKeyHashCache : ∀ hash keypair, s.keypairCache ("public-key-hash:" ++ hash) = some (some keypair) →
    db.keypairs.find? hash = some keypair
  webhookCache : ∀ webhooks, s.webhookCache .auth = some webhooks → webhooks = db.authWebhooks o
  config : ∀ config, s.config = some config → config.Same o db.configuration
  authWallet : ∀ wallet, s.authWallet = some wallet →
    wallet.privateKey.isSome ∧ wallet.privateKey = authWalletKey o db.configuration.authWalletEncryptedJson

/-- The caches agree with the tables. -/
def Consistent (s : State o) : Prop := Agrees o s.db s

variable {o} {db : Database o}

theorem Configuration.Same.refl (c : Configuration o) : c.Same o c := ⟨rfl, rfl⟩

theorem authWalletKey_of_ok {encryptedJson key : String}
    (h : o.importKey encryptedJson o.env.ENCRYPTION_PASSWORD = .ok key) : authWalletKey o encryptedJson = some key := by
  unfold authWalletKey
  rw [h]

theorem authWalletKey_of_error {encryptedJson key : String} {e : Thrown}
    (he : o.importKey encryptedJson o.env.ENCRYPTION_PASSWORD = .error e)
    (h : o.importKey encryptedJson o.env.THIRDWEB_API_SECRET_KEY = .ok key) :
    authWalletKey o encryptedJson = some key := by
  unfold authWalletKey
  rw [he, h]
  rfl

/-- An export can be opened. -/
theorem Configuration.exists_authWalletKey (c : Configuration o) :
    ∃ key, authWalletKey o c.authWalletEncryptedJson = some key := by
  obtain ⟨key, password, hpassword, hjson⟩ := c.exported
  have himport := o.importKey_exportKey key password
  rw [← hjson] at himport
  cases hencryption : o.importKey c.authWalletEncryptedJson o.env.ENCRYPTION_PASSWORD with
  | ok key' => exact ⟨key', authWalletKey_of_ok hencryption⟩
  | error e =>
    cases hpassword with
    | inl h =>
      rw [h, hencryption] at himport
      cases himport
    | inr h =>
      rw [h] at himport
      exact ⟨key, authWalletKey_of_error hencryption himport⟩

theorem StoredToken.unique {jwt : String} {token token' : Tokens} (h : StoredToken o db jwt token)
    (h' : StoredToken o db jwt token') : token = token' := by
  have hid : token.id = token'.id := Option.some.inj (Except.ok.inj (h.named.symm.trans h'.named))
  exact db.tokens.eq_of_key_eq h.stored h'.stored hid

/-- The result of a lookup is the stored row, if there is one. -/
def FindsToken (db : Database o) (jwt : String) (r : Except Thrown (Option Tokens)) : Prop :=
  ∀ token, r = .ok (some token) ↔ StoredToken o db jwt token

theorem meets_getToken (jwt : String) : Meets (Agrees o db) (getToken o jwt) (FindsToken db jwt) := by
  unfold getToken Shared.getToken
  apply Meets.bind (Meets.liftExcept (p := fun r => r = o.parseJWT jwt) rfl)
  · intro jti hjti
    cases htruthy : truthy jti with
    | none =>
      apply Meets.pure
      intro token
      constructor
      · intro h
        cases h
      · intro h
        have hjti' : jti = some token.id := Except.ok.inj (hjti.trans h.named)
        rw [truthy_eq_some.mpr ⟨hjti', h.truthy⟩] at htruthy
        cases htruthy
    | some id =>
      obtain ⟨hid, hne⟩ := truthy_eq_some.mp htruthy
      have hparse : o.parseJWT jwt = .ok (some id) := by rw [← hjti, hid]
      apply Meets.get_bind
      intro s hs
      apply Meets.pure
      intro token
      rw [hs.tokens, Except.ok.injEq, Keyset.Table.find?_eq_some]
      constructor
      · intro h
        obtain ⟨hmem, hkey⟩ := h
        exact ⟨hmem, hkey ▸ hparse, hkey ▸ hne⟩
      · intro h
        exact ⟨h.stored, (Option.some.inj (Except.ok.inj (hparse.symm.trans h.named))).symm⟩
  · intro e he token
    constructor
    · intro h
      cases h
    · intro h
      rw [h.named] at he
      cases he

/-- A hit is a cached row. -/
theorem eq_of_hit {R : Type} {cached : Option (Option R)} {a : Option R} (h : cached.join.map some = some a) :
    ∃ row, a = some row ∧ cached = some (some row) := by
  obtain ⟨row, hrow, rfl⟩ := Option.map_eq_some_iff.mp h
  exact ⟨row, rfl, Option.join_eq_some_iff.mp hrow⟩

theorem meets_getAccessToken (jwt : String) : Meets (Agrees o db) (getAccessToken o jwt) (FindsToken db jwt) := by
  rw [getAccessToken_eq]
  apply Meets.readThrough
  · intro s hs a ha token
    obtain ⟨row, rfl, hcached⟩ := eq_of_hit ha
    have hstored := hs.accessTokenCache jwt row hcached
    rw [Except.ok.injEq, Option.some.injEq]
    constructor
    · intro h
      exact h ▸ hstored
    · exact hstored.unique
  · exact meets_getToken jwt
  · intro s a hs ha
    refine { hs with accessTokenCache := ?_ }
    intro jwt' token htoken
    dsimp only at htoken
    rw [Function.update_apply] at htoken
    split_ifs at htoken with hjwt
    · rw [Option.some.inj htoken] at ha
      exact hjwt ▸ (ha token).mp rfl
    · exact hs.accessTokenCache jwt' token htoken

theorem yields_getKeypairByHash (hash : String) :
    Yields (Agrees o db) (getKeypairByHash o hash) (.ok (db.keypairs.find? hash)) := by
  unfold getKeypairByHash
  apply Meets.get_bind
  intro s hs
  rw [hs.keypairs]
  exact Meets.pure rfl

theorem publicKey_ne_publicKeyHash (publicKey hash : String) :
    "public-key:" ++ publicKey ≠ "public-key-hash:" ++ hash := by
  intro h
  have hchars := congrArg String.toList h
  rw [String.toList_append, String.toList_append] at hchars
  simp at hchars

/-- The keypair of a public key, under its own key of the cache. -/
theorem yields_getKeypair_publicKey {publicKey : String} (hne : publicKey ≠ "") (hash : Option String) :
    Yields (Agrees o db) (getKeypair o (some publicKey) hash) (.ok (db.keypairs.find? (o.sha256 publicKey))) := by
  unfold getKeypair
  rw [truthy_eq_some.mpr ⟨rfl, hne⟩]
  apply Meets.readThrough
  · intro s hs a ha
    obtain ⟨row, rfl, hcached⟩ := eq_of_hit ha
    rw [hs.publicKeyCache publicKey row hcached]
  · exact yields_getKeypairByHash (o.sha256 publicKey)
  · intro s a hs ha
    refine { hs with publicKeyCache := ?_, publicKeyHashCache := ?_ }
    · intro publicKey' keypair hkeypair
      dsimp only at hkeypair
      rw [Function.update_apply] at hkeypair
      split_ifs at hkeypair with hkey
      · have hpublicKey : publicKey' = publicKey := (String.append_right_inj "public-key:").mp hkey
        rw [hpublicKey, ← Except.ok.inj ha]
        exact Option.some.inj hkeypair
      · exact hs.publicKeyCache publicKey' keypair hkeypair
    · intro hash keypair hkeypair
      dsimp only at hkeypair
      rw [Function.update_of_ne (publicKey_ne_publicKeyHash publicKey hash).symm] at hkeypair
      exact hs.publicKeyHashCache hash keypair hkeypair

theorem yields_getKeypair_publicKeyHash {hash : String} (hne : hash ≠ "") :
    Yields (Agrees o db) (getKeypair o none (some hash)) (.ok (db.keypairs.find? hash)) := by
  unfold getKeypair
  rw [truthy_eq_some.mpr ⟨rfl, hne⟩]
  apply Meets.readThrough
  · intro s hs a ha
    obtain ⟨row, rfl, hcached⟩ := eq_of_hit ha
    rw [hs.publicKeyHashCache hash row hcached]
  · exact yields_getKeypairByHash hash
  · intro s a hs ha
    refine { hs with publicKeyCache := ?_, publicKeyHashCache := ?_ }
    · intro publicKey keypair hkeypair
      dsimp only at hkeypair
      rw [Function.update_of_ne (publicKey_ne_publicKeyHash publicKey hash)] at hkeypair
      exact hs.publicKeyCache publicKey keypair hkeypair
    · intro hash' keypair hkeypair
      dsimp only at hkeypair
      rw [Function.update_apply] at hkeypair
      split_ifs at hkeypair with hkey
      · have hhash : hash' = hash := (String.append_right_inj "public-key-hash:").mp hkey
        rw [hhash, ← Except.ok.inj ha]
        exact Option.some.inj hkeypair
      · exact hs.publicKeyHashCache hash' keypair hkeypair

theorem yields_getWebhooksByEventType :
    Yields (Agrees o db) (getWebhooksByEventType o .auth) (.ok (db.authWebhooks o)) := by
  unfold getWebhooksByEventType
  apply Meets.readThrough
  · intro s hs webhooks hcached
    rw [hs.webhookCache webhooks hcached]
  · unfold getAllWebhooks
    rw [bind_assoc]
    apply Meets.get_bind
    intro s hs
    rw [pure_bind, hs.webhooks]
    exact Meets.pure rfl
  · intro s webhooks hs h
    refine { hs with webhookCache := ?_ }
    intro webhooks' hcached
    dsimp only at hcached
    rw [Function.update_self] at hcached
    rw [← Option.some.inj hcached]
    exact Except.ok.inj h

theorem meets_getConfig :
    Meets (Agrees o db) (getConfig o) fun r => ∃ config, r = .ok config ∧ config.Same o db.configuration := by
  unfold getConfig
  apply Meets.readThrough
  · intro s hs config hcached
    exact ⟨config, rfl, hs.config config hcached⟩
  · unfold getConfiguration
    apply Meets.get_bind
    intro s hs
    exact Meets.pure ⟨s.db.configuration, rfl, hs.configuration⟩
  · intro s config hs hconfig
    refine { hs with config := ?_ }
    intro config' hcached
    obtain ⟨c, hc, hsame⟩ := hconfig
    rw [← Option.some.inj hcached, Except.ok.inj hc]
    exact hsame

theorem Database.permission_of_some {walletAddress : String} {row : Permissions}
    (h : db.permissions.find? walletAddress.toLower = some row) :
    db.permission o walletAddress = some row.permissions := by
  unfold Database.permission
  rw [h]

theorem Database.permission_of_none {walletAddress : String} (h : db.permissions.find? walletAddress.toLower = none) :
    db.permission o walletAddress = if walletAddress.toLower =
      o.env.ADMIN_WALLET_ADDRESS.toLower then some "ADMIN" else none := by
  unfold Database.permission
  rw [h]

/-- The admin wallet's row says what was said of it before. -/
theorem permission_insert_admin {walletAddress : String} (row : Permissions)
    (hkey : row.walletAddress = walletAddress.toLower)
    (hadmin : row.walletAddress = o.env.ADMIN_WALLET_ADDRESS.toLower) (hrow : row.permissions = "ADMIN")
    (hnone : db.permissions.find? walletAddress.toLower = none) (address : String) :
    ({ db with permissions := db.permissions.insert [row] } : Database o).permission o address =
      db.permission o address := by
  by_cases haddress : row.walletAddress = address.toLower
  · have hbefore : db.permissions.find? address.toLower = none := by rw [← haddress, hkey, hnone]
    have hafter : (db.permissions.insert [row]).find? address.toLower = some row := by
      rw [← haddress] at hbefore ⊢
      exact Keyset.Table.find?_insert_new hbefore
    rw [Database.permission_of_some hafter, Database.permission_of_none hbefore, if_pos (haddress ▸ hadmin), hrow]
  · have hne : ∀ y ∈ [row], y.walletAddress ≠ address.toLower := by
      intro y hy
      rw [List.mem_singleton.mp hy]
      exact haddress
    unfold Database.permission
    rw [Keyset.Table.find?_insert_of_ne hne]

theorem meets_getPermissions (walletAddress : String) : Meets (Agrees o db) (getPermissions o walletAddress) fun r =>
    ∃ row : Option Permissions, r = .ok row ∧ row.map (·.permissions) = db.permission o walletAddress := by
  unfold getPermissions
  apply Meets.get_bind_run
  intro s hs
  have hpermission := hs.permission walletAddress
  cases hfind : s.db.permissions.find? walletAddress.toLower with
  | some row =>
    rw [Database.permission_of_some hfind] at hpermission
    exact ⟨⟨some row, rfl, hpermission⟩, hs⟩
  | none =>
    rw [Database.permission_of_none hfind] at hpermission
    dsimp only
    split_ifs with hadmin
    · rw [if_pos hadmin] at hpermission
      have hkept := permission_insert_admin ⟨walletAddress.toLower, "ADMIN"⟩ rfl hadmin rfl hfind
      refine ⟨⟨some _, rfl, hpermission⟩, { hs with permission := ?_ }⟩
      exact fun address => (hkept address).trans (hs.permission address)
    · rw [if_neg hadmin] at hpermission
      exact ⟨⟨none, rfl, hpermission⟩, hs⟩

theorem run_importWallet_of_ok {encryptedJson password key : String} (h : o.importKey encryptedJson password = .ok key)
    (s : State o) :
    (importWallet o encryptedJson password).run s = (.ok key,
    { s with authWallet := some { privateKey := some key } }) := by
  unfold importWallet
  rw [h]
  rfl

theorem run_importWallet_of_error {encryptedJson password : String} {e : Thrown}
    (h : o.importKey encryptedJson password = .error e)
    (s : State o) : (importWallet o encryptedJson password).run s = (.error e, s) := by
  unfold importWallet
  rw [h]
  rfl

theorem run_openAuthWallet_of_ok {config : Configuration o} {key : String}
    (h : o.importKey config.authWalletEncryptedJson o.env.ENCRYPTION_PASSWORD = .ok key) (s : State o) :
    (openAuthWallet o config).run s = (.ok { privateKey := some key },
    { s with authWallet := some { privateKey := some key } }) := by
  unfold openAuthWallet
  rw [run_modify_bind, run_bind_ok (run_tryCatch_ok (run_importWallet_of_ok h _))]
  rfl

/-- A wallet that the secret key opens is exported anew. -/
theorem run_openAuthWallet_of_error {config : Configuration o} {key : String} {e : Thrown}
    (he : o.importKey config.authWalletEncryptedJson o.env.ENCRYPTION_PASSWORD = .error e)
    (h : o.importKey config.authWalletEncryptedJson o.env.THIRDWEB_API_SECRET_KEY = .ok key) (s : State o) :
    ∃ configuration : Configuration o, configuration.ipAllowlist = s.db.configuration.ipAllowlist ∧
      configuration.authWalletEncryptedJson = o.exportKey key o.env.ENCRYPTION_PASSWORD ∧
      (openAuthWallet o config).run s = (.ok { privateKey := some key },
        { s with
          authWallet := some { privateKey := some key }
          db := { s.db with configuration := configuration } }) := by
  have hreencrypt : ∃ configuration : Configuration o, configuration.ipAllowlist = s.db.configuration.ipAllowlist ∧
      configuration.authWalletEncryptedJson = o.exportKey key o.env.ENCRYPTION_PASSWORD ∧
      (reencryptAuthWallet o config).run { s with authWallet := some {} } = (.ok key,
        { s with
          authWallet := some { privateKey := some key }
          db := { s.db with configuration := configuration } }) := by
    unfold reencryptAuthWallet
    refine ⟨_, ?_, ?_, run_bind_ok (run_importWallet_of_ok h _)⟩
    · rfl
    · rfl
  obtain ⟨configuration, hip, hjson, hreencrypt⟩ := hreencrypt
  refine ⟨configuration, hip, hjson, ?_⟩
  unfold openAuthWallet
  rw [run_modify_bind, run_bind_ok ((run_tryCatch_error (run_importWallet_of_error he _)).trans hreencrypt)]
  rfl

/-- Exporting the wallet anew keeps what it opens to. -/
theorem Configuration.Same.reexport {c d : Configuration o} {key : String}
    (hkey : authWalletKey o d.authWalletEncryptedJson = some key) (hip : c.ipAllowlist = d.ipAllowlist)
    (hjson : c.authWalletEncryptedJson = o.exportKey key o.env.ENCRYPTION_PASSWORD) : c.Same o d where
  ipAllowlist := hip
  authWallet := by
    rw [hkey, hjson]
    exact authWalletKey_of_ok (o.importKey_exportKey key o.env.ENCRYPTION_PASSWORD)

theorem Agrees.setAuthWallet {s : State o} {key : String} (hs : Agrees o db s)
    (hkey : authWalletKey o db.configuration.authWalletEncryptedJson = some key) :
    Agrees o db { s with authWallet := some { privateKey := some key } } := by
  refine { hs with authWallet := ?_ }
  intro wallet hwallet
  rw [← Option.some.inj hwallet, hkey]
  exact ⟨rfl, rfl⟩

/-- The first password that opens the wallet is used. -/
theorem yields_openAuthWallet {config : Configuration o} {key : String} (hsame : config.Same o db.configuration)
    (hkey : authWalletKey o db.configuration.authWalletEncryptedJson = some key) :
    Yields (Agrees o db) (openAuthWallet o config) (.ok { privateKey := some key }) := by
  intro s hs
  have hopens : authWalletKey o config.authWalletEncryptedJson = some key := hsame.authWallet.trans hkey
  have hset := hs.setAuthWallet hkey
  cases hencryption : o.importKey config.authWalletEncryptedJson o.env.ENCRYPTION_PASSWORD with
  | ok key' =>
    rw [authWalletKey_of_ok hencryption, Option.some.injEq] at hopens
    rw [run_openAuthWallet_of_ok hencryption, hopens]
    exact ⟨rfl, hset⟩
  | error e =>
    cases hsecret : o.importKey config.authWalletEncryptedJson o.env.THIRDWEB_API_SECRET_KEY with
    | ok key' =>
      rw [authWalletKey_of_error hencryption hsecret, Option.some.injEq] at hopens
      subst hopens
      obtain ⟨configuration, hip, hjson, hrun⟩ := run_openAuthWallet_of_error hencryption hsecret s
      rw [hrun]
      have hip' := hip.trans hs.configuration.ipAllowlist
      exact ⟨rfl, { hset with configuration := Configuration.Same.reexport hkey hip' hjson }⟩
    | error e' =>
      unfold authWalletKey at hopens
      rw [hencryption, hsecret] at hopens
      cases hopens

theorem yields_getAuthWallet {key : String}
    (hkey : authWalletKey o db.configuration.authWalletEncryptedJson = some key) :
    Yields (Agrees o db) (getAuthWallet o) (.ok { privateKey := some key }) := by
  unfold getAuthWallet
  apply Meets.get_bind
  intro s hs
  cases hwallet : s.authWallet with
  | some wallet =>
    apply Meets.pure
    have hcached := (hs.authWallet wallet hwallet).2.trans hkey
    rw [← hcached]
  | none =>
    apply Meets.bind meets_getConfig
    · intro config hconfig
      obtain ⟨c, hc, hsame⟩ := hconfig
      rw [Except.ok.inj hc]
      exact yields_openAuthWallet hsame hkey
    · intro e he
      obtain ⟨c, hc, hsame⟩ := he
      cases hc

end
end Engine.Auth
