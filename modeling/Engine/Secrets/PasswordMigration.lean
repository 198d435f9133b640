import Engine.Concurrent.Sequential
import Engine.Secrets.Configuration

/-! Whether a stored secret comes out of the configuration it was put in. -/
namespace Engine.Secrets
open Caching

inductive Provider
  | aws
  | gcp
deriving DecidableEq

/-- The column of a provider's secret. -/
def Provider.stored : Provider → KmsColumns → Option String
  | .aws, kms => kms.awsSecretAccessKey
  | .gcp, kms => kms.gcpApplicationCredentialPrivateKey

/-- The secret that a parsed configuration has for a provider. -/
def Provider.parsed : Provider → WalletConfiguration → Option String
  | .aws, .awsKms _ _ awsSecretAccessKey => some awsSecretAccessKey
  | .gcp, .gcpKms _ _ _ _ gcpApplicationCredentialPrivateKey => some gcpApplicationCredentialPrivateKey
  | _, _ => none

section
variable (P : Process)

/-- The other credentials of the provider are set, and its secret is encrypted under `password`. -/
structure AwsStored (password secret : String) (kms : KmsColumns) : Prop where
  awsAccessKeyId : (truthy kms.awsAccessKeyId).isSome
  awsRegion : (truthy kms.awsRegion).isSome
  awsSecretAccessKey : ∃ salt, kms.awsSecretAccessKey = some (P.AES.encrypt salt secret password)

/-- The same for the GCP credentials. Who stores them clears those of AWS. -/
structure GcpStored (password secret : String) (kms : KmsColumns) : Prop where
  awsColumns : awsColumns kms = none
  gcpApplicationProjectId : (truthy kms.gcpApplicationProjectId).isSome
  gcpKmsLocationId : (truthy kms.gcpKmsLocationId).isSome
  gcpKmsKeyRingId : (truthy kms.gcpKmsKeyRingId).isSome
  gcpApplicationCredentialEmail : (truthy kms.gcpApplicationCredentialEmail).isSome
  gcpApplicationCredentialPrivateKey :
    ∃ salt, kms.gcpApplicationCredentialPrivateKey = some (P.AES.encrypt salt secret password)

def Stored (provider : Provider) (password secret : String) (kms : KmsColumns) : Prop :=
  match provider with
  | .aws => AwsStored P password secret kms
  | .gcp => GcpStored P password secret kms

/-- A call of `getConfiguration` from `s` returns the secret and ends in `s'`. -/
def Returns (provider : Provider) (secret : String) (s s' : State) : Prop :=
  ∃ config, (getConfiguration P).run s = (.ok config, s') ∧
    provider.parsed config.walletConfiguration = some secret

/-- What the column holds is the secret under the encryption password. -/
def Readable (provider : Provider) (secret : String) (s : State) : Prop :=
  ∃ row stored, s.configuration = some row ∧ provider.stored row.kms = some stored ∧
    decrypt P stored P.env.ENCRYPTION_PASSWORD = secret

/-- The secret is returned; when it was under the old key, it is under the new one from then on,
and is returned again. -/
structure Survives (provider : Provider) (password secret : String) (s : State) : Prop where
  returned : ∃ s', Returns P provider secret s s'
  migrated : password = P.env.THIRDWEB_API_SECRET_KEY → ∀ config s', (getConfiguration P).run s = (.ok config, s') →
    Readable P provider secret s' ∧ ∃ s'', Returns P provider secret s' s''

/-! ### What a call does -/

theorem truthy_ne_empty {column : Option String} {text : String} (h : truthy column = some text) : text ≠ "" := by
  have hfilter := Option.filter_eq_some_iff.mp h
  simpa using hfilter.2

/-- The update with its secrets encrypted. -/
def encryptedUpdate (salt salt' : ℕ) (data : ConfigurationUpdate) : ConfigurationUpdate :=
  let under (salt : ℕ) := Option.map (Option.map fun text => P.AES.encrypt salt text P.env.ENCRYPTION_PASSWORD)
  { data with
    awsSecretAccessKey := under salt data.awsSecretAccessKey
    gcpApplicationCredentialPrivateKey := under salt' data.gcpApplicationCredentialPrivateKey }

theorem run_encryptString (column : Option (Option String)) (s : State) :
    ∃ drawn, (encryptString P column).run s = (.ok (column.map (Option.map fun text =>
      P.AES.encrypt s.drawn text P.env.ENCRYPTION_PASSWORD)), ⟨s.configuration, drawn⟩) := by
  unfold encryptString
  split
  · exact ⟨s.drawn + 1, rfl⟩
  · rename_i hcolumn
    refine ⟨s.drawn, ?_⟩
    obtain _ | _ | text := column
    · rfl
    · rfl
    · cases hcolumn text rfl

theorem run_updateConfiguration (data : ConfigurationUpdate) {s : State} {row : Configuration}
    (hrow : s.configuration = some row) :
    ∃ salt salt' drawn, (updateConfiguration P data).run s =
      (.ok ((encryptedUpdate P salt salt' data).apply row),
        ⟨some ((encryptedUpdate P salt salt' data).apply row), drawn⟩) := by
  obtain ⟨drawn, haws⟩ := run_encryptString P data.awsSecretAccessKey s
  obtain ⟨drawn', hgcp⟩ := run_encryptString P data.gcpApplicationCredentialPrivateKey ⟨s.configuration, drawn⟩
  refine ⟨s.drawn, drawn, drawn', ?_⟩
  unfold updateConfiguration
  rw [run_bind_ok haws, run_bind_ok hgcp, hrow]
  rfl

theorem run_createAuthWalletEncryptedJson (s : State) :
    (createAuthWalletEncryptedJson P).run s =
      (.ok (P.exportLocalWallet s.drawn P.env.ENCRYPTION_PASSWORD), { s with drawn := s.drawn + 1 }) := rfl

/-- A row is found as it is but for a missing field. -/
theorem run_findConfiguration {s : State} {row : Configuration} (hrow : s.configuration = some row) :
    ∃ row' drawn, (findConfiguration P).run s = (.ok row', ⟨some row', drawn⟩) ∧ row'.kms = row.kms := by
  have hfill : ∀ data s', s'.configuration = some row →
      (∀ salt salt', (encryptedUpdate P salt salt' data).applyKms row.kms = row.kms) →
      ∃ row' drawn, (updateConfiguration P data).run s' = (.ok row', ⟨some row', drawn⟩) ∧ row'.kms = row.kms := by
    intro data s' hs' hkms
    obtain ⟨salt, salt', drawn, hrun⟩ := run_updateConfiguration P data hs'
    exact ⟨_, drawn, hrun, hkms salt salt'⟩
  unfold findConfiguration
  rw [run_get_bind, hrow]
  dsimp only
  split_ifs
  · rw [run_bind_ok (run_createAuthWalletEncryptedJson P s)]
    exact hfill _ _ hrow fun _ _ => rfl
  · exact hfill _ _ hrow fun _ _ => rfl
  · exact hfill _ _ hrow fun _ _ => rfl
  · exact ⟨row, s.drawn, by rw [← hrow]; rfl, rfl⟩

/-- Unless an auth wallet is missing, the list of origins in the row that is found is the one that the requests
for the origins find. -/
theorem runs_getConfiguration_of_run {s s' : State} {row row' : Configuration} (hrow : s.configuration = some row)
    (hauth : ¬(row.authDomain = "" ∧ row.authWalletEncryptedJson = ""))
    (hrun : (findConfiguration P).run s = (.ok row', s')) (config : ℕ → Option String) :
    Concurrent.Program.Runs Cors.World.effect ⟨row.accessControlAllowOrigin, config⟩ Cors.getConfiguration
      (.ok row'.accessControlAllowOrigin) ⟨row'.accessControlAllowOrigin, config⟩ := by
  have hfill : ∀ data row₁ s₁, (updateConfiguration P data).run s = (.ok row₁, s₁) →
      row₁.accessControlAllowOrigin = data.accessControlAllowOrigin.getD row.accessControlAllowOrigin := by
    intro data row₁ s₁ h
    obtain ⟨salt, salt', drawn, hupdate⟩ := run_updateConfiguration P data hrow
    rw [hupdate] at h
    cases h
    rfl
  unfold findConfiguration at hrun
  rw [run_get_bind, hrow] at hrun
  dsimp only at hrun
  rw [if_neg hauth] at hrun
  unfold Cors.getConfiguration
  have hfind : Concurrent.Program.Runs Cors.World.effect ⟨row.accessControlAllowOrigin, config⟩
      (Cors.await .findConfiguration) (.ok row.accessControlAllowOrigin) ⟨row.accessControlAllowOrigin, config⟩ :=
    Concurrent.Program.runs_perform.mpr ⟨.ok (), rfl⟩
  refine Concurrent.Program.runs_bind_ok.mpr ⟨_, _, hfind, ?_⟩
  split_ifs at hrun with hempty hschedule
  · rw [if_pos hempty, hfill _ _ _ hrun]
    exact Concurrent.Program.runs_perform.mpr ⟨.ok (), rfl⟩
  · rw [if_neg hempty, hfill _ _ _ hrun]
    exact Concurrent.Program.runs_done.mpr ⟨rfl, rfl⟩
  · cases hrun
    rw [if_neg hempty]
    exact Concurrent.Program.runs_done.mpr ⟨rfl, rfl⟩

/-- The wallet configuration of the columns, with the secret as the encryption password reads it. -/
def walletConfiguration (kms : KmsColumns) : WalletConfiguration :=
  match awsColumns kms with
  | some (awsAccessKeyId, awsSecretAccessKey, awsRegion) =>
    .awsKms awsRegion awsAccessKeyId (decrypt P awsSecretAccessKey P.env.ENCRYPTION_PASSWORD)
  | none =>
    match gcpColumns kms with
    | some (projectId, locationId, keyRingId, email, privateKey) =>
      .gcpKms projectId locationId keyRingId email (decrypt P privateKey P.env.ENCRYPTION_PASSWORD)
    | none => .local

theorem decryptSecret_of_ne_empty {stored : String} (h : stored ≠ "") (update : String → ConfigurationUpdate) :
    decryptSecret P stored update = pure (decrypt P stored P.env.ENCRYPTION_PASSWORD) := if_neg h

theorem awsColumns_eq_some {kms : KmsColumns} {awsAccessKeyId awsSecretAccessKey awsRegion : String} :
    awsColumns kms = some (awsAccessKeyId, awsSecretAccessKey, awsRegion) ↔
      truthy kms.awsAccessKeyId = some awsAccessKeyId ∧ truthy kms.awsSecretAccessKey = some awsSecretAccessKey ∧
        truthy kms.awsRegion = some awsRegion := by
  unfold awsColumns
  simp [Option.bind_eq_some_iff]

theorem gcpColumns_eq_some {kms : KmsColumns} {projectId locationId keyRingId email privateKey : String} :
    gcpColumns kms = some (projectId, locationId, keyRingId, email, privateKey) ↔
      truthy kms.gcpApplicationProjectId = some projectId ∧ truthy kms.gcpKmsLocationId = some locationId ∧
        truthy kms.gcpKmsKeyRingId = some keyRingId ∧ truthy kms.gcpApplicationCredentialEmail = some email ∧
          truthy kms.gcpApplicationCredentialPrivateKey = some privateKey := by
  unfold gcpColumns
  simp [Option.bind_eq_some_iff]

/-- What is stored is not empty, so nothing is decrypted using the API key, or stored again. -/
theorem toParsedConfig_eq (config : Configuration) :
    toParsedConfig P config = pure (parsedWith P config (walletConfiguration P config.kms)) := by
  unfold toParsedConfig walletConfiguration
  cases haws : awsColumns config.kms with
  | some columns =>
    obtain ⟨awsAccessKeyId, awsSecretAccessKey, awsRegion⟩ := columns
    have hne := truthy_ne_empty (awsColumns_eq_some.mp haws).2.1
    dsimp only
    rw [decryptSecret_of_ne_empty P hne]
    rfl
  | none =>
    cases hgcp : gcpColumns config.kms with
    | some columns =>
      obtain ⟨projectId, locationId, keyRingId, email, privateKey⟩ := columns
      have hne := truthy_ne_empty (gcpColumns_eq_some.mp hgcp).2.2.2.2
      dsimp only
      rw [decryptSecret_of_ne_empty P hne]
      rfl
    | none => rfl

/-- A call reads the credentials using the encryption password, and leaves them as they are. -/
theorem run_getConfiguration {s : State} {row : Configuration} (hrow : s.configuration = some row) :
    ∃ config row' drawn, (getConfiguration P).run s = (.ok config, ⟨some row', drawn⟩) ∧ row'.kms = row.kms ∧
      config.walletConfiguration = walletConfiguration P row.kms := by
  obtain ⟨row', drawn, hrun, hkms⟩ := run_findConfiguration P hrow
  refine ⟨parsedWith P row' (walletConfiguration P row'.kms), row', drawn, ?_, hkms,
    congrArg (walletConfiguration P) hkms⟩
  unfold getConfiguration
  rw [run_bind_ok hrun, toParsedConfig_eq]
  rfl

/-! ### What that means for a secret -/

section
variable {P} {provider : Provider} {password secret : String} {s : State} {row : Configuration}

theorem truthy_encrypt (salt : ℕ) :
    truthy (some (P.AES.encrypt salt secret password)) = some (P.AES.encrypt salt secret password) := by
  unfold truthy
  rw [Option.filter_some, if_pos (by simpa using P.AES.encrypt_ne_empty salt secret password)]

/-- The secret of the provider comes out as the encryption password reads it. -/
theorem Stored.parsed (h : Stored P provider password secret row.kms) :
    ∃ salt, provider.stored row.kms = some (P.AES.encrypt salt secret password) ∧
      provider.parsed (walletConfiguration P row.kms) =
        some (decrypt P (P.AES.encrypt salt secret password) P.env.ENCRYPTION_PASSWORD) := by
  cases provider with
  | aws =>
    obtain ⟨hid, hregion, salt, hsecret⟩ := h
    obtain ⟨id, hid⟩ := Option.isSome_iff_exists.mp hid
    obtain ⟨region, hregion⟩ := Option.isSome_iff_exists.mp hregion
    have hcolumns : awsColumns row.kms = some (id, P.AES.encrypt salt secret password, region) :=
      awsColumns_eq_some.mpr ⟨hid, by rw [hsecret, truthy_encrypt], hregion⟩
    refine ⟨salt, hsecret, ?_⟩
    unfold walletConfiguration
    rw [hcolumns]
    rfl
  | gcp =>
    obtain ⟨haws, hproject, hlocation, hring, hemail, salt, hsecret⟩ := h
    obtain ⟨project, hproject⟩ := Option.isSome_iff_exists.mp hproject
    obtain ⟨location, hlocation⟩ := Option.isSome_iff_exists.mp hlocation
    obtain ⟨ring, hring⟩ := Option.isSome_iff_exists.mp hring
    obtain ⟨email, hemail⟩ := Option.isSome_iff_exists.mp hemail
    have hcolumns : gcpColumns row.kms = some (project, location, ring, email, P.AES.encrypt salt secret password) :=
      gcpColumns_eq_some.mpr ⟨hproject, hlocation, hring, hemail, by rw [hsecret, truthy_encrypt]⟩
    refine ⟨salt, hsecret, ?_⟩
    unfold walletConfiguration
    rw [haws, hcolumns]
    rfl

theorem decrypt_eq_iff (salt : ℕ) :
    decrypt P (P.AES.encrypt salt secret password) P.env.ENCRYPTION_PASSWORD = secret ↔
      password = P.env.ENCRYPTION_PASSWORD ∨ secret = "" := by
  unfold decrypt
  by_cases hp : P.env.ENCRYPTION_PASSWORD = password
  · rw [hp, P.AES.decrypt_encrypt]
    simp
  · rw [P.AES.decrypt_wrong salt secret password _ hp]
    constructor
    · intro h
      exact Or.inr h.symm
    · intro h
      exact (h.resolve_left fun h => hp h.symm).symm

/-- A call returns the secret exactly when the encryption password reads it, and keeps the columns. -/
theorem returns_iff (hrow : s.configuration = some row) (hstored : Stored P provider password secret row.kms) :
    ∃ config row' drawn, (getConfiguration P).run s = (.ok config, ⟨some row', drawn⟩) ∧ row'.kms = row.kms ∧
      (provider.parsed config.walletConfiguration = some secret ↔
        password = P.env.ENCRYPTION_PASSWORD ∨ secret = "") := by
  obtain ⟨config, row', drawn, hrun, hkms, hwallet⟩ := run_getConfiguration P hrow
  obtain ⟨salt, -, hparsed⟩ := hstored.parsed
  refine ⟨config, row', drawn, hrun, hkms, ?_⟩
  rw [hwallet, hparsed, Option.some.injEq]
  exact decrypt_eq_iff salt

/-- A stored secret survives exactly when it is under the encryption password, or empty. -/
theorem survives_iff (P : Process) (provider : Provider) (password secret : String) (s : State) (row : Configuration)
    (hrow : s.configuration = some row) (hstored : Stored P provider password secret row.kms) :
    Survives P provider password secret s ↔ password = P.env.ENCRYPTION_PASSWORD ∨ secret = "" := by
  obtain ⟨config, row', drawn, hrun, hkms, hiff⟩ := returns_iff hrow hstored
  constructor
  · intro h
    obtain ⟨s', config', hrun', hsecret⟩ := h.returned
    have hconfig : config' = config := Except.ok.inj (Prod.mk.inj (hrun'.symm.trans hrun)).1
    exact hiff.mp (hconfig ▸ hsecret)
  · intro hread
    constructor
    · exact ⟨_, config, hrun, hiff.mpr hread⟩
    · intro _ config' s' hrun'
      have hs' : s' = ⟨some row', drawn⟩ := (Prod.mk.inj (hrun'.symm.trans hrun)).2
      have hstored' : Stored P provider password secret row'.kms := hkms ▸ hstored
      subst hs'
      constructor
      · obtain ⟨salt, hcolumn, -⟩ := hstored'.parsed
        exact ⟨row', _, rfl, hcolumn, (decrypt_eq_iff salt).mpr hread⟩
      · obtain ⟨config'', row'', drawn', hrun'', -, hiff'⟩ := returns_iff (s := ⟨some row', drawn⟩) rfl hstored'
        exact ⟨_, config'', hrun'', hiff'.mpr hread⟩

end
end

/-! ### What the wallets route stores -/

/-- The credentials of a request. -/
def WalletsBody.credentials : WalletsBody → WalletConfiguration
  | .local => .local
  | .awsKms awsAccessKeyId awsSecretAccessKey awsRegion => .awsKms awsRegion awsAccessKeyId awsSecretAccessKey
  | .gcpKms projectId locationId keyRingId email privateKey => .gcpKms projectId locationId keyRingId email privateKey

theorem truthy_of_ne_empty {text : String} (h : text ≠ "") : truthy (some text) = some text := by
  unfold truthy
  rw [Option.filter_some, if_pos (by simpa using h)]

/-- The columns of an accepted request read back as its credentials. -/
theorem walletConfiguration_of_update (P : Process) {body : WalletsBody} {data : ConfigurationUpdate}
    (hbody : body.update = .ok data) (salt salt' : ℕ) (kms : KmsColumns) :
    walletConfiguration P ((encryptedUpdate P salt salt' data).applyKms kms) = body.credentials := by
  cases body with
  | «local» =>
    cases hbody
    rfl
  | awsKms awsAccessKeyId awsSecretAccessKey awsRegion =>
    simp only [WalletsBody.update] at hbody
    split_ifs at hbody with hempty
    simp only [not_or] at hempty
    obtain ⟨hid, -, hregion⟩ := hempty
    have hcolumns : awsColumns ((encryptedUpdate P salt salt' data).applyKms kms) =
        some (awsAccessKeyId, P.AES.encrypt salt awsSecretAccessKey P.env.ENCRYPTION_PASSWORD, awsRegion) := by
      rw [← Except.ok.inj hbody]
      exact awsColumns_eq_some.mpr ⟨truthy_of_ne_empty hid, truthy_encrypt salt, truthy_of_ne_empty hregion⟩
    unfold walletConfiguration
    rw [hcolumns]
    exact congrArg (WalletConfiguration.awsKms awsRegion awsAccessKeyId) (P.AES.decrypt_encrypt _ _ _)
  | gcpKms projectId locationId keyRingId email privateKey =>
    simp only [WalletsBody.update] at hbody
    split_ifs at hbody with hempty
    simp only [not_or] at hempty
    obtain ⟨hproject, hlocation, hring, hemail, -⟩ := hempty
    have haws : awsColumns ((encryptedUpdate P salt salt' data).applyKms kms) = none := by
      rw [← Except.ok.inj hbody]
      rfl
    have hcolumns : gcpColumns ((encryptedUpdate P salt salt' data).applyKms kms) =
        some (projectId, locationId, keyRingId, email, P.AES.encrypt salt' privateKey P.env.ENCRYPTION_PASSWORD) := by
      rw [← Except.ok.inj hbody]
      exact gcpColumns_eq_some.mpr ⟨truthy_of_ne_empty hproject, truthy_of_ne_empty hlocation,
        truthy_of_ne_empty hring, truthy_of_ne_empty hemail, truthy_encrypt salt'⟩
    unfold walletConfiguration
    rw [haws, hcolumns]
    exact congrArg (WalletConfiguration.gcpKms projectId locationId keyRingId email) (P.AES.decrypt_encrypt _ _ _)

/-- An accepted request is answered with its credentials, which every later call returns. -/
theorem run_updateWalletsConfiguration (P : Process) {body : WalletsBody} {data : ConfigurationUpdate}
    (hbody : body.update = .ok data) {s : State} {row : Configuration} (hrow : s.configuration = some row) :
    ∃ row' drawn, (updateWalletsConfiguration P body).run s = (.ok body.credentials, ⟨some row', drawn⟩) ∧
      walletConfiguration P row'.kms = body.credentials := by
  obtain ⟨salt, salt', drawn, hupdate⟩ := run_updateConfiguration P data hrow
  have hcredentials := walletConfiguration_of_update P hbody salt salt' row.kms
  obtain ⟨config, row', drawn', hrun, hkms, hwallet⟩ := run_getConfiguration P
    (s := ⟨some ((encryptedUpdate P salt salt' data).apply row), drawn⟩) rfl
  refine ⟨row', drawn', ?_, by rw [hkms]; exact hcredentials⟩
  have hlift : (liftM body.update : Prog ConfigurationUpdate).run s = (.ok data, s) := by
    rw [hbody]
    rfl
  unfold updateWalletsConfiguration
  rw [run_bind_ok hlift, run_bind_ok hupdate, run_bind_ok hrun, hwallet, ← hcredentials]
  rfl

/-! ### A cipher -/

/-- The password, behind its length, in front of the plaintext. -/
def passwordHeader (p : String) : List Char := List.replicate p.length 'a' ++ ':' :: p.toList

private theorem eq_of_header_prefix {n m : ℕ} {l l' : List Char}
    (h : List.replicate n 'a' ++ ':' :: l <+: List.replicate m 'a' ++ ':' :: l') : n = m ∧ l <+: l' := by
  induction n generalizing m with
  | zero =>
    cases m with
    | zero => exact ⟨rfl, (List.cons_prefix_cons.mp h).2⟩
    | succ m => exact absurd (List.cons_prefix_cons.mp h).1 (by decide)
  | succ n ih =>
    cases m with
    | zero => exact absurd (List.cons_prefix_cons.mp h).1 (by decide)
    | succ m =>
      obtain ⟨hn, hl⟩ := ih (List.cons_prefix_cons.mp h).2
      exact ⟨congrArg Nat.succ hn, hl⟩

private theorem passwordHeader_inj {p p' : String} {x : List Char} (h : passwordHeader p' <+: passwordHeader p ++ x) :
    p' = p := by
  unfold passwordHeader at h
  rw [List.append_assoc, List.cons_append] at h
  obtain ⟨hlength, hprefix⟩ := eq_of_header_prefix h
  have htake := List.prefix_iff_eq_take.mp hprefix
  rw [String.length_toList, hlength, ← String.length_toList, List.take_left] at htake
  exact String.toList_inj.mp htake

/-- A cipher that hides nothing. -/
def headerCipher : Cipher where
  encrypt _ x p := String.ofList (passwordHeader p ++ x.toList)
  decrypt c p := if passwordHeader p <+: c.toList then String.ofList (c.toList.drop (passwordHeader p).length) else ""
  decrypt_encrypt _ x p := by
    rw [String.toList_ofList, if_pos (List.prefix_append _ _), List.drop_left, String.ofList_toList]
  decrypt_wrong _ x p p' hne := by
    rw [String.toList_ofList]
    exact if_neg fun h => hne (passwordHeader_inj h)
  encrypt_ne_empty _ x p h := by
    have hempty : passwordHeader p ++ x.toList = [] := by rw [← String.toList_ofList (l := _ ++ _), h]; rfl
    simp [passwordHeader] at hempty

/-- A process that was given a new password. -/
def newPassword : Process where
  env := ⟨"new", "old"⟩
  AES := headerCipher
  exportLocalWallet _ _ := "wallet"
  parseChainOverrides _ := none

/-- AWS credentials whose secret is encrypted under `password`. -/
def awsRow (password : String) : Configuration :=
  { defaultConfiguration "wallet" with
    kms := {
      awsAccessKeyId := some "AKIA"
      awsSecretAccessKey := some (headerCipher.encrypt 0 "wJalrXUtnFEMI" password)
      awsRegion := some "us-east-1" } }

theorem stored_awsRow (password : String) : Stored newPassword .aws password "wJalrXUtnFEMI" (awsRow password).kms where
  awsAccessKeyId := by
    show (truthy (some "AKIA")).isSome = true
    decide
  awsRegion := by
    show (truthy (some "us-east-1")).isSome = true
    decide
  awsSecretAccessKey := ⟨0, rfl⟩

theorem survives_new : Survives newPassword .aws "new" "wJalrXUtnFEMI" ⟨some (awsRow "new"), 0⟩ :=
  (survives_iff newPassword .aws "new" "wJalrXUtnFEMI" ⟨some (awsRow "new"), 0⟩ (awsRow "new") rfl
    (stored_awsRow "new")).mpr (Or.inl rfl)

/-- A secret under the old key is returned as the empty string. -/
theorem not_survives : ¬ ∀ (P : Process) (provider : Provider) (password secret : String) (s : State)
    (row : Configuration), s.configuration = some row →
    (password = P.env.ENCRYPTION_PASSWORD ∨ password = P.env.THIRDWEB_API_SECRET_KEY) →
      Stored P provider password secret row.kms → Survives P provider password secret s := by
  intro hgeneral
  have hsurvives := hgeneral newPassword .aws "old" "wJalrXUtnFEMI" ⟨some (awsRow "old"), 0⟩ (awsRow "old") rfl
    (Or.inr rfl) (stored_awsRow "old")
  obtain ⟨config, row', drawn, hrun, -, hiff⟩ := returns_iff
    (s := ⟨some (awsRow "old"), 0⟩) rfl (stored_awsRow "old")
  obtain ⟨s', config', hrun', hsecret⟩ := hsurvives.returned
  have hconfig : config' = config := Except.ok.inj (Prod.mk.inj (hrun'.symm.trans hrun)).1
  have hread := hiff.mp (hconfig ▸ hsecret)
  revert hread
  decide

end Engine.Secrets
