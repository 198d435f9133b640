import Engine.Caching.Meets
import Engine.Cors.Configuration
import Engine.Text.Strings

/-! `db/configuration/`: the configuration row, its encrypted secrets, and the parsed configuration. -/
namespace Engine.Secrets
open Caching

/-- The columns that hold the credentials of a key management service. -/
structure KmsColumns where
  awsAccessKeyId : Option String := none
  awsSecretAccessKey : Option String := none
  awsRegion : Option String := none
  gcpApplicationProjectId : Option String := none
  gcpKmsLocationId : Option String := none
  gcpKmsKeyRingId : Option String := none
  gcpApplicationCredentialEmail : Option String := none
  gcpApplicationCredentialPrivateKey : Option String := none
deriving DecidableEq

/-- The columns that a parsed configuration takes over. -/
structure RestConfig where
  id : String := "default"
  chainOverrides : Option String := none
  minTxsToProcess : ℤ
  maxTxsToProcess : ℤ
  minedTxListenerCronSchedule : Option String := none
  maxTxsToUpdate : ℤ
  retryTxListenerCronSchedule : Option String := none
  minEllapsedBlocksBeforeRetry : ℤ
  maxFeePerGasForRetries : String
  maxPriorityFeePerGasForRetries : String
  maxRetriesPerTx : ℤ
  indexerListenerCronSchedule : Option String := none
  maxBlocksToIndex : ℤ := 25
  cursorDelaySeconds : ℤ := 2
  authDomain : String := ""
  authWalletEncryptedJson : String := ""
  webhookUrl : Option String := none
  webhookAuthBearerToken : Option String := none
  minWalletBalance : String := "20000000000000000"
  accessControlAllowOrigin : String := "https://thirdweb.com,https://embed.ipfscdn.io"
  ipAllowlist : List String := []
  clearCacheCronSchedule : String := "*/30 * * * * *"
deriving DecidableEq

/-- The row of the configuration. -/
structure Configuration extends RestConfig where
  contractSubscriptionsRetryDelaySeconds : String := "10"
  kms : KmsColumns := {}
deriving DecidableEq

structure NativeCurrency where
  name : String
  symbol : String
  decimals : ℤ
deriving DecidableEq

structure Chain where
  id : ℤ
  name : String
  rpc : String
  nativeCurrency : NativeCurrency
  testnet : Option Bool
deriving DecidableEq

inductive WalletConfiguration
  | «local»
  | awsKms (awsRegion awsAccessKeyId awsSecretAccessKey : String)
  | gcpKms (gcpApplicationProjectId gcpKmsLocationId gcpKmsKeyRingId gcpApplicationCredentialEmail
      gcpApplicationCredentialPrivateKey : String)
deriving DecidableEq

structure ParsedConfig extends RestConfig where
  contractSubscriptionsRequeryDelaySeconds : String
  chainOverridesParsed : List Chain
  walletConfiguration : WalletConfiguration
deriving DecidableEq

structure Env where
  ENCRYPTION_PASSWORD : String
  THIRDWEB_API_SECRET_KEY : String

/-- A cipher with passwords. The first argument of `encrypt` is the random salt. -/
structure Cipher where
  encrypt : ℕ → String → String → String
  decrypt : String → String → String
  decrypt_encrypt : ∀ salt x p, decrypt (encrypt salt x p) p = x
  decrypt_wrong : ∀ salt x p p', p' ≠ p → decrypt (encrypt salt x p) p' = ""
  encrypt_ne_empty : ∀ salt x p, encrypt salt x p ≠ ""

/-- What the process runs with. -/
structure Process where
  env : Env
  AES : Cipher
  /-- The JSON of a new random wallet, encrypted under a password. -/
  exportLocalWallet : ℕ → String → String
  /-- `none` when the JSON can not be read as a list of chains. -/
  parseChainOverrides : String → Option (List Chain)

/-- The table, which has one row at most, and how much randomness was used. -/
structure State where
  configuration : Option Configuration
  drawn : ℕ := 0

inductive Thrown
  /-- The row to update does not exist. -/
  | recordNotFound
  | customError (message : String) (statusCode : ℕ) (code : String)
deriving DecidableEq

abbrev Prog (A : Type) := Stateful Thrown State A

/-- New randomness. -/
def draw : Prog ℕ := do
  let s ← get
  set { s with drawn := s.drawn + 1 }
  return s.drawn

section
variable (P : Process)

/-! ### `utils/crypto.ts` -/

def encrypt (data : String) : Prog String := do
  let salt ← draw
  return P.AES.encrypt salt data P.env.ENCRYPTION_PASSWORD

def decrypt (data password : String) : String := P.AES.decrypt data password

/-! ### `updateConfiguration.ts` -/

/-- The data of an update: a column that is not named stays. -/
structure ConfigurationUpdate where
  awsAccessKeyId : Option (Option String) := none
  awsSecretAccessKey : Option (Option String) := none
  awsRegion : Option (Option String) := none
  gcpApplicationProjectId : Option (Option String) := none
  gcpKmsLocationId : Option (Option String) := none
  gcpKmsKeyRingId : Option (Option String) := none
  gcpApplicationCredentialEmail : Option (Option String) := none
  gcpApplicationCredentialPrivateKey : Option (Option String) := none
  authDomain : Option String := none
  authWalletEncryptedJson : Option String := none
  accessControlAllowOrigin : Option String := none
  indexerListenerCronSchedule : Option (Option String) := none

def ConfigurationUpdate.applyKms (data : ConfigurationUpdate) (kms : KmsColumns) : KmsColumns where
  awsAccessKeyId := data.awsAccessKeyId.getD kms.awsAccessKeyId
  awsSecretAccessKey := data.awsSecretAccessKey.getD kms.awsSecretAccessKey
  awsRegion := data.awsRegion.getD kms.awsRegion
  gcpApplicationProjectId := data.gcpApplicationProjectId.getD kms.gcpApplicationProjectId
  gcpKmsLocationId := data.gcpKmsLocationId.getD kms.gcpKmsLocationId
  gcpKmsKeyRingId := data.gcpKmsKeyRingId.getD kms.gcpKmsKeyRingId
  gcpApplicationCredentialEmail := data.gcpApplicationCredentialEmail.getD kms.gcpApplicationCredentialEmail
  gcpApplicationCredentialPrivateKey :=
    data.gcpApplicationCredentialPrivateKey.getD kms.gcpApplicationCredentialPrivateKey

def ConfigurationUpdate.apply (data : ConfigurationUpdate) (row : Configuration) : Configuration :=
  { row with
    kms := data.applyKms row.kms
    authDomain := data.authDomain.getD row.authDomain
    authWalletEncryptedJson := data.authWalletEncryptedJson.getD row.authWalletEncryptedJson
    accessControlAllowOrigin := data.accessControlAllowOrigin.getD row.accessControlAllowOrigin
    indexerListenerCronSchedule := data.indexerListenerCronSchedule.getD row.indexerListenerCronSchedule }

/-- A column that is given as a string is encrypted. -/
def encryptString : Option (Option String) → Prog (Option (Option String))
  | some (some data) => do
    let encrypted ← encrypt P data
    return some (some encrypted)
  | column => return column

def updateConfiguration (data : ConfigurationUpdate) : Prog Configuration := do
  let awsSecretAccessKey ← encryptString P data.awsSecretAccessKey
  let gcpApplicationCredentialPrivateKey ← encryptString P data.gcpApplicationCredentialPrivateKey
  let data := { data with
    awsSecretAccessKey := awsSecretAccessKey
    gcpApplicationCredentialPrivateKey := gcpApplicationCredentialPrivateKey }
  match (← get).configuration with
  | none => throw .recordNotFound
  | some row => do
    modify fun s => { s with configuration := some (data.apply row) }
    return data.apply row

/-! ### `getConfiguration.ts` -/

/-- The overrides that can be parsed; the failure is only logged. -/
def chainOverridesParsed (config : Configuration) : List Chain :=
  ((truthy config.chainOverrides).bind P.parseChainOverrides).getD []

/-- The result of `toParsedConfig`, with one of its three wallet configurations. -/
def parsedWith (config : Configuration) (walletConfiguration : WalletConfiguration) : ParsedConfig :=
  { config.toRestConfig with
    contractSubscriptionsRequeryDelaySeconds := config.contractSubscriptionsRetryDelaySeconds
    chainOverridesParsed := chainOverridesParsed P config
    walletConfiguration := walletConfiguration }

/-- First try to decrypt the secret using the encryption password. The test of whether that failed
looks at what was stored; behind it the secret is decrypted using the API key, and stored again. -/
def decryptSecret (stored : String) (update : String → ConfigurationUpdate) : Prog String := do
  if stored = "" then
    let decrypted := decrypt P stored P.env.THIRDWEB_API_SECRET_KEY
    if decrypted ≠ "" then
      let _ ← updateConfiguration P (update decrypted)
      return decrypted
    else
      return decrypted
  else
    return decrypt P stored P.env.ENCRYPTION_PASSWORD

/-- The AWS credentials, when none of them is missing. -/
def awsColumns (kms : KmsColumns) : Option (String × String × String) := do
  let awsAccessKeyId ← truthy kms.awsAccessKeyId
  let awsSecretAccessKey ← truthy kms.awsSecretAccessKey
  let awsRegion ← truthy kms.awsRegion
  return (awsAccessKeyId, awsSecretAccessKey, awsRegion)

/-- The GCP credentials, when none of them is missing. -/
def gcpColumns (kms : KmsColumns) : Option (String × String × String × String × String) := do
  let gcpApplicationProjectId ← truthy kms.gcpApplicationProjectId
  let gcpKmsLocationId ← truthy kms.gcpKmsLocationId
  let gcpKmsKeyRingId ← truthy kms.gcpKmsKeyRingId
  let gcpApplicationCredentialEmail ← truthy kms.gcpApplicationCredentialEmail
  let gcpApplicationCredentialPrivateKey ← truthy kms.gcpApplicationCredentialPrivateKey
  return (gcpApplicationProjectId, gcpKmsLocationId, gcpKmsKeyRingId, gcpApplicationCredentialEmail,
    gcpApplicationCredentialPrivateKey)

def toParsedConfig (config : Configuration) : Prog ParsedConfig := do
  match awsColumns config.kms with
  | some (awsAccessKeyId, awsSecretAccessKey, awsRegion) => do
    let decryptedSecretAccessKey ← decryptSecret P awsSecretAccessKey fun decrypted =>
      { awsSecretAccessKey := some (some decrypted) }
    return parsedWith P config (.awsKms awsRegion awsAccessKeyId decryptedSecretAccessKey)
  | none =>
    match gcpColumns config.kms with
    | some (projectId, locationId, keyRingId, email, privateKey) => do
      let decryptedGcpKey ← decryptSecret P privateKey fun decrypted =>
        { gcpApplicationCredentialPrivateKey := some (some decrypted) }
      return parsedWith P config (.gcpKms projectId locationId keyRingId email decryptedGcpKey)
    | none => return parsedWith P config .local

def createAuthWalletEncryptedJson : Prog String := do
  let wallet ← draw
  return P.exportLocalWallet wallet P.env.ENCRYPTION_PASSWORD

/-- The defaults of a new configuration. -/
def defaultConfiguration (authWalletEncryptedJson : String) : Configuration where
  minTxsToProcess := 1
  maxTxsToProcess := 30
  minedTxListenerCronSchedule := some "*/5 * * * * *"
  maxTxsToUpdate := 50
  retryTxListenerCronSchedule := some "*/15 * * * * *"
  indexerListenerCronSchedule := some "*/5 * * * * *"
  maxBlocksToIndex := 25
  cursorDelaySeconds := 2
  minEllapsedBlocksBeforeRetry := 12
  maxFeePerGasForRetries := "10000000000000"
  maxPriorityFeePerGasForRetries := "10000000000000"
  maxRetriesPerTx := 3
  authDomain := "thirdweb.com"
  authWalletEncryptedJson := authWalletEncryptedJson
  minWalletBalance := "20000000000000000"
  accessControlAllowOrigin := join ',' Cors.mandatoryAllowedCorsUrls
  clearCacheCronSchedule := "*/30 * * * * *"

/-- A missing row is created, and the first of the missing fields of a row is filled. -/
def findConfiguration : Prog Configuration := do
  match (← get).configuration with
  | none => do
    let authWalletEncryptedJson ← createAuthWalletEncryptedJson P
    modify fun s => { s with configuration := some (defaultConfiguration authWalletEncryptedJson) }
    return defaultConfiguration authWalletEncryptedJson
  | some config =>
    if config.authDomain = "" ∧ config.authWalletEncryptedJson = "" then do
      let authWalletEncryptedJson ← createAuthWalletEncryptedJson P
      updateConfiguration P
        { authDomain := some "thirdweb.com", authWalletEncryptedJson := some authWalletEncryptedJson }
    else if config.accessControlAllowOrigin = "" then
      updateConfiguration P { accessControlAllowOrigin := some (join ',' Cors.mandatoryAllowedCorsUrls) }
    else if truthy config.indexerListenerCronSchedule = none then
      updateConfiguration P { indexerListenerCronSchedule := some (some "*/5 * * * * *") }
    else return config

def getConfiguration : Prog ParsedConfig := do
  let config ← findConfiguration P
  toParsedConfig P config

/-! ### `POST /configuration/wallets` -/

inductive WalletsBody
  | «local»
  | awsKms (awsAccessKeyId awsSecretAccessKey awsRegion : String)
  | gcpKms (gcpApplicationProjectId gcpKmsLocationId gcpKmsKeyRingId gcpApplicationCredentialEmail
      gcpApplicationCredentialPrivateKey : String)

/-- No credentials. -/
def noCredentials : ConfigurationUpdate where
  awsAccessKeyId := some none
  awsSecretAccessKey := some none
  awsRegion := some none
  gcpApplicationProjectId := some none
  gcpKmsLocationId := some none
  gcpKmsKeyRingId := some none
  gcpApplicationCredentialEmail := some none
  gcpApplicationCredentialPrivateKey := some none

/-- The update of a request that names every credential. Those of the other provider are cleared. -/
def WalletsBody.update : WalletsBody → Except Thrown ConfigurationUpdate
  | .local => .ok noCredentials
  | .awsKms awsAccessKeyId awsSecretAccessKey awsRegion =>
    if awsAccessKeyId = "" ∨ awsSecretAccessKey = "" ∨ awsRegion = "" then
      .error (.customError "Please specify all AWS KMS configuration." 400 "BAD_REQUEST")
    else
      .ok { noCredentials with
        awsAccessKeyId := some (some awsAccessKeyId)
        awsSecretAccessKey := some (some awsSecretAccessKey)
        awsRegion := some (some awsRegion) }
  | .gcpKms projectId locationId keyRingId email privateKey =>
    if projectId = "" ∨ locationId = "" ∨ keyRingId = "" ∨ email = "" ∨ privateKey = "" then
      .error (.customError "Please specify all GCP KMS configuration." 400 "BAD_REQUEST")
    else
      .ok { noCredentials with
        gcpApplicationProjectId := some (some projectId)
        gcpKmsLocationId := some (some locationId)
        gcpKmsKeyRingId := some (some keyRingId)
        gcpApplicationCredentialEmail := some (some email)
        gcpApplicationCredentialPrivateKey := some (some privateKey) }

def updateWalletsConfiguration (body : WalletsBody) : Prog WalletConfiguration := do
  let data ← body.update
  let _ ← updateConfiguration P data
  let config ← getConfiguration P
  return config.walletConfiguration

end
end Engine.Secrets
