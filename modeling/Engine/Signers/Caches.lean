import Engine.Caching.Meets
import Engine.Model.Types
import Engine.Secrets.Configuration
import Engine.Source.Shared
import Mathlib.Logic.Function.Basic

/-! `utils/account.ts` and `utils/cache/`: the signers, their wallets and their SDKs, each behind a cache
of the process. -/
namespace Engine.Signers
open Caching
open Secrets (WalletConfiguration)

def isHexDigit (c : Char) : Bool := c.isDigit || ('a' ≤ c && c ≤ 'f') || ('A' ≤ c && c ≤ 'F')

/-- `/^0x[a-fA-F0-9]{40}$/`, the pattern of every address of a request. -/
def AddressSchema (text : String) : Bool :=
  text.toList.take 2 = ['0', 'x'] && text.length = 42 && (text.toList.drop 2).all isHexDigit

structure Address where
  text : String
  isAddress : AddressSchema text = true
deriving DecidableEq

/-- What `getChain` returns. -/
structure Chain where
  id : ℕ
  rpc : String
deriving DecidableEq

structure ChainMetadata where
  chainId : ℕ
  rpc : List String
deriving DecidableEq

structure WalletDetails where
  address : String
  type : String
  encryptedJson : Option String := none
  awsKmsKeyId : Option String := none
  gcpKmsKeyId : Option String := none
  gcpKmsKeyVersionId : Option String := none
deriving DecidableEq

/-! ### The objects, with what they were made from -/

inductive EVMWallet
  | awsKms (awsRegion awsAccessKeyId awsSecretAccessKey : String) (keyId : Option String)
  | gcpKms (gcpApplicationProjectId gcpKmsLocationId gcpKmsKeyRingId gcpApplicationCredentialEmail
      gcpApplicationCredentialPrivateKey : String) (keyId keyVersion : Option String)
  | «local» (chain : ChainMetadata) (privateKey : String)
  | smart (chain : ℕ) (factoryAddress : String) (personalWallet : EVMWallet) (accountAddress : Address)
deriving DecidableEq

inductive Account
  | privateKey (privateKey : String)
  /-- An ethers signer, connected to a provider. -/
  | fromEthers (wallet : EVMWallet) (rpc : Option String)
  | smart (chain : Chain) (factoryAddress : String) (personalAccount : Account)
deriving DecidableEq

inductive ThirdwebSDK
  | readOnly (chain : ChainMetadata)
  | fromWallet (wallet : EVMWallet) (chainId : ℕ) (chain : ChainMetadata)
deriving DecidableEq

/-- What the process reads and calls, which stays as it is. -/
structure Outside where
  getChain : ℕ → Except Err Chain
  getChainMetadata : Chain → Except Err (Option ChainMetadata)
  walletConfiguration : Except Err WalletConfiguration
  ENCRYPTION_PASSWORD : String
  THIRDWEB_API_SECRET_KEY : String
  /-- The row with the given address. -/
  walletDetails : String → Except Err (Option WalletDetails)
  /-- The file of a wallet, from before its row had it. -/
  localFile : String → Option String
  /-- `LocalWallet.load`: the private key in an encrypted JSON. -/
  load : Option String → String → Except Err String
  fromEncryptedJson : String → String → Except Err String
  /-- `account-factory:<accountAddress>`. -/
  accountFactory : String → Except Err (Option String)
  /-- `contract.call("factory")`, through an SDK. -/
  callFactory : ThirdwebSDK → Address → Except Err String
  /-- `readContract({ method: "function factory() view returns (address)" })`. -/
  readFactory : Chain → Address → Except Err String
  /-- What may fail when an object is connected. -/
  connectWallet : EVMWallet → Except Err Unit
  getSigner : EVMWallet → Except Err Unit
  fromEthers : EVMWallet → Option String → Except Err Unit
  connectAccount : Account → Except Err Unit

structure Caches where
  _accountsCache : String → Option Account := fun _ => none
  smartWalletsCache : String → Option Account := fun _ => none
  walletsCache : String → Option EVMWallet := fun _ => none
  sdkCache : String → Option ThirdwebSDK := fun _ => none

abbrev Prog (A : Type) := Stateful Err Caches A

def badChainError (chain : ℕ) : Err :=
  createCustomError
    ("Invalid chain: " ++ toString chain ++ ". If this is a custom chain, add it to chain overrides.") 400
    "INVALID_CHAIN"

variable (o : Outside)

def getWalletDetails (address : String) : Prog (Option WalletDetails) := liftM (o.walletDetails address.toLower)

/-- `getChainMetadata(await getChain(chainId))`. -/
def chainMetadata (chainId : ℕ) : Prog ChainMetadata := do
  let chainV5 ← liftM (o.getChain chainId)
  let chain ← liftM (o.getChainMetadata chainV5)
  match chain with
  | some chain => pure chain
  | none => throw (badChainError chainId)

def getAwsKmsWallet (awsKmsKeyId : Option String) : Prog EVMWallet := do
  let walletConfiguration ← liftM o.walletConfiguration
  match walletConfiguration with
  | .awsKms region accessKeyId secretAccessKey => pure (.awsKms region accessKeyId secretAccessKey awsKmsKeyId)
  | _ => throw (Err.new "Server was not configured for AWS KMS wallets.")

def getGcpKmsWallet (gcpKmsKeyId gcpKmsKeyVersionId : Option String) : Prog EVMWallet := do
  let walletConfiguration ← liftM o.walletConfiguration
  match walletConfiguration with
  | .gcpKms projectId locationId keyRingId email privateKey =>
    pure (.gcpKms projectId locationId keyRingId email privateKey gcpKmsKeyId gcpKmsKeyVersionId)
  | _ => throw (Err.new "Server was not configured for GCP KMS.")

/-- `LocalFileStorage.getItem`. An empty JSON is none. -/
def getItem (walletAddress : Address) : Prog (Option String) := do
  let walletDetails ← getWalletDetails o walletAddress.text
  match (walletDetails.bind (·.encryptedJson)).filter (· ≠ "") with
  | some encryptedJson => pure (some encryptedJson)
  | none => pure (o.localFile walletAddress.text.toLower)

def loadLocalWallet (walletAddress : Address) (password : String) : Prog String := do
  let encryptedJson ← getItem o walletAddress
  liftM (o.load encryptedJson password)

/-- A wallet that is saved again is the same wallet. -/
def getLocalWallet (chainId : ℕ) (walletAddress : Address) : Prog EVMWallet :=
  Shared.getLocalWallet
    { getChainMetadata := chainMetadata o chainId
      load := loadLocalWallet o walletAddress
      getWalletDetails := getWalletDetails o walletAddress.text
      save := fun _ _ => pure () }
    o.ENCRYPTION_PASSWORD o.THIRDWEB_API_SECRET_KEY
    (Err.new ("Wallet details not found for wallet address " ++ walletAddress.text)) .local

def getLocalWalletAccount (walletAddress : Address) : Prog Account := do
  let json ← getItem o walletAddress
  match json.filter (· ≠ "") with
  | none => throw (Err.new ("Wallet not found for address " ++ walletAddress.text))
  | some json => do
    let privateKey ← liftM (o.fromEncryptedJson json o.ENCRYPTION_PASSWORD)
    pure (.privateKey privateKey)

/-! ### The keys -/

def getAccountCacheKey (chainId : ℕ) («from» : Address) (accountAddress : Option Address) : String :=
  match accountAddress with
  | some accountAddress => toString chainId ++ "-" ++ «from».text ++ "-" ++ accountAddress.text
  | none => toString chainId ++ "-" ++ «from».text

/-- `cacheKey` of `getWallet`. -/
def walletCacheKey (chainId : ℕ) (walletAddress : Address) (accountAddress : Option Address) : String :=
  match accountAddress with
  | some accountAddress => toString chainId ++ "-" ++ walletAddress.text ++ "-" ++ accountAddress.text
  | none => toString chainId ++ "-" ++ walletAddress.text

/-- `cacheKey` of `getSdk`. -/
def sdkCacheKey (chainId : ℕ) (walletAddress accountAddress : Option Address) : String :=
  match walletAddress with
  | some walletAddress => walletCacheKey chainId walletAddress accountAddress
  | none => toString chainId

/-! ### The source -/

/-- The SDK of a chain, with a wallet if there is one. -/
def createSdk (chainId : ℕ) (wallet : Option (Prog EVMWallet)) : Prog ThirdwebSDK := do
  let chain ← chainMetadata o chainId
  match wallet with
  | none => pure (.readOnly chain)
  | some getWallet => do
    let wallet ← getWallet
    pure (.fromWallet wallet chainId chain)

/-- `getSdk`, with its key and its wallet. -/
def sdkWith (chainId : ℕ) (cacheKey : String) (wallet : Option (Prog EVMWallet)) : Prog ThirdwebSDK :=
  readThrough (·.sdkCache cacheKey) (createSdk o chainId wallet) fun sdk s =>
    { s with sdkCache := Function.update s.sdkCache cacheKey (some sdk) }

/-- `getContract({ chainId, contractAddress })` and `contract.call("factory")`. -/
def factoryOnChain (chainId : ℕ) (accountAddress : Address) : Prog String := do
  let sdk ← sdkWith o chainId (sdkCacheKey chainId none none) none
  liftM (o.callFactory sdk accountAddress)

def noFactoryError (chainId : ℕ) (accountAddress : Address) : Err :=
  Err.new ("Failed to find factory address for account '" ++ accountAddress.text ++ "' on chain '" ++
    toString chainId ++ "'")

/-- The factory that was stored when the account was created, or the one it names. -/
def factoryOf (chainId : ℕ) (accountAddress : Address) : Prog String := do
  let factoryAddress ← tryCatch (liftM (o.accountFactory accountAddress.text.toLower)) fun _ => pure none
  match factoryAddress.filter (· ≠ "") with
  | some factoryAddress => pure factoryAddress
  | none =>
    tryCatch (factoryOnChain o chainId accountAddress) fun _ => throw (noFactoryError chainId accountAddress)

def getSmartWallet (chainId : ℕ) (backendWallet : EVMWallet) (accountAddress : Address) : Prog EVMWallet := do
  let factoryAddress ← factoryOf o chainId accountAddress
  liftM (o.connectWallet (.smart chainId factoryAddress backendWallet accountAddress))
  pure (.smart chainId factoryAddress backendWallet accountAddress)

/-- The wallet of a row, as `getWallet` makes it. -/
def backendWallet (chainId : ℕ) (walletAddress : Address) (walletDetails : WalletDetails) : Prog EVMWallet :=
  match walletDetails.type with
  | "aws-kms" => getAwsKmsWallet o walletDetails.awsKmsKeyId
  | "gcp-kms" => getGcpKmsWallet o walletDetails.gcpKmsKeyId walletDetails.gcpKmsKeyVersionId
  | "local" => getLocalWallet o chainId walletAddress
  | type => throw (Err.new ("Wallet with address " ++ walletAddress.text ++
      " was configured with unknown wallet type " ++ type))

def createWallet (chainId : ℕ) (walletAddress : Address) (accountAddress : Option Address) : Prog EVMWallet := do
  let walletDetails ← getWalletDetails o walletAddress.text
  match walletDetails with
  | none => throw (Err.new ("No configured wallet found with address " ++ walletAddress.text))
  | some walletDetails => do
    let wallet ← backendWallet o chainId walletAddress walletDetails
    match accountAddress with
    | none => pure wallet
    | some accountAddress => getSmartWallet o chainId wallet accountAddress

def getWallet (chainId : ℕ) (walletAddress : Address) (accountAddress : Option Address) : Prog EVMWallet :=
  readThrough (·.walletsCache (walletCacheKey chainId walletAddress accountAddress))
    (createWallet o chainId walletAddress accountAddress) fun wallet s =>
      { s with walletsCache :=
          Function.update s.walletsCache (walletCacheKey chainId walletAddress accountAddress) (some wallet) }

def getSdk (chainId : ℕ) (walletAddress accountAddress : Option Address) : Prog ThirdwebSDK :=
  sdkWith o chainId (sdkCacheKey chainId walletAddress accountAddress)
    (walletAddress.map fun walletAddress => getWallet o chainId walletAddress accountAddress)

/-- The account over a signer of a wallet, with a provider unless the wallet is a local one. -/
def signerAccount (chainId : ℕ) (wallet : EVMWallet) (provider : Bool) : Prog Account := do
  liftM (o.getSigner wallet)
  if provider then do
    let chain ← liftM (o.getChain chainId)
    liftM (o.fromEthers wallet (some chain.rpc))
    pure (.fromEthers wallet (some chain.rpc))
  else do
    liftM (o.fromEthers wallet none)
    pure (.fromEthers wallet none)

/-- The account of a wallet, or of a smart account with it. -/
def walletAccount (chainId : ℕ) (wallet : EVMWallet) (accountAddress : Option Address) (provider : Bool) :
    Prog Account :=
  match accountAddress with
  | some accountAddress => do
    let smartWallet ← getSmartWallet o chainId wallet accountAddress
    signerAccount o chainId smartWallet provider
  | none => signerAccount o chainId wallet provider

def createAccount (chainId : ℕ) («from» : Address) (accountAddress : Option Address) : Prog Account := do
  let walletDetails ← getWalletDetails o «from».text
  match walletDetails with
  | none =>
    throw (createCustomError ("No configured wallet found with address " ++ «from».text) 400 "BAD_REQUEST")
  | some walletDetails =>
    match walletDetails.type with
    | "aws-kms" => do
      let wallet ← getAwsKmsWallet o walletDetails.awsKmsKeyId
      walletAccount o chainId wallet accountAddress true
    | "gcp-kms" => do
      let wallet ← getGcpKmsWallet o walletDetails.gcpKmsKeyId walletDetails.gcpKmsKeyVersionId
      walletAccount o chainId wallet accountAddress true
    | "local" =>
      match accountAddress with
      | none => getLocalWalletAccount o «from»
      | some accountAddress => do
        let wallet ← getLocalWallet o chainId «from»
        walletAccount o chainId wallet (some accountAddress) false
    | type => throw (Err.new ("Wallet type not supported: " ++ type))

def getAccount (chainId : ℕ) («from» : Address) (accountAddress : Option Address) : Prog Account :=
  readThrough (·._accountsCache (getAccountCacheKey chainId «from» accountAddress))
    (createAccount o chainId «from» accountAddress) fun account s =>
      { s with _accountsCache :=
          Function.update s._accountsCache (getAccountCacheKey chainId «from» accountAddress) (some account) }

structure SmartWalletParams where
  chain : Chain
  accountAddress : Address
  «from» : Address
  accountFactoryAddress : Option Address := none
deriving DecidableEq

namespace SmartWalletParams
variable (p : SmartWalletParams)

def cacheKey : String := toString p.chain.id ++ "-" ++ p.accountAddress.text ++ "-" ++ p.from.text

/-- The factory that is given, or that the account names. -/
def factory : Except Err String :=
  match p.accountFactoryAddress with
  | some accountFactoryAddress => .ok accountFactoryAddress.text
  | none => o.readFactory p.chain p.accountAddress

end SmartWalletParams

def connectSmartWallet (p : SmartWalletParams) : Prog Account := do
  let factoryAddress ← liftM (p.factory o)
  let account ← getAccount o p.chain.id p.from none
  liftM (o.connectAccount (.smart p.chain factoryAddress account))
  pure (.smart p.chain factoryAddress account)

/-- `smartWalletsCache.set(cacheKey, smartAccount)`. -/
def Caches.setSmartWallet (cacheKey : String) (smartAccount : Account) (s : Caches) : Caches :=
  { s with smartWalletsCache := Function.update s.smartWalletsCache cacheKey (some smartAccount) }

def getSmartWalletV5 (p : SmartWalletParams) : Prog Account :=
  readThrough (·.smartWalletsCache p.cacheKey) (connectSmartWallet o p) (Caches.setSmartWallet p.cacheKey)

/-! ### Sequences of calls -/

inductive Call
  | getAccount (chainId : ℕ) («from» : Address) (accountAddress : Option Address)
  | getSmartWalletV5 (params : SmartWalletParams)
  | getWallet (chainId : ℕ) (walletAddress : Address) (accountAddress : Option Address)
  | getSdk (chainId : ℕ) (walletAddress accountAddress : Option Address)
deriving DecidableEq

def Call.smart? : Call → Option SmartWalletParams
  | .getSmartWalletV5 params => some params
  | _ => none

inductive Object
  | account (account : Account)
  | wallet (wallet : EVMWallet)
  | sdk (sdk : ThirdwebSDK)
deriving DecidableEq

def perform : Call → Prog Object
  | .getAccount chainId «from» accountAddress => do
    let account ← getAccount o chainId «from» accountAddress
    pure (.account account)
  | .getSmartWalletV5 params => do
    let account ← getSmartWalletV5 o params
    pure (.account account)
  | .getWallet chainId walletAddress accountAddress => do
    let wallet ← getWallet o chainId walletAddress accountAddress
    pure (.wallet wallet)
  | .getSdk chainId walletAddress accountAddress => do
    let sdk ← getSdk o chainId walletAddress accountAddress
    pure (.sdk sdk)

/-- What a call returns when nothing is cached. -/
def uncached (c : Call) : Except Err Object := ((perform o c).run {}).1

/-- What the calls of a process return, one after the other. -/
def answers (s : Caches) : List Call → List (Except Err Object)
  | [] => []
  | c :: cs => ((perform o c).run s).1 :: answers ((perform o c).run s).2 cs

end Engine.Signers
