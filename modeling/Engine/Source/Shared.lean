import Engine.Text.Strings

/-! Functions of the source that run in more than one of the models, over the calls that each of them makes there. -/
namespace Engine.Shared

section
variable {M : Type → Type} [Monad M] {R : Type}

/-- `getToken.ts`. -/
def getToken (parseJWT : M (Option String)) (findUnique : String → M (Option R)) : M (Option R) := do
  let jti ← parseJWT
  match truthy jti with
  | some id => findUnique id
  | none => return none

/-- `accessToken.ts`. A cached `null` is no hit. -/
def getAccessToken (cached : M (Option (Option R))) (getToken : M (Option R)) (set : Option R → M Unit) :
    M (Option R) := do
  match ← cached with
  | some (some accessToken) => return some accessToken
  | _ => do
    let accessToken ← getToken
    set accessToken
    return accessToken

variable {Err : Type} [MonadExcept Err M]

/-- One round of a loop of `migratePostgresTransactionsWorker.ts`, with the id to cancel. What throws is
logged, and its row is left for a later run. -/
def migrateRow (id : String) (transaction : M R) (set enqueue : R → M Unit) : M (List String) :=
  tryCatch (do
    let t ← transaction
    set t
    enqueue t
    return [id]) fun _ => return []

/-- What `getLocalWallet` calls, for its wallet. -/
structure LocalWalletCalls (M : Type → Type) (Metadata Key Details : Type) where
  getChainMetadata : M Metadata
  load : (password : String) → M Key
  getWalletDetails : M (Option Details)
  save : Key → Details → M Unit

/-- `getLocalWallet.ts`. A wallet that only the second password loads is saved with the first. -/
def getLocalWallet {Metadata Key Details Wallet : Type} (calls : LocalWalletCalls M Metadata Key Details)
    (ENCRYPTION_PASSWORD THIRDWEB_API_SECRET_KEY : String) (notFound : Err) (wallet : Metadata → Key → Wallet) :
    M Wallet := do
  let chain ← calls.getChainMetadata
  let key ← tryCatch (calls.load ENCRYPTION_PASSWORD) fun _ => do
    let key ← calls.load THIRDWEB_API_SECRET_KEY
    let walletDetails ← calls.getWalletDetails
    match walletDetails with
    | none => throw notFound
    | some walletDetails => do
      calls.save key walletDetails
      return key
  return wallet chain key

end
end Engine.Shared
