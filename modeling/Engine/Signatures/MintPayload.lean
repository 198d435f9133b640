import Engine.Migration.Rows
import Engine.Numbers.Integral

/-! The payload of an ERC-721 signature, which `erc721/read/signaturePrepare.ts` makes and
`erc721/write/signatureMint.ts` reads. -/
namespace Engine.Signatures
open Numbers Number Codec

/-- The URI of the metadata, or what is to be uploaded. -/
inductive Metadata (α : Type)
  | text (uri : String)
  | object (file : α)

/-- `signature721InputSchemaV5`. -/
structure MintInput (α : Type) where
  metadata : Metadata α
  «to» : String
  price : Option String := none
  priceInWei : Option String := none
  currency : Option String := none
  primarySaleRecipient : Option String := none
  royaltyRecipient : Option String := none
  royaltyBps : Option Integral := none
  validityStartTimestamp : Option Integral := none
  validityEndTimestamp : Option Integral := none
  uid : Option String := none

/-- `signature721OutputSchemaV5`. -/
structure MintPayload where
  uri : String
  «to» : String
  price : String
  currency : String
  primarySaleRecipient : String
  royaltyRecipient : String
  royaltyBps : String
  validityStartTimestamp : Number
  validityEndTimestamp : Number
  uid : String

structure Domain where
  name : String
  version : String
  chainId : ℕ
  verifyingContract : String

/-- The types are fields with their types, under a name. -/
structure TypedDataPayload where
  domain : Domain
  types : List (String × List (String × String))
  message : MintPayload
  primaryType : String

structure Prepared where
  mintPayload : MintPayload
  typedDataPayload : TypedDataPayload

inductive Thrown
  | error (e : Err)
  | syntaxError (message : String)
  /-- The number that is not an integer. -/
  | rangeError (x : Number)

/-- The contract, the storage, the random bytes and the clock in milliseconds, as a request finds them. -/
structure Outside (α : Type) where
  chainId : ℕ
  address : String
  getDefaultRoyaltyInfo : Except Err (String × Fin (2 ^ 16))
  getDefaultPrimarySaleRecipient : Except Err String
  upload : α → Except Err String
  randomBytes : Vector UInt8 32
  now : ℕ
  mintRequest721 : List (String × String)

/-! ### Conversions -/

/-- `BigInt(text)`. -/
def bigInt (text : String) : Except Thrown ℤ :=
  match Migration.readBigInt text with
  | some n => .ok n
  | none => .error (.syntaxError ("Cannot convert " ++ text ++ " to a BigInt"))

def maybeBigInt (val : Option String) : Except Thrown (Option ℤ) :=
  match truthy val with
  | some text => (bigInt text).map some
  | none => .ok none

/-- `BigInt(x)` of a number. -/
def bigIntOfNumber (x : Number) : Except Thrown ℤ :=
  match x.integer with
  | some n => .ok n
  | none => .error (.rangeError x)

/-- A number that is not zero. -/
def nonzero (n : Option Integral) : Option Integral := n.filter fun n => n.val ≠ 0

/-- `new Date(t)`, with its milliseconds. `none` is an invalid date. -/
def newDate (t : Number) : Option ℤ :=
  match t.value with
  | some q => if |q| ≤ 8640000000000000 then some (trunc q) else none
  | none => none

/-- `BigInt(Math.floor(date.getTime() / 1000))`. -/
def dateToSeconds (date : Option ℤ) : Except Thrown ℤ :=
  match date with
  | some t => bigIntOfNumber (toInteger (fun q => ⌊q⌋) (div (nearest t) (ofNat 1000)))
  | none => .error (.rangeError nan)

/-- `1000 * 60 * 60 * 24 * 365 * 10` milliseconds from now. -/
def tenYearsFromNow (now : ℕ) : Option ℤ := newDate (add (ofNat now) (ofNat 315360000000))

def hexOfByte (b : UInt8) : List Char := [(b.toNat / 16).digitChar, (b.toNat % 16).digitChar]

/-- `randomBytes(32).toString("hex")`. -/
def randomBytesHex (bytes : Vector UInt8 32) : String := String.ofList (bytes.toList.flatMap hexOfByte)

def zeroAddress : String := "0x0000000000000000000000000000000000000000"

/-! ### The routes -/

/-- `GenerateMintSignaturePayloadOptions`. -/
structure MintRequestOptions (α : Type) where
  metadata : Metadata α
  «to» : String
  price : Option String
  priceInWei : Option ℤ
  currency : Option String
  primarySaleRecipient : String
  royaltyRecipient : String
  royaltyBps : Integral
  validityStartTimestamp : Option (Option ℤ)
  validityEndTimestamp : Option (Option ℤ)
  uid : Option String

/-- A price is a big integer, or a text as it is given. -/
inductive Price
  | wei (n : ℤ)
  | units (text : String)

def Price.toString : Price → String
  | wei n => String.ofList (integerText n)
  | units text => text

structure GeneratedPayload where
  uri : String
  currency : String
  uid : String
  price : Price
  «to» : String
  royaltyRecipient : String
  royaltyBps : Integral
  primarySaleRecipient : String
  validityStartTimestamp : ℤ
  validityEndTimestamp : ℤ

def generatedPrice (priceInWei : Option ℤ) (price : Option String) : Price :=
  match priceInWei.filter fun n => n ≠ 0, truthy price with
  | some n, _ => .wei n
  | none, some text => .units text
  | none, none => .wei 0

def uriOf {α : Type} (outside : Outside α) : Metadata α → Except Thrown String
  | .text uri => .ok uri
  | .object file => (outside.upload file).mapError .error

def generateMintSignaturePayload {α : Type} (outside : Outside α) (mintRequest : MintRequestOptions α) :
    Except Thrown GeneratedPayload := do
  let uri ← uriOf outside mintRequest.metadata
  let startTime := mintRequest.validityStartTimestamp.getD (newDate (ofNat 0))
  let endTime := mintRequest.validityEndTimestamp.getD (tenYearsFromNow outside.now)
  let validityStartTimestamp ← dateToSeconds startTime
  let validityEndTimestamp ← dateToSeconds endTime
  return {
    uri := uri
    currency := (truthy mintRequest.currency).getD zeroAddress
    uid := (truthy mintRequest.uid).getD (randomBytesHex outside.randomBytes)
    price := generatedPrice mintRequest.priceInWei mintRequest.price
    «to» := mintRequest.to
    royaltyRecipient := mintRequest.royaltyRecipient
    royaltyBps := mintRequest.royaltyBps
    primarySaleRecipient := mintRequest.primarySaleRecipient
    validityStartTimestamp := validityStartTimestamp
    validityEndTimestamp := validityEndTimestamp }

/-- What the contract has where the request leaves the royalties out. A zero is asked about, and kept. -/
def royaltyInfo {α : Type} (outside : Outside α) (body : MintInput α) : Except Thrown (String × Integral) :=
  match truthy body.royaltyRecipient, nonzero body.royaltyBps with
  | some royaltyRecipient, some royaltyBps => .ok (royaltyRecipient, royaltyBps)
  | _, _ =>
    match outside.getDefaultRoyaltyInfo with
    | .ok (defaultRoyaltyRecipient, defaultRoyaltyBps) =>
      .ok (body.royaltyRecipient.getD defaultRoyaltyRecipient, body.royaltyBps.getD (Integral.ofBits defaultRoyaltyBps))
    | .error _ => .error (.error (createCustomError "Could not get default royalty info." 400 "DEFAULT_ROYALTY_INFO"))

def primarySaleRecipientOf {α : Type} (outside : Outside α) (body : MintInput α) : Except Thrown String :=
  match truthy body.primarySaleRecipient with
  | some primarySaleRecipient => .ok primarySaleRecipient
  | none =>
    match outside.getDefaultPrimarySaleRecipient with
    | .ok primarySaleRecipient => .ok primarySaleRecipient
    | .error _ => .error (.error (createCustomError "Could not get default primary sale recipient." 400
        "DEFAULT_PRIMARY_SALE_RECIPIENT"))

/-- The date of a timestamp in seconds. -/
def dateOf (timestamp : Option Integral) : Option (Option ℤ) :=
  (nonzero timestamp).map fun n => newDate (mul n.number (ofNat 1000))

def sanitized (mintPayload : GeneratedPayload) : MintPayload where
  uri := mintPayload.uri
  «to» := mintPayload.to
  price := mintPayload.price.toString
  currency := mintPayload.currency
  primarySaleRecipient := mintPayload.primarySaleRecipient
  royaltyRecipient := mintPayload.royaltyRecipient
  royaltyBps := String.ofList mintPayload.royaltyBps.text
  validityStartTimestamp := nearest mintPayload.validityStartTimestamp
  validityEndTimestamp := nearest mintPayload.validityEndTimestamp
  uid := mintPayload.uid

/-- The handler of `POST /contract/:chain/:contractAddress/erc721/signature/prepare`. -/
def erc721SignaturePrepare {α : Type} (outside : Outside α) (body : MintInput α) : Except Thrown Prepared := do
  let royalty ← royaltyInfo outside body
  let primarySaleRecipient ← primarySaleRecipientOf outside body
  let priceInWei ← maybeBigInt body.priceInWei
  let mintPayload ← generateMintSignaturePayload outside {
    metadata := body.metadata
    «to» := body.to
    price := body.price
    priceInWei := priceInWei
    currency := body.currency
    primarySaleRecipient := primarySaleRecipient
    royaltyRecipient := royalty.1
    royaltyBps := royalty.2
    validityStartTimestamp := dateOf body.validityStartTimestamp
    validityEndTimestamp := dateOf body.validityEndTimestamp
    uid := body.uid }
  let sanitizedMintPayload := sanitized mintPayload
  return {
    mintPayload := sanitizedMintPayload
    typedDataPayload := {
      domain :=
        { name := "TokenERC721", version := "1", chainId := outside.chainId, verifyingContract := outside.address }
      types := [
        ("EIP712Domain", [("name", "string"), ("version", "string"), ("chainId", "uint256"),
          ("verifyingContract", "address")]),
        ("MintRequest", outside.mintRequest721)]
      message := sanitizedMintPayload
      primaryType := "MintRequest" } }

/-- The payload that `mintWithSignature` is given. -/
structure MintRequest where
  uri : String
  «to» : String
  price : ℤ
  currency : String
  primarySaleRecipient : String
  royaltyRecipient : String
  royaltyBps : ℤ
  validityStartTimestamp : ℤ
  validityEndTimestamp : ℤ
  uid : String

/-- What `POST /contract/:chain/:contractAddress/erc721/signature/mint` makes of a payload. -/
def erc721SignatureMint (payloadV5 : MintPayload) : Except Thrown MintRequest := do
  let price ← bigInt payloadV5.price
  let royaltyBps ← bigInt payloadV5.royaltyBps
  let validityStartTimestamp ← bigIntOfNumber payloadV5.validityStartTimestamp
  let validityEndTimestamp ← bigIntOfNumber payloadV5.validityEndTimestamp
  return {
    uri := payloadV5.uri
    «to» := payloadV5.to
    price := price
    currency := payloadV5.currency
    primarySaleRecipient := payloadV5.primarySaleRecipient
    royaltyRecipient := payloadV5.royaltyRecipient
    royaltyBps := royaltyBps
    validityStartTimestamp := validityStartTimestamp
    validityEndTimestamp := validityEndTimestamp
    uid := payloadV5.uid }

end Engine.Signatures
