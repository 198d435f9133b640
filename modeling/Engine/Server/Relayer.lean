import Engine.Chains.ChainId
import Engine.Codec.Json
import Engine.Signers.Caches
import Engine.Text.Strings

/-! `server/routes/relayer/`: relayers are rows whose lists are JSON texts, and a meta-transaction is
relayed by one of them if its lists allow it. -/
namespace Engine.Relayer
open Signers (AddressSchema)
open Codec.Json Function
open Numbers (Number Integral)

/-- `toLowerCase` of the language. -/
structure LowerCase where
  toLowerCase : String → String
  idem : ∀ s, toLowerCase (toLowerCase s) = toLowerCase s
  ofAddress : ∀ s, AddressSchema s = true → toLowerCase s = s.toLower

def LowerCase.ascii : LowerCase := ⟨normalizeAddress, normalizeAddress_idem, fun _ _ => rfl⟩

/-- A row of the table `relayers`. -/
structure Row where
  name : Option String
  chainId : String
  backendWalletAddress : String
  allowedContracts : Option String
  allowedForwarders : Option String
deriving DecidableEq

abbrev Table := String → Option Row

/-! ### Managing relayers -/

structure CreateBody where
  name : Option String
  chain : String
  backendWalletAddress : Signers.Address
  allowedContracts : Option (List Signers.Address)
  allowedForwarders : Option (List Signers.Address)

/-- The lists of an update are of any strings. -/
structure UpdateBody where
  id : String
  name : Option String
  chain : Option String
  backendWalletAddress : Option Signers.Address
  allowedContracts : Option (List String)
  allowedForwarders : Option (List String)

/-- `list ? JSON.stringify(list.map((address) => address.toLowerCase())) : null` -/
def column (lower : LowerCase) (list : Option (List String)) : Option String :=
  list.map fun l => stringify (l.map lower.toLowerCase)

def texts (list : Option (List Signers.Address)) : Option (List String) := list.map fun l => l.map Signers.Address.text

inductive Refusal
  | badRequest (message : String)
  /-- Something that was called threw. -/
  | thrown
deriving DecidableEq

def orThrow {α : Type} (o : Option α) : Except Refusal α := o.elim (.error .thrown) .ok

def refuseIf (b : Bool) (message : String) : Except Refusal Unit := if b then .error (.badRequest message) else .ok ()

/-- The id is generated, and unique among the rows. `chains` is what `getChainIdFromChain` answers, where no chain has
an id with a fraction. -/
def createRelayer (lower : LowerCase) (chains : String → Option Number) (id : String) (body : CreateBody)
    (relayers : Table) :
    Except Refusal Table := do
  let chainId ← orThrow (chains body.chain)
  if (relayers id).isSome then .error .thrown
  else .ok (update relayers id (some
    { name := body.name, chainId := chainId.integerText, backendWalletAddress := body.backendWalletAddress.text
      allowedContracts := column lower (texts body.allowedContracts)
      allowedForwarders := column lower (texts body.allowedForwarders) }))

/-- `chain ? (await getChainIdFromChain(chain)).toString() : undefined` -/
def requestedChain (chains : String → Option Number) (chain : Option String) : Except Refusal (Option Number) :=
  (truthy chain).elim (.ok none) fun chain => (orThrow (chains chain)).map some

/-- A field that is absent leaves its column, except that a list that is absent empties it. -/
def updateRelayer (lower : LowerCase) (chains : String → Option Number) (body : UpdateBody) (relayers : Table) :
    Except Refusal Table := do
  let chainId ← requestedChain chains body.chain
  let row ← orThrow (relayers body.id)
  .ok (update relayers body.id (some
    { name := body.name <|> row.name
      chainId := (chainId.map Number.integerText).getD row.chainId
      backendWalletAddress := (body.backendWalletAddress.map Signers.Address.text).getD row.backendWalletAddress
      allowedContracts := column lower body.allowedContracts
      allowedForwarders := column lower body.allowedForwarders }))

def revokeRelayer (id : String) (relayers : Table) : Except Refusal Table := do
  let _ ← orThrow (relayers id)
  .ok (update relayers id none)

/-! ### Relaying -/

/-- What `getRelayerById` returns. -/
structure RelayerRow where
  chainId : Number
  backendWalletAddress : String
  allowedContracts : Option (List String)
  allowedForwarders : Option String

/-- `allowedContracts ? JSON.parse(allowedContracts).map((contractAddress) => contractAddress.toLowerCase()) : null` -/
def parseContracts (lower : LowerCase) (column : Option String) : Except Refusal (Option (List String)) :=
  (truthy column).elim (.ok none) fun text => (orThrow (parseStrings text)).map fun l => some (l.map lower.toLowerCase)

def getRelayerById (lower : LowerCase) (relayers : Table) (id : String) : Except Refusal (Option RelayerRow) :=
  match relayers id with
  | none => .ok none
  | some relayer => do
    let allowedContracts ← parseContracts lower relayer.allowedContracts
    .ok (some
      { chainId := Chains.parseNumber relayer.chainId
        backendWalletAddress := relayer.backendWalletAddress
        allowedContracts, allowedForwarders := relayer.allowedForwarders })

structure ForwardRequest where
  «from» : String
  «to» : String
  value : String
  gas : String
  nonce : String
  data : String
  chainid : Option String
deriving DecidableEq

structure PermitRequest where
  «to» : String
  owner : String
  spender : String
  value : String
  nonce : String
  deadline : String
deriving DecidableEq

structure MetaTransactionRequest where
  «from» : String
  «to» : String
  data : String
deriving DecidableEq

inductive Body
  | forward (request : ForwardRequest) (signature : String) (forwarderAddress : Signers.Address)
  | permit (request : PermitRequest) (signature : String)
  | executeMetaTransaction (request : MetaTransactionRequest) (signature : String)

/-- The contract that a body names. -/
def Body.to : Body → String
  | .forward request _ _ => request.to
  | .permit request _ => request.to
  | .executeMetaTransaction request _ => request.to

inductive Abi
  | nativeMetaTransaction
  | erc20Permit
  | erc2771Context
  | forwarder
  | forwarderEIP712ChainlessDomain
deriving DecidableEq

structure Signature where
  r : String
  s : String
  v : ℕ
deriving DecidableEq

/-- A method, and its arguments. -/
inductive Call
  | executeMetaTransaction («from» data r s : String) (v : ℕ)
  | permit (owner spender value deadline : String) (v : ℕ) (r s : String)
  | execute (request : ForwardRequest) (signature : String)
deriving DecidableEq

/-- What `queueTx` is given: a call of a contract, from the wallet of an SDK. -/
structure Transaction where
  walletAddress : String
  target : String
  abi : Abi
  call : Call
  chainId : Number
deriving DecidableEq

/-- An SDK of a chain and a wallet. What throws answers `none`. -/
structure Sdk where
  getContractFromAbi : String → Abi → Option Unit
  isTrustedForwarder : String → String → Option Bool
  verify : String → Abi → ForwardRequest → String → Option Bool

/-- What the handler calls. -/
structure Outside where
  getSdk : Number → String → Option Sdk
  splitSignature : String → Option Signature
  joinSignature : Signature → String
  queueTx : Transaction → Option String

/-- `relayer.allowedContracts && !relayer.allowedContracts.includes(to.toLowerCase())`, on an array. -/
def unauthorizedContract (lower : LowerCase) (relayer : RelayerRow) («to» : String) : Bool :=
  relayer.allowedContracts.any fun l => !l.contains (lower.toLowerCase «to»)

/-- The same on a text. -/
def unauthorizedForwarder (lower : LowerCase) (relayer : RelayerRow) (forwarderAddress : String) : Bool :=
  (truthy relayer.allowedForwarders).any fun text => !includesText text (lower.toLowerCase forwarderAddress)

def refuseContract (lower : LowerCase) (relayer : RelayerRow) («to» : String) : Except Refusal Unit :=
  refuseIf (unauthorizedContract lower relayer «to»)
    ("Requesting to relay transaction to unauthorized contract " ++ «to» ++ ".")

/-- `!!request.chainid` -/
def forwarderAbi (request : ForwardRequest) : Abi :=
  if (truthy request.chainid).isSome then .forwarderEIP712ChainlessDomain else .forwarder

/-- The id of the queued transaction, and the transaction. -/
def relayTransaction (lower : LowerCase) (outside : Outside) (relayers : Table) (relayerId : String) (body : Body) :
    Except Refusal (String × Transaction) := do
  let found ← getRelayerById lower relayers relayerId
  match found with
  | none => .error (.badRequest ("No relayer found with id '" ++ relayerId ++ "'"))
  | some relayer =>
    let sdk ← orThrow (outside.getSdk relayer.chainId relayer.backendWalletAddress)
    match body with
    | .executeMetaTransaction request signature =>
      let sig ← orThrow (outside.splitSignature signature)
      refuseContract lower relayer request.to
      let target := lower.toLowerCase request.to
      orThrow (sdk.getContractFromAbi target .nativeMetaTransaction)
      let tx : Transaction :=
        { walletAddress := relayer.backendWalletAddress, target, abi := .nativeMetaTransaction
          call := .executeMetaTransaction request.from request.data sig.r sig.s sig.v, chainId := relayer.chainId }
      let queueId ← orThrow (outside.queueTx tx)
      .ok (queueId, tx)
    | .permit request signature =>
      let sig ← orThrow (outside.splitSignature signature)
      refuseContract lower relayer request.to
      let target := lower.toLowerCase request.to
      orThrow (sdk.getContractFromAbi target .erc20Permit)
      let tx : Transaction :=
        { walletAddress := relayer.backendWalletAddress, target, abi := .erc20Permit
          call := .permit request.owner request.spender request.value request.deadline sig.v sig.r sig.s
          chainId := relayer.chainId }
      let queueId ← orThrow (outside.queueTx tx)
      .ok (queueId, tx)
    | .forward request signature forwarderAddress =>
      refuseIf (unauthorizedForwarder lower relayer forwarderAddress.text)
        ("Requesting to relay transaction with unauthorized forwarder " ++ forwarderAddress.text ++ ".")
      refuseContract lower relayer request.to
      refuseIf (request.value ≠ "0") ("Requesting to relay transaction with non-zero value " ++ request.value ++ ".")
      let target := lower.toLowerCase request.to
      orThrow (sdk.getContractFromAbi target .erc2771Context)
      let isTrustedForwarder ← orThrow (sdk.isTrustedForwarder target forwarderAddress.text)
      refuseIf (!isTrustedForwarder)
        ("Requesting to relay transaction with untrusted forwarder " ++ forwarderAddress.text ++ ".")
      orThrow (sdk.getContractFromAbi forwarderAddress.text (forwarderAbi request))
      let sig ← orThrow (outside.splitSignature signature)
      let fixedSignature := outside.joinSignature sig
      let valid ← orThrow (sdk.verify forwarderAddress.text (forwarderAbi request) request fixedSignature)
      refuseIf (!valid) "Verification failed with provided message and signature"
      let tx : Transaction :=
        { walletAddress := relayer.backendWalletAddress, target := forwarderAddress.text, abi := forwarderAbi request
          call := .execute request fixedSignature, chainId := relayer.chainId }
      let queueId ← orThrow (outside.queueTx tx)
      .ok (queueId, tx)

/-! ### Requests in any order -/

inductive Request
  | create (chains : String → Option Number) (id : String) (body : CreateBody)
  | update (chains : String → Option Number) (body : UpdateBody)
  | revoke (id : String)

def Request.relayerId : Request → String
  | .create _ id _ => id
  | .update _ body => body.id
  | .revoke id => id

def perform (lower : LowerCase) (relayers : Table) : Request → Except Refusal Table
  | .create chains id body => createRelayer lower chains id body relayers
  | .update chains body => updateRelayer lower chains body relayers
  | .revoke id => revokeRelayer id relayers

/-- The table after a request. A failed one leaves it. -/
def handle (lower : LowerCase) (relayers : Table) (request : Request) : Table :=
  (perform lower relayers request).toOption.getD relayers

def handled (lower : LowerCase) (requests : List Request) : Table :=
  requests.foldl (handle lower) fun _ => none

/-- What a relayer is for: a wallet of a chain, and the addresses that it is restricted to. -/
structure Policy where
  name : Option String
  chainId : Number
  backendWalletAddress : String
  contracts : Option (List String)
  forwarders : Option (List String)

def Policy.created (chainId : Number) (body : CreateBody) : Policy :=
  { name := body.name, chainId, backendWalletAddress := body.backendWalletAddress.text
    contracts := texts body.allowedContracts, forwarders := texts body.allowedForwarders }

/-- An update always replaces the restrictions. -/
def Policy.updated (policy : Policy) (chainId : Option Number) (body : UpdateBody) : Policy :=
  { name := body.name <|> policy.name
    chainId := chainId.getD policy.chainId
    backendWalletAddress := (body.backendWalletAddress.map Signers.Address.text).getD policy.backendWalletAddress
    contracts := body.allowedContracts, forwarders := body.allowedForwarders }

/-- The policy of a relayer after a request that names it. -/
def enact (policy : Option Policy) : Request → Option Policy
  | .create chains _ body => policy <|> (chains body.chain).map fun chainId => .created chainId body
  | .update chains body => policy.map fun p =>
    (requestedChain chains body.chain).toOption.elim p fun chainId => p.updated chainId body
  | .revoke _ => none

def enactFor (relayerId : String) (policy : Option Policy) (request : Request) : Option Policy :=
  if request.relayerId = relayerId then enact policy request else policy

def policyAfter (requests : List Request) (relayerId : String) : Option Policy :=
  requests.foldl (enactFor relayerId) none

/-- The row of a policy. -/
def Policy.row (lower : LowerCase) (policy : Policy) : Row :=
  { name := policy.name, chainId := policy.chainId.integerText, backendWalletAddress := policy.backendWalletAddress
    allowedContracts := column lower policy.contracts, allowedForwarders := column lower policy.forwarders }

/-- The text of an address, found in an entry as JSON writes it. -/
def Mentions (lower : LowerCase) (entry address : String) : Prop :=
  (lower.toLowerCase address).toList <:+: (lower.toLowerCase entry).toList.flatMap escaped

/-- The restrictions of a policy, on what it is asked to relay. -/
structure Policy.Permits (lower : LowerCase) (policy : Policy) (body : Body) : Prop where
  contract : ∀ l, policy.contracts = some l → ∃ c ∈ l, lower.toLowerCase c = lower.toLowerCase body.to
  forwarder : ∀ request signature forwarderAddress, body = .forward request signature forwarderAddress →
    (∀ l, policy.forwarders = some l → ∃ f ∈ l, Mentions lower f forwarderAddress.text) ∧ request.value = "0"

def affirmed (answer : Option Bool) : Option Unit := guard (answer = some true)

/-- The chain of a policy, as it is read back from its text. -/
def Policy.chain (policy : Policy) : Number := Chains.parseNumber policy.chainId.integerText

/-- It is the chain that was given, if its id is below `10 ^ 21`. -/
theorem Policy.chain_eq {policy : Policy} {n : Integral} (h : policy.chainId = n.number) (hn : n.val.natAbs < 10 ^ 21) :
    policy.chain = policy.chainId := by
  unfold Policy.chain
  rw [h]
  exact Chains.parseNumber_integerText hn

/-- The transaction of a body, if the rest of the world goes along with it. -/
def Policy.transaction (lower : LowerCase) (policy : Policy) (outside : Outside) (body : Body) :
    Option Transaction := do
  let sdk ← outside.getSdk policy.chain policy.backendWalletAddress
  let target := lower.toLowerCase body.to
  match body with
  | .executeMetaTransaction request signature =>
    let sig ← outside.splitSignature signature
    sdk.getContractFromAbi target .nativeMetaTransaction
    some
      { walletAddress := policy.backendWalletAddress, target, abi := .nativeMetaTransaction
        call := .executeMetaTransaction request.from request.data sig.r sig.s sig.v, chainId := policy.chain }
  | .permit request signature =>
    let sig ← outside.splitSignature signature
    sdk.getContractFromAbi target .erc20Permit
    some
      { walletAddress := policy.backendWalletAddress, target, abi := .erc20Permit
        call := .permit request.owner request.spender request.value request.deadline sig.v sig.r sig.s
        chainId := policy.chain }
  | .forward request signature forwarderAddress =>
    let abi := forwarderAbi request
    sdk.getContractFromAbi target .erc2771Context
    affirmed (sdk.isTrustedForwarder target forwarderAddress.text)
    sdk.getContractFromAbi forwarderAddress.text abi
    let fixedSignature ← (outside.splitSignature signature).map outside.joinSignature
    affirmed (sdk.verify forwarderAddress.text abi request fixedSignature)
    some
      { walletAddress := policy.backendWalletAddress, target := forwarderAddress.text, abi
        call := .execute request fixedSignature, chainId := policy.chain }

section
variable {α β : Type} {lower : LowerCase} {relayers : Table} {policy : Policy} {outside : Outside}

theorem orThrow_eq_ok {o : Option α} {a : α} : orThrow o = .ok a ↔ o = some a := by
  cases o <;> simp [orThrow]

theorem refuseIf_eq_ok {b : Bool} {message : String} {u : Unit} : refuseIf b message = .ok u ↔ b = false := by
  cases b <;> simp [refuseIf]

theorem bind_eq_ok {x : Except Refusal α} {f : α → Except Refusal β} {b : β} :
    (x >>= f) = .ok b ↔ ∃ a, x = .ok a ∧ f a = .ok b := by
  cases x <;> simp [bind, Except.bind]

/-! ### The rows are those of the policies -/

variable {known : Option Policy} {relayerId : String}

theorem handle_of_ok {request : Request} {after : Table} (h : perform lower relayers request = .ok after) :
    handle lower relayers request = after := by
  simp [handle, h, Except.toOption]

theorem handle_of_error {request : Request} {refusal : Refusal} (h : perform lower relayers request = .error refusal) :
    handle lower relayers request = relayers := by
  simp [handle, h, Except.toOption]

/-- A request writes one row at most. -/
theorem perform_eq_ok {request : Request} {after : Table} (h : perform lower relayers request = .ok after) :
    ∃ row, after = update relayers request.relayerId row := by
  cases request with
  | create chains id body =>
    simp only [perform, createRelayer, bind_eq_ok] at h
    obtain ⟨chainId, -, h⟩ := h
    split_ifs at h
    exact ⟨_, (Except.ok.inj h).symm⟩
  | update chains body =>
    simp only [perform, updateRelayer, bind_eq_ok] at h
    obtain ⟨chainId, -, row, -, h⟩ := h
    exact ⟨_, (Except.ok.inj h).symm⟩
  | revoke id =>
    simp only [perform, revokeRelayer, bind_eq_ok] at h
    obtain ⟨row, -, h⟩ := h
    exact ⟨_, (Except.ok.inj h).symm⟩

theorem handle_of_ne {request : Request} (hne : request.relayerId ≠ relayerId) :
    handle lower relayers request relayerId = relayers relayerId := by
  cases hperform : perform lower relayers request with
  | error refusal => rw [handle_of_error hperform]
  | ok after =>
    have ⟨row, hrow⟩ := perform_eq_ok hperform
    rw [handle_of_ok hperform, hrow, update_of_ne hne.symm]

theorem handle_row {request : Request} (hid : request.relayerId = relayerId)
    (h : relayers relayerId = known.map (Policy.row lower)) :
    handle lower relayers request relayerId = (enact known request).map (Policy.row lower) := by
  subst hid
  cases request with
  | create chains id body =>
    have hrow : relayers id = known.map (Policy.row lower) := h
    cases hchain : chains body.chain <;> cases known <;>
      simp [handle, perform, createRelayer, orThrow, hchain, hrow, enact, Request.relayerId, bind, Except.bind,
        Except.toOption, Policy.created, Policy.row]
  | update chains body =>
    have hrow : relayers body.id = known.map (Policy.row lower) := h
    cases hchain : requestedChain chains body.chain with
    | error refusal =>
      simp [handle, perform, updateRelayer, hchain, hrow, enact, Request.relayerId, bind, Except.bind, Except.toOption]
    | ok chainId =>
      cases known <;> cases chainId <;>
        simp [handle, perform, updateRelayer, orThrow, hchain, hrow, enact, Request.relayerId, bind, Except.bind,
          Except.toOption, Policy.updated, Policy.row]
  | revoke id =>
    have hrow : relayers id = known.map (Policy.row lower) := h
    cases known <;>
      simp [handle, perform, revokeRelayer, orThrow, hrow, enact, Request.relayerId, bind, Except.bind, Except.toOption]

theorem handle_enactFor (request : Request) (h : relayers relayerId = known.map (Policy.row lower)) :
    handle lower relayers request relayerId = (enactFor relayerId known request).map (Policy.row lower) := by
  unfold enactFor
  split_ifs with hid
  · exact handle_row hid h
  · rw [handle_of_ne hid, h]

theorem handled_row (lower : LowerCase) (requests : List Request) (relayerId : String) :
    handled lower requests relayerId = (policyAfter requests relayerId).map (Policy.row lower) := by
  unfold handled policyAfter
  have hrun : ∀ (relayers : Table) (known : Option Policy), relayers relayerId = known.map (Policy.row lower) →
      requests.foldl (handle lower) relayers relayerId
        = (requests.foldl (enactFor relayerId) known).map (Policy.row lower) := by
    induction requests with
    | nil => exact fun _ _ h => h
    | cons request requests ih => exact fun relayers known h => ih _ _ (handle_enactFor request h)
  exact hrun _ none rfl

/-! ### What the handler reads -/

/-- The row of a policy, as the handler sees it. -/
def Policy.read (lower : LowerCase) (policy : Policy) : RelayerRow :=
  { chainId := policy.chain, backendWalletAddress := policy.backendWalletAddress
    allowedContracts := policy.contracts.map fun l => l.map lower.toLowerCase
    allowedForwarders := column lower policy.forwarders }

theorem stringify_ne_empty (l : List String) : stringify l ≠ "" := by
  simp [stringify, ← String.toList_inj]

theorem truthy_column (list : Option (List String)) : truthy (column lower list) = column lower list := by
  cases list with
  | none => rfl
  | some l => simp [column, truthy, Option.filter, stringify_ne_empty]

private theorem parseContracts_column (list : Option (List String)) :
    parseContracts lower (column lower list) = .ok (list.map fun l => l.map lower.toLowerCase) := by
  have hidem : lower.toLowerCase ∘ lower.toLowerCase = lower.toLowerCase := funext lower.idem
  rw [parseContracts, truthy_column]
  cases list with
  | none => rfl
  | some l => simp [column, parseStrings_stringify, orThrow, Except.map, hidem]

theorem getRelayerById_row (h : relayers relayerId = known.map (Policy.row lower)) :
    getRelayerById lower relayers relayerId = .ok (known.map (Policy.read lower)) := by
  cases known with
  | none => simp [getRelayerById, h]
  | some policy =>
    simp only [getRelayerById, h, Option.map_some, Policy.row, Policy.read, parseContracts_column]
    rfl

theorem authorizedContract_iff {«to» : String} :
    unauthorizedContract lower (policy.read lower) «to» = false ↔
      ∀ l, policy.contracts = some l → ∃ c ∈ l, lower.toLowerCase c = lower.toLowerCase «to» := by
  cases hlist : policy.contracts with
  | none => simp [unauthorizedContract, Policy.read, hlist]
  | some l => simp [unauthorizedContract, Policy.read, hlist]

theorem mem_address {text : String} (hschema : AddressSchema text = true) {c : Char} (h : c ∈ text.toList) :
    c = 'x' ∨ Signers.isHexDigit c = true := by
  simp only [AddressSchema, Bool.and_eq_true, decide_eq_true_eq, List.all_eq_true] at hschema
  obtain ⟨⟨hstart, -⟩, hdigits⟩ := hschema
  rw [← List.take_append_drop 2 text.toList, List.mem_append, hstart] at h
  rcases h with hhead | htail
  · rcases List.mem_pair.mp hhead with rfl | rfl
    · exact Or.inr rfl
    · exact Or.inl rfl
  · exact Or.inr (hdigits c htail)

/-- An address has no character that stands between the entries of a list. -/
theorem toLower_ne {c d : Char} (hc : c = 'x' ∨ Signers.isHexDigit c = true) (hd : d ∈ ['"', ',', '[', ']', '\\']) :
    c.toLower ≠ d := by
  intro heq
  have hplain : d ≠ 'x' ∧ Signers.isHexDigit d = false ∧ ¬ (97 ≤ d.toNat ∧ d.toNat ≤ 122) := by
    simp only [List.mem_cons, List.not_mem_nil, or_false] at hd
    rcases hd with rfl | rfl | rfl | rfl | rfl <;> exact ⟨by decide, by decide, by decide⟩
  have hlower := toNat_toLower c
  rw [heq] at hlower
  split_ifs at hlower with hupper
  · exact hplain.2.2 ⟨by omega, by omega⟩
  · have hsame : c = d := Char.toNat_inj.mp hlower.symm
    subst hsame
    rcases hc with rfl | hhex
    · exact hplain.1 rfl
    · rw [hplain.2.1] at hhex
      cases hhex

private theorem address_chars (lower : LowerCase) (address : Signers.Address) :
    (lower.toLowerCase address.text).toList ≠ [] ∧
      ∀ c ∈ ['"', ',', '[', ']'], c ∉ (lower.toLowerCase address.text).toList := by
  rw [lower.ofAddress _ address.isAddress, toList_toLower]
  constructor
  · intro hnil
    have hlength : address.text.toList = [] := List.map_eq_nil_iff.mp hnil
    have hschema := address.isAddress
    simp [AddressSchema, hlength] at hschema
  · intro c hc hmem
    obtain ⟨d, hd, hdc⟩ := List.mem_map.mp hmem
    exact toLower_ne (mem_address address.isAddress hd) (by simp at hc ⊢; tauto) hdc

theorem authorizedForwarder_iff {forwarderAddress : Signers.Address} :
    unauthorizedForwarder lower (policy.read lower) forwarderAddress.text = false ↔
      ∀ l, policy.forwarders = some l → ∃ f ∈ l, Mentions lower f forwarderAddress.text := by
  have hchars := address_chars lower forwarderAddress
  unfold unauthorizedForwarder Policy.read Mentions
  rw [truthy_column]
  cases hlist : policy.forwarders with
  | none => simp [column]
  | some l =>
    have hinfix := infix_stringify hchars.1 hchars.2 (l.map lower.toLowerCase)
    simp [column, includesText, hinfix]

/-! ### What is relayed -/

theorem affirmed_eq_some {answer : Option Bool} {u : Unit} : affirmed answer = some u ↔ answer = some true := by
  by_cases hp : answer = some true <;> simp [affirmed, guard, hp]

variable {body : Body} {queueId : String} {tx : Transaction}

theorem ok_bind {a : α} {f : α → Except Refusal β} : (Except.ok a >>= f) = f a := rfl

private theorem permits_plain (hplain : ∀ request signature forwarderAddress,
    body ≠ .forward request signature forwarderAddress) :
    policy.Permits lower body ↔ unauthorizedContract lower (policy.read lower) body.to = false := by
  rw [authorizedContract_iff]
  constructor
  · exact fun h => h.contract
  · intro h
    exact ⟨h, fun request signature forwarderAddress hbody => absurd hbody (hplain _ _ _)⟩

theorem permits_forward {request : ForwardRequest} {signature : String} {forwarderAddress : Signers.Address} :
    policy.Permits lower (.forward request signature forwarderAddress) ↔
      unauthorizedForwarder lower (policy.read lower) forwarderAddress.text = false ∧
        unauthorizedContract lower (policy.read lower) request.to = false ∧ request.value = "0" := by
  rw [authorizedForwarder_iff, authorizedContract_iff]
  constructor
  · intro h
    have hforwarder := h.forwarder _ _ _ rfl
    exact ⟨hforwarder.1, h.contract, hforwarder.2⟩
  · intro h
    have hforwarder : ∀ r s (f : Signers.Address), Body.forward request signature forwarderAddress = .forward r s f →
        (∀ l, policy.forwarders = some l → ∃ g ∈ l, Mentions lower g f.text) ∧ r.value = "0" := by
      intro r s f hbody
      cases hbody
      exact ⟨h.1, h.2.2⟩
    exact ⟨h.2.1, hforwarder⟩

theorem relay_iff (h : getRelayerById lower relayers relayerId = .ok (some (policy.read lower))) :
    relayTransaction lower outside relayers relayerId body = .ok (queueId, tx) ↔
      policy.Permits lower body ∧ policy.transaction lower outside body = some tx ∧
        outside.queueTx tx = some queueId := by
  cases body with
  | executeMetaTransaction request signature =>
    rw [permits_plain (by simp)]
    simp only [relayTransaction, h, ok_bind, Policy.transaction, Body.to]
    simp only [bind_eq_ok, orThrow_eq_ok, refuseContract, refuseIf_eq_ok, Except.ok.injEq, Prod.mk.injEq,
      Option.bind_eq_bind, Option.bind_eq_some_iff, Option.some.injEq]
    constructor
    · rintro ⟨sdk, hsdk, sig, hsig, ⟨⟩, hcontract, ⟨⟩, habi, id, hqueue, rfl, rfl⟩
      exact ⟨hcontract, ⟨sdk, hsdk, sig, hsig, (), habi, rfl⟩, hqueue⟩
    · rintro ⟨hcontract, ⟨sdk, hsdk, sig, hsig, ⟨⟩, habi, rfl⟩, hqueue⟩
      exact ⟨sdk, hsdk, sig, hsig, (), hcontract, (), habi, queueId, hqueue, rfl, rfl⟩
  | permit request signature =>
    rw [permits_plain (by simp)]
    simp only [relayTransaction, h, ok_bind, Policy.transaction, Body.to]
    simp only [bind_eq_ok, orThrow_eq_ok, refuseContract, refuseIf_eq_ok, Except.ok.injEq, Prod.mk.injEq,
      Option.bind_eq_bind, Option.bind_eq_some_iff, Option.some.injEq]
    constructor
    · rintro ⟨sdk, hsdk, sig, hsig, ⟨⟩, hcontract, ⟨⟩, habi, id, hqueue, rfl, rfl⟩
      exact ⟨hcontract, ⟨sdk, hsdk, sig, hsig, (), habi, rfl⟩, hqueue⟩
    · rintro ⟨hcontract, ⟨sdk, hsdk, sig, hsig, ⟨⟩, habi, rfl⟩, hqueue⟩
      exact ⟨sdk, hsdk, sig, hsig, (), hcontract, (), habi, queueId, hqueue, rfl, rfl⟩
  | forward request signature forwarderAddress =>
    rw [permits_forward]
    simp only [relayTransaction, h, ok_bind, Policy.transaction, Body.to]
    simp only [bind_eq_ok, orThrow_eq_ok, refuseContract, refuseIf_eq_ok, Except.ok.injEq, Prod.mk.injEq,
      Option.bind_eq_bind, Option.bind_eq_some_iff, Option.some.injEq, Option.map_eq_some_iff, affirmed_eq_some,
      decide_eq_false_iff_not, ne_eq, not_not, Bool.not_eq_false']
    constructor
    · rintro ⟨sdk, hsdk, ⟨⟩, hforwarder, ⟨⟩, hcontract, ⟨⟩, hvalue, ⟨⟩, htarget, trusted, htrusted, ⟨⟩, rfl, ⟨⟩, habi,
        sig, hsig,
        valid, hvalid, ⟨⟩, rfl, id, hqueue, rfl, rfl⟩
      exact ⟨⟨hforwarder, hcontract, hvalue⟩,
        ⟨sdk, hsdk, (), htarget, (), htrusted, (), habi, _, ⟨sig, hsig, rfl⟩, (), hvalid, rfl⟩, hqueue⟩
    · rintro ⟨⟨hforwarder, hcontract, hvalue⟩,
        ⟨sdk, hsdk, ⟨⟩, htarget, ⟨⟩, htrusted, ⟨⟩, habi, _, ⟨sig, hsig, rfl⟩, ⟨⟩, hvalid, rfl⟩, hqueue⟩
      exact ⟨sdk, hsdk, (), hforwarder, (), hcontract, (), hvalue, (), htarget, true, htrusted, (), rfl, (), habi, sig,
        hsig,
        true, hvalid, (), rfl, queueId, hqueue, rfl, rfl⟩

end

/-- After any requests, a meta-transaction is queued exactly if there is such a relayer, what its last create or
update gave permits the body, and all that the handler calls goes along. -/
theorem relayed_iff (lower : LowerCase) (requests : List Request) (outside : Outside) (relayerId : String) (body : Body)
    (queueId : String) (tx : Transaction) :
    relayTransaction lower outside (handled lower requests) relayerId body = .ok (queueId, tx) ↔
      ∃ policy, policyAfter requests relayerId = some policy ∧ policy.Permits lower body ∧
        policy.transaction lower outside body = some tx ∧ outside.queueTx tx = some queueId := by
  have hread := getRelayerById_row (handled_row lower requests relayerId)
  cases hpolicy : policyAfter requests relayerId with
  | none =>
    rw [hpolicy] at hread
    simp [relayTransaction, hread, ok_bind]
  | some policy =>
    rw [hpolicy] at hread
    rw [relay_iff hread]
    simp

/-! ### Lists of addresses -/

section
variable {lower : LowerCase} {f : String} {address : Signers.Address}

private theorem escaped_address {c : Char} (hc : c = 'x' ∨ Signers.isHexDigit c = true) :
    escaped c.toLower = [c.toLower] := by
  have hquote : c.toLower ≠ '"' := toLower_ne hc (by simp)
  have hslash : c.toLower ≠ '\\' := toLower_ne hc (by simp)
  have hlow : 48 ≤ c.toNat := by
    rcases hc with rfl | hdigit
    · decide
    · simp only [Signers.isHexDigit, Char.isDigit, Char.le_def, UInt32.le_iff_toNat_le, ge_iff_le, Bool.or_eq_true,
        Bool.and_eq_true, decide_eq_true_eq] at hdigit
      have hval : c.val.toNat = c.toNat := rfl
      simp at hdigit
      omega
  have hcontrol : 0x20 ≤ c.toLower.toNat := by
    have hlower := toNat_toLower c
    split_ifs at hlower
    · omega
    · omega
  exact escaped_plain hquote hslash hcontrol

private theorem flatMap_address (hf : AddressSchema f = true) :
    f.toLower.toList.flatMap escaped = f.toLower.toList := by
  apply flatMap_escaped
  intro c hc
  rw [toList_toLower] at hc
  obtain ⟨d, hd, rfl⟩ := List.mem_map.mp hc
  exact escaped_address (mem_address hf hd)

private theorem length_address (hf : AddressSchema f = true) : f.toLower.toList.length = 42 := by
  have hlength : f.length = 42 := by
    simp only [AddressSchema, Bool.and_eq_true, decide_eq_true_eq] at hf
    exact hf.1.2
  rw [toList_toLower, List.length_map, String.length_toList, hlength]

/-- Among addresses, one mentions only itself. -/
theorem mentions_iff (hf : AddressSchema f = true) :
    Mentions lower f address.text ↔ f.toLower = address.text.toLower := by
  unfold Mentions
  rw [lower.ofAddress _ hf, lower.ofAddress _ address.isAddress, flatMap_address hf]
  have hlength := (length_address address.isAddress).trans (length_address hf).symm
  constructor
  · exact fun h => (String.toList_inj.mp (h.eq_of_length hlength)).symm
  · intro h
    rw [h]

/-- The restrictions are to addresses. -/
def Policy.OfAddresses (policy : Policy) : Prop :=
  ∀ l, policy.forwarders = some l → ∀ f ∈ l, AddressSchema f = true

/-- The forwarders that a request names are addresses. -/
def Request.OfAddresses : Request → Prop
  | .update _ body => ∀ l, body.allowedForwarders = some l → ∀ f ∈ l, AddressSchema f = true
  | _ => True

private theorem texts_addresses {list : Option (List Signers.Address)} {l : List String} (h : texts list = some l) :
    ∀ f ∈ l, AddressSchema f = true := by
  obtain ⟨addresses, -, rfl⟩ := Option.map_eq_some_iff.mp h
  intro f hf
  obtain ⟨address, -, rfl⟩ := List.mem_map.mp hf
  exact address.isAddress

private theorem enact_ofAddresses {known : Option Policy} {request : Request} (hrequest : request.OfAddresses)
    (h : ∀ policy, known = some policy → policy.OfAddresses) :
    ∀ policy, enact known request = some policy → policy.OfAddresses := by
  cases request with
  | create chains id body =>
    cases known with
    | some old => exact h
    | none =>
      intro policy hpolicy
      obtain ⟨chainId, -, rfl⟩ := Option.map_eq_some_iff.mp hpolicy
      exact fun l hl => texts_addresses hl
  | update chains body =>
    intro policy hpolicy
    obtain ⟨old, hold, hnew⟩ := Option.map_eq_some_iff.mp hpolicy
    cases hchain : requestedChain chains body.chain with
    | error refusal =>
      have heq : old = policy := by simpa [hchain, Except.toOption] using hnew
      exact heq ▸ h old hold
    | ok chainId =>
      have heq : old.updated chainId body = policy := by simpa [hchain, Except.toOption] using hnew
      exact heq ▸ hrequest
  | revoke id => exact fun policy hpolicy => by cases hpolicy

theorem policyAfter_ofAddresses {requests : List Request} (hall : ∀ request ∈ requests, request.OfAddresses)
    {relayerId : String} {policy : Policy} (h : policyAfter requests relayerId = some policy) : policy.OfAddresses := by
  have hrun : ∀ known : Option Policy, (∀ policy, known = some policy → policy.OfAddresses) →
      ∀ policy, requests.foldl (enactFor relayerId) known = some policy → policy.OfAddresses := by
    clear h
    induction requests with
    | nil => exact fun known hknown => hknown
    | cons request requests ih =>
      intro known hknown
      refine ih (fun r hr => hall r (List.mem_cons_of_mem _ hr)) _ ?_
      unfold enactFor
      split_ifs
      · exact enact_ofAddresses (hall request (List.mem_cons_self ..)) hknown
      · exact hknown
  exact hrun none (by simp) policy h

end

/-- A forwarder, as a list names it and as a request does. -/
def listedForwarder : Signers.Address := ⟨"0xABCDEF0123456789abcdef0123456789abcdef01", by decide +kernel⟩
def namedForwarder : Signers.Address := ⟨"0xabcdef0123456789ABCDEF0123456789abcdef01", by decide +kernel⟩

/-- A relayer for one forwarder, made by an update. -/
def restricted : List Request :=
  [.create (fun _ => some (.ofNat 137)) "relayer"
    { name := none, chain := "polygon", backendWalletAddress := listedForwarder, allowedContracts := none
      allowedForwarders := none },
    .update (fun _ => none)
      { id := "relayer", name := some "restricted", chain := none, backendWalletAddress := none
        allowedContracts := some ["0xC0ffee"], allowedForwarders := some [listedForwarder.text] }]

/-- All goes along. -/
def willing : Outside :=
  { getSdk := fun _ _ => some
      { getContractFromAbi := fun _ _ => some (), isTrustedForwarder := fun _ _ => some true
        verify := fun _ _ _ _ => some true }
    splitSignature := fun signature => some { r := signature, s := signature, v := 27 }
    joinSignature := fun sig => sig.r
    queueTx := fun _ => some "queued" }

def relayed : ForwardRequest :=
  { «from» := "0x0", «to» := "0xc0FFEE", value := "0", gas := "0", nonce := "0", data := "0x", chainid := none }

theorem restricted_ofAddresses : ∀ request ∈ restricted, request.OfAddresses := by
  simp only [restricted, List.forall_mem_cons, Request.OfAddresses, Option.some.injEq, List.not_mem_nil,
    IsEmpty.forall_iff, implies_true, and_true, true_and]
  rintro l rfl f hf
  rw [List.mem_singleton.mp hf]
  exact listedForwarder.isAddress

/-- What is left of the two requests. -/
def restrictedPolicy : Policy :=
  { name := some "restricted", chainId := .ofNat 137, backendWalletAddress := listedForwarder.text
    contracts := some ["0xC0ffee"], forwarders := some [listedForwarder.text] }

theorem policyAfter_restricted : policyAfter restricted "relayer" = some restrictedPolicy := rfl

private theorem restricted_relays : ∃ tx,
    relayTransaction .ascii willing (handled .ascii restricted) "relayer" (.forward relayed "0x" namedForwarder)
      = .ok ("queued", tx) := by
  have hread := getRelayerById_row (handled_row .ascii restricted "relayer")
  rw [policyAfter_restricted] at hread
  have hcontract : LowerCase.ascii.toLowerCase "0xC0ffee" = LowerCase.ascii.toLowerCase "0xc0FFEE" := by
    show String.toLower _ = String.toLower _
    rw [← String.toList_inj, toList_toLower, toList_toLower]
    decide
  have hforwarder : listedForwarder.text.toLower = namedForwarder.text.toLower := by
    rw [← String.toList_inj, toList_toLower, toList_toLower]
    decide
  have hpermits : restrictedPolicy.Permits .ascii (.forward relayed "0x" namedForwarder) := by
    rw [permits_forward, authorizedForwarder_iff, authorizedContract_iff]
    refine ⟨?_, ?_, rfl⟩
    · rintro l ⟨⟩
      exact ⟨_, List.mem_singleton_self _, (mentions_iff listedForwarder.isAddress).mpr hforwarder⟩
    · rintro l ⟨⟩
      exact ⟨_, List.mem_singleton_self _, hcontract⟩
  exact ⟨_, (relay_iff hread).mpr ⟨hpermits, rfl, rfl⟩⟩

/-- If updates name addresses, as creates must, then a request is forwarded only through a forwarder of the list
that was last given, whatever the case of its letters. -/
theorem forwarder_listed (lower : LowerCase) (requests : List Request)
    (hall : ∀ request ∈ requests, request.OfAddresses) (outside : Outside) (relayerId : String)
    (request : ForwardRequest) (signature : String) (forwarderAddress : Signers.Address) (queued : String × Transaction)
    (h : relayTransaction lower outside (handled lower requests) relayerId (.forward request signature forwarderAddress)
      = .ok queued) :
    ∃ policy, policyAfter requests relayerId = some policy ∧
      ∀ l, policy.forwarders = some l → ∃ f ∈ l, f.toLower = forwarderAddress.text.toLower := by
  have hread := getRelayerById_row (handled_row lower requests relayerId)
  cases hpolicy : policyAfter requests relayerId with
  | none =>
    rw [hpolicy] at hread
    simp [relayTransaction, hread, ok_bind] at h
  | some policy =>
    rw [hpolicy] at hread
    have hpermits := ((relay_iff hread).mp h).1
    refine ⟨policy, rfl, fun l hl => ?_⟩
    obtain ⟨f, hf, hmentions⟩ := (hpermits.forwarder _ _ _ rfl).1 l hl
    have haddress := policyAfter_ofAddresses hall hpolicy l hl f hf
    exact ⟨f, hf, (mentions_iff haddress).mp hmentions⟩

theorem forwarder_listed_restricted : ∃ policy, policyAfter restricted "relayer" = some policy ∧
    ∀ l, policy.forwarders = some l → ∃ f ∈ l, f.toLower = namedForwarder.text.toLower := by
  have ⟨tx, hrelayed⟩ := restricted_relays
  exact forwarder_listed .ascii restricted restricted_ofAddresses willing "relayer" relayed "0x" namedForwarder
    ("queued", tx) hrelayed

end Engine.Relayer
