import Engine.Codec.Integer
import Engine.Source.Routes
import Engine.Text.Separated

/-! `worker/tasks/migratePostgresTransactionsWorker.ts`: what a row of the old database becomes. -/
namespace Engine.Migration

/-- A row of `transactions`, as far as the migration looks at it. Dates are in milliseconds. -/
structure Transactions where
  id : String
  idempotencyKey : String
  chainId : String
  data : Option String := none
  value : Option String := none
  gasLimit : Option String := none
  nonce : Option ℤ := none
  maxFeePerGas : Option String := none
  maxPriorityFeePerGas : Option String := none
  fromAddress : Option String := none
  toAddress : Option String := none
  gasPrice : Option String := none
  transactionHash : Option String := none
  signerAddress : Option String := none
  accountAddress : Option String := none
  target : Option String := none
  sender : Option String := none
  userOpHash : Option String := none
  functionName : Option String := none
  functionArgs : Option String := none
  extension : Option String := none
  deployedContractAddress : Option String := none
  deployedContractType : Option String := none
  queuedAt : ℕ
  sentAt : Option ℕ := none
  minedAt : Option ℕ := none
  cancelledAt : Option ℕ := none
  errorMessage : Option String := none
  sentAtBlockNumber : Option ℤ := none
deriving DecidableEq

structure QueuedTransaction where
  queueId : String
  queuedAt : ℕ
  resendCount : ℕ
  isUserOp : Bool
  /-- None is `NaN`. -/
  chainId : Option ℤ
  «from» : Option String
  «to» : Option String
  value : ℤ
  data : String
  functionName : Option String
  functionArgs : Option (List String)
  gas : Option ℤ
  gasPrice : Option ℤ
  maxFeePerGas : Option ℤ
  maxPriorityFeePerGas : Option ℤ
  deployedContractAddress : Option String
  deployedContractType : Option String
  extension : Option String
  signerAddress : Option String
  accountAddress : Option String
  target : Option String
  sender : Option String
deriving DecidableEq

/-- The fields of a sent transaction that depend on `isUserOp`. -/
inductive Sent
  | eoa (nonce : ℤ) (sentTransactionHashes : List String)
  | userOp (nonce userOpHash : String)
deriving DecidableEq

structure SentTransaction extends QueuedTransaction where
  sentAt : ℕ
  sentAtBlock : ℤ
  sent : Sent
deriving DecidableEq

/-- What a conversion throws. -/
inductive Thrown
  /-- The expression of an `assert`. -/
  | assertionError (expression : String)
  | syntaxError (message : String)
deriving DecidableEq

/-- `assert(val)` of a text, with the text. -/
def assertText (expression : String) (val : Option String) : Except Thrown String :=
  match truthy val with
  | some text => .ok text
  | none => .error (.assertionError expression)

/-- `assert(val)` of a number, with the number. Zero is not truthy. -/
def assertNumber (expression : String) (val : Option ℤ) : Except Thrown ℤ :=
  match val with
  | some n => if n = 0 then .error (.assertionError expression) else .ok n
  | none => .error (.assertionError expression)

/-- `assert(val)` of a date, with the date. -/
def assertDate (expression : String) (val : Option ℕ) : Except Thrown ℕ :=
  match val with
  | some date => .ok date
  | none => .error (.assertionError expression)

/-- The number that `BigInt` reads. -/
def readBigInt (text : String) : Option ℤ :=
  parseTrimmed ((text.toList.dropWhile isStrWhiteSpace).rdropWhile isStrWhiteSpace)

def bigInt (text : String) : Except Thrown ℤ :=
  match readBigInt text with
  | some n => .ok n
  | none => .error (.syntaxError ("Cannot convert " ++ text ++ " to a BigInt"))

/-- `val ? BigInt(val) : undefined`. -/
def maybeBigInt (val : Option String) : Except Thrown (Option ℤ) :=
  match truthy val with
  | some text => (bigInt text).map some
  | none => .ok none

def normalizeAddress (val : Option String) : Option String := (truthy val).map Engine.normalizeAddress

def toQueuedTransaction (row : Transactions) : Except Thrown QueuedTransaction := do
  let _ ← assertText "row.fromAddress" row.fromAddress
  let data ← assertText "row.data" row.data
  let value ← maybeBigInt row.value
  let gas ← maybeBigInt row.gasLimit
  let gasPrice ← maybeBigInt row.gasPrice
  let maxFeePerGas ← maybeBigInt row.maxFeePerGas
  let maxPriorityFeePerGas ← maybeBigInt row.maxPriorityFeePerGas
  return {
    queueId := row.idempotencyKey
    queuedAt := row.queuedAt
    resendCount := 0
    isUserOp := (truthy row.accountAddress).isSome
    chainId := Codec.parseInt row.chainId.toList
    «from» := normalizeAddress row.fromAddress
    «to» := normalizeAddress row.toAddress
    value := value.getD 0
    data := data
    functionName := row.functionName
    functionArgs := row.functionArgs.map (split ',')
    gas := gas
    gasPrice := gasPrice
    maxFeePerGas := maxFeePerGas
    maxPriorityFeePerGas := maxPriorityFeePerGas
    deployedContractAddress := normalizeAddress row.deployedContractAddress
    deployedContractType := row.deployedContractType
    extension := row.extension
    signerAddress := normalizeAddress row.signerAddress
    accountAddress := normalizeAddress row.accountAddress
    target := normalizeAddress row.target
    sender := normalizeAddress row.sender }

def toSentTransaction (row : Transactions) : Except Thrown SentTransaction := do
  let sentAt ← assertDate "row.sentAt" row.sentAt
  let sentAtBlockNumber ← assertNumber "row.sentAtBlockNumber" row.sentAtBlockNumber
  let queuedTransaction ← toQueuedTransaction row
  if queuedTransaction.isUserOp then do
    let userOpHash ← assertText "row.userOpHash" row.userOpHash
    return { queuedTransaction with
      sentAt := sentAt
      sentAtBlock := sentAtBlockNumber
      sent := .userOp "" userOpHash }
  else do
    let transactionHash ← assertText "row.transactionHash" row.transactionHash
    let nonce ← assertNumber "row.nonce" row.nonce
    return { queuedTransaction with
      sentAt := sentAt
      sentAtBlock := sentAtBlockNumber
      sent := .eoa nonce [transactionHash] }

/-! ### The rows that can be converted -/

/-- A sent transaction of an EOA that is neither mined, cancelled nor errored, with every field
that its record needs. -/
def isMigratable (row : Transactions) : Bool :=
  row.sentAt.isSome && row.minedAt.isNone && row.cancelledAt.isNone && row.errorMessage.isNone &&
    (truthy row.accountAddress).isNone && row.fromAddress.isSome && row.data.isSome &&
    row.transactionHash.isSome && row.nonce.isSome && row.sentAtBlockNumber.isSome

/-- The number that a column holds, as far as `BigInt` reads it. Without one it is zero. -/
def numberOf (val : Option String) : Option ℤ :=
  match truthy val with
  | some text => readBigInt text
  | none => some 0

/-- The record of a row: the same chain, addresses, value, data, nonce, hash and block. -/
structure IsRecordOf (row : Transactions) (t : SentTransaction) : Prop where
  chainId : ∃ chainId : ℕ, row.chainId.toList = Nat.toDigits 10 chainId ∧ t.chainId = some (chainId : ℤ)
  «from» : t.from = row.fromAddress.map Engine.normalizeAddress
  «to» : t.to = normalizeAddress row.toAddress
  value : numberOf row.value = some t.value
  data : row.data = some t.data
  sent : ∃ nonce hash, row.nonce = some nonce ∧ row.transactionHash = some hash ∧ t.sent = .eoa nonce [hash]
  sentAtBlock : row.sentAtBlockNumber = some t.sentAtBlock

/-- The row passes the truth tests that stand for null checks, and its numbers can be read. -/
structure Convertible (row : Transactions) : Prop where
  nonce : row.nonce ≠ some 0
  sentAtBlockNumber : row.sentAtBlockNumber ≠ some 0
  fromAddress : row.fromAddress ≠ some ""
  data : row.data ≠ some ""
  transactionHash : row.transactionHash ≠ some ""
  value : (numberOf row.value).isSome
  gasLimit : (numberOf row.gasLimit).isSome
  gasPrice : (numberOf row.gasPrice).isSome
  maxFeePerGas : (numberOf row.maxFeePerGas).isSome
  maxPriorityFeePerGas : (numberOf row.maxPriorityFeePerGas).isSome

section
variable {row : Transactions} {t : SentTransaction} {val : Option String} {expression : String}

theorem assertText_eq_ok {text : String} : assertText expression val = .ok text ↔ val = some text ∧ text ≠ "" := by
  unfold assertText
  rw [← truthy_eq_some]
  cases truthy val <;> simp

theorem assertNumber_eq_ok {val : Option ℤ} {n : ℤ} : assertNumber expression val = .ok n ↔ val = some n ∧ n ≠ 0 := by
  unfold assertNumber
  cases val with
  | none => simp
  | some m =>
    dsimp only
    split_ifs with hm
    · constructor
      · intro h
        cases h
      · intro h
        exact absurd (Option.some.inj h.1 ▸ hm) h.2
    · constructor
      · intro h
        rw [← Except.ok.inj h]
        exact ⟨rfl, hm⟩
      · intro h
        rw [Option.some.inj h.1]

theorem assertDate_eq_ok {val : Option ℕ} {n : ℕ} : assertDate expression val = .ok n ↔ val = some n := by
  unfold assertDate
  cases val <;> simp

theorem maybeBigInt_eq_ok {n : Option ℤ} :
    maybeBigInt val = .ok n ↔ numberOf val = some (n.getD 0) ∧ n.isSome = (truthy val).isSome := by
  unfold maybeBigInt numberOf bigInt
  cases truthy val with
  | none => cases n <;> simp
  | some text =>
    dsimp only
    cases readBigInt text with
    | none => simp [Except.map]
    | some m => cases n <;> simp [Except.map]

theorem bind_eq_ok {ε α β : Type} {x : Except ε α} {f : α → Except ε β} {b : β} :
    (x >>= f) = .ok b ↔ ∃ a, x = .ok a ∧ f a = .ok b := by
  cases x with
  | error e =>
    constructor
    · intro h
      cases h
    · intro h
      obtain ⟨a, ha, -⟩ := h
      cases ha
  | ok a =>
    constructor
    · intro h
      exact ⟨a, rfl, h⟩
    · intro h
      obtain ⟨a', ha, h⟩ := h
      cases ha
      exact h

theorem numberOf_isSome : (numberOf val).isSome = true ↔ ∃ n, maybeBigInt val = .ok n := by
  unfold maybeBigInt numberOf bigInt
  cases truthy val with
  | none => simp
  | some text =>
    dsimp only
    cases readBigInt text <;> simp [Except.map]

/-- What a queued record takes from its row. -/
structure Copies (row : Transactions) (q : QueuedTransaction) : Prop where
  isUserOp : q.isUserOp = (truthy row.accountAddress).isSome
  chainId : q.chainId = Codec.parseInt row.chainId.toList
  «from» : q.from = normalizeAddress row.fromAddress
  «to» : q.to = normalizeAddress row.toAddress
  value : numberOf row.value = some q.value
  data : row.data = some q.data

theorem toQueuedTransaction_eq_ok {q : QueuedTransaction} (h : toQueuedTransaction row = .ok q) :
    Copies row q ∧ row.fromAddress ≠ some "" ∧ row.data ≠ some "" ∧ (numberOf row.gasLimit).isSome ∧
      (numberOf row.gasPrice).isSome ∧ (numberOf row.maxFeePerGas).isSome ∧
      (numberOf row.maxPriorityFeePerGas).isSome := by
  unfold toQueuedTransaction at h
  obtain ⟨fromAddress, hfrom, h⟩ := bind_eq_ok.mp h
  obtain ⟨data, hdata, h⟩ := bind_eq_ok.mp h
  obtain ⟨value, hvalue, h⟩ := bind_eq_ok.mp h
  obtain ⟨gas, hgas, h⟩ := bind_eq_ok.mp h
  obtain ⟨gasPrice, hgasPrice, h⟩ := bind_eq_ok.mp h
  obtain ⟨maxFeePerGas, hmax, h⟩ := bind_eq_ok.mp h
  obtain ⟨maxPriorityFeePerGas, hpriority, h⟩ := bind_eq_ok.mp h
  obtain ⟨hfrom, hfrom'⟩ := assertText_eq_ok.mp hfrom
  obtain ⟨hdata, hdata'⟩ := assertText_eq_ok.mp hdata
  rw [← Except.ok.inj h]
  refine ⟨⟨rfl, rfl, rfl, rfl, (maybeBigInt_eq_ok.mp hvalue).1, hdata⟩, ?_, ?_, numberOf_isSome.mpr ⟨_, hgas⟩,
    numberOf_isSome.mpr ⟨_, hgasPrice⟩, numberOf_isSome.mpr ⟨_, hmax⟩, numberOf_isSome.mpr ⟨_, hpriority⟩⟩
  · rw [hfrom]
    simpa using hfrom'
  · rw [hdata]
    simpa using hdata'

theorem exists_toQueuedTransaction (hfrom : row.fromAddress.isSome = true) (hdata : row.data.isSome = true)
    (h : Convertible row) : ∃ q, toQueuedTransaction row = .ok q := by
  obtain ⟨fromAddress, hfrom⟩ := Option.isSome_iff_exists.mp hfrom
  obtain ⟨data, hdata⟩ := Option.isSome_iff_exists.mp hdata
  obtain ⟨value, hvalue⟩ := numberOf_isSome.mp h.value
  obtain ⟨gas, hgas⟩ := numberOf_isSome.mp h.gasLimit
  obtain ⟨gasPrice, hgasPrice⟩ := numberOf_isSome.mp h.gasPrice
  obtain ⟨maxFeePerGas, hmax⟩ := numberOf_isSome.mp h.maxFeePerGas
  obtain ⟨maxPriorityFeePerGas, hpriority⟩ := numberOf_isSome.mp h.maxPriorityFeePerGas
  have hfromText : assertText "row.fromAddress" row.fromAddress = .ok fromAddress :=
    assertText_eq_ok.mpr ⟨hfrom, fun he => h.fromAddress (hfrom.trans (congrArg some he))⟩
  have hdataText : assertText "row.data" row.data = .ok data :=
    assertText_eq_ok.mpr ⟨hdata, fun he => h.data (hdata.trans (congrArg some he))⟩
  unfold toQueuedTransaction
  rw [hfromText, hdataText, hvalue, hgas, hgasPrice, hmax, hpriority]
  exact ⟨_, rfl⟩

structure Fields (row : Transactions) : Prop where
  sentAt : row.sentAt.isSome = true
  eoa : truthy row.accountAddress = none
  fromAddress : row.fromAddress.isSome = true
  data : row.data.isSome = true
  transactionHash : row.transactionHash.isSome = true
  nonce : row.nonce.isSome = true
  sentAtBlockNumber : row.sentAtBlockNumber.isSome = true

theorem fields_of_isMigratable (h : isMigratable row = true) : Fields row := by
  simp only [isMigratable, Bool.and_eq_true] at h
  obtain ⟨⟨⟨⟨⟨⟨⟨⟨⟨hsent, -⟩, -⟩, -⟩, heoa⟩, hfrom⟩, hdata⟩, hhash⟩, hnonce⟩, hblock⟩ := h
  exact ⟨hsent, Option.isNone_iff_eq_none.mp heoa, hfrom, hdata, hhash, hnonce, hblock⟩

/-- What a sent record of an EOA row has come from. -/
theorem toSentTransaction_eq_ok (heoa : truthy row.accountAddress = none) (h : toSentTransaction row = .ok t) :
    ∃ q nonce hash, toQueuedTransaction row = .ok q ∧ t.toQueuedTransaction = q ∧
      (row.sentAtBlockNumber = some t.sentAtBlock ∧ t.sentAtBlock ≠ 0) ∧
      (row.transactionHash = some hash ∧ hash ≠ "") ∧ (row.nonce = some nonce ∧ nonce ≠ 0) ∧
      t.sent = .eoa nonce [hash] := by
  unfold toSentTransaction at h
  obtain ⟨sentAt, hsentAt, h⟩ := bind_eq_ok.mp h
  obtain ⟨block, hblock, h⟩ := bind_eq_ok.mp h
  obtain ⟨q, hq, h⟩ := bind_eq_ok.mp h
  have huser : q.isUserOp = false := by
    rw [(toQueuedTransaction_eq_ok hq).1.isUserOp, heoa]
    rfl
  rw [huser] at h
  obtain ⟨hash, hhash, h⟩ := bind_eq_ok.mp h
  obtain ⟨nonce, hnonce, h⟩ := bind_eq_ok.mp h
  rw [← Except.ok.inj h]
  exact ⟨q, nonce, hash, hq, rfl, assertNumber_eq_ok.mp hblock, assertText_eq_ok.mp hhash,
    assertNumber_eq_ok.mp hnonce, rfl⟩

/-- A migratable row is converted exactly when it passes the truth tests and its numbers are read. -/
theorem exists_toSentTransaction_iff (hm : isMigratable row = true) :
    (∃ t, toSentTransaction row = .ok t) ↔ Convertible row := by
  have hf := fields_of_isMigratable hm
  constructor
  · intro h
    obtain ⟨t, ht⟩ := h
    obtain ⟨q, nonce, hash, hq, -, hblock, hhash, hnonce, -⟩ := toSentTransaction_eq_ok hf.eoa ht
    obtain ⟨hcopies, hfrom, hdata, hgas, hgasPrice, hmax, hpriority⟩ := toQueuedTransaction_eq_ok hq
    refine ⟨?_, ?_, hfrom, hdata, ?_, ?_, hgas, hgasPrice, hmax, hpriority⟩
    · rw [hnonce.1]
      simpa using hnonce.2
    · rw [hblock.1]
      simpa using hblock.2
    · rw [hhash.1]
      simpa using hhash.2
    · rw [hcopies.value]
      rfl
  · intro h
    obtain ⟨q, hq⟩ := exists_toQueuedTransaction hf.fromAddress hf.data h
    obtain ⟨sentAt, hsentAt⟩ := Option.isSome_iff_exists.mp hf.sentAt
    obtain ⟨block, hblock⟩ := Option.isSome_iff_exists.mp hf.sentAtBlockNumber
    obtain ⟨hash, hhash⟩ := Option.isSome_iff_exists.mp hf.transactionHash
    obtain ⟨nonce, hnonce⟩ := Option.isSome_iff_exists.mp hf.nonce
    have huser : q.isUserOp = false := by
      rw [(toQueuedTransaction_eq_ok hq).1.isUserOp, hf.eoa]
      rfl
    have hblockNumber : assertNumber "row.sentAtBlockNumber" row.sentAtBlockNumber = .ok block :=
      assertNumber_eq_ok.mpr ⟨hblock, fun he => h.sentAtBlockNumber (hblock.trans (congrArg some he))⟩
    have hhashText : assertText "row.transactionHash" row.transactionHash = .ok hash :=
      assertText_eq_ok.mpr ⟨hhash, fun he => h.transactionHash (hhash.trans (congrArg some he))⟩
    have hnonceNumber : assertNumber "row.nonce" row.nonce = .ok nonce :=
      assertNumber_eq_ok.mpr ⟨hnonce, fun he => h.nonce (hnonce.trans (congrArg some he))⟩
    unfold toSentTransaction
    rw [assertDate_eq_ok.mpr hsentAt, hblockNumber, hq]
    exists { q with sentAt := sentAt, sentAtBlock := block, sent := .eoa nonce [hash] }
    refine bind_eq_ok.mpr ⟨sentAt, rfl, bind_eq_ok.mpr ⟨block, rfl, bind_eq_ok.mpr ⟨q, rfl, ?_⟩⟩⟩
    rw [huser]
    exact bind_eq_ok.mpr ⟨hash, hhashText, bind_eq_ok.mpr ⟨nonce, hnonceNumber, rfl⟩⟩

private theorem normalizeAddress_of_ne {address : Option String} (h : address ≠ some "") :
    normalizeAddress address = address.map Engine.normalizeAddress := by
  unfold normalizeAddress truthy
  cases address with
  | none => rfl
  | some address =>
    have hne : address ≠ "" := fun he => h (congrArg some he)
    simp [Option.filter, hne]

/-- The record of a migratable row is that of the row exactly when its chain id is a decimal number. -/
theorem isRecordOf_iff (hm : isMigratable row = true) (h : toSentTransaction row = .ok t) :
    IsRecordOf row t ↔ ∃ chainId : ℕ, row.chainId.toList = Nat.toDigits 10 chainId := by
  have hf := fields_of_isMigratable hm
  obtain ⟨q, nonce, hash, hq, rfl, hblock, hhash, hnonce, hsent⟩ := toSentTransaction_eq_ok hf.eoa h
  obtain ⟨hcopies, hfrom, -⟩ := toQueuedTransaction_eq_ok hq
  constructor
  · intro hrecord
    obtain ⟨chainId, hchainId, -⟩ := hrecord.chainId
    exact ⟨chainId, hchainId⟩
  · intro hchainId
    obtain ⟨chainId, hchainId⟩ := hchainId
    constructor
    · refine ⟨chainId, hchainId, ?_⟩
      rw [hcopies.chainId, hchainId, Codec.parseInt_toDigits]
    · rw [hcopies.from, normalizeAddress_of_ne hfrom]
    · exact hcopies.to
    · exact hcopies.value
    · exact hcopies.data
    · exact ⟨nonce, hash, hnonce.1, hhash.1, hsent⟩
    · exact hblock.1

/-- A migratable row is converted to its record exactly when it is convertible and its chain id is
a decimal number. -/
theorem exists_record_iff (hm : isMigratable row = true) :
    (∃ t, toSentTransaction row = .ok t ∧ IsRecordOf row t) ↔
      Convertible row ∧ ∃ chainId : ℕ, row.chainId.toList = Nat.toDigits 10 chainId := by
  constructor
  · intro h
    obtain ⟨t, ht, hrecord⟩ := h
    exact ⟨(exists_toSentTransaction_iff hm).mp ⟨t, ht⟩, (isRecordOf_iff hm ht).mp hrecord⟩
  · intro h
    obtain ⟨hconvertible, hchainId⟩ := h
    obtain ⟨t, ht⟩ := (exists_toSentTransaction_iff hm).mpr hconvertible
    exact ⟨t, ht, (isRecordOf_iff hm ht).mpr hchainId⟩

end
end Engine.Migration
