import Engine.Concurrent.History
import Engine.Source.Shared

/-! `getLocalWallet.ts`, `localStorage.ts` and the requests that add and remove wallets: the keys of local
wallets, kept encrypted in rows, which any number of processes load and move to a new password. -/
namespace Engine.LocalWallets
open Concurrent Program Function

/-- The encrypted texts of `ethers` and the wallet SDK. -/
structure Keystore where
  Key : Type
  addressOf : Key → String
  /-- With some random bytes. -/
  encrypt : Key → String → ℕ → String
  /-- Of a text and a password. -/
  decrypt : String → String → Option Key
  decrypt_empty : ∀ password, decrypt "" password = none
  decrypt_encrypt : ∀ key password n, decrypt (encrypt key password n) password = some key
  /-- Another password opens nothing else. -/
  decrypt_other : ∀ key password n other key', decrypt (encrypt key password n) other = some key' → key' = key

theorem Keystore.ne_of_decrypt {K : Keystore} {t password : String} {key : K.Key}
    (h : K.decrypt t password = some key) :
    t ≠ "" := by
  intro hempty
  rw [hempty, K.decrypt_empty] at h
  cases h

structure Env where
  ENCRYPTION_PASSWORD : String
  THIRDWEB_API_SECRET_KEY : String

inductive WalletType
  | «local»
  | awsKms
  | gcpKms
deriving DecidableEq

/-- A row of `walletDetails`, without what only KMS wallets have. -/
structure Row where
  type : WalletType
  label : Option String
  encryptedJson : Option String
deriving DecidableEq

inductive Err
  /-- The call was not performed. -/
  | refused
  /-- The call was performed, and its reply was lost. -/
  | lost
  /-- A constraint of the table. -/
  | constraint
  | badChain (chainId : ℕ)
  /-- No text, or a password that does not open it. -/
  | cannotLoad
  | message (text : String)
deriving DecidableEq

inductive Op
  | getChainMetadata (chainId : ℕ)
  | randomBytes
  | findUnique (address : String)
  | upsert (address encryptedJson : String) (label : Option String)
  | create (address : String) (row : Row)
  | update (address : String) (label : Option String)
  | delete (address : String)
  /-- `~/.thirdweb/localWallet-<address>`, if it exists. -/
  | readFile (address : String)
deriving DecidableEq

@[reducible] def Op.Reply : Op → Type
  | .getChainMetadata _ => Bool
  | .randomBytes => ℕ
  | .findUnique _ => Option Row
  | .readFile _ => Option String
  | _ => Unit

@[reducible] def Op.Choice : Op → Type
  | .getChainMetadata _ => Bool
  | .randomBytes => ℕ
  | _ => Unit

abbrev Calls : Interface := ⟨Op, Op.Reply, Op.Choice, Err⟩

abbrev await (o : Op) : Program Calls o.Reply := Program.perform (I := Calls) o

/-- The files are those of an older version, and only read. -/
structure World where
  rows : String → Option Row
  files : String → Option String

namespace World

/-- `upsert` on a local wallet of that address: a row of another type is in the way of creating one. -/
def upserted (w : World) (address encryptedJson : String) (label : Option String) : Option Row :=
  match w.rows address with
  | none => some { type := .local, label, encryptedJson := some encryptedJson }
  | some row =>
    if row.type = .local then
      some { row with label := label <|> row.label, encryptedJson := some encryptedJson }
    else none

/-- The row that a call writes, if it writes one. -/
def written (w : World) : Op → Option (String × Option Row)
  | .upsert address encryptedJson label => (w.upserted address encryptedJson label).map fun row => (address, some row)
  | .create address row => if (w.rows address).isNone then some (address, some row) else none
  | .update address label => (w.rows address).map fun row => (address, some { row with label := label <|> row.label })
  | .delete address => (w.rows address).map fun _ => (address, none)
  | _ => none

def after (w : World) (o : Op) : World :=
  (w.written o).elim w fun write => { w with rows := Function.update w.rows write.1 write.2 }

def reply (w : World) : (o : Op) → o.Choice → Except Err o.Reply
  | .getChainMetadata _, known => .ok known
  | .randomBytes, n => .ok n
  | .findUnique address, _ => .ok (w.rows address)
  | .readFile address, _ => .ok (w.files address)
  | .upsert address encryptedJson label, _ =>
    if (w.written (.upsert address encryptedJson label)).isSome then .ok () else .error .constraint
  | .create address row, _ => if (w.written (.create address row)).isSome then .ok () else .error .constraint
  | .update address label, _ => if (w.written (.update address label)).isSome then .ok () else .error .constraint
  | .delete address, _ => if (w.written (.delete address)).isSome then .ok () else .error .constraint

def effect (w : World) (o : Op) : Except Err o.Choice → Option (Except Err o.Reply × World)
  | .ok c => some (w.reply o c, w.after o)
  | .error .refused => some (.error .refused, w)
  | .error .lost => some (.error .lost, w.after o)
  | .error _ => none

end World

/-! ### Programs -/

def setItem (walletAddress value : String) (label : Option String) : Program Calls Unit :=
  await (.upsert walletAddress value label)

/-- Of a `LocalFileStorage` without a label. -/
def getItem (walletAddress : String) : Program Calls (Option String) := do
  let walletDetails ← await (.findUnique walletAddress)
  match truthy (walletDetails.bind Row.encryptedJson) with
  | some encryptedJson => pure (some encryptedJson)
  | none =>
    let file ← await (.readFile walletAddress)
    match file with
    | none => pure none
    | some encryptedJson =>
      setItem walletAddress encryptedJson none
      pure (some encryptedJson)

variable (K : Keystore) (env : Env)

/-- `wallet.load` -/
def load (walletAddress password : String) : Program Calls K.Key := do
  let json ← getItem walletAddress
  match json.bind fun text => K.decrypt text password with
  | some key => pure key
  | none => throw .cannotLoad

/-- `wallet.save` -/
def save (key : K.Key) (walletAddress : String) (label : Option String) : Program Calls Unit := do
  let n ← await .randomBytes
  setItem walletAddress (K.encrypt key env.ENCRYPTION_PASSWORD n) label

/-- `getChainMetadata`, of a chain that has to be known. -/
def assertChain (chainId : ℕ) : Program Calls Unit := do
  let known ← await (.getChainMetadata chainId)
  if known = false then throw (.badChain chainId) else pure ()

def getLocalWallet (chainId : ℕ) (walletAddress : String) : Program Calls K.Key :=
  Shared.getLocalWallet
    { getChainMetadata := assertChain chainId
      load := load K (normalizeAddress walletAddress)
      getWalletDetails := await (.findUnique (normalizeAddress walletAddress))
      save := fun key walletDetails => save K env key (normalizeAddress walletAddress) walletDetails.label }
    env.ENCRYPTION_PASSWORD env.THIRDWEB_API_SECRET_KEY
    (.message ("Wallet details not found for wallet address " ++ walletAddress)) fun _ key => key

def getLocalWalletAccount (walletAddress : String) : Program Calls K.Key := do
  let json ← getItem (normalizeAddress walletAddress)
  match truthy json with
  | none => throw (.message ("Wallet not found for address " ++ walletAddress))
  | some text =>
    match K.decrypt text env.ENCRYPTION_PASSWORD with
    | some key => pure key
    | none => throw .cannotLoad

/-- `createLocalWallet` and `importLocalWallet`, with the key that was generated or imported. -/
def addLocalWallet (key : K.Key) (label : Option String) : Program Calls Unit :=
  save K env key (normalizeAddress (K.addressOf key)) label

def createWalletDetails (walletAddress : String) (row : Row) : Program Calls Unit := do
  let wallet ← await (.findUnique (normalizeAddress walletAddress))
  match wallet with
  | some _ => throw (.message ("Wallet with address " ++ walletAddress ++ " has already been added!"))
  | none => await (.create (normalizeAddress walletAddress) row)

def updateWalletDetails (walletAddress : String) (label : Option String) : Program Calls Unit :=
  await (.update (normalizeAddress walletAddress) label)

def deleteWalletDetails (walletAddress : String) : Program Calls Unit :=
  await (.delete (normalizeAddress walletAddress))

inductive Kind
  | getLocalWallet (chainId : ℕ) (walletAddress : String)
  | getLocalWalletAccount (walletAddress : String)
  | addLocalWallet (key : K.Key) (label : Option String)
  /-- Of a KMS wallet. -/
  | createWalletDetails (walletAddress : String) (type : WalletType) (label : Option String)
  | updateWalletDetails (walletAddress : String) (label : Option String)
  | deleteWalletDetails (walletAddress : String)

/-- The row that a request is about. -/
def Kind.address {K : Keystore} : Kind K → String
  | getLocalWallet _ walletAddress => normalizeAddress walletAddress
  | getLocalWalletAccount walletAddress => normalizeAddress walletAddress
  | addLocalWallet key _ => normalizeAddress (K.addressOf key)
  | createWalletDetails walletAddress _ _ => normalizeAddress walletAddress
  | updateWalletDetails walletAddress _ => normalizeAddress walletAddress
  | deleteWalletDetails walletAddress => normalizeAddress walletAddress

def Kind.loads {K : Keystore} : Kind K → Bool
  | getLocalWallet _ _ => true
  | getLocalWalletAccount _ => true
  | _ => false

/-- The key of a wallet, where a request is for one. -/
def Kind.program : Kind K → Program Calls (Option K.Key)
  | getLocalWallet chainId walletAddress => do return some (← LocalWallets.getLocalWallet K env chainId walletAddress)
  | getLocalWalletAccount walletAddress => do return some (← LocalWallets.getLocalWalletAccount K env walletAddress)
  | addLocalWallet key label => do
    LocalWallets.addLocalWallet K env key label
    return none
  | createWalletDetails walletAddress type label => do
    LocalWallets.createWalletDetails walletAddress { type, label, encryptedJson := none }
    return none
  | updateWalletDetails walletAddress label => do
    LocalWallets.updateWalletDetails walletAddress label
    return none
  | deleteWalletDetails walletAddress => do
    LocalWallets.deleteWalletDetails walletAddress
    return none

/-- Every process, and the table. -/
abbrev processes : Machine Calls (Option K.Key) where
  World := World
  Kind := Kind K
  effect := World.effect
  start w k := some (k.program K env, w)

/-! ### Contract -/

/-- What a request has come to know. -/
structure Progress where
  kind : Kind K
  /-- Texts that the row held. -/
  seen : List String := []
  files : List String := []
  /-- A call has failed. -/
  faulty : Bool := false
  /-- The row was found without a text, or not at all. -/
  missed : Bool := false

namespace Progress
variable {K : Keystore}

def next (l : Progress K) : (o : Op) → Except Err o.Reply → Progress K
  | _, .error _ => { l with faulty := true }
  | .findUnique _, .ok row =>
    match truthy (row.bind Row.encryptedJson) with
    | some encryptedJson => { l with seen := encryptedJson :: l.seen }
    | none => { l with missed := true }
  | .readFile _, .ok file => { l with files := file.toList ++ l.files }
  | .upsert _ encryptedJson _, .ok _ => { l with seen := encryptedJson :: l.seen }
  | _, .ok _ => l

/-- A key that the request was given, or that it has read. -/
def Holds (l : Progress K) (key : K.Key) : Prop :=
  (∃ label, l.kind = .addLocalWallet key label) ∨ ∃ t ∈ l.seen, ∃ password, K.decrypt t password = some key

def Allowed (env : Env) (l : Progress K) : Op → Prop
  | .findUnique address => address = l.kind.address
  | .readFile address => address = l.kind.address
  | .upsert address encryptedJson _ => address = l.kind.address ∧
    (encryptedJson ∈ l.files ∨ ∃ key n, encryptedJson = K.encrypt key env.ENCRYPTION_PASSWORD n ∧ l.Holds key)
  | .create _ row => row.encryptedJson = none
  | _ => True

/-- Why loading with a password did not work. -/
def Blames (password : String) (l : Progress K) : Prop :=
  l.faulty = true ∨ l.missed = true ∨ ∃ t ∈ l.seen, K.decrypt t password = none

def Ends (env : Env) (l : Progress K) : Except Err (Option K.Key) → Prop
  | .ok (some key) => ∃ t ∈ l.seen, K.decrypt t env.ENCRYPTION_PASSWORD = some key
  | .ok none => l.kind.loads = false
  | .error e => l.kind.loads = true → l.Blames env.ENCRYPTION_PASSWORD ∨ ∃ chainId, e = .badChain chainId

/-- What is known stays known. -/
structure Grows (l l' : Progress K) : Prop where
  kind : l'.kind = l.kind
  seen : ∀ t ∈ l.seen, t ∈ l'.seen
  faulty : l.faulty = true → l'.faulty = true
  missed : l.missed = true → l'.missed = true

theorem Grows.refl (l : Progress K) : l.Grows l := ⟨rfl, fun _ h => h, fun h => h, fun h => h⟩

theorem Grows.trans {l l' l'' : Progress K} (h : l.Grows l') (h' : l'.Grows l'') : l.Grows l'' :=
  ⟨h'.kind.trans h.kind, fun t ht => h'.seen t (h.seen t ht), fun hf => h'.faulty (h.faulty hf),
    fun hm => h'.missed (h.missed hm)⟩

theorem grows_next (l : Progress K) (o : Op) (r : Except Err o.Reply) : l.Grows (l.next o r) := by
  cases r with
  | error e => cases o <;> exact ⟨rfl, fun _ h => h, fun _ => rfl, fun h => h⟩
  | ok r =>
    cases o with
    | findUnique address =>
      simp only [next]
      split
      · exact ⟨rfl, fun _ h => List.mem_cons_of_mem _ h, fun h => h, fun h => h⟩
      · exact ⟨rfl, fun _ h => h, fun h => h, fun _ => rfl⟩
    | upsert => exact ⟨rfl, fun _ h => List.mem_cons_of_mem _ h, fun h => h, fun h => h⟩
    | _ => exact ⟨rfl, fun _ h => h, fun h => h, fun h => h⟩

theorem Blames.grows {password : String} {l l' : Progress K} (h : l.Blames password) (hg : l.Grows l') :
    l'.Blames password := by
  rcases h with hfaulty | hmissed | ⟨t, ht, hnone⟩
  · exact Or.inl (hg.faulty hfaulty)
  · exact Or.inr (Or.inl (hg.missed hmissed))
  · exact Or.inr (Or.inr ⟨t, hg.seen t ht, hnone⟩)

end Progress

abbrev protocol : Protocol Calls where
  Local := Progress K
  next := Progress.next
  allowed := Progress.Allowed env
  possible _ _ := True

section
variable {K : Keystore} {env : Env} {l l₀ : Progress K}

open Progress

theorem grows_called (env : Env) (o : Op) (r : Except Err o.Reply) :
    l.Grows ((protocol K env).next l o r) := grows_next l o r

/-- What an item is, after getting it. -/
def Gotten (l : Progress K) : Except Err (Option String) → Prop
  | .ok (some t) => t ∈ l.seen ∧ (t = "" → l.missed = true)
  | .ok none => l.missed = true
  | .error _ => l.faulty = true

theorem follows_getItem (h : l₀.Grows l) :
    (getItem l.kind.address).Follows (protocol K env) (fun l' r => l₀.Grows l' ∧ Gotten l' r) l := by
  refine follows_await (P := protocol K env) rfl (fun row _ => ?_) fun e _ => ⟨h.trans (grows_called env _ _), rfl⟩
  have hgrows : l₀.Grows ((protocol K env).next l (.findUnique l.kind.address) (.ok row)) :=
    h.trans (grows_called env _ _)
  have hnext : (protocol K env).next l (.findUnique l.kind.address) (.ok row)
      = (truthy (row.bind Row.encryptedJson)).elim { l with missed := true }
        fun t => { l with seen := t :: l.seen } := by
    cases hrow : truthy (row.bind Row.encryptedJson) <;> simp [Progress.next, hrow]
  rw [hnext] at hgrows ⊢
  cases hrow : truthy (row.bind Row.encryptedJson) with
  | some t =>
    rw [hrow] at hgrows
    exact ⟨hgrows, List.mem_cons_self, fun hempty => absurd hempty (truthy_eq_some.mp hrow).2⟩
  | none =>
    rw [hrow] at hgrows
    refine follows_await (P := protocol K env) rfl (fun file _ => ?_)
      fun e _ => ⟨hgrows.trans (grows_called env _ _), rfl⟩
    have hread := hgrows.trans (grows_called env (.readFile l.kind.address) (.ok file))
    cases file with
    | none => exact ⟨hread, rfl⟩
    | some t =>
      refine follows_await (P := protocol K env) ⟨rfl, Or.inl List.mem_cons_self⟩ (fun _ _ => ?_)
        fun e _ => ⟨hread.trans (grows_called env _ _), rfl⟩
      exact ⟨hread.trans (grows_called env _ _), List.mem_cons_self, fun _ => rfl⟩

/-- What a key is, after loading it with a password. -/
def Loaded (password : String) (l : Progress K) : Except Err K.Key → Prop
  | .ok key => ∃ t ∈ l.seen, K.decrypt t password = some key
  | .error _ => l.Blames password

theorem follows_load (password : String) (h : l₀.Grows l) :
    (load K l.kind.address password).Follows (protocol K env) (fun l' r => l₀.Grows l' ∧ Loaded password l' r) l := by
  refine (follows_getItem h).bind (fun l' json hl => ?_) fun l' e hl => ⟨hl.1, Or.inl hl.2⟩
  cases json with
  | none => exact ⟨hl.1, Or.inr (Or.inl hl.2)⟩
  | some t =>
    cases hkey : K.decrypt t password with
    | none =>
      simp only [Option.bind_some, hkey]
      exact ⟨hl.1, Or.inr (Or.inr ⟨t, hl.2.1, hkey⟩)⟩
    | some key =>
      simp only [Option.bind_some, hkey]
      exact ⟨hl.1, t, hl.2.1, hkey⟩

/-- After a request for a key. -/
def KeyEnds (env : Env) (l : Progress K) : Except Err K.Key → Prop
  | .ok key => ∃ t ∈ l.seen, K.decrypt t env.ENCRYPTION_PASSWORD = some key
  | .error e => l.Blames env.ENCRYPTION_PASSWORD ∨ ∃ chainId, e = .badChain chainId

theorem follows_save (env : Env) {key : K.Key} (label : Option String) (h : l₀.Grows l) (hkey : l.Holds key) :
    (save K env key l.kind.address label).Follows (protocol K env)
      (fun l' r => l₀.Grows l' ∧ (r = .ok () → ∃ t ∈ l'.seen, K.decrypt t env.ENCRYPTION_PASSWORD = some key)) l := by
  refine follows_await (P := protocol K env) trivial (fun n _ => ?_) fun e _ => ⟨h.trans (grows_called env _ _), nofun⟩
  have hwrites : (protocol K env).allowed l
      (.upsert l.kind.address (K.encrypt key env.ENCRYPTION_PASSWORD n) label) := ⟨rfl, Or.inr ⟨key, n, rfl, hkey⟩⟩
  refine follows_perform (P := protocol K env) hwrites fun r _ => ⟨h.trans (grows_called env _ _), fun hr => ?_⟩
  subst hr
  exact ⟨_, List.mem_cons_self, K.decrypt_encrypt key env.ENCRYPTION_PASSWORD n⟩

theorem follows_getLocalWallet (chainId : ℕ) (walletAddress : String)
    (hl : l.kind = .getLocalWallet chainId walletAddress) :
    (getLocalWallet K env chainId walletAddress).Follows (protocol K env)
      (fun l' r => l'.kind = l.kind ∧ KeyEnds env l' r) l := by
  have haddress : normalizeAddress walletAddress = l.kind.address := by rw [hl]; rfl
  unfold getLocalWallet Shared.getLocalWallet
  rw [haddress]
  refine ⟨trivial, fun known _ => ?_⟩
  cases known with
  | error e => exact ⟨rfl, Or.inl (Or.inl rfl)⟩
  | ok known =>
    show Follows (protocol K env) _ (Program.bind (if known = false then _ else _) _) l
    split_ifs with hknown
    · exact ⟨rfl, Or.inr ⟨chainId, rfl⟩⟩
    · show Follows (protocol K env) _ (Program.bind (Program.handle _ _) _) l
      refine Follows.bind (Q := fun (l' : Progress K) r => l'.kind = l.kind ∧ KeyEnds env l' r) ?_
        (fun l' key h => h) fun l' e h => h
      refine (follows_load env.ENCRYPTION_PASSWORD (Grows.refl l)).handle (fun l₁ key h₁ => ⟨h₁.1.kind, h₁.2⟩)
        fun l₁ e h₁ => ?_
      have hblames : l₁.Blames env.ENCRYPTION_PASSWORD := h₁.2
      rw [← h₁.1.kind]
      refine (follows_load env.THIRDWEB_API_SECRET_KEY (Grows.refl l₁)).bind (fun l₂ key h₂ => ?_)
        fun l₂ e h₂ => ⟨h₂.1.kind, Or.inl (hblames.grows h₂.1)⟩
      have ⟨t, ht, hkey⟩ := h₂.2
      rw [← h₂.1.kind]
      refine follows_await (P := protocol K env) rfl (fun row _ => ?_)
        fun e _ => ⟨rfl, Or.inl ((hblames.grows h₂.1).grows (grows_called env _ _))⟩
      have hgrows := grows_next l₂ (.findUnique l₂.kind.address) (.ok row)
      cases row with
      | none => exact ⟨hgrows.kind, Or.inl ((hblames.grows h₂.1).grows hgrows)⟩
      | some row =>
        have hholds : (l₂.next (.findUnique l₂.kind.address) (.ok (some row))).Holds key :=
          Or.inr ⟨t, hgrows.seen t ht, _, hkey⟩
        have hsave := follows_save env row.label hgrows hholds
        rw [hgrows.kind] at hsave
        refine hsave.bind (fun l₃ _ h₃ => ⟨h₃.1.kind, h₃.2 rfl⟩) fun l₃ e h₃ => ?_
        exact ⟨h₃.1.kind, Or.inl ((hblames.grows h₂.1).grows h₃.1)⟩

theorem follows_getLocalWalletAccount (walletAddress : String) (hl : l.kind = .getLocalWalletAccount walletAddress) :
    (getLocalWalletAccount K env walletAddress).Follows (protocol K env)
      (fun l' r => l'.kind = l.kind ∧ KeyEnds env l' r) l := by
  have haddress : normalizeAddress walletAddress = l.kind.address := by rw [hl]; rfl
  unfold getLocalWalletAccount
  rw [haddress]
  refine (follows_getItem (Grows.refl l)).bind (fun l₁ json h₁ => ?_) fun l₁ e h₁ => ⟨h₁.1.kind, Or.inl (Or.inl h₁.2)⟩
  cases json with
  | none => exact ⟨h₁.1.kind, Or.inl (Or.inr (Or.inl h₁.2))⟩
  | some t =>
    by_cases hempty : t = ""
    · subst hempty
      exact ⟨h₁.1.kind, Or.inl (Or.inr (Or.inl (h₁.2.2 rfl)))⟩
    · have htext : truthy (some t) = some t := truthy_eq_some.mpr ⟨rfl, hempty⟩
      simp only [htext]
      cases hkey : K.decrypt t env.ENCRYPTION_PASSWORD with
      | none => exact ⟨h₁.1.kind, Or.inl (Or.inr (Or.inr ⟨t, h₁.2.1, hkey⟩))⟩
      | some key => exact ⟨h₁.1.kind, t, h₁.2.1, hkey⟩

/-- A request for a key ends as its contract says. -/
theorem follows_key {p : Program Calls K.Key}
    (h : p.Follows (protocol K env) (fun l' r => l'.kind = l.kind ∧ KeyEnds env l' r) l) :
    (p.bind fun key => done (some key)).Follows (protocol K env) (Progress.Ends env) l := by
  refine h.bind (fun l' key hl => hl.2) fun l' e hl _ => hl.2

/-- What a request that is not for a key returns. -/
theorem follows_other {p : Program Calls Unit} (hloads : l.kind.loads = false)
    (h : p.Follows (protocol K env) (fun l' _ => l'.kind = l.kind) l) :
    (p.bind fun _ => done none).Follows (protocol K env) (Progress.Ends env) l := by
  refine h.bind (fun l' _ hl => ?_) fun l' e hl hloads' => ?_
  · show l'.kind.loads = false
    rw [hl, hloads]
  · rw [hl, hloads] at hloads'
    cases hloads'

theorem follows_program (k : Kind K) :
    (k.program K env).Follows (protocol K env) (Progress.Ends env) { kind := k } := by
  cases k with
  | getLocalWallet chainId walletAddress => exact follows_key (follows_getLocalWallet chainId walletAddress rfl)
  | getLocalWalletAccount walletAddress => exact follows_key (follows_getLocalWalletAccount walletAddress rfl)
  | addLocalWallet key label =>
    have hsave := follows_save env label (Grows.refl { kind := Kind.addLocalWallet key label }) (Or.inl ⟨label, rfl⟩)
    exact follows_other rfl (hsave.mono fun l' r hl => hl.1.kind)
  | createWalletDetails walletAddress type label =>
    refine follows_other rfl (follows_await (P := protocol K env) rfl (fun row _ => ?_) fun e _ => rfl)
    have hgrows : Grows (K := K) { kind := .createWalletDetails walletAddress type label } _ :=
      grows_called env (.findUnique (normalizeAddress walletAddress)) (.ok row)
    cases row with
    | some row => exact hgrows.kind
    | none =>
      exact follows_perform (P := protocol K env) rfl fun r _ => (hgrows.trans (grows_called env _ _)).kind
  | updateWalletDetails walletAddress label =>
    exact follows_other rfl (follows_perform (P := protocol K env) trivial fun r _ => (grows_called env _ _).kind)
  | deleteWalletDetails walletAddress =>
    exact follows_other rfl (follows_perform (P := protocol K env) trivial fun r _ => (grows_called env _ _).kind)

end

def contract : Contract (processes K env) where
  toProtocol := protocol K env
  init k := { kind := k }
  ends := Progress.Ends env
  answers _ _ _ _ _ _ := trivial
  starts w k p w' h := by
    obtain ⟨rfl, -⟩ := Prod.mk.inj (Option.some.inj h)
    exact follows_program k

end Engine.LocalWallets
