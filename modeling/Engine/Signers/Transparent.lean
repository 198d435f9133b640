import Engine.Signers.Caches
import Engine.Text.Separated

/-! What a call returns while the caches are filled. -/
namespace Engine.Signers
open Caching

/-! ### The keys -/

theorem Address.ext_text {a b : Address} (h : a.text = b.text) : a = b := by
  cases a
  cases b
  subst h
  rfl

private theorem not_mem_hexDigits {digits : List Char} (h : digits.all isHexDigit = true) : '-' ∉ digits := by
  intro hmem
  have hdigit := List.all_eq_true.mp h '-' hmem
  revert hdigit
  decide

theorem Address.not_mem (a : Address) : '-' ∉ a.text.toList := by
  have h := a.isAddress
  simp only [AddressSchema, Bool.and_eq_true, decide_eq_true_eq] at h
  obtain ⟨⟨hstart, -⟩, hdigits⟩ := h
  rw [← List.take_append_drop 2 a.text.toList, hstart, List.mem_append]
  intro hmem
  obtain hmem | hmem := hmem
  · revert hmem
    decide
  · exact not_mem_hexDigits hdigits hmem

section
variable {chainId chainId' : ℕ} {a a' : Address} {accountAddress accountAddress' : Option Address}

theorem toList_dashed (s t : String) : (s ++ "-" ++ t).toList = s.toList ++ '-' :: t.toList := by
  rw [String.toList_append, String.toList_append, List.append_assoc]
  rfl

/-- A chain id and a dash, and what comes after them. -/
theorem dashed_inj {s t : String} (h : toString chainId ++ "-" ++ s = toString chainId' ++ "-" ++ t) :
    chainId = chainId' ∧ s = t := by
  rw [← String.toList_inj, toList_dashed, toList_dashed, toList_toString, toList_toString] at h
  obtain ⟨hid, hrest⟩ := (append_cons_inj_of_not_mem (not_mem_toDigits (by decide) chainId)
    (not_mem_toDigits (by decide) chainId')).mp h
  exact ⟨toDigits_inj hid, String.toList_inj.mp hrest⟩

theorem address_dashed_inj {s t : String} (h : a.text ++ "-" ++ s = a'.text ++ "-" ++ t) : a = a' ∧ s = t := by
  rw [← String.toList_inj, toList_dashed, toList_dashed] at h
  obtain ⟨ha, hrest⟩ := (append_cons_inj_of_not_mem a.not_mem a'.not_mem).mp h
  exact ⟨Address.ext_text (String.toList_inj.mp ha), String.toList_inj.mp hrest⟩

theorem address_ne_dashed (s : String) : a.text ≠ a'.text ++ "-" ++ s := by
  intro h
  refine a.not_mem ?_
  rw [h, toList_dashed]
  exact List.mem_append_right _ List.mem_cons_self

/-- A key after its chain id. -/
def signerText (a : Address) : Option Address → String
  | some accountAddress => a.text ++ "-" ++ accountAddress.text
  | none => a.text

theorem walletCacheKey_eq : walletCacheKey chainId a accountAddress =
    toString chainId ++ "-" ++ signerText a accountAddress := by
  cases accountAddress with
  | none => rfl
  | some accountAddress => simp only [walletCacheKey, signerText, String.append_assoc]

private theorem signerText_inj (h : signerText a accountAddress = signerText a' accountAddress') :
    a = a' ∧ accountAddress = accountAddress' := by
  cases accountAddress with
  | none =>
    cases accountAddress' with
    | none => exact ⟨Address.ext_text h, rfl⟩
    | some b' => exact absurd h (address_ne_dashed _)
  | some b =>
    cases accountAddress' with
    | none => exact absurd h.symm (address_ne_dashed _)
    | some b' =>
      obtain ⟨rfl, hb⟩ := address_dashed_inj h
      exact ⟨rfl, congrArg some (Address.ext_text hb)⟩

theorem walletCacheKey_inj (h : walletCacheKey chainId a accountAddress = walletCacheKey chainId' a' accountAddress') :
    chainId = chainId' ∧ a = a' ∧ accountAddress = accountAddress' := by
  rw [walletCacheKey_eq, walletCacheKey_eq] at h
  obtain ⟨rfl, hsigner⟩ := dashed_inj h
  exact ⟨rfl, signerText_inj hsigner⟩

theorem getAccountCacheKey_inj
    (h : getAccountCacheKey chainId a accountAddress = getAccountCacheKey chainId' a' accountAddress') :
    chainId = chainId' ∧ a = a' ∧ accountAddress = accountAddress' := walletCacheKey_inj h

private theorem toString_ne_dashed (s : String) : toString chainId ≠ toString chainId' ++ "-" ++ s := by
  intro h
  refine not_mem_toDigits (c := '-') (by decide) chainId ?_
  rw [← toList_toString, h, toList_dashed]
  exact List.mem_append_right _ List.mem_cons_self

/-- An account address without a wallet is not looked at. -/
theorem sdkCacheKey_inj {walletAddress walletAddress' : Option Address}
    (h : sdkCacheKey chainId walletAddress accountAddress = sdkCacheKey chainId' walletAddress' accountAddress') :
    chainId = chainId' ∧ walletAddress = walletAddress' ∧
      (walletAddress = none ∨ accountAddress = accountAddress') := by
  cases walletAddress with
  | none =>
    cases walletAddress' with
    | none =>
      have hdigits : Nat.toDigits 10 chainId = Nat.toDigits 10 chainId' := by
        rw [← toList_toString, ← toList_toString]
        exact congrArg String.toList h
      exact ⟨toDigits_inj hdigits, rfl, Or.inl rfl⟩
    | some a' =>
      simp only [sdkCacheKey, walletCacheKey_eq] at h
      exact absurd h (toString_ne_dashed _)
  | some a =>
    cases walletAddress' with
    | none =>
      simp only [sdkCacheKey, walletCacheKey_eq] at h
      exact absurd h.symm (toString_ne_dashed _)
    | some a' =>
      obtain ⟨rfl, rfl, rfl⟩ := walletCacheKey_inj h
      exact ⟨rfl, rfl, Or.inr rfl⟩

/-- The key of a smart wallet leaves out its factory and the rest of its chain. -/
theorem cacheKey_eq_iff {p p' : SmartWalletParams} : p.cacheKey = p'.cacheKey ↔
    p.chain.id = p'.chain.id ∧ p.accountAddress = p'.accountAddress ∧ p.from = p'.from := by
  have hkey : ∀ p : SmartWalletParams, p.cacheKey = walletCacheKey p.chain.id p.accountAddress (some p.from) :=
    fun _ => rfl
  rw [hkey, hkey]
  constructor
  · intro h
    obtain ⟨hid, haccount, hfrom⟩ := walletCacheKey_inj h
    exact ⟨hid, haccount, Option.some.inj hfrom⟩
  · intro h
    rw [h.1, h.2.1, h.2.2]

end

/-! ### The caches -/

variable (o : Outside)

/-- The entries of the caches are what is made without caches, except for the smart wallets. -/
structure Consistent (s : Caches) : Prop where
  accounts : ∀ chainId a accountAddress account,
    s._accountsCache (getAccountCacheKey chainId a accountAddress) = some account →
    ((createAccount o chainId a accountAddress).run {}).1 = .ok account
  wallets : ∀ chainId a accountAddress wallet,
    s.walletsCache (walletCacheKey chainId a accountAddress) = some wallet →
    ((createWallet o chainId a accountAddress).run {}).1 = .ok wallet
  sdks : ∀ chainId walletAddress accountAddress sdk,
    s.sdkCache (sdkCacheKey chainId walletAddress accountAddress) = some sdk →
    ((createSdk o chainId (walletAddress.map fun a => getWallet o chainId a accountAddress)).run {}).1 = .ok sdk

/-- The caches are consistent, and the smart wallets satisfy a condition. -/
def Filled (Q : (String → Option Account) → Prop) (s : Caches) : Prop := Consistent o s ∧ Q s.smartWalletsCache

variable {o} {chainId : ℕ} {a : Address} {accountAddress walletAddress : Option Address}

theorem filled_empty : Filled o (fun _ => True) {} := by
  refine ⟨⟨?_, ?_, ?_⟩, trivial⟩
  · intro chainId a accountAddress account h
    cases h
  · intro chainId a accountAddress wallet h
    cases h
  · intro chainId walletAddress accountAddress sdk h
    cases h

/-! ### Results that do not depend on the caches -/

theorem settled_getWalletDetails (address : String) : Settled (Filled o) (getWalletDetails o address) :=
  Settled.liftExcept _

theorem settled_chainMetadata : Settled (Filled o) (chainMetadata o chainId) := by
  refine (Settled.liftExcept _).bind fun chainV5 => (Settled.liftExcept _).bind fun chain => ?_
  cases chain with
  | none => exact Settled.throw _
  | some chain => exact Settled.pure _

theorem settled_getItem : Settled (Filled o) (getItem o a) := by
  refine (settled_getWalletDetails _).bind fun walletDetails => ?_
  split
  · exact Settled.pure _
  · exact Settled.pure _

theorem settled_loadLocalWallet (password : String) : Settled (Filled o) (loadLocalWallet o a password) :=
  settled_getItem.bind fun _ => Settled.liftExcept _

theorem settled_getLocalWallet : Settled (Filled o) (getLocalWallet o chainId a) := by
  refine settled_chainMetadata.bind fun chain => Settled.bind ?_ fun privateKey => Settled.pure _
  refine (settled_loadLocalWallet _).tryCatch fun _ => (settled_loadLocalWallet _).bind fun privateKey => ?_
  refine (settled_getWalletDetails _).bind fun walletDetails => ?_
  cases walletDetails with
  | none => exact Settled.throw _
  | some walletDetails => exact (Settled.pure ()).bind fun _ => Settled.pure _

theorem settled_getLocalWalletAccount : Settled (Filled o) (getLocalWalletAccount o a) := by
  refine settled_getItem.bind fun json => ?_
  split
  · exact Settled.throw _
  · exact (Settled.liftExcept _).bind fun privateKey => Settled.pure _

theorem settled_getAwsKmsWallet (keyId : Option String) : Settled (Filled o) (getAwsKmsWallet o keyId) := by
  refine (Settled.liftExcept _).bind fun walletConfiguration => ?_
  cases walletConfiguration with
  | awsKms region accessKeyId secretAccessKey => exact Settled.pure _
  | _ => exact Settled.throw _

theorem settled_getGcpKmsWallet (keyId keyVersion : Option String) :
    Settled (Filled o) (getGcpKmsWallet o keyId keyVersion) := by
  refine (Settled.liftExcept _).bind fun walletConfiguration => ?_
  cases walletConfiguration with
  | gcpKms projectId locationId keyRingId email privateKey => exact Settled.pure _
  | _ => exact Settled.throw _

theorem settled_createSdk {wallet : Option (Prog EVMWallet)} (h : ∀ w ∈ wallet, Settled (Filled o) w) :
    Settled (Filled o) (createSdk o chainId wallet) := by
  refine settled_chainMetadata.bind fun chain => ?_
  cases wallet with
  | none => exact Settled.pure _
  | some getWallet => exact (h getWallet rfl).bind fun wallet => Settled.pure _

theorem Consistent.storeSdk {s : Caches} {sdk : ThirdwebSDK} (h : Consistent o s)
    (hsdk : ((createSdk o chainId (walletAddress.map fun a => getWallet o chainId a accountAddress)).run {}).1 =
      .ok sdk) :
    Consistent o { s with
      sdkCache := Function.update s.sdkCache (sdkCacheKey chainId walletAddress accountAddress) (some sdk) } := by
  refine ⟨h.accounts, h.wallets, ?_⟩
  intro chainId' walletAddress' accountAddress' sdk' hentry
  by_cases hkey : sdkCacheKey chainId' walletAddress' accountAddress' = sdkCacheKey chainId walletAddress accountAddress
  · simp only [hkey, Function.update_self] at hentry
    obtain ⟨rfl, rfl, hno⟩ := sdkCacheKey_inj hkey
    cases Option.some.inj hentry
    obtain rfl | rfl := hno
    · exact hsdk
    · exact hsdk
  · simp only [Function.update_of_ne hkey] at hentry
    exact h.sdks _ _ _ _ hentry

theorem settled_getSdk (h : ∀ a, walletAddress = some a → Settled (Filled o) (getWallet o chainId a accountAddress)) :
    Settled (Filled o) (getSdk o chainId walletAddress accountAddress) := by
  have hcreate : Settled (Filled o)
      (createSdk o chainId (walletAddress.map fun a => getWallet o chainId a accountAddress)) := by
    refine settled_createSdk fun w hw => ?_
    obtain ⟨a, ha, rfl⟩ := Option.map_eq_some_iff.mp hw
    exact h a ha
  refine Settled.readThrough filled_empty hcreate ?_ ?_
  · intro Q s sdk hs hcached
    exact hs.1.sdks _ _ _ _ hcached
  · intro Q s sdk hs hsdk
    exact ⟨hs.1.storeSdk hsdk, hs.2⟩

theorem settled_factoryOf {account : Address} : Settled (Filled o) (factoryOf o chainId account) := by
  refine ((Settled.liftExcept _).tryCatch fun _ => Settled.pure _).bind fun factoryAddress => ?_
  split
  · exact Settled.pure _
  · refine Settled.tryCatch ?_ fun _ => Settled.throw _
    have hsdk : Settled (Filled o) (getSdk o chainId none none) := settled_getSdk fun a ha => by cases ha
    exact hsdk.bind fun sdk => Settled.liftExcept _

theorem settled_getSmartWallet {wallet : EVMWallet} {account : Address} :
    Settled (Filled o) (getSmartWallet o chainId wallet account) :=
  settled_factoryOf.bind fun _ => (Settled.liftExcept _).bind fun _ => Settled.pure _

theorem settled_createWallet : Settled (Filled o) (createWallet o chainId a accountAddress) := by
  refine (settled_getWalletDetails _).bind fun walletDetails => ?_
  cases walletDetails with
  | none => exact Settled.throw _
  | some walletDetails =>
    have hbackend : Settled (Filled o) (backendWallet o chainId a walletDetails) := by
      unfold backendWallet
      split
      · exact settled_getAwsKmsWallet _
      · exact settled_getGcpKmsWallet _ _
      · exact settled_getLocalWallet
      · exact Settled.throw _
    refine hbackend.bind fun wallet => ?_
    cases accountAddress with
    | none => exact Settled.pure _
    | some accountAddress => exact settled_getSmartWallet

theorem settled_getWallet : Settled (Filled o) (getWallet o chainId a accountAddress) := by
  refine Settled.readThrough filled_empty settled_createWallet ?_ ?_
  · intro Q s wallet hs hcached
    exact hs.1.wallets _ _ _ _ hcached
  · intro Q s wallet hs hwallet
    refine ⟨⟨hs.1.accounts, ?_, hs.1.sdks⟩, hs.2⟩
    intro chainId' a' accountAddress' wallet' hentry
    by_cases hkey : walletCacheKey chainId' a' accountAddress' = walletCacheKey chainId a accountAddress
    · simp only [hkey, Function.update_self] at hentry
      obtain ⟨rfl, rfl, rfl⟩ := walletCacheKey_inj hkey
      exact hwallet.trans (congrArg Except.ok (Option.some.inj hentry))
    · simp only [Function.update_of_ne hkey] at hentry
      exact hs.1.wallets _ _ _ _ hentry

theorem settled_signerAccount {wallet : EVMWallet} {provider : Bool} :
    Settled (Filled o) (signerAccount o chainId wallet provider) := by
  refine (Settled.liftExcept _).bind fun _ => ?_
  cases provider with
  | true => exact (Settled.liftExcept _).bind fun chain => (Settled.liftExcept _).bind fun _ => Settled.pure _
  | false => exact (Settled.liftExcept _).bind fun _ => Settled.pure _

theorem settled_walletAccount {wallet : EVMWallet} {provider : Bool} :
    Settled (Filled o) (walletAccount o chainId wallet accountAddress provider) := by
  cases accountAddress with
  | none => exact settled_signerAccount
  | some accountAddress => exact settled_getSmartWallet.bind fun smartWallet => settled_signerAccount

theorem settled_createAccount : Settled (Filled o) (createAccount o chainId a accountAddress) := by
  refine (settled_getWalletDetails _).bind fun walletDetails => ?_
  cases walletDetails with
  | none => exact Settled.throw _
  | some walletDetails =>
    simp only
    split
    · exact (settled_getAwsKmsWallet _).bind fun wallet => settled_walletAccount
    · exact (settled_getGcpKmsWallet _ _).bind fun wallet => settled_walletAccount
    · cases accountAddress with
      | none => exact settled_getLocalWalletAccount
      | some accountAddress => exact settled_getLocalWallet.bind fun wallet => settled_walletAccount
    · exact Settled.throw _

theorem settled_getAccount : Settled (Filled o) (getAccount o chainId a accountAddress) := by
  refine Settled.readThrough filled_empty settled_createAccount ?_ ?_
  · intro Q s account hs hcached
    exact hs.1.accounts _ _ _ _ hcached
  · intro Q s account hs haccount
    refine ⟨⟨?_, hs.1.wallets, hs.1.sdks⟩, hs.2⟩
    intro chainId' a' accountAddress' account' hentry
    by_cases hkey : getAccountCacheKey chainId' a' accountAddress' = getAccountCacheKey chainId a accountAddress
    · simp only [hkey, Function.update_self] at hentry
      obtain ⟨rfl, rfl, rfl⟩ := getAccountCacheKey_inj hkey
      exact haccount.trans (congrArg Except.ok (Option.some.inj hentry))
    · simp only [Function.update_of_ne hkey] at hentry
      exact hs.1.accounts _ _ _ _ hentry

theorem settled_connectSmartWallet {p : SmartWalletParams} : Settled (Filled o) (connectSmartWallet o p) :=
  (Settled.liftExcept _).bind fun _ => settled_getAccount.bind fun _ =>
    (Settled.liftExcept _).bind fun _ => Settled.pure _

/-! ### The calls of a process -/

/-- A smart wallet that is made without caches. -/
def made (o : Outside) (p : SmartWalletParams) : Except Err Account := ((connectSmartWallet o p).run {}).1

/-- The call connects a smart wallet, or returns the one that was connected. -/
theorem run_getSmartWalletV5 {s : Caches} {p : SmartWalletParams} (hs : Consistent o s)
    (hm : s.smartWalletsCache p.cacheKey = none) :
    ((getSmartWalletV5 o p).run s).1 = made o p ∧ Consistent o ((getSmartWalletV5 o p).run s).2 ∧
      ((getSmartWalletV5 o p).run s).2.smartWalletsCache =
        stored (fun account m => Function.update m p.cacheKey (some account)) (made o p) s.smartWalletsCache := by
  have hsettled : Settled (Filled o) (connectSmartWallet o p) := settled_connectSmartWallet
  obtain ⟨hresult, hconsistent, hsmart⟩ := hsettled.yields filled_empty (fun m => m = s.smartWalletsCache) s ⟨hs, rfl⟩
  have hrun : (getSmartWalletV5 o p).run s = (((connectSmartWallet o p).run s).1,
      stored (Caches.setSmartWallet p.cacheKey) ((connectSmartWallet o p).run s).1
        ((connectSmartWallet o p).run s).2) :=
    run_readThrough_miss hm
  have hmade : ((connectSmartWallet o p).run s).1 = made o p := hresult
  rw [hrun, hmade]
  refine ⟨rfl, ?_⟩
  cases made o p with
  | ok account =>
    refine ⟨⟨hconsistent.accounts, hconsistent.wallets, hconsistent.sdks⟩, ?_⟩
    show Function.update ((connectSmartWallet o p).run s).2.smartWalletsCache p.cacheKey (some account) =
      Function.update s.smartWalletsCache p.cacheKey (some account)
    rw [hsmart]
  | error e => exact ⟨hconsistent, hsmart⟩

variable {c d : Call} {s : Caches} {p : SmartWalletParams}

theorem settled_perform (hc : c.smart? = none) : Settled (Filled o) (perform o c) := by
  cases c with
  | getAccount chainId a accountAddress => exact settled_getAccount.bind fun _ => Settled.pure _
  | getSmartWalletV5 p => cases hc
  | getWallet chainId a accountAddress => exact settled_getWallet.bind fun _ => Settled.pure _
  | getSdk chainId walletAddress accountAddress =>
    exact (settled_getSdk fun _ _ => settled_getWallet).bind fun _ => Settled.pure _

theorem perform_other (hs : Consistent o s) (hc : c.smart? = none) :
    ((perform o c).run s).1 = uncached o c ∧ Consistent o ((perform o c).run s).2 ∧
      ((perform o c).run s).2.smartWalletsCache = s.smartWalletsCache :=
  (settled_perform hc).yields filled_empty (fun m => m = s.smartWalletsCache) s ⟨hs, rfl⟩

theorem perform_hit {account : Account} (h : s.smartWalletsCache p.cacheKey = some account) :
    (perform o (.getSmartWalletV5 p)).run s = (.ok (.account account), s) := by
  have hrun : (getSmartWalletV5 o p).run s = (.ok account, s) := run_readThrough_hit h
  show (getSmartWalletV5 o p >>= fun account => pure (Object.account account)).run s = _
  rw [run_bind_ok hrun]
  rfl

theorem perform_miss (hs : Consistent o s) (hm : s.smartWalletsCache p.cacheKey = none) :
    ((perform o (.getSmartWalletV5 p)).run s).1 = (made o p).map Object.account ∧
      Consistent o ((perform o (.getSmartWalletV5 p)).run s).2 ∧
      ((perform o (.getSmartWalletV5 p)).run s).2.smartWalletsCache =
        stored (fun account m => Function.update m p.cacheKey (some account)) (made o p) s.smartWalletsCache := by
  obtain ⟨hresult, hconsistent, hsmart⟩ := run_getSmartWalletV5 hs hm
  have hrun : (perform o (.getSmartWalletV5 p)).run s = (((getSmartWalletV5 o p).run s).1.map Object.account,
      ((getSmartWalletV5 o p).run s).2) := by
    show (getSmartWalletV5 o p >>= fun account => pure (Object.account account)).run s = _
    rw [run_bind]
    cases ((getSmartWalletV5 o p).run s).1 with
    | ok account => rfl
    | error e => rfl
  rw [hrun, hresult]
  exact ⟨rfl, hconsistent, hsmart⟩

theorem uncached_getSmartWalletV5 : uncached o (.getSmartWalletV5 p) = (made o p).map Object.account :=
  (perform_miss filled_empty.1 rfl).1

/-- An entry of the cache for the call is what the call would make. -/
def Fits (o : Outside) (m : String → Option Account) (c : Call) : Prop :=
  ∀ p ∈ c.smart?, ∀ account ∈ m p.cacheKey, made o p = .ok account

/-- What the first call stores fits the second. -/
def Shares (o : Outside) (c d : Call) : Prop :=
  ∀ p ∈ c.smart?, ∀ p' ∈ d.smart?, p.cacheKey = p'.cacheKey → ∀ account, made o p = .ok account →
    made o p' = .ok account

theorem perform_eq_uncached_iff (hs : Consistent o s) :
    ((perform o c).run s).1 = uncached o c ↔ Fits o s.smartWalletsCache c := by
  cases c with
  | getSmartWalletV5 p =>
    rw [uncached_getSmartWalletV5]
    cases hentry : s.smartWalletsCache p.cacheKey with
    | none =>
      refine iff_of_true (perform_miss hs hentry).1 ?_
      intro p' hp' account haccount
      obtain rfl : p = p' := Option.some.inj hp'
      rw [hentry] at haccount
      cases haccount
    | some account =>
      rw [perform_hit hentry]
      constructor
      · intro h p' hp' account' haccount'
        obtain rfl : p = p' := Option.some.inj hp'
        obtain rfl : account = account' := Option.some.inj (hentry.symm.trans haccount')
        cases hmade : made o p with
        | error e =>
          rw [hmade] at h
          cases h
        | ok account' =>
          rw [hmade] at h
          cases h
          rfl
      · intro h
        rw [h p rfl account hentry]
        rfl
  | _ =>
    refine iff_of_true (perform_other hs rfl).1 ?_
    intro p hp
    cases hp

private theorem perform_consistent (hs : Consistent o s) : Consistent o ((perform o c).run s).2 := by
  cases c with
  | getSmartWalletV5 p =>
    cases hentry : s.smartWalletsCache p.cacheKey with
    | none => exact (perform_miss hs hentry).2.1
    | some account =>
      rw [perform_hit hentry]
      exact hs
  | _ => exact (perform_other hs rfl).2.1

/-- What a later call finds after a call that fitted the cache. -/
theorem fits_perform_iff (hs : Consistent o s) (hc : Fits o s.smartWalletsCache c) :
    Fits o ((perform o c).run s).2.smartWalletsCache d ↔ Fits o s.smartWalletsCache d ∧ Shares o c d := by
  cases c with
  | getSmartWalletV5 p =>
    cases hentry : s.smartWalletsCache p.cacheKey with
    | none =>
      rw [(perform_miss hs hentry).2.2]
      cases hmade : made o p with
      | error e =>
        refine (and_iff_left ?_).symm
        intro p₁ hp₁ p₂ hp₂ hkey account haccount
        obtain rfl : p = p₁ := Option.some.inj hp₁
        exact absurd (hmade.symm.trans haccount) (by simp)
      | ok account =>
        show Fits o (Function.update s.smartWalletsCache p.cacheKey (some account)) d ↔ _
        constructor
        · intro h
          constructor
          · intro p' hp' account' haccount'
            refine h p' hp' account' ?_
            have hne : p'.cacheKey ≠ p.cacheKey := by
              intro hkey
              rw [hkey, hentry] at haccount'
              cases haccount'
            rw [Function.update_of_ne hne]
            exact haccount'
          · intro p₁ hp₁ p' hp' hkey account' haccount'
            obtain rfl : p = p₁ := Option.some.inj hp₁
            refine h p' hp' account' ?_
            rw [← hkey, Function.update_self]
            exact congrArg some (Except.ok.inj (hmade.symm.trans haccount'))
        · intro h p' hp' account' haccount'
          by_cases hkey : p'.cacheKey = p.cacheKey
          · rw [hkey, Function.update_self] at haccount'
            obtain rfl : account = account' := Option.some.inj haccount'
            exact h.2 p rfl p' hp' hkey.symm account hmade
          · rw [Function.update_of_ne hkey] at haccount'
            exact h.1 p' hp' account' haccount'
    | some account =>
      rw [perform_hit hentry]
      refine ⟨fun h => ⟨h, ?_⟩, fun h => h.1⟩
      intro p₁ hp₁ p' hp' hkey account' haccount'
      obtain rfl : p = p₁ := Option.some.inj hp₁
      obtain rfl : account = account' := Except.ok.inj ((hc p rfl account hentry).symm.trans haccount')
      exact h p' hp' account (hkey ▸ hentry)
  | _ =>
    rw [(perform_other hs rfl).2.2]
    refine (and_iff_left ?_).symm
    intro p hp
    cases hp

theorem answers_eq_iff (calls : List Call) (hs : Consistent o s) :
    answers o s calls = calls.map (uncached o) ↔
      (∀ c ∈ calls, Fits o s.smartWalletsCache c) ∧ calls.Pairwise (Shares o) := by
  induction calls generalizing s with
  | nil => simp [answers]
  | cons c calls ih =>
    rw [answers, List.map_cons, List.cons_eq_cons, perform_eq_uncached_iff hs, ih (perform_consistent hs),
      List.forall_mem_cons, List.pairwise_cons]
    constructor
    · intro h
      obtain ⟨hc, hrest, hpairs⟩ := h
      have hboth : ∀ d ∈ calls, Fits o s.smartWalletsCache d ∧ Shares o c d := fun d hd =>
        (fits_perform_iff hs hc).mp (hrest d hd)
      exact ⟨⟨hc, fun d hd => (hboth d hd).1⟩, fun d hd => (hboth d hd).2, hpairs⟩
    · intro h
      obtain ⟨⟨hc, hrest⟩, hshares, hpairs⟩ := h
      exact ⟨hc, fun d hd => (fits_perform_iff hs hc).mpr ⟨hrest d hd, hshares d hd⟩, hpairs⟩

/-! ### Transparency -/

/-- The account of a wallet, made without caches. -/
def signer (o : Outside) (chainId : ℕ) («from» : Address) : Except Err Account :=
  ((getAccount o chainId «from» none).run {}).1

/-- The smart wallet can be connected: its factory is found, and its wallet. -/
def Connects (o : Outside) (p : SmartWalletParams) : Prop :=
  ∃ factoryAddress account, p.factory o = .ok factoryAddress ∧ signer o p.chain.id p.from = .ok account ∧
    o.connectAccount (.smart p.chain factoryAddress account) = .ok ()

/-- A smart wallet of the second call is asked for by the chain id, account and wallet of one that the first
call connects only if its chain and its factory are the same. -/
def Agrees (o : Outside) (c d : Call) : Prop :=
  ∀ p ∈ c.smart?, ∀ p' ∈ d.smart?, p.chain.id = p'.chain.id → p.accountAddress = p'.accountAddress →
    p.from = p'.from → Connects o p → p.chain = p'.chain ∧ p.factory o = p'.factory o

theorem made_eq : made o p = (p.factory o).bind fun factoryAddress =>
    (signer o p.chain.id p.from).bind fun account =>
      (o.connectAccount (.smart p.chain factoryAddress account)).map
        fun _ => .smart p.chain factoryAddress account := by
  unfold made connectSmartWallet signer
  rw [run_bind, run_liftM]
  cases p.factory o with
  | error e => rfl
  | ok factoryAddress =>
    show ((getAccount o p.chain.id p.from none >>= fun account =>
      (liftM (o.connectAccount (.smart p.chain factoryAddress account)) : Prog Unit) >>= fun _ =>
        pure (Account.smart p.chain factoryAddress account)).run {}).1 = _
    rw [run_bind]
    cases ((getAccount o p.chain.id p.from none).run {}).1 with
    | error e => rfl
    | ok account =>
      show (((liftM (o.connectAccount (.smart p.chain factoryAddress account)) : Prog Unit) >>= fun _ =>
        pure (Account.smart p.chain factoryAddress account)).run _).1 = _
      rw [run_bind, run_liftM]
      cases hconnect : o.connectAccount (.smart p.chain factoryAddress account) with
      | error e =>
        simp only [Except.bind, hconnect]
        rfl
      | ok _ =>
        simp only [Except.bind, hconnect]
        rfl

theorem made_eq_ok_iff {account : Account} : made o p = .ok account ↔
    ∃ factoryAddress personalAccount, p.factory o = .ok factoryAddress ∧
      signer o p.chain.id p.from = .ok personalAccount ∧
      o.connectAccount (.smart p.chain factoryAddress personalAccount) = .ok () ∧
      account = .smart p.chain factoryAddress personalAccount := by
  rw [made_eq]
  constructor
  · intro h
    cases hfactory : p.factory o with
    | error e =>
      rw [hfactory] at h
      cases h
    | ok factoryAddress =>
      cases hsigner : signer o p.chain.id p.from with
      | error e =>
        rw [hfactory, hsigner] at h
        cases h
      | ok personalAccount =>
        rw [hfactory, hsigner] at h
        cases hconnect : o.connectAccount (.smart p.chain factoryAddress personalAccount) with
        | error e =>
          simp only [Except.bind, hconnect] at h
          cases h
        | ok _ =>
          simp only [Except.bind, hconnect] at h
          cases h
          exact ⟨factoryAddress, personalAccount, rfl, rfl, hconnect, rfl⟩
  · intro h
    obtain ⟨factoryAddress, personalAccount, hfactory, hsigner, hconnect, rfl⟩ := h
    rw [hfactory, hsigner]
    simp only [Except.bind, hconnect]
    rfl

private theorem shares_iff_agrees : Shares o c d ↔ Agrees o c d := by
  constructor
  · intro h p hp p' hp' hid haccount hfrom hconnects
    obtain ⟨f, a, hfactory, hsigner, hconnect⟩ := hconnects
    have hmade := h p hp p' hp' (cacheKey_eq_iff.mpr ⟨hid, haccount, hfrom⟩) _
      (made_eq_ok_iff.mpr ⟨f, a, hfactory, hsigner, hconnect, rfl⟩)
    obtain ⟨f', a', hfactory', -, -, hsame⟩ := made_eq_ok_iff.mp hmade
    obtain ⟨hchain, rfl, -⟩ := Account.smart.inj hsame
    exact ⟨hchain, hfactory.trans hfactory'.symm⟩
  · intro h p hp p' hp' hkey account hmade
    obtain ⟨hid, haccount, hfrom⟩ := cacheKey_eq_iff.mp hkey
    obtain ⟨f, a, hfactory, hsigner, hconnect, -⟩ := made_eq_ok_iff.mp hmade
    obtain ⟨hchain, hsame⟩ := h p hp p' hp' hid haccount hfrom ⟨f, a, hfactory, hsigner, hconnect⟩
    rw [made_eq, ← hchain, ← hsame, ← hfrom, ← made_eq]
    exact hmade

/-- Every call returns what it would return without the caches, if and only if no smart wallet is asked for
by the key of another one. -/
theorem transparent_iff (o : Outside) (calls : List Call) :
    answers o {} calls = calls.map (uncached o) ↔ calls.Pairwise (Agrees o) := by
  rw [answers_eq_iff calls filled_empty.1]
  have hpairs : calls.Pairwise (Shares o) ↔ calls.Pairwise (Agrees o) :=
    List.Pairwise.iff fun _ _ => shares_iff_agrees
  rw [hpairs]
  refine and_iff_right ?_
  intro c _ p _ account haccount
  cases haccount

/-! ### One account with two factories -/

/-- A local wallet, on a chain where everything can be connected. -/
def localOnly : Outside where
  getChain chainId := .ok ⟨chainId, "https://137.rpc.thirdweb.com"⟩
  getChainMetadata chain := .ok (some ⟨chain.id, [chain.rpc]⟩)
  walletConfiguration := .ok .local
  ENCRYPTION_PASSWORD := "password"
  THIRDWEB_API_SECRET_KEY := "secret"
  walletDetails address := .ok (some { address, type := "local", encryptedJson := some "json" })
  localFile _ := none
  load _ _ := .ok "key"
  fromEncryptedJson _ _ := .ok "key"
  accountFactory _ := .ok none
  callFactory _ _ := .ok "0x1111111111111111111111111111111111111111"
  readFactory _ _ := .ok "0x1111111111111111111111111111111111111111"
  connectWallet _ := .ok ()
  getSigner _ := .ok ()
  fromEthers _ _ := .ok ()
  connectAccount _ := .ok ()

def firstFactory : SmartWalletParams where
  chain := ⟨137, "https://137.rpc.thirdweb.com"⟩
  accountAddress := ⟨"0xaaaaaaaaaaaaaaaaaaaaaaaaaaaaaaaaaaaaaaaa", by decide⟩
  «from» := ⟨"0xbbbbbbbbbbbbbbbbbbbbbbbbbbbbbbbbbbbbbbbb", by decide⟩
  accountFactoryAddress := some ⟨"0x1111111111111111111111111111111111111111", by decide⟩

def secondFactory : SmartWalletParams :=
  { firstFactory with accountFactoryAddress := some ⟨"0x2222222222222222222222222222222222222222", by decide⟩ }

theorem not_transparent : ¬ ∀ (o : Outside) (calls : List Call), answers o {} calls = calls.map (uncached o) := by
  intro hgeneral
  have h := hgeneral localOnly [.getSmartWalletV5 firstFactory, .getSmartWalletV5 secondFactory]
  revert h
  decide +kernel

end Engine.Signers
