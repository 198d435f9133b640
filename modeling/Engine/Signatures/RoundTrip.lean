import Engine.Signatures.MintPayload

/-! What is minted from a prepared payload is what was signed. -/
namespace Engine.Signatures
open Numbers Number Codec

/-- `0x` and 64 hex digits. -/
def isUid (uid : String) : Bool :=
  startsWith uid "0x" && (uid.toList.drop 2).length == 64 && (uid.toList.drop 2).all isHexDigit

/-- The price that a request asks for, in the smallest unit of a currency with `d` decimals. -/
def requested {α : Type} (d : ℕ) (body : MintInput α) : ℚ :=
  match body.priceInWei, body.price with
  | some priceInWei, _ => ((readInteger priceInWei.toList).getD 0 : ℤ)
  | none, some price => (readDecimal price.toList).getD 0 * 10 ^ d
  | none, none => 0

/-- The message is signed as this request: its texts and numbers are the integers there. -/
structure Signs (message : MintPayload) (request : MintRequest) : Prop where
  uri : request.uri = message.uri
  «to» : request.to = message.to
  price : readInteger message.price.toList = some request.price
  currency : request.currency = message.currency
  primarySaleRecipient : request.primarySaleRecipient = message.primarySaleRecipient
  royaltyRecipient : request.royaltyRecipient = message.royaltyRecipient
  royaltyBps : readInteger message.royaltyBps.toList = some request.royaltyBps
  validityStartTimestamp : message.validityStartTimestamp.value = some (request.validityStartTimestamp : ℚ)
  validityEndTimestamp : message.validityEndTimestamp.value = some (request.validityEndTimestamp : ℚ)
  uid : request.uid = message.uid

/-- The payload has the price that was asked for and an id of its own, and is minted as it was signed. -/
structure RoundTrips {α : Type} (d : ℕ) (body : MintInput α) (prepared : Prepared) : Prop where
  price : ∃ n : ℤ, readInteger prepared.mintPayload.price.toList = some n ∧ n = requested d body
  uid : body.uid = none → isUid prepared.mintPayload.uid = true
  mint : ∃ request, erc721SignatureMint prepared.mintPayload = .ok request ∧
    Signs prepared.typedDataPayload.message request

/-- A price in units is an integer that is the same in the smallest unit, unless a price in wei that is not zero comes
before it. -/
def PriceFits {α : Type} (d : ℕ) (body : MintInput α) : Prop :=
  match body.priceInWei, body.price with
  | some priceInWei, some price =>
    readInteger priceInWei.toList ≠ some 0 ∨ readInteger price.toList = some 0
  | none, some price => ∃ n, readInteger price.toList = some n ∧ (d = 0 ∨ n = 0)
  | _, none => True

/-- The text of the royalty has no exponent. -/
def RoyaltyFits {α : Type} (body : MintInput α) : Prop := ∀ n ∈ body.royaltyBps, n.val.natAbs < 10 ^ 21

section
variable {cs : List Char} {c : Char} {n : ℤ} {text : String} {α : Type} {outside : Outside α} {body : MintInput α}
  {prepared : Prepared} {d : ℕ}

/-! ### What `BigInt` reads -/

theorem isStrWhiteSpace_of_isNumeric (h : Integral.IsNumeric c) : isStrWhiteSpace c = false := by
  have hrange : 0x2B ≤ c.toNat ∧ c.toNat ≤ 0x65 := by
    rcases h with h | h
    · simp only [Char.isDigit, Bool.and_eq_true, decide_eq_true_eq] at h
      have hlow : 48 ≤ c.toNat := h.1
      have hhigh : c.toNat ≤ 57 := h.2
      omega
    · have hsign : ['-', '+', '.', 'e'].all (fun c => 0x2B ≤ c.toNat && c.toNat ≤ 0x65) = true := by decide
      simpa using List.all_eq_true.mp hsign c h
  unfold isStrWhiteSpace
  simp only [List.mem_cons, List.not_mem_nil, or_false, Bool.or_eq_false_iff, Bool.and_eq_false_iff,
    decide_eq_false_iff_not]
  omega

theorem trimmed_eq (h : ∀ c ∈ cs, isStrWhiteSpace c = false) :
    (cs.dropWhile isStrWhiteSpace).rdropWhile isStrWhiteSpace = cs := by
  have hleft : cs.dropWhile isStrWhiteSpace = cs := by
    cases cs with
    | nil => rfl
    | cons c cs => exact List.dropWhile_cons_of_neg (by simp [h c List.mem_cons_self])
  rw [hleft]
  cases cs using List.reverseRecOn with
  | nil => rfl
  | append_singleton cs c =>
    rw [List.rdropWhile_concat_neg]
    simp [h c (List.mem_append_right _ List.mem_cons_self)]

private theorem digitValue_of_isDigit (h : c.isDigit = true) : digitValue c = some (c.toNat - '0'.toNat) ∧
    c.toNat - '0'.toNat < 10 := by
  simp only [Char.isDigit, Bool.and_eq_true, decide_eq_true_eq] at h
  have hhigh : c.toNat ≤ 57 := h.2
  have hzero : '0'.toNat = 48 := rfl
  unfold digitValue
  rw [if_pos ⟨h.1, h.2⟩]
  exact ⟨rfl, by omega⟩

theorem parseDigits_of_digits (h : ∀ c ∈ cs, c.isDigit = true) (k : ℕ) :
    parseDigits 10 k cs = some (Nat.ofDigitChars 10 cs k) := by
  induction cs generalizing k with
  | nil => rfl
  | cons c cs ih =>
    obtain ⟨hvalue, hlt⟩ := digitValue_of_isDigit (h c List.mem_cons_self)
    unfold parseDigits
    rw [hvalue]
    simp only [hlt, if_true]
    rw [ih (fun c hc => h c (List.mem_cons_of_mem _ hc)), Nat.ofDigitChars_cons]

private theorem parseNumeral_of_readNumeral {k : ℕ} (h : readNumeral cs = some k) :
    parseNumeral 10 cs = some (k : ℤ) := by
  obtain ⟨hne, hdigits, rfl⟩ := readNumeral_eq_some.mp h
  unfold parseNumeral
  rw [if_neg hne, parseDigits_of_digits hdigits]
  rfl

theorem parseDigits_eq_none (h : 'e' ∈ cs) (k : ℕ) : parseDigits 10 k cs = none := by
  induction cs generalizing k with
  | nil => cases h
  | cons c cs ih =>
    unfold parseDigits
    rcases List.mem_cons.mp h with rfl | h
    · rfl
    · split
      · split
        · exact ih h _
        · rfl
      · rfl

private theorem parseTrimmed_of_readInteger (h : readInteger cs = some n) : parseTrimmed cs = some n := by
  unfold readInteger at h
  split at h
  case h_1 cs =>
    obtain ⟨k, hk, rfl⟩ := Option.map_eq_some_iff.mp h
    show (parseNumeral 10 cs).map Int.neg = _
    rw [parseNumeral_of_readNumeral hk]
    rfl
  case h_2 hne =>
    obtain ⟨k, hk, rfl⟩ := Option.map_eq_some_iff.mp h
    obtain ⟨hnil, hdigits, -⟩ := readNumeral_eq_some.mp hk
    unfold parseTrimmed
    split
    · exact absurd rfl hnil
    · exact absurd (hdigits 'x' (by simp)) (by decide)
    · exact absurd (hdigits 'X' (by simp)) (by decide)
    · exact absurd (hdigits 'o' (by simp)) (by decide)
    · exact absurd (hdigits 'O' (by simp)) (by decide)
    · exact absurd (hdigits 'b' (by simp)) (by decide)
    · exact absurd (hdigits 'B' (by simp)) (by decide)
    · exact absurd (hdigits '+' (by simp)) (by decide)
    · exact absurd (hdigits '-' (by simp)) (by decide)
    · exact parseNumeral_of_readNumeral hk

private theorem isStrWhiteSpace_of_readInteger (h : readInteger cs = some n) : ∀ c ∈ cs, isStrWhiteSpace c = false := by
  unfold readInteger at h
  split at h
  case h_1 cs =>
    obtain ⟨k, hk, -⟩ := Option.map_eq_some_iff.mp h
    intro c hc
    rcases List.mem_cons.mp hc with rfl | hc
    · exact isStrWhiteSpace_of_isNumeric (Or.inr (by decide))
    · exact isStrWhiteSpace_of_isNumeric (Or.inl ((readNumeral_eq_some.mp hk).2.1 c hc))
  case h_2 =>
    obtain ⟨k, hk, -⟩ := Option.map_eq_some_iff.mp h
    exact fun c hc => isStrWhiteSpace_of_isNumeric (Or.inl ((readNumeral_eq_some.mp hk).2.1 c hc))

/-- An integer in decimal is read as what it is. -/
theorem bigInt_of_readInteger (h : readInteger text.toList = some n) : bigInt text = .ok n := by
  unfold bigInt Migration.readBigInt
  rw [trimmed_eq (isStrWhiteSpace_of_readInteger h), parseTrimmed_of_readInteger h]

/-- No digit is read past a point or an exponent. -/
theorem parseTrimmed_eq_none {d : Char} (hd : d.isDigit = true) (hc : c = '.' ∨ c = 'e') (he : 'e' ∈ c :: cs) :
    parseTrimmed (d :: c :: cs) = none := by
  have hnumeral : parseNumeral 10 (d :: c :: cs) = none := by
    unfold parseNumeral
    rw [if_neg (List.cons_ne_nil _ _), parseDigits_eq_none (List.mem_cons_of_mem _ he)]
    rfl
  rcases hc with rfl | rfl
  all_goals
    unfold parseTrimmed
    split
    case h_1 hnil => cases hnil
    case h_8 hplus =>
      cases hplus
      cases hd
    case h_9 hminus =>
      cases hminus
      cases hd
    case h_10 => exact hnumeral
    all_goals
      rename_i hradix
      cases hradix

/-- The text of a large integer is not read. -/
theorem bigInt_text_eq_error {n : Integral} (h : 10 ^ 21 ≤ n.val.natAbs) (m : ℤ) :
    bigInt (String.ofList n.text) ≠ .ok m := by
  obtain ⟨d, c, cs, hd, hc, he, hnumeric, htext⟩ := Integral.unsignedText_of_le h
  have hunsigned : ∀ x ∈ d :: c :: cs, Integral.IsNumeric x := by
    intro x hx
    rcases List.mem_cons.mp hx with rfl | hx
    · exact Or.inl hd
    rcases List.mem_cons.mp hx with rfl | hx
    · refine Or.inr ?_
      rcases hc with rfl | rfl <;> decide
    · exact hnumeric x hx
  have hspace : ∀ x ∈ n.text, isStrWhiteSpace x = false := by
    intro x hx
    apply isStrWhiteSpace_of_isNumeric
    unfold Integral.text at hx
    rw [htext] at hx
    split_ifs at hx
    · rcases List.mem_cons.mp hx with rfl | hx
      · exact Or.inr (by decide)
      · exact hunsigned x hx
    · exact hunsigned x hx
  have hparse : parseTrimmed n.text = none := by
    unfold Integral.text
    rw [htext]
    split_ifs
    · show (parseNumeral 10 (d :: c :: cs)).map Int.neg = none
      unfold parseNumeral
      rw [if_neg (List.cons_ne_nil _ _), parseDigits_eq_none (List.mem_cons_of_mem _ he)]
      rfl
    · exact parseTrimmed_eq_none hd hc he
  unfold bigInt Migration.readBigInt
  rw [String.toList_ofList, trimmed_eq hspace, hparse]
  intro hok
  cases hok

/-! ### The price -/

theorem truthy_of_readDecimal {val : Option String} (h : ∀ text ∈ val, (readDecimal text.toList).isSome = true) :
    truthy val = val := by
  cases val with
  | none => rfl
  | some text =>
    have hne : text ≠ "" := by
      rintro rfl
      cases h "" rfl
    exact Option.filter_some_pos (decide_eq_true hne)

theorem generatedPrice_some {price : Option String} (hn : n ≠ 0) : generatedPrice (some n) price = .wei n := by
  have hsome : (some n).filter (fun n => n ≠ 0) = some n := Option.filter_some_pos (decide_eq_true hn)
  unfold generatedPrice
  rw [hsome]

/-- Without a price in wei, or with one that is zero, a price in units is taken as it is. -/
theorem generatedPrice_units {priceInWei : Option ℤ} (hwei : ∀ n ∈ priceInWei, n = 0)
    (htext : truthy (some text) = some text) :
    generatedPrice priceInWei (some text) = .units text := by
  have hnone : priceInWei.filter (fun n => n ≠ 0) = none := Option.filter_eq_none_iff.mpr (by simpa using hwei)
  unfold generatedPrice
  rw [hnone, htext]

theorem generatedPrice_none {priceInWei : Option ℤ} (hwei : ∀ n ∈ priceInWei, n = 0) :
    generatedPrice priceInWei none = .wei 0 := by
  have hnone : priceInWei.filter (fun n => n ≠ 0) = none := Option.filter_eq_none_iff.mpr (by simpa using hwei)
  unfold generatedPrice
  rw [hnone]
  rfl

theorem readInteger_wei (n : ℤ) : readInteger (Price.wei n).toString.toList = some n := by
  unfold Price.toString
  rw [String.toList_ofList, readInteger_integerText]

private theorem maybeBigInt_of_readInteger {priceInWei : Option ℤ}
    (hwei : ∀ text ∈ body.priceInWei, (readInteger text.toList).isSome = true)
    (h : maybeBigInt body.priceInWei = .ok priceInWei) :
    priceInWei = body.priceInWei.bind fun text => readInteger text.toList := by
  unfold maybeBigInt at h
  cases hbody : body.priceInWei with
  | none =>
    rw [hbody] at h
    cases h
    rfl
  | some text =>
    obtain ⟨n, hn⟩ := Option.isSome_iff_exists.mp (hwei text hbody)
    have htruthy : truthy body.priceInWei = some text := by
      rw [truthy_of_readDecimal, hbody]
      intro text htext
      obtain ⟨n, hn⟩ := Option.isSome_iff_exists.mp (hwei text htext)
      rw [readDecimal_of_readInteger hn]
      rfl
    rw [htruthy] at h
    simp only [bigInt_of_readInteger hn] at h
    cases h
    exact hn.symm

/-- An integer is itself in units of `10 ^ d` of it only if it is zero, or these are of one. -/
theorem eq_mul_pow_iff (n : ℤ) (d : ℕ) : (n : ℚ) = n * 10 ^ d ↔ d = 0 ∨ n = 0 := by
  constructor
  · intro h
    by_contra hne
    rw [not_or] at hne
    have hn : (n : ℚ) ≠ 0 := Int.cast_ne_zero.mpr hne.2
    have hpow : (1 : ℚ) < 10 ^ d := one_lt_pow₀ (by norm_num) hne.1
    exact hpow.ne (mul_left_cancel₀ hn ((mul_one _).trans h))
  · rintro (rfl | rfl) <;> simp

/-- The price is right exactly where it fits. -/
theorem price_iff {priceInWei : Option ℤ} (hprice : ∀ text ∈ body.price, (readDecimal text.toList).isSome = true)
    (hwei : ∀ text ∈ body.priceInWei, (readInteger text.toList).isSome = true)
    (h : maybeBigInt body.priceInWei = .ok priceInWei) :
    (∃ n : ℤ, readInteger (generatedPrice priceInWei body.price).toString.toList = some n ∧ n = requested d body) ↔
      PriceFits d body := by
  have htruthy := truthy_of_readDecimal hprice
  have hpriceInWei := maybeBigInt_of_readInteger hwei h
  unfold requested PriceFits
  cases hwei' : body.priceInWei with
  | none =>
    rw [hwei', Option.bind_none] at hpriceInWei
    subst hpriceInWei
    cases hprice' : body.price with
    | none => simp [generatedPrice_none, readInteger_wei]
    | some price =>
      rw [hprice'] at htruthy
      rw [generatedPrice_units (by simp) htruthy]
      show (∃ n : ℤ, readInteger price.toList = some n ∧ (n : ℚ) = (readDecimal price.toList).getD 0 * 10 ^ d) ↔ _
      constructor
      · rintro ⟨n, hn, heq⟩
        rw [readDecimal_of_readInteger hn] at heq
        exact ⟨n, hn, (eq_mul_pow_iff n d).mp heq⟩
      · rintro ⟨n, hn, hfits⟩
        rw [readDecimal_of_readInteger hn]
        exact ⟨n, hn, (eq_mul_pow_iff n d).mpr hfits⟩
  | some text =>
    obtain ⟨m, hm⟩ := Option.isSome_iff_exists.mp (hwei text hwei')
    rw [hwei', Option.bind_some, hm] at hpriceInWei
    subst hpriceInWei
    simp only [hm]
    by_cases hzero : m = 0
    · subst hzero
      cases hprice' : body.price with
      | none => simp [generatedPrice_none, readInteger_wei]
      | some price =>
        rw [hprice'] at htruthy
        rw [generatedPrice_units (by simp) htruthy]
        simp [Price.toString, hm]
    · rw [generatedPrice_some hzero]
      cases hprice' : body.price with
      | none => simp [readInteger_wei]
      | some price => simp [readInteger_wei, hm, hzero]

/-! ### The royalty, the dates and the id -/

/-- The royalty is the one of the request, or one of the contract. -/
theorem royaltyInfo_bps {royalty : String × Integral} (h : royaltyInfo outside body = .ok royalty) :
    body.royaltyBps = some royalty.2 ∨ body.royaltyBps = none ∧ ∃ bits, royalty.2 = Integral.ofBits bits := by
  unfold royaltyInfo at h
  split at h
  case h_1 royaltyRecipient royaltyBps _ hbps =>
    cases h
    exact Or.inl (Option.filter_eq_some_iff.mp hbps).1
  case h_2 =>
    split at h
    · cases h
      cases hbps : body.royaltyBps with
      | none => exact Or.inr ⟨rfl, _, rfl⟩
      | some n => exact Or.inl rfl
    · cases h

theorem royaltyFits_iff {royalty : String × Integral} (h : royaltyInfo outside body = .ok royalty) :
    royalty.2.val.natAbs < 10 ^ 21 ↔ RoyaltyFits body := by
  unfold RoyaltyFits
  rcases royaltyInfo_bps h with hbps | ⟨hbps, bits, hbits⟩
  · rw [hbps]
    simp
  · have hlt := bits.isLt
    rw [hbps, hbits]
    show bits.val < 10 ^ 21 ↔ _
    simp
    omega

/-- The seconds of a date are a number that converts to them. -/
theorem value_of_dateToSeconds {date : Option ℤ} (h : dateToSeconds date = .ok n) :
    (nearest n).value = some (n : ℚ) ∧ bigIntOfNumber (nearest n) = .ok n := by
  unfold dateToSeconds at h
  cases date with
  | none => cases h
  | some t =>
    dsimp only at h
    unfold bigIntOfNumber at h
    split at h
    case h_1 m hm =>
      cases h
      have hx := Integral.nearest_of_integer hm
      unfold bigIntOfNumber
      rw [hx, hm]
      exact ⟨Integral.value_of_integer hm, rfl⟩
    case h_2 => cases h

private theorem length_randomBytesHex (bytes : Vector UInt8 32) : (randomBytesHex bytes).toList.length = 64 := by
  unfold randomBytesHex
  rw [String.toList_ofList, List.length_flatMap]
  have htwo : bytes.toList.map (fun b => (hexOfByte b).length) = bytes.toList.map fun _ => 2 := rfl
  rw [htwo, List.map_const', List.sum_replicate, Vector.length_toList]
  rfl

/-- The random id has no `0x`. -/
theorem isUid_randomBytesHex (bytes : Vector UInt8 32) : isUid (randomBytesHex bytes) = false := by
  have hlength : ((randomBytesHex bytes).toList.drop 2).length = 62 := by
    rw [List.length_drop, length_randomBytesHex]
  unfold isUid
  rw [hlength]
  simp

/-! ### The two routes -/

theorem generateMintSignaturePayload_eq_ok {mintRequest : MintRequestOptions α} {generated : GeneratedPayload}
    (h : generateMintSignaturePayload outside mintRequest = .ok generated) :
    generated.price = generatedPrice mintRequest.priceInWei mintRequest.price ∧
      generated.royaltyBps = mintRequest.royaltyBps ∧
      generated.uid = (truthy mintRequest.uid).getD (randomBytesHex outside.randomBytes) ∧
      (∃ date, dateToSeconds date = .ok generated.validityStartTimestamp) ∧
      ∃ date, dateToSeconds date = .ok generated.validityEndTimestamp := by
  unfold generateMintSignaturePayload at h
  obtain ⟨uri, -, h⟩ := Migration.bind_eq_ok.mp h
  obtain ⟨validityStartTimestamp, hstart, h⟩ := Migration.bind_eq_ok.mp h
  obtain ⟨validityEndTimestamp, hend, h⟩ := Migration.bind_eq_ok.mp h
  cases h
  exact ⟨rfl, rfl, rfl, ⟨_, hstart⟩, ⟨_, hend⟩⟩

/-- What is sent back is generated with the royalties and the price of the request, and is the message too. -/
theorem erc721SignaturePrepare_eq_ok (h : erc721SignaturePrepare outside body = .ok prepared) :
    ∃ royalty priceInWei mintRequest generated, royaltyInfo outside body = .ok royalty ∧
      maybeBigInt body.priceInWei = .ok priceInWei ∧ generateMintSignaturePayload outside mintRequest = .ok generated ∧
      mintRequest.price = body.price ∧ mintRequest.priceInWei = priceInWei ∧ mintRequest.royaltyBps = royalty.2 ∧
      mintRequest.uid = body.uid ∧ prepared.mintPayload = sanitized generated ∧
      prepared.typedDataPayload.message = sanitized generated := by
  unfold erc721SignaturePrepare at h
  obtain ⟨royalty, hroyalty, h⟩ := Migration.bind_eq_ok.mp h
  obtain ⟨primarySaleRecipient, -, h⟩ := Migration.bind_eq_ok.mp h
  obtain ⟨priceInWei, hpriceInWei, h⟩ := Migration.bind_eq_ok.mp h
  obtain ⟨generated, hgenerated, h⟩ := Migration.bind_eq_ok.mp h
  cases h
  exact ⟨royalty, priceInWei, _, generated, hroyalty, hpriceInWei, hgenerated, rfl, rfl, rfl, rfl, rfl, rfl⟩

/-- With a price that is read, a payload is minted as it was signed exactly where its royalty has no exponent. -/
theorem mint_iff {generated : GeneratedPayload} (hprice : readInteger generated.price.toString.toList = some n)
    (hstart : ∃ date, dateToSeconds date = .ok generated.validityStartTimestamp)
    (hend : ∃ date, dateToSeconds date = .ok generated.validityEndTimestamp) :
    (∃ request, erc721SignatureMint (sanitized generated) = .ok request ∧ Signs (sanitized generated) request) ↔
      generated.royaltyBps.val.natAbs < 10 ^ 21 := by
  obtain ⟨startTime, hstart⟩ := hstart
  obtain ⟨endTime, hend⟩ := hend
  constructor
  · rintro ⟨request, hrequest, -⟩
    unfold erc721SignatureMint at hrequest
    obtain ⟨price, -, hrequest⟩ := Migration.bind_eq_ok.mp hrequest
    obtain ⟨royaltyBps, hroyalty, -⟩ := Migration.bind_eq_ok.mp hrequest
    by_contra hle
    exact bigInt_text_eq_error (not_lt.mp hle) royaltyBps hroyalty
  · intro hlt
    obtain ⟨royaltyBps, hroyalty⟩ := Integral.readInteger_text hlt
    have hread : readInteger (sanitized generated).royaltyBps.toList = some royaltyBps := by
      show readInteger (String.ofList generated.royaltyBps.text).toList = _
      rw [String.toList_ofList, hroyalty]
    obtain ⟨hstartValue, hstartInt⟩ := value_of_dateToSeconds hstart
    obtain ⟨hendValue, hendInt⟩ := value_of_dateToSeconds hend
    refine ⟨⟨generated.uri, generated.to, n, generated.currency, generated.primarySaleRecipient,
      generated.royaltyRecipient, royaltyBps, generated.validityStartTimestamp, generated.validityEndTimestamp,
      generated.uid⟩, ?_, ?_⟩
    · unfold erc721SignatureMint
      refine Migration.bind_eq_ok.mpr ⟨n, bigInt_of_readInteger hprice, ?_⟩
      refine Migration.bind_eq_ok.mpr ⟨royaltyBps, bigInt_of_readInteger hread, ?_⟩
      refine Migration.bind_eq_ok.mpr ⟨_, hstartInt, ?_⟩
      refine Migration.bind_eq_ok.mpr ⟨_, hendInt, ?_⟩
      rfl
    · exact {
        uri := rfl
        «to» := rfl
        price := hprice
        currency := rfl
        primarySaleRecipient := rfl
        royaltyRecipient := rfl
        royaltyBps := hread
        validityStartTimestamp := hstartValue
        validityEndTimestamp := hendValue
        uid := rfl }

/-- A payload round-trips exactly where its id is given, its price is not in units that have to be converted, and its
royalty is below `10 ^ 21`. -/
theorem roundTrips_iff (d : ℕ) (h : erc721SignaturePrepare outside body = .ok prepared)
    (hprice : ∀ text ∈ body.price, (readDecimal text.toList).isSome = true)
    (hwei : ∀ text ∈ body.priceInWei, (readInteger text.toList).isSome = true) :
    RoundTrips d body prepared ↔ body.uid.isSome = true ∧ PriceFits d body ∧ RoyaltyFits body := by
  obtain ⟨royalty, priceInWei, mintRequest, generated, hroyalty, hpriceInWei, hgenerated, hmprice, hmwei, hmbps, hmuid,
    hpayload, hmessage⟩ := erc721SignaturePrepare_eq_ok h
  obtain ⟨hgprice, hgbps, hguid, hstart, hend⟩ := generateMintSignaturePayload_eq_ok hgenerated
  have hpriceIff := price_iff (d := d) hprice hwei hpriceInWei
  rw [← hmprice, ← hmwei, ← hgprice] at hpriceIff
  have hroyaltyIff := royaltyFits_iff hroyalty
  rw [← hmbps, ← hgbps] at hroyaltyIff
  constructor
  · intro hround
    have hread := hround.price
    have hmint := hround.mint
    rw [hpayload] at hread
    rw [hpayload, hmessage] at hmint
    obtain ⟨n, hn, hrequested⟩ := hread
    refine ⟨?_, hpriceIff.mp ⟨n, hn, hrequested⟩, hroyaltyIff.mp ((mint_iff hn hstart hend).mp hmint)⟩
    by_contra huid
    rw [Option.not_isSome_iff_eq_none] at huid
    have hisUid := hround.uid huid
    rw [hpayload] at hisUid
    have hrandom : (sanitized generated).uid = randomBytesHex outside.randomBytes := by
      show generated.uid = _
      rw [hguid, hmuid, huid]
      rfl
    rw [hrandom, isUid_randomBytesHex] at hisUid
    cases hisUid
  · rintro ⟨huid, hfits, hroyaltyFits⟩
    obtain ⟨n, hn, hrequested⟩ := hpriceIff.mpr hfits
    refine ⟨?_, ?_, ?_⟩
    · rw [hpayload]
      exact ⟨n, hn, hrequested⟩
    · intro hnone
      rw [hnone] at huid
      cases huid
    · rw [hpayload, hmessage]
      exact (mint_iff hn hstart hend).mpr (hroyaltyIff.mpr hroyaltyFits)

/-! ### A contract without royalties -/

theorem newDate_of_value {x : Number} {t : ℤ} (hx : x.value = some (t : ℚ)) (ht : |t| ≤ 8640000000000000) :
    newDate x = some t := by
  have hcast : |(t : ℚ)| ≤ 8640000000000000 := by exact_mod_cast ht
  unfold newDate
  rw [hx]
  dsimp only
  rw [if_pos hcast]
  unfold trunc
  split_ifs
  · rw [Int.ceil_intCast]
  · rw [Int.floor_intCast]

/-- Whole seconds are kept. -/
theorem dateToSeconds_mul {t : ℤ} (h : |1000 * t| ≤ 2 ^ 53) : dateToSeconds (some (1000 * t)) = .ok t := by
  have hsmall : |t| ≤ 2 ^ 53 := by
    rw [abs_mul] at h
    have hle : 1 * |t| ≤ |1000| * |t| := mul_le_mul_of_nonneg_right (by decide) (abs_nonneg t)
    omega
  have hthousand : (ofNat 1000).value = some ((1000 : ℕ) : ℚ) := value_ofNat (by decide)
  have hquotient : div (nearest ((1000 * t : ℤ) : ℚ)) (ofNat 1000) = nearest (t : ℚ) := by
    rw [div_of_value (value_intCast h) hthousand (by norm_num)]
    congr 1
    push_cast
    field_simp
  have hfloor : toInteger (fun q => ⌊q⌋) (nearest (t : ℚ)) = nearest (t : ℚ) := by
    rw [nearest_intCast hsmall]
    show nearest ((⌊(t : ℚ)⌋ : ℤ) : ℚ) = _
    rw [Int.floor_intCast, nearest_intCast hsmall]
  unfold dateToSeconds
  dsimp only
  rw [hquotient, hfloor]
  unfold bigIntOfNumber
  rw [Integral.integer_of_value (value_intCast hsmall)]

/-- A contract that has no royalties, at the start of the clock. -/
def plain : Outside Empty where
  chainId := 1
  address := zeroAddress
  getDefaultRoyaltyInfo := .ok (zeroAddress, 0)
  getDefaultPrimarySaleRecipient := .ok zeroAddress
  upload := nofun
  randomBytes := Vector.replicate 32 0
  now := 0
  mintRequest721 := [("to", "address"), ("royaltyRecipient", "address"), ("royaltyBps", "uint256"),
    ("primarySaleRecipient", "address"), ("uri", "string"), ("price", "uint256"), ("currency", "address"),
    ("validityStartTimestamp", "uint128"), ("validityEndTimestamp", "uint128"), ("uid", "bytes32")]

/-- The payload that `plain` gives for a price and an id. -/
def plainPayload (price uid : String) : MintPayload where
  uri := ""
  «to» := zeroAddress
  price := price
  currency := zeroAddress
  primarySaleRecipient := zeroAddress
  royaltyRecipient := zeroAddress
  royaltyBps := String.ofList (Integral.ofBits 0).text
  validityStartTimestamp := nearest (0 : ℤ)
  validityEndTimestamp := nearest (315360000 : ℤ)
  uid := uid

def plainInput (price priceInWei uid : Option String) : MintInput Empty :=
  { metadata := .text "", «to» := zeroAddress, price := price, priceInWei := priceInWei, uid := uid }

theorem prepare_plain (price uid : Option String) {priceInWei : Option String} {wei : Option ℤ}
    (hwei : maybeBigInt priceInWei = .ok wei) :
    ∃ prepared, erc721SignaturePrepare plain (plainInput price priceInWei uid) = .ok prepared ∧
      prepared.mintPayload = plainPayload (generatedPrice wei price).toString
        ((truthy uid).getD (randomBytesHex plain.randomBytes)) := by
  have hstart : dateToSeconds (newDate (ofNat 0)) = .ok 0 := by
    have hzero : (ofNat 0).value = some ((0 : ℤ) : ℚ) := value_ofNat (by decide)
    rw [newDate_of_value hzero (by decide)]
    exact dateToSeconds_mul (t := 0) (by decide)
  have hend : dateToSeconds (tenYearsFromNow 0) = .ok 315360000 := by
    unfold tenYearsFromNow
    rw [add_ofNat (by decide)]
    have hvalue : (ofNat (0 + 315360000000)).value = some ((315360000000 : ℤ) : ℚ) := value_ofNat (by decide)
    rw [newDate_of_value hvalue (by decide)]
    exact dateToSeconds_mul (t := 315360000) (by decide)
  have hgenerated : ∃ generated, generateMintSignaturePayload plain {
      metadata := .text ""
      «to» := zeroAddress
      price := price
      priceInWei := wei
      currency := none
      primarySaleRecipient := zeroAddress
      royaltyRecipient := zeroAddress
      royaltyBps := Integral.ofBits 0
      validityStartTimestamp := none
      validityEndTimestamp := none
      uid := uid } = .ok generated ∧ sanitized generated = plainPayload (generatedPrice wei price).toString
        ((truthy uid).getD (randomBytesHex plain.randomBytes)) := by
    unfold generateMintSignaturePayload
    exact ⟨_, Migration.bind_eq_ok.mpr ⟨"", rfl, Migration.bind_eq_ok.mpr ⟨0, hstart,
      Migration.bind_eq_ok.mpr ⟨315360000, hend, rfl⟩⟩⟩, rfl⟩
  obtain ⟨generated, hgenerated, hsanitized⟩ := hgenerated
  unfold erc721SignaturePrepare
  exact ⟨_, Migration.bind_eq_ok.mpr ⟨(zeroAddress, Integral.ofBits 0), rfl, Migration.bind_eq_ok.mpr ⟨zeroAddress, rfl,
    Migration.bind_eq_ok.mpr ⟨wei, hwei, Migration.bind_eq_ok.mpr ⟨generated, hgenerated, rfl⟩⟩⟩⟩, hsanitized⟩

/-- A payload with an id and a price in wei. -/
theorem roundTrips_iff_wei : ∃ prepared,
    erc721SignaturePrepare plain (plainInput none (some "5") (some "0x01")) = .ok prepared ∧
      RoundTrips 18 (plainInput none (some "5") (some "0x01")) prepared := by
  have hwei : maybeBigInt (some "5") = .ok (some 5) := rfl
  obtain ⟨prepared, hprepared, -⟩ := prepare_plain none (some "0x01") hwei
  have hroyalty : RoyaltyFits (plainInput none (some "5") (some "0x01")) := by
    intro n hn
    cases hn
  have hread : ∀ text ∈ (plainInput none (some "5") (some "0x01")).priceInWei,
      (readInteger text.toList).isSome = true := by
    intro text htext
    cases htext
    decide
  have hiff := roundTrips_iff 18 hprepared (fun text htext => by cases htext) hread
  exact ⟨prepared, hprepared, hiff.mpr ⟨rfl, trivial, hroyalty⟩⟩

/-- A price with a fraction is not read again. -/
theorem not_roundTrips : ∃ prepared, erc721SignaturePrepare plain (plainInput (some "0.1") none none) = .ok prepared ∧
    ¬ RoundTrips 18 (plainInput (some "0.1") none none) prepared := by
  have hwei : maybeBigInt none = .ok none := rfl
  obtain ⟨prepared, hprepared, hpayload⟩ := prepare_plain (some "0.1") none hwei
  refine ⟨prepared, hprepared, ?_⟩
  intro hround
  obtain ⟨n, hn, -⟩ := hround.price
  rw [hpayload] at hn
  have hnone : readInteger "0.1".toList = none := by decide
  cases hnone.symm.trans hn

end

end Engine.Signatures
