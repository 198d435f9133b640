import Engine.Model.Types
import Engine.Text.Pattern
import Engine.Text.Separated
import Mathlib.Algebra.Group.Nat.Defs

/-! The texts of the Redis keys of the nonces, and the patterns that `KEYS` finds them by. -/
namespace Engine.Nonces

/-! ### Addresses in hexadecimal -/

def hexValue (c : Char) : ℕ := if c.isDigit then c.toNat - '0'.toNat else c.toNat - 'a'.toNat + 10

/-- The lowest `w` digits of a number. -/
def lowerHex : ℕ → ℕ → List Char
  | 0, _ => []
  | w + 1, n => lowerHex w (n / 16) ++ [Nat.digitChar (n % 16)]

def ofHex (digits : List Char) : ℕ := digits.foldl (fun n c => 16 * n + hexValue c) 0

def isHexDigit (c : Char) : Bool := c.isDigit || ('a' ≤ c && c ≤ 'f')

/-- `normalizeAddress(walletAddress)`. -/
def normalizeAddress (a : Address) : String := String.ofList ('0' :: 'x' :: lowerHex 40 a.toNat)

/-- An address from its digits. -/
def addressOf (digits : List Char) : Option Address :=
  if digits.length = 40 ∧ digits.all isHexDigit = true then some (BitVec.ofNat 160 (ofHex digits)) else none

/-- `getAddress(text)`, for a text in lower case: a checksum is not asked for. -/
def getAddress (text : String) : Option Address :=
  match text.toList with
  | '0' :: 'x' :: digits => addressOf digits
  | _ => none

theorem hexValue_digitChar (n : ℕ) : hexValue (Nat.digitChar (n % 16)) = n % 16 := by
  have hall : ∀ d < 16, hexValue (Nat.digitChar d) = d := by decide
  exact hall _ (Nat.mod_lt n (by omega))

private theorem isHexDigit_digitChar (n : ℕ) : isHexDigit (Nat.digitChar (n % 16)) = true := by
  have hall : ∀ d < 16, isHexDigit (Nat.digitChar d) = true := by decide
  exact hall _ (Nat.mod_lt n (by omega))

theorem length_lowerHex (w n : ℕ) : (lowerHex w n).length = w := by
  induction w generalizing n with
  | zero => rfl
  | succ w ih => rw [lowerHex, List.length_append, ih, List.length_singleton]

theorem all_lowerHex (w n : ℕ) : (lowerHex w n).all isHexDigit = true := by
  induction w generalizing n with
  | zero => rfl
  | succ w ih =>
    rw [lowerHex, List.all_append, ih, Bool.true_and, List.all_cons, isHexDigit_digitChar]
    rfl

private theorem ofHex_lowerHex (w n : ℕ) : ofHex (lowerHex w n) = n % 16 ^ w := by
  induction w generalizing n with
  | zero =>
    rw [Nat.pow_zero, Nat.mod_one]
    rfl
  | succ w ih =>
    have hlast : ofHex (lowerHex (w + 1) n) = 16 * ofHex (lowerHex w (n / 16)) + n % 16 := by
      rw [lowerHex, ofHex, List.foldl_append, List.foldl_cons, List.foldl_nil, hexValue_digitChar]
      rfl
    rw [hlast, ih, Nat.pow_succ, Nat.mul_comm (16 ^ w) 16, Nat.mod_mul, Nat.add_comm]

private theorem addressOf_lowerHex (a : Address) : addressOf (lowerHex 40 a.toNat) = some a := by
  have hlt : a.toNat % 16 ^ 40 = a.toNat := Nat.mod_eq_of_lt a.isLt
  unfold addressOf
  rw [if_pos ⟨length_lowerHex 40 _, all_lowerHex 40 _⟩, ofHex_lowerHex, hlt, BitVec.ofNat_toNat, BitVec.setWidth_eq]

theorem getAddress_normalizeAddress (a : Address) : getAddress (normalizeAddress a) = some a := by
  unfold getAddress normalizeAddress
  rw [String.toList_ofList]
  exact addressOf_lowerHex a

theorem normalizeAddress_inj {a b : Address} (h : normalizeAddress a = normalizeAddress b) : a = b := by
  have hparse := congrArg getAddress h
  rw [getAddress_normalizeAddress, getAddress_normalizeAddress] at hparse
  exact Option.some.inj hparse

theorem length_normalizeAddress (a : Address) : (normalizeAddress a).toList.length = 42 := by
  unfold normalizeAddress
  rw [String.toList_ofList, List.length_cons, List.length_cons, length_lowerHex]

theorem not_mem_normalizeAddress {c : Char} (hx : c ≠ 'x') (hc : isHexDigit c = false) (a : Address) :
    c ∉ (normalizeAddress a).toList := by
  intro hmem
  unfold normalizeAddress at hmem
  rw [String.toList_ofList] at hmem
  obtain rfl | hmem := List.mem_cons.mp hmem
  · cases hc
  obtain rfl | hmem := List.mem_cons.mp hmem
  · exact hx rfl
  · have hdigit := List.all_eq_true.mp (all_lowerHex 40 a.toNat) c hmem
    rw [hc] at hdigit
    cases hdigit

/-! ### Keys -/

def lastUsedNonceKey (k : Wallet) : String := "nonce:" ++ toString k.chainId ++ ":" ++ normalizeAddress k.walletAddress

def recycledNoncesKey (k : Wallet) : String :=
  "nonce-recycled:" ++ toString k.chainId ++ ":" ++ normalizeAddress k.walletAddress

def sentNoncesKey (k : Wallet) : String := "nonce-sent:" ++ toString k.chainId ++ ":" ++
    normalizeAddress k.walletAddress

def nonceMapKey (k : Wallet) : String := "nonce-map:" ++ toString k.chainId ++ ":" ++ normalizeAddress k.walletAddress

/-- The wallet of a key. A chain id that is not a number, and an address that is none, are thrown. -/
def splitKey (key : String) : Except Err Wallet :=
  match (split ':' key)[1]?.bind fun token => Codec.parseInt token.toList, (split ':' key)[2]?.bind getAddress with
  | some (Int.ofNat chainId), some walletAddress => .ok ⟨chainId, walletAddress⟩
  | _, _ => .error (Err.new "Invalid address.")

def star : Text.Piece Char := .many fun _ => true

def literal (c : Char) : Text.Piece Char := .one fun b => b = c

/-- `KEYS pattern`: a star stands for any text, and no other character of the patterns is special. -/
def globPieces (pattern : List Char) : List (Text.Piece Char) :=
  pattern.map fun c => if c = '*' then star else literal c

def globMatches (pattern key : String) : Bool := Text.matchAt (globPieces pattern.toList ++ [.stop]) true key.toList

/-- The keys of `getUsedBackendWallets`. -/
def walletPattern (chainId : Option ℕ) (walletAddress : Option Address) : String :=
  "nonce:" ++ (chainId.map toString).getD "*" ++ ":" ++ (walletAddress.map normalizeAddress).getD "*"

/-! ### Which keys are told apart -/

variable {k k' : Wallet} {kind kind' w v key : String}

/-- What comes after the first colon of a key. -/
def walletText (k : Wallet) : String := toString k.chainId ++ ":" ++ normalizeAddress k.walletAddress

def keyOf (kind : String) (k : Wallet) : String := kind ++ ":" ++ walletText k

theorem keyOf_eq {pre : String} (h : kind ++ ":" = pre) :
    pre ++ toString k.chainId ++ ":" ++ normalizeAddress k.walletAddress = keyOf kind k := by
  subst h
  simp only [keyOf, walletText, String.append_assoc]

theorem lastUsedNonceKey_eq (k : Wallet) : lastUsedNonceKey k = keyOf "nonce" k := keyOf_eq rfl

theorem recycledNoncesKey_eq (k : Wallet) : recycledNoncesKey k = keyOf "nonce-recycled" k := keyOf_eq rfl

theorem sentNoncesKey_eq (k : Wallet) : sentNoncesKey k = keyOf "nonce-sent" k := keyOf_eq rfl

theorem nonceMapKey_eq (k : Wallet) : nonceMapKey k = keyOf "nonce-map" k := keyOf_eq rfl

theorem toList_colon (s t : String) : (s ++ ":" ++ t).toList = s.toList ++ ':' :: t.toList := by
  rw [String.toList_append, String.toList_append, List.append_assoc]
  rfl

theorem toList_walletText (k : Wallet) :
    (walletText k).toList = Nat.toDigits 10 k.chainId ++ ':' :: (normalizeAddress k.walletAddress).toList := by
  unfold walletText
  rw [toList_colon, toList_toString]

theorem toList_keyOf (kind : String) (k : Wallet) :
    (keyOf kind k).toList = kind.toList ++ ':' :: (walletText k).toList := toList_colon _ _

theorem not_mem_chainId (chainId : ℕ) : ':' ∉ Nat.toDigits 10 chainId := not_mem_toDigits (by decide) chainId

theorem not_mem_walletAddress (a : Address) : ':' ∉ (normalizeAddress a).toList :=
  not_mem_normalizeAddress (by decide) (by decide) a

private theorem walletText_inj (h : walletText k = walletText k') : k = k' := by
  obtain ⟨chainId, walletAddress⟩ := k
  obtain ⟨chainId', walletAddress'⟩ := k'
  rw [← String.toList_inj, toList_walletText, toList_walletText] at h
  obtain ⟨hid, haddress⟩ := (append_cons_inj_of_not_mem (not_mem_chainId _) (not_mem_chainId _)).mp h
  obtain rfl := toDigits_inj hid
  obtain rfl := normalizeAddress_inj (String.toList_inj.mp haddress)
  rfl

theorem keyOf_inj (hkind : ':' ∉ kind.toList) (hkind' : ':' ∉ kind'.toList) :
    keyOf kind k = keyOf kind' k' ↔ kind = kind' ∧ k = k' := by
  constructor
  · intro h
    rw [← String.toList_inj, toList_keyOf, toList_keyOf, append_cons_inj_of_not_mem hkind hkind'] at h
    exact ⟨String.toList_inj.mp h.1, walletText_inj (String.toList_inj.mp h.2)⟩
  · intro h
    rw [h.1, h.2]

/-! ### What the patterns match -/

section
variable {ps : List (Text.Piece Char)} {first : Bool} {cs word : List Char}

theorem matchAt_star : Text.matchAt (star :: ps) first cs = true ↔
    ∃ pre rest, cs = pre ++ rest ∧ Text.matchAt ps (first && pre.isEmpty) rest = true := by
  unfold star
  rw [Text.matchAt_many]
  simp

theorem matchAt_literal : Text.matchAt (word.map literal ++ ps) first cs = true ↔
    ∃ rest, cs = word ++ rest ∧ Text.matchAt ps (first && word.isEmpty) rest = true := Text.matchAt_literal

theorem matchAt_stop : Text.matchAt [.stop] first cs = true ↔ cs = [] := by
  rw [Text.matchAt_stop]
  exact and_iff_left rfl

/-- A last star matches what is left. -/
theorem matchAt_last : Text.matchAt [star, .stop] first cs = true :=
  matchAt_star.mpr ⟨cs, [], (List.append_nil cs).symm, matchAt_stop.mpr rfl⟩

end

theorem globPieces_literal (hw : '*' ∉ w.toList) : globPieces w.toList = w.toList.map literal := by
  refine List.map_congr_left fun c hc => ?_
  have hne : c ≠ '*' := fun heq => hw (heq ▸ hc)
  rw [if_neg hne]

theorem globPieces_append (s t : String) : globPieces (s ++ t).toList = globPieces s.toList ++ globPieces t.toList := by
  rw [String.toList_append]
  exact List.map_append

theorem globPieces_star : globPieces "*".toList = [star] := rfl

theorem globMatches_literal (hw : '*' ∉ w.toList) : globMatches w key = true ↔ key = w := by
  unfold globMatches
  rw [globPieces_literal hw, matchAt_literal]
  constructor
  · intro h
    obtain ⟨rest, hkey, hrest⟩ := h
    rw [matchAt_stop.mp hrest, List.append_nil] at hkey
    exact String.toList_inj.mp hkey
  · rintro rfl
    exact ⟨[], (List.append_nil _).symm, matchAt_stop.mpr rfl⟩

theorem globMatches_star (hw : '*' ∉ w.toList) :
    globMatches (w ++ "*") key = true ↔ ∃ rest, key.toList = w.toList ++ rest := by
  unfold globMatches
  rw [globPieces_append, globPieces_literal hw, globPieces_star, List.append_assoc, matchAt_literal]
  constructor
  · intro h
    obtain ⟨rest, hkey, -⟩ := h
    exact ⟨rest, hkey⟩
  · intro h
    obtain ⟨rest, hkey⟩ := h
    exact ⟨rest, hkey, matchAt_last⟩

theorem globMatches_between (hw : '*' ∉ w.toList) (hv : '*' ∉ v.toList) :
    globMatches (w ++ "*" ++ v) key = true ↔ ∃ mid, key.toList = w.toList ++ (mid ++ v.toList) := by
  unfold globMatches
  rw [globPieces_append, globPieces_append, globPieces_literal hw, globPieces_literal hv, globPieces_star,
    List.append_assoc, List.append_assoc, matchAt_literal]
  constructor
  · intro h
    obtain ⟨rest, hkey, hrest⟩ := h
    obtain ⟨mid, rest', rfl, hmatch⟩ := matchAt_star.mp hrest
    obtain ⟨nothing, rfl, hstop⟩ := matchAt_literal.mp hmatch
    rw [matchAt_stop.mp hstop, List.append_nil] at hkey
    exact ⟨mid, hkey⟩
  · intro h
    obtain ⟨mid, hkey⟩ := h
    refine ⟨mid ++ v.toList, hkey, matchAt_star.mpr ⟨mid, v.toList, rfl, matchAt_literal.mpr ?_⟩⟩
    exact ⟨[], (List.append_nil _).symm, matchAt_stop.mpr rfl⟩

theorem globMatches_two_stars (hw : '*' ∉ w.toList) (hv : '*' ∉ v.toList) :
    globMatches (w ++ "*" ++ v ++ "*") key = true ↔
    ∃ mid rest, key.toList = w.toList ++ (mid ++ (v.toList ++ rest)) := by
  unfold globMatches
  rw [globPieces_append, globPieces_append, globPieces_append, globPieces_literal hw, globPieces_literal hv,
    globPieces_star, List.append_assoc, List.append_assoc, List.append_assoc, matchAt_literal]
  constructor
  · intro h
    obtain ⟨rest, hkey, hrest⟩ := h
    obtain ⟨mid, rest', rfl, hmatch⟩ := matchAt_star.mp hrest
    obtain ⟨rest, rfl, -⟩ := matchAt_literal.mp hmatch
    exact ⟨mid, rest, hkey⟩
  · intro h
    obtain ⟨mid, rest, hkey⟩ := h
    exact ⟨_, hkey, matchAt_star.mpr ⟨mid, _, rfl, matchAt_literal.mpr ⟨rest, rfl, matchAt_last⟩⟩⟩

/-! ### The keys of the used wallets -/

theorem splitKey_keyOf (hkind : ':' ∉ kind.toList) : splitKey (keyOf kind k) = .ok k := by
  have hjoin : keyOf kind k = join ':' [kind, toString k.chainId, normalizeAddress k.walletAddress] := by
    rw [← String.toList_inj, toList_keyOf, toList_walletText, join, String.toList_ofList, ← toList_toString]
    simp [List.intercalate]
  have hitems : ∀ s ∈ [kind, toString k.chainId, normalizeAddress k.walletAddress], ':' ∉ s.toList := by
    simp only [List.forall_mem_cons, toList_toString]
    exact ⟨hkind, not_mem_chainId _, not_mem_walletAddress _, fun _ h => absurd h List.not_mem_nil⟩
  have hchainId : Codec.parseInt (toString k.chainId).toList = some (k.chainId : ℤ) := by
    rw [toList_toString, Codec.parseInt_toDigits]
  unfold splitKey
  rw [hjoin, split_join (List.cons_ne_nil _ _) hitems]
  simp only [List.getElem?_cons_succ, List.getElem?_cons_zero, Option.bind_some, hchainId,
    getAddress_normalizeAddress]

private theorem not_mem_star_chainId (chainId : ℕ) : '*' ∉ (toString chainId).toList := by
  rw [toList_toString]
  exact not_mem_toDigits (by decide) chainId

theorem not_mem_star_walletAddress (a : Address) : '*' ∉ (normalizeAddress a).toList :=
  not_mem_normalizeAddress (by decide) (by decide) a

section
variable {chainId : Option ℕ} {walletAddress : Option Address}

theorem globMatches_walletPattern_iff : globMatches (walletPattern chainId walletAddress) key = true ↔
    ∃ x y, key.toList = "nonce:".toList ++ (x ++ ':' :: y) ∧ (∀ c ∈ chainId, x = Nat.toDigits 10 c) ∧
      ∀ a ∈ walletAddress, y = (normalizeAddress a).toList := by
  have hnonce : '*' ∉ "nonce:".toList := by decide
  have hcolon : '*' ∉ ":".toList := by decide
  cases chainId with
  | none =>
    cases walletAddress with
    | none =>
      have hpattern : walletPattern none none = "nonce:" ++ "*" ++ ":" ++ "*" := rfl
      rw [hpattern, globMatches_two_stars hnonce hcolon]
      constructor
      · intro h
        obtain ⟨x, y, hkey⟩ := h
        exact ⟨x, y, hkey, fun _ hc => absurd hc (Option.not_mem_none _), fun _ ha => absurd ha (Option.not_mem_none _)⟩
      · intro h
        obtain ⟨x, y, hkey, -, -⟩ := h
        exact ⟨x, y, hkey⟩
    | some a =>
      have hpattern : walletPattern none (some a) = "nonce:" ++ "*" ++ (":" ++ normalizeAddress a) :=
        String.append_assoc
      have hv : '*' ∉ (":" ++ normalizeAddress a).toList := by
        rw [String.toList_append, List.mem_append]
        exact fun h => h.elim hcolon (not_mem_star_walletAddress a)
      have hcons : (":" ++ normalizeAddress a).toList = ':' :: (normalizeAddress a).toList := String.toList_append
      rw [hpattern, globMatches_between hnonce hv, hcons]
      constructor
      · intro h
        obtain ⟨x, hkey⟩ := h
        refine ⟨x, _, hkey, fun _ hc => absurd hc (Option.not_mem_none _), ?_⟩
        rintro a' ha
        rw [Option.some.inj ha]
      · intro h
        obtain ⟨x, y, hkey, -, hy⟩ := h
        refine ⟨x, ?_⟩
        rw [hkey, hy a rfl]
  | some c =>
    have hw : '*' ∉ ("nonce:" ++ toString c ++ ":").toList := by
      rw [String.toList_append, String.toList_append, List.mem_append, List.mem_append]
      exact fun h => h.elim (fun h => h.elim hnonce (not_mem_star_chainId c)) hcolon
    have hlist : ∀ y, ("nonce:" ++ toString c ++ ":").toList ++ y = "nonce:".toList ++
      (Nat.toDigits 10 c ++ ':' :: y) := by
      intro y
      rw [String.toList_append, String.toList_append, toList_toString, List.append_assoc, List.append_assoc]
      rfl
    cases walletAddress with
    | none =>
      have hpattern : walletPattern (some c) none = "nonce:" ++ toString c ++ ":" ++ "*" := rfl
      rw [hpattern, globMatches_star hw]
      constructor
      · intro h
        obtain ⟨y, hkey⟩ := h
        refine ⟨Nat.toDigits 10 c, y, hkey.trans (hlist y), ?_, fun _ ha => absurd ha (Option.not_mem_none _)⟩
        rintro c' hc
        rw [Option.some.inj hc]
      · intro h
        obtain ⟨x, y, hkey, hx, -⟩ := h
        refine ⟨y, ?_⟩
        rw [hkey, hx c rfl, hlist]
    | some a =>
      have hpattern : walletPattern (some c) (some a) = "nonce:" ++ toString c ++ ":" ++ normalizeAddress a := rfl
      have hliteral : '*' ∉ ("nonce:" ++ toString c ++ ":" ++ normalizeAddress a).toList := by
        rw [String.toList_append, List.mem_append]
        exact fun h => h.elim hw (not_mem_star_walletAddress a)
      rw [hpattern, globMatches_literal hliteral, ← String.toList_inj, String.toList_append, hlist]
      constructor
      · intro h
        refine ⟨Nat.toDigits 10 c, (normalizeAddress a).toList, h, ?_, ?_⟩
        · rintro c' hc
          rw [Option.some.inj hc]
        · rintro a' ha
          rw [Option.some.inj ha]
      · intro h
        obtain ⟨x, y, hkey, hx, hy⟩ := h
        rw [hkey, hx c rfl, hy a rfl]

theorem globMatches_walletPattern : globMatches (walletPattern chainId walletAddress) (lastUsedNonceKey k) = true ↔
    (∀ c ∈ chainId, k.chainId = c) ∧ ∀ a ∈ walletAddress, k.walletAddress = a := by
  have hkey : (lastUsedNonceKey k).toList =
      "nonce:".toList ++ (Nat.toDigits 10 k.chainId ++ ':' :: (normalizeAddress k.walletAddress).toList) := by
    rw [lastUsedNonceKey_eq, toList_keyOf, toList_walletText]
    rfl
  rw [globMatches_walletPattern_iff, hkey]
  constructor
  · intro h
    obtain ⟨x, y, heq, hx, hy⟩ := h
    rw [List.append_right_inj] at heq
    constructor
    · intro c hc
      rw [hx c hc, append_cons_inj_of_not_mem (not_mem_chainId _) (not_mem_chainId _)] at heq
      exact toDigits_inj heq.1
    · intro a ha
      rw [hy a ha] at heq
      have hlength : (':' :: (normalizeAddress k.walletAddress).toList).length =
        (':' :: (normalizeAddress a).toList).length := by
        rw [List.length_cons, List.length_cons, length_normalizeAddress, length_normalizeAddress]
      have htail := List.append_inj_right' heq hlength
      exact normalizeAddress_inj (String.toList_inj.mp (List.cons.inj htail).2)
  · intro h
    exact ⟨_, _, rfl, fun c hc => by rw [h.1 c hc], fun a ha => by rw [h.2 a ha]⟩

end
end Engine.Nonces
