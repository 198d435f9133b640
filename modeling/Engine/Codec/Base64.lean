import Mathlib.Data.List.Basic

/-! What is asked of Base64, and Base64 with the standard alphabet and padding, over texts of code points below 256. -/
namespace Codec

/-- The two functions of a package. `none`: it throws. -/
structure Base64 where
  encode : String → Option String
  decode : String → Option String
  encode_isSome : ∀ s, (∀ c ∈ s.toList, c.toNat < 256) → (encode s).isSome = true
  /-- What was encoded is decoded again. -/
  decode_encode : ∀ s t, encode s = some t → decode t = some s
  decode_empty : decode "" = some ""

def alphabet : List Char := "ABCDEFGHIJKLMNOPQRSTUVWXYZabcdefghijklmnopqrstuvwxyz0123456789+/".toList

def sextetChar (n : ℕ) : Char := alphabet.getD n 'A'

def charSextet (c : Char) : Option ℕ := alphabet.idxOf? c

/-- The groups of six bits, the last one filled up with zeros. -/
def sextets : List ℕ → List ℕ
  | [] => []
  | [a] => [a / 4, a % 4 * 16]
  | [a, b] => [a / 4, a % 4 * 16 + b / 16, b % 16 * 4]
  | a :: b :: c :: rest => [a / 4, a % 4 * 16 + b / 16, b % 16 * 4 + c / 64, c % 64] ++ sextets rest

/-- The bytes in groups of six bits. Bits that are left over are dropped; a single group left is an error. -/
def bytes : List ℕ → Option (List ℕ)
  | [] => some []
  | [_] => none
  | [x, y] => some [x * 4 + y / 16]
  | [x, y, z] => some [x * 4 + y / 16, y % 16 * 16 + z / 4]
  | x :: y :: z :: t :: rest =>
    (bytes rest).map fun bs => [x * 4 + y / 16, y % 16 * 16 + z / 4, z % 4 * 64 + t] ++ bs

/-- How many `=` fill up the last group of four characters. -/
def padding (n : ℕ) : ℕ := (3 - n % 3) % 3

/-- Without one or two `=` at the end. -/
def unpadded : List Char → List Char
  | [] => []
  | ['='] => []
  | ['=', '='] => []
  | c :: cs => c :: unpadded cs

def isSpaceCharacter (c : Char) : Bool := c ∈ ['\t', '\n', '\x0c', '\r', ' ']

/-- `none` for a text with other code points. -/
def encode (s : String) : Option String :=
  if s.toList.all fun c => c.toNat < 256 then
    some (String.ofList ((sextets (s.toList.map Char.toNat)).map sextetChar ++
      List.replicate (padding s.toList.length) '='))
  else none

/-- `none` for a text that is not Base64. -/
def decode (s : String) : Option String :=
  let cs := s.toList.filter fun c => !isSpaceCharacter c
  let cs := if cs.length % 4 = 0 then unpadded cs else cs
  ((cs.mapM charSextet).bind bytes).map fun bs => String.ofList (bs.map Char.ofNat)

/-! ### Six bits -/

private theorem charSextet_sextetChar {n : ℕ} (h : n < 64) : charSextet (sextetChar n) = some n := by
  have hall : ∀ m < 64, charSextet (sextetChar m) = some m := by decide +kernel
  exact hall n h

theorem sextetChar_plain {n : ℕ} (h : n < 64) : sextetChar n ≠ '=' ∧ isSpaceCharacter (sextetChar n) = false := by
  have hall : ∀ m < 64, sextetChar m ≠ '=' ∧ isSpaceCharacter (sextetChar m) = false := by decide +kernel
  exact hall n h

theorem mapM_charSextet {ns : List ℕ} (h : ∀ n ∈ ns, n < 64) : (ns.map sextetChar).mapM charSextet = some ns := by
  induction ns with
  | nil => rfl
  | cons n ns ih =>
    have hn := charSextet_sextetChar (h n List.mem_cons_self)
    have hns := ih fun m hm => h m (List.mem_cons_of_mem n hm)
    rw [List.map_cons, List.mapM_cons, hn, hns]
    rfl

theorem sextets_lt {bs : List ℕ} (h : ∀ b ∈ bs, b < 256) : ∀ n ∈ sextets bs, n < 64 := by
  fun_induction sextets bs with
  | case1 => simp
  | case2 a =>
    have ha := h a (by simp)
    simp
    omega
  | case3 a b =>
    have ha := h a (by simp)
    have hb := h b (by simp)
    simp
    omega
  | case4 a b c rest ih =>
    have ha := h a (by simp)
    have hb := h b (by simp)
    have hc := h c (by simp)
    have hrest := ih fun b hb => h b (by simp [hb])
    intro n hn
    simp only [List.cons_append, List.nil_append, List.mem_cons] at hn
    rcases hn with rfl | rfl | rfl | rfl | hn
    · omega
    · omega
    · omega
    · omega
    · exact hrest n hn

theorem bytes_sextets {bs : List ℕ} (h : ∀ b ∈ bs, b < 256) : bytes (sextets bs) = some bs := by
  fun_induction sextets bs with
  | case1 => rfl
  | case2 a =>
    have ha := h a (by simp)
    simp only [bytes, Option.some.injEq, List.cons.injEq, and_true]
    omega
  | case3 a b =>
    have ha := h a (by simp)
    have hb := h b (by simp)
    simp only [bytes, Option.some.injEq, List.cons.injEq, and_true]
    omega
  | case4 a b c rest ih =>
    have ha := h a (by simp)
    have hb := h b (by simp)
    have hc := h c (by simp)
    have hrest := ih fun b hb => h b (by simp [hb])
    simp only [List.cons_append, List.nil_append, bytes, hrest, Option.map_some, Option.some.injEq, List.cons.injEq,
      and_true]
    omega

/-- Whole groups of four characters. -/
theorem length_sextets (bs : List ℕ) : ((sextets bs).length + padding bs.length) % 4 = 0 := by
  unfold padding
  fun_induction sextets bs with
  | case1 => rfl
  | case2 a => simp
  | case3 a b => simp
  | case4 a b c rest ih =>
    simp only [List.cons_append, List.nil_append, List.length_cons]
    omega

private theorem padding_le (n : ℕ) : padding n ≤ 2 := by
  unfold padding
  omega

private theorem unpadded_append {cs : List Char} (h : '=' ∉ cs) {k : ℕ} (hk : k ≤ 2) :
    unpadded (cs ++ List.replicate k '=') = cs := by
  induction cs with
  | nil =>
    have hall : ∀ k ≤ 2, unpadded ([] ++ List.replicate k '=') = [] := by decide
    exact hall k hk
  | cons c cs ih =>
    have hc : c ≠ '=' := fun hc => h (hc ▸ List.mem_cons_self)
    have hcs : '=' ∉ cs := fun hcs => h (List.mem_cons_of_mem c hcs)
    rw [List.cons_append, unpadded, ih hcs]
    · rintro rfl
      exact absurd rfl hc
    · intro hcons
      exact absurd hcons hc

/-! ### Texts -/

/-- What was encoded is decoded again. -/
theorem decode_encode {s t : String} (h : encode s = some t) : decode t = some s := by
  unfold encode at h
  split_ifs at h with hall
  obtain rfl := Option.some.inj h
  have hbytes : ∀ b ∈ s.toList.map Char.toNat, b < 256 := by
    intro b hb
    obtain ⟨c, hc, rfl⟩ := List.mem_map.mp hb
    exact of_decide_eq_true (List.all_eq_true.mp hall c hc)
  have hlt := sextets_lt hbytes
  have hplain : ∀ c ∈ (sextets (s.toList.map Char.toNat)).map sextetChar ++
      List.replicate (padding s.toList.length) '=', (!isSpaceCharacter c) = true := by
    intro c hc
    rcases List.mem_append.mp hc with hc | hc
    · obtain ⟨n, hn, rfl⟩ := List.mem_map.mp hc
      rw [(sextetChar_plain (hlt n hn)).2]
      rfl
    · rw [List.eq_of_mem_replicate hc]
      rfl
  have hnone : '=' ∉ (sextets (s.toList.map Char.toNat)).map sextetChar := by
    intro hmem
    obtain ⟨n, hn, he⟩ := List.mem_map.mp hmem
    exact (sextetChar_plain (hlt n hn)).1 he
  have hlength := length_sextets (s.toList.map Char.toNat)
  unfold decode
  simp only [String.toList_ofList]
  rw [List.filter_eq_self.mpr hplain, if_pos (by simpa using hlength), unpadded_append hnone (padding_le _),
    mapM_charSextet hlt, Option.bind_some, bytes_sextets hbytes, Option.map_some, List.map_map]
  have hchars : Char.ofNat ∘ Char.toNat = id := funext Char.ofNat_toNat
  rw [hchars, List.map_id, String.ofList_toList]

def base64 : Base64 where
  encode := encode
  decode := decode
  encode_isSome s h := by
    have hall : (s.toList.all fun c => c.toNat < 256) = true :=
      List.all_eq_true.mpr fun c hc => decide_eq_true (h c hc)
    unfold encode
    rw [if_pos hall]
    rfl
  decode_encode _ _ h := decode_encode h
  decode_empty := by decide

end Codec
