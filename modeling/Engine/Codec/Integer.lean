import Mathlib.Data.Int.Notation
import Mathlib.Data.List.TakeWhile

/-! Integers as texts: what `parseInt` reads, and lists of numbers joined by a separator. -/
namespace Codec

def isWhitespace (c : Char) : Bool :=
  c ∈ ['\t', '\n', '\x0b', '\x0c', '\r', ' ', '\u00a0', '\u1680', '\u2028', '\u2029', '\u202f', '\u205f', '\u3000',
    '\ufeff'] || (0x2000 ≤ c.toNat && c.toNat ≤ 0x200a)

def hexDigit (c : Char) : ℕ :=
  if c.isDigit then c.toNat - '0'.toNat
  else if c.isLower then c.toNat - 'a'.toNat + 10
  else c.toNat - 'A'.toNat + 10

def isHexDigit (c : Char) : Bool := c.isDigit || ('a' ≤ c && c ≤ 'f') || ('A' ≤ c && c ≤ 'F')

/-- The digits that a text starts with. `none` is `NaN`. -/
def parseDigits (cs : List Char) : Option ℕ :=
  match cs.takeWhile Char.isDigit with
  | [] => none
  | digits => some (Nat.ofDigitChars 10 digits 0)

def parseHexDigits (cs : List Char) : Option ℕ :=
  match cs.takeWhile isHexDigit with
  | [] => none
  | digits => some (digits.foldl (fun n c => 16 * n + hexDigit c) 0)

/-- Without a sign, in the radix that the text tells. -/
def parseUnsigned : List Char → Option ℕ
  | '0' :: 'x' :: cs => parseHexDigits cs
  | '0' :: 'X' :: cs => parseHexDigits cs
  | cs => parseDigits cs

/-- `parseInt(text)`, before it is rounded to a number. Where the value goes on as an integer (the chain ids of Redis
keys and of rows, cursors), it is taken to be at most `2 ^ 53`; where it may be larger, the caller rounds it. -/
def parseInt (cs : List Char) : Option ℤ :=
  match cs.dropWhile isWhitespace with
  | '-' :: cs => (parseUnsigned cs).map fun n => -(n : ℤ)
  | '+' :: cs => (parseUnsigned cs).map fun n => (n : ℤ)
  | cs => (parseUnsigned cs).map fun n => (n : ℤ)

/-- The numbers in decimal, joined by `-`. -/
def joinDashes (ns : List ℕ) : List Char := ['-'].intercalate (ns.map (Nat.toDigits 10))

/-- `text.split("-").map((val) => parseInt(val))`. -/
def splitDashes (cs : List Char) : List (Option ℤ) := (cs.splitOn '-').map parseInt

theorem isDigit_of_mem {n : ℕ} {c : Char} (h : c ∈ Nat.toDigits 10 n) : c.isDigit = true :=
  Nat.isDigit_of_mem_toDigits (by decide) (by decide) h

theorem isWhitespace_of_isDigit {c : Char} (h : c.isDigit = true) : isWhitespace c = false := by
  by_contra hspace
  simp only [isWhitespace, Bool.not_eq_false, Bool.or_eq_true, Bool.and_eq_true, decide_eq_true_eq] at hspace
  rcases hspace with hmem | ⟨hlow, -⟩
  · have hall : ['\t', '\n', '\x0b', '\x0c', '\r', ' ', '\u00a0', '\u1680', '\u2028', '\u2029', '\u202f', '\u205f',
        '\u3000', '\ufeff'].all (fun d => !d.isDigit) = true := by decide
    have hnot := List.all_eq_true.mp hall c hmem
    rw [h] at hnot
    cases hnot
  · have hle : c.toNat ≤ 57 := by
      simp only [Char.isDigit, Bool.and_eq_true, decide_eq_true_eq] at h
      exact h.2
    omega

theorem parseDigits_of_digits {cs : List Char} (h : ∀ c ∈ cs, c.isDigit = true) (hne : cs ≠ []) :
    parseDigits cs = some (Nat.ofDigitChars 10 cs 0) := by
  unfold parseDigits
  rw [List.takeWhile_eq_self_iff.mpr h]
  split
  · exact absurd rfl hne
  · rfl

theorem parseDigits_toDigits (n : ℕ) : parseDigits (Nat.toDigits 10 n) = some n := by
  rw [parseDigits_of_digits (fun c hc => isDigit_of_mem hc) Nat.toDigits_ne_nil, Nat.ofDigitChars_ten_toDigits]

private theorem parseDigits_append {ds cs : List Char} (hne : ds ≠ []) (hdigits : ∀ c ∈ ds, c.isDigit = true)
    (hcs : ∀ c ∈ cs.head?, c.isDigit = false) : parseDigits (ds ++ cs) = some (Nat.ofDigitChars 10 ds 0) := by
  have hrest : cs.takeWhile Char.isDigit = [] := by
    cases cs with
    | nil => rfl
    | cons c cs => exact List.takeWhile_cons_of_neg (by simp [hcs c rfl])
  unfold parseDigits
  rw [List.takeWhile_append_of_pos hdigits, hrest, List.append_nil]
  split
  · exact absurd rfl hne
  · rfl

/-- Digits are read as the number they are, up to what follows them. -/
theorem parseUnsigned_append {ds cs : List Char} (hne : ds ≠ []) (hdigits : ∀ c ∈ ds, c.isDigit = true)
    (hcs : ∀ c ∈ cs.head?, c.isDigit = false ∧ c ≠ 'x' ∧ c ≠ 'X') :
    parseUnsigned (ds ++ cs) = some (Nat.ofDigitChars 10 ds 0) := by
  obtain ⟨d, ds, rfl⟩ := List.exists_cons_of_ne_nil hne
  have hsecond : ∀ c ∈ (ds ++ cs).head?, c ≠ 'x' ∧ c ≠ 'X' := by
    intro c hc
    cases ds with
    | nil => exact (hcs c hc).2
    | cons d' ds =>
      cases hc
      have hd' := hdigits c (List.mem_cons_of_mem _ List.mem_cons_self)
      constructor
      · rintro rfl
        exact absurd hd' (by decide)
      · rintro rfl
        exact absurd hd' (by decide)
  show parseUnsigned (d :: (ds ++ cs)) = _
  unfold parseUnsigned
  split
  · rename_i heq
    exact absurd rfl (hsecond 'x' (by rw [(List.cons.inj heq).2]; rfl)).1
  · rename_i heq
    exact absurd rfl (hsecond 'X' (by rw [(List.cons.inj heq).2]; rfl)).2
  · exact parseDigits_append hne hdigits fun c hc => (hcs c hc).1

theorem parseUnsigned_toDigits (n : ℕ) : parseUnsigned (Nat.toDigits 10 n) = some n := by
  have hend : ∀ c ∈ ([] : List Char).head?, c.isDigit = false ∧ c ≠ 'x' ∧ c ≠ 'X' := by
    intro c hc
    cases hc
  have happend := parseUnsigned_append (Nat.toDigits_ne_nil (n := n)) (fun c hc => isDigit_of_mem hc) hend
  rwa [List.append_nil, Nat.ofDigitChars_ten_toDigits] at happend

theorem parseInt_append {ds cs : List Char} (hne : ds ≠ []) (hdigits : ∀ c ∈ ds, c.isDigit = true)
    (hcs : ∀ c ∈ cs.head?, c.isDigit = false ∧ c ≠ 'x' ∧ c ≠ 'X') :
    parseInt (ds ++ cs) = some (Nat.ofDigitChars 10 ds 0 : ℤ) := by
  have hparse := parseUnsigned_append hne hdigits hcs
  obtain ⟨d, ds, rfl⟩ := List.exists_cons_of_ne_nil hne
  have hd := hdigits d List.mem_cons_self
  have htrim : (d :: ds ++ cs).dropWhile isWhitespace = d :: (ds ++ cs) :=
    List.dropWhile_cons_of_neg (by simp [isWhitespace_of_isDigit hd])
  unfold parseInt
  rw [htrim]
  split
  · rename_i heq
    rw [(List.cons.inj heq).1] at hd
    exact absurd hd (by decide)
  · rename_i heq
    rw [(List.cons.inj heq).1] at hd
    exact absurd hd (by decide)
  · rw [← List.cons_append, hparse]
    rfl

/-- Digits only are read as the number they are. -/
theorem parseInt_of_digits {cs : List Char} (h : ∀ c ∈ cs, c.isDigit = true) (hne : cs ≠ []) :
    parseInt cs = some (Nat.ofDigitChars 10 cs 0 : ℤ) := by
  have hend : ∀ c ∈ ([] : List Char).head?, c.isDigit = false ∧ c ≠ 'x' ∧ c ≠ 'X' := by
    intro c hc
    cases hc
  have happend := parseInt_append hne h hend
  rwa [List.append_nil] at happend

/-- A number in decimal is read back. -/
theorem parseInt_toDigits (n : ℕ) : parseInt (Nat.toDigits 10 n) = some (n : ℤ) := by
  rw [parseInt_of_digits (fun c hc => isDigit_of_mem hc) Nat.toDigits_ne_nil, Nat.ofDigitChars_ten_toDigits]

theorem parseInt_minus_toDigits (n : ℕ) : parseInt ('-' :: Nat.toDigits 10 n) = some (-(n : ℤ)) := by
  have htrim : ('-' :: Nat.toDigits 10 n).dropWhile isWhitespace = '-' :: Nat.toDigits 10 n :=
    List.dropWhile_cons_of_neg (by decide)
  unfold parseInt
  rw [htrim]
  show (parseUnsigned (Nat.toDigits 10 n) >>= fun a => pure (a : ℤ)).map (fun n => -n) = _
  rw [parseUnsigned_toDigits]
  rfl

/-- Joined numbers are read back. -/
theorem splitDashes_joinDashes {ns : List ℕ} (h : ns ≠ []) :
    splitDashes (joinDashes ns) = ns.map fun n : ℕ => some (n : ℤ) := by
  have hdash : ∀ ds ∈ ns.map (Nat.toDigits 10), '-' ∉ ds := by
    intro ds hds hmem
    obtain ⟨n, -, rfl⟩ := List.mem_map.mp hds
    have hdigit := isDigit_of_mem hmem
    revert hdigit
    decide
  unfold splitDashes joinDashes
  rw [List.splitOn_intercalate '-' hdash (by simpa using h), List.map_map]
  apply List.map_congr_left
  intro n _
  exact parseInt_toDigits n

theorem joinDashes_ascii {ns : List ℕ} {c : Char} (h : c ∈ joinDashes ns) : c.toNat < 256 := by
  induction ns with
  | nil => cases h
  | cons n ns ih =>
    have hdigit : ∀ c ∈ Nat.toDigits 10 n, c.toNat < 256 := by
      intro c hc
      have hc := isDigit_of_mem hc
      simp only [Char.isDigit, Bool.and_eq_true, decide_eq_true_eq] at hc
      have hle : c.toNat ≤ 57 := hc.2
      omega
    cases ns with
    | nil => exact hdigit c (by simpa [joinDashes] using h)
    | cons m ns =>
      have hmem : c ∈ Nat.toDigits 10 n ∨ c = '-' ∨ c ∈ joinDashes (m :: ns) := by
        simpa [joinDashes] using h
      rcases hmem with hmem | rfl | hmem
      · exact hdigit c hmem
      · decide
      · exact ih hmem

end Codec
