import Mathlib.Data.List.Infix
import Mathlib.Data.List.Intervals
import Engine.Codec.Integer

/-! Arrays of strings as JSON texts: what `JSON.stringify` writes and `JSON.parse` reads. -/
namespace Codec.Json

/-- A character as it is written in a JSON string. -/
def escaped (c : Char) : List Char :=
  if c = '"' then ['\\', '"']
  else if c = '\\' then ['\\', '\\']
  else if c = '\x08' then ['\\', 'b']
  else if c = '\t' then ['\\', 't']
  else if c = '\n' then ['\\', 'n']
  else if c = '\x0c' then ['\\', 'f']
  else if c = '\r' then ['\\', 'r']
  else if c.toNat < 0x20 then ['\\', 'u', '0', '0', (c.toNat / 16).digitChar, (c.toNat % 16).digitChar]
  else [c]

def quoted (cs : List Char) : List Char := '"' :: (cs.flatMap escaped ++ ['"'])

/-- `JSON.stringify(l)`. -/
def stringify (l : List String) : String :=
  String.ofList ('[' :: ([','].intercalate (l.map fun s => quoted s.toList) ++ [']']))

/-- The character that `\` and another character stand for. -/
def unescaped : Char → Option Char
  | '"' => some '"'
  | '\\' => some '\\'
  | '/' => some '/'
  | 'b' => some '\x08'
  | 't' => some '\t'
  | 'n' => some '\n'
  | 'f' => some '\x0c'
  | 'r' => some '\r'
  | _ => none

def hexValue (c : Char) : Option ℕ := if isHexDigit c then some (hexDigit c) else none

/-- The character with a code of four digits. Halves of surrogate pairs are no characters. -/
def codeUnit (a b c d : Char) : Option Char := do
  let n := 4096 * (← hexValue a) + 256 * (← hexValue b) + 16 * (← hexValue c) + (← hexValue d)
  if n.isValidChar then some (Char.ofNat n) else none

/-- A JSON string after its opening quote: what it says, and the text after it. -/
def readString : List Char → Option (List Char × List Char)
  | [] => none
  | '"' :: rest => some ([], rest)
  | '\\' :: 'u' :: a :: b :: c :: d :: rest => do
    let x ← codeUnit a b c d
    let r ← readString rest
    pure (x :: r.1, r.2)
  | '\\' :: e :: rest => do
    let x ← unescaped e
    let r ← readString rest
    pure (x :: r.1, r.2)
  | c :: rest =>
    if c = '\\' || c.toNat < 0x20 then none
    else (readString rest).map fun r => (c :: r.1, r.2)

def isSpace (c : Char) : Bool := c = ' ' || c = '\t' || c = '\n' || c = '\r'

def skip (cs : List Char) : List Char := cs.dropWhile isSpace

/-- The strings of an array from the quote of the first one, and the text after its bracket. -/
def readItems : ℕ → List Char → Option (List String × List Char)
  | n + 1, '"' :: cs => do
    let r ← readString cs
    match skip r.2 with
    | ']' :: rest => pure ([String.ofList r.1], rest)
    | ',' :: rest => do
      let rs ← readItems n (skip rest)
      pure (String.ofList r.1 :: rs.1, rs.2)
    | _ => none
  | _, _ => none

/-- `JSON.parse` of a text that is an array of strings. -/
def parseStrings (text : String) : Option (List String) :=
  match skip text.toList with
  | '[' :: cs =>
    match skip cs with
    | ']' :: rest => if skip rest = [] then some [] else none
    | cs => (readItems cs.length cs).bind fun r => if skip r.2 = [] then some r.1 else none
  | _ => none

variable {cs rest : List Char} {c : Char}

/-! ### Characters -/

theorem codeUnit_control : ∀ n < 0x20,
    codeUnit '0' '0' (n / 16).digitChar (n % 16).digitChar = some (Char.ofNat n) := by
  decide

theorem readString_plain (hquote : c ≠ '"') (hslash : c ≠ '\\') (hcontrol : ¬ c.toNat < 0x20) :
    readString (c :: rest) = (readString rest).map fun r => (c :: r.1, r.2) := by
  rw [readString.eq_5]
  · have hif : ¬ (c = '\\' ∨ c.toNat < 0x20) := by simp [hslash, hcontrol]
    simp [hslash, Nat.not_lt.1 hcontrol]
  all_goals grind

theorem escaped_plain (hquote : c ≠ '"') (hslash : c ≠ '\\') (hcontrol : 0x20 ≤ c.toNat) : escaped c = [c] := by
  have hne : ∀ d : Char, d.toNat < 0x20 → c ≠ d := by
    intro d hd heq
    rw [heq] at hcontrol
    omega
  simp [escaped, hquote, hslash, hne '\x08' (by decide), hne '\t' (by decide), hne '\n' (by decide),
    hne '\x0c' (by decide), hne '\r' (by decide), hcontrol]

theorem readString_escaped :
    readString (escaped c ++ rest) = (readString rest).map fun r => (c :: r.1, r.2) := by
  unfold escaped
  split_ifs with h₁ h₂ h₃ h₄ h₅ h₆ h₇ h₈
  · subst h₁; cases hr : readString rest <;> simp [readString, unescaped, hr]
  · subst h₂; cases hr : readString rest <;> simp [readString, unescaped, hr]
  · subst h₃; cases hr : readString rest <;> simp [readString, unescaped, hr]
  · subst h₄; cases hr : readString rest <;> simp [readString, unescaped, hr]
  · subst h₅; cases hr : readString rest <;> simp [readString, unescaped, hr]
  · subst h₆; cases hr : readString rest <;> simp [readString, unescaped, hr]
  · subst h₇; cases hr : readString rest <;> simp [readString, unescaped, hr]
  · have hc : Char.ofNat c.toNat = c := Char.ofNat_toNat c
    cases hr : readString rest <;> simp [readString, codeUnit_control c.toNat h₈, hc, hr]
  · exact readString_plain h₁ h₂ h₈

theorem flatMap_escaped (h : ∀ c ∈ cs, escaped c = [c]) : cs.flatMap escaped = cs := by
  induction cs with
  | nil => rfl
  | cons c cs ih =>
    rw [List.flatMap_cons, h c (List.mem_cons_self ..), ih fun d hd => h d (List.mem_cons_of_mem _ hd)]
    rfl

/-- A string is read back from its quoted text. -/
theorem readString_flatMap (cs rest : List Char) :
    readString (cs.flatMap escaped ++ '"' :: rest) = some (cs, rest) := by
  induction cs with
  | nil => simp [readString]
  | cons c cs ih =>
    rw [List.flatMap_cons, List.append_assoc, readString_escaped, ih]
    rfl

/-! ### Arrays -/

theorem skip_cons (h : isSpace c = false) : skip (c :: cs) = c :: cs := by
  simp [skip, h]

/-- The quoted texts of a list, as they stand between the brackets. -/
def listed (l : List String) : List Char := [','].intercalate (l.map fun s => quoted s.toList)

theorem listed_singleton (s : String) : listed [s] = quoted s.toList := by
  simp [listed, List.intercalate]

theorem listed_cons (s t : String) (l : List String) :
    listed (s :: t :: l) = quoted s.toList ++ ',' :: listed (t :: l) := by
  simp [listed, List.intercalate]

theorem listed_head (s : String) (l : List String) : ∃ cs, listed (s :: l) = '"' :: cs := by
  cases l with
  | nil => exact ⟨_, listed_singleton s⟩
  | cons t l => exact ⟨_, listed_cons s t l⟩

theorem length_le_listed (l : List String) : l.length ≤ (listed l).length := by
  induction l with
  | nil => simp
  | cons s l ih =>
    cases l with
    | nil => simp [listed_singleton, quoted]
    | cons t l =>
      have hquoted : 1 ≤ (quoted s.toList).length := by simp [quoted]
      simp only [listed_cons, List.length_append, List.length_cons] at ih ⊢
      omega

theorem readItems_listed (s : String) (l : List String) (n : ℕ) (hn : l.length < n) (rest : List Char) :
    readItems n (listed (s :: l) ++ ']' :: rest) = some (s :: l, rest) := by
  induction l generalizing s n with
  | nil =>
    obtain ⟨n, rfl⟩ : ∃ m, n = m + 1 := ⟨n - 1, by omega⟩
    have hread := readString_flatMap s.toList (']' :: rest)
    have hskip : skip (']' :: rest) = ']' :: rest := skip_cons rfl
    simp [listed_singleton, quoted, readItems, hread, hskip]
  | cons t l ih =>
    obtain ⟨n, rfl⟩ : ∃ m, n = m + 1 := ⟨n - 1, by simp at hn; omega⟩
    have hitems := ih t n (by simpa using hn)
    have hread := readString_flatMap s.toList (',' :: (listed (t :: l) ++ ']' :: rest))
    have hcomma : skip (',' :: (listed (t :: l) ++ ']' :: rest))
        = ',' :: (listed (t :: l) ++ ']' :: rest) := skip_cons rfl
    obtain ⟨cs, hcs⟩ := listed_head t l
    have hquote : skip (listed (t :: l) ++ ']' :: rest) = listed (t :: l) ++ ']' :: rest := by
      rw [hcs]; exact skip_cons rfl
    simp [listed_cons, quoted, readItems, hread, hcomma, hquote, hitems]

/-- The text of an array that is not empty. -/
theorem parseStrings_of_quote {text : String} (htext : text.toList = '[' :: '"' :: cs) :
    parseStrings text
      = (readItems (cs.length + 1) ('"' :: cs)).bind fun r => if skip r.2 = [] then some r.1 else none := by
  have hopen : skip ('[' :: '"' :: cs) = '[' :: '"' :: cs := skip_cons rfl
  have hquote : skip ('"' :: cs) = '"' :: cs := skip_cons rfl
  unfold parseStrings
  rw [htext, hopen]
  simp only [hquote]
  split
  · rename_i h
    simp at h
  · rfl

/-- An array of strings is read back from its text. -/
theorem parseStrings_stringify (l : List String) : parseStrings (stringify l) = some l := by
  cases l with
  | nil =>
    have htext : (stringify []).toList = ['[', ']'] := by simp [stringify, List.intercalate]
    have hopen : skip ['[', ']'] = ['[', ']'] := skip_cons rfl
    have hclose : skip [']'] = [']'] := skip_cons rfl
    have hend : skip [] = [] := by simp [skip]
    simp only [parseStrings, htext, hopen, hclose, hend, if_true]
  | cons s l =>
    obtain ⟨cs, hcs⟩ := listed_head s l
    have htext : (stringify (s :: l)).toList = '[' :: '"' :: (cs ++ [']']) := by
      have hlisted : (stringify (s :: l)).toList = '[' :: (listed (s :: l) ++ [']']) := by
        simp [stringify, listed]
      rw [hlisted, hcs, List.cons_append]
    have hfuel : l.length < (cs ++ [']']).length + 1 := by
      have hlength := length_le_listed (s :: l)
      rw [hcs] at hlength
      simp only [List.length_cons, List.length_append] at hlength ⊢
      omega
    have hitems := readItems_listed s l _ hfuel []
    rw [hcs, List.cons_append] at hitems
    have hparse := parseStrings_of_quote htext
    rw [hitems] at hparse
    rw [hparse, Option.bind_some]
    exact if_pos (by simp [skip])

/-! ### Texts inside -/

/-- A word without the character between two texts lies in one of them. -/
theorem infix_around (xs ys : List Char) {w : List Char} (hc : c ∉ w) :
    w <:+: xs ++ c :: ys ↔ w <:+: xs ∨ w <:+: ys := by
  constructor
  · intro h
    rcases List.infix_append_iff.mp h with hleft | hright | ⟨u, v, rfl, hsuffix, hprefix⟩
    · exact Or.inl hleft
    · rcases List.infix_cons_iff.mp hright with hprefix | hinfix
      · cases w with
        | nil => exact Or.inl List.nil_infix
        | cons d w =>
          have hhead : d = c := (List.cons_prefix_cons.mp hprefix).1
          simp [hhead] at hc
      · exact Or.inr hinfix
    · cases v with
      | nil => exact Or.inl (by simpa using hsuffix.isInfix)
      | cons d v =>
        have hhead : d = c := (List.cons_prefix_cons.mp hprefix).1
        simp [hhead] at hc
  · intro h
    rcases h with hleft | hright
    · exact hleft.trans (List.prefix_append _ _).isInfix
    · exact hright.trans ((List.suffix_cons c ys).trans (List.suffix_append xs _)).isInfix

private theorem infix_quoted {w : List Char} (hquote : '"' ∉ w) :
    w <:+: quoted cs ↔ w <:+: cs.flatMap escaped ∨ w = [] := by
  have hopen := infix_around [] (cs.flatMap escaped ++ ['"']) hquote
  have hclose := infix_around (cs.flatMap escaped) [] hquote
  simp only [List.nil_append, List.infix_nil] at hopen hclose
  rw [quoted, hopen, hclose]
  tauto

private theorem infix_listed {w : List Char} (hne : w ≠ []) (hquote : '"' ∉ w) (hcomma : ',' ∉ w) (l : List String) :
    w <:+: listed l ↔ ∃ s ∈ l, w <:+: s.toList.flatMap escaped := by
  induction l with
  | nil => simp [listed, List.intercalate, hne]
  | cons s l ih =>
    cases l with
    | nil => simp [listed_singleton, infix_quoted hquote, hne]
    | cons t l =>
      rw [listed_cons, infix_around _ _ hcomma, ih, infix_quoted hquote]
      simp only [hne, or_false, List.exists_mem_cons_iff]

/-- A word without quotes, commas and brackets is found in the text of an array exactly if it is found in
one of the strings, as they are written. -/
theorem infix_stringify {w : List Char} (hne : w ≠ []) (h : ∀ c ∈ ['"', ',', '[', ']'], c ∉ w) (l : List String) :
    w <:+: (stringify l).toList ↔ ∃ s ∈ l, w <:+: s.toList.flatMap escaped := by
  have hopen := infix_around [] (listed l ++ [']']) (h '[' (by simp))
  have hclose := infix_around (listed l) [] (h ']' (by simp))
  simp only [List.nil_append, List.infix_nil, hne, false_or, or_false] at hopen hclose
  have htext : (stringify l).toList = '[' :: (listed l ++ [']']) := by simp [stringify, listed]
  rw [htext, hopen, hclose, infix_listed hne (h '"' (by simp)) (h ',' (by simp))]

end Codec.Json
