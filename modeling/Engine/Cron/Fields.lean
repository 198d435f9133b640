import Engine.Codec.Integer
import Engine.Cron.Progressions

/-! The grammar of a field of a cron expression, between the smallest and the greatest value of the field. -/
namespace Cron

/-- The words of an expression. -/
def words (cs : List Char) : List (List Char) := (cs.splitOnP Codec.isWhitespace).filter fun word => !word.isEmpty

/-- A number in decimal. Nothing is zero. -/
def readNumber (cs : List Char) : Option ℕ :=
  if cs.all Char.isDigit = true then some (Nat.ofDigitChars 10 cs 0) else none

/-- The range that `*` stands for. -/
def wildcard (min max : ℕ) : List Char := Nat.toDigits 10 min ++ '-' :: Nat.toDigits 10 max

def replaceWildcards (min max : ℕ) (cs : List Char) : List Char :=
  cs.flatMap fun c => if c = '*' then wildcard min max else [c]

/-- A number, or the numbers from one to another with a step. -/
def readRange (min max : ℕ) (val : List Char) (step : ℕ) : Option Progression :=
  match val.splitOn '-' with
  | [] => none
  | [n] =>
    (readNumber n).bind fun n => if min ≤ n ∧ n ≤ max then some ⟨n, n, 1, le_rfl, Nat.one_pos⟩ else none
  | first :: last :: _ =>
    if first.isEmpty = true then none
    else
      (readNumber first).bind fun first =>
        (readNumber last).bind fun last =>
          if h : first ≤ last ∧ 0 < step then
            if min ≤ first ∧ last ≤ max then some ⟨first, last, step, h.1, h.2⟩ else none
          else none

/-- `-0`, which is the number zero. Other negative numbers are in no field. -/
def isNegativeZero : List Char → Bool
  | '-' :: n => !n.isEmpty && readNumber n = some 0
  | _ => false

/-- A range, a range with a step, or a number to start from with a step. A negative number has no step. -/
def readRepeat (min max : ℕ) (val : List Char) : Option Progression :=
  match val.splitOn '/' with
  | [val] =>
    if min = 0 ∧ isNegativeZero val = true then some ⟨0, 0, 1, le_rfl, Nat.one_pos⟩ else readRange min max val 1
  | [val, step] =>
    (readNumber step).bind fun step =>
      readRange min max (if val.all Char.isDigit = true then val ++ '-' :: Nat.toDigits 10 max else val) step
  | _ => none

/-- A list of repeats. -/
def readField (min max : ℕ) (field : List Char) : Option (List Progression) :=
  if field.all (fun c => c.isDigit || c = ',' || c = '*' || c = '/' || c = '-') = true then
    ((replaceWildcards min max field).splitOn ',').mapM fun val =>
      if val.isEmpty = true then none else readRepeat min max val
  else none

variable {min max : ℕ} {cs ds : List Char} {ps : List Progression} {c : Char}

/-- The first part of a split text goes up to the separator. -/
theorem exists_splitOn (c : Char) (cs : List Char) : ∃ t, cs.splitOn c = cs.takeWhile (fun d => d ≠ c) :: t ∧
    (t = [] → c ∉ cs) := by
  induction cs with
  | nil => exact ⟨[], rfl, fun _ => List.not_mem_nil⟩
  | cons d cs ih =>
    obtain ⟨t, ht, hmem⟩ := ih
    rw [List.splitOn_cons_eq_if_modifyHead]
    by_cases hd : d = c
    · subst hd
      refine ⟨cs.splitOn d, ?_, ?_⟩
      · simp
      · intro hnil
        exact absurd hnil (List.splitOn_ne_nil d cs)
    · refine ⟨t, ?_, ?_⟩
      · rw [if_neg (by simpa using hd), ht]
        simp [hd]
      · intro hnil hc
        rcases List.mem_cons.mp hc with rfl | hc
        · exact hd rfl
        · exact hmem hnil hc

/-- The first word of a text that does not start with a space. -/
theorem head?_words (hc : Codec.isWhitespace c = false) (cs : List Char) :
    (words (c :: cs)).head? = some (c :: cs.takeWhile fun d => !Codec.isWhitespace d) := by
  have hfirst : ∀ cs : List Char, ∃ t,
      cs.splitOnP Codec.isWhitespace = (cs.takeWhile fun d => !Codec.isWhitespace d) :: t := by
    intro cs
    induction cs with
    | nil => exact ⟨[], rfl⟩
    | cons d cs ih =>
      obtain ⟨t, ht⟩ := ih
      rw [List.splitOnP_cons_eq_if_modifyHead]
      cases hd : Codec.isWhitespace d with
      | true => exact ⟨cs.splitOnP Codec.isWhitespace, by simp [hd]⟩
      | false => exact ⟨t, by simp [hd, ht]⟩
  obtain ⟨t, ht⟩ := hfirst (c :: cs)
  unfold words
  rw [ht, List.takeWhile_cons_of_pos (by simp [hc]), List.filter_cons_of_pos (by simp)]
  rfl

theorem readNumber_eq_some {n : ℕ} :
    readNumber cs = some n ↔ (∀ c ∈ cs, c.isDigit = true) ∧ Nat.ofDigitChars 10 cs 0 = n := by
  unfold readNumber
  rw [← List.all_eq_true]
  split_ifs with h
  · simp [h]
  · simp [h]

theorem not_mem_toDigits {n : ℕ} (hc : c.isDigit = false) : c ∉ Nat.toDigits 10 n := by
  intro hmem
  rw [Codec.isDigit_of_mem hmem] at hc
  cases hc

theorem not_mem_wildcard (hc : c.isDigit = false) (hdash : c ≠ '-') : c ∉ wildcard min max := by
  unfold wildcard
  rw [List.mem_append, List.mem_cons]
  rintro (h | rfl | h)
  · exact not_mem_toDigits hc h
  · exact hdash rfl
  · exact not_mem_toDigits hc h

theorem takeWhile_wildcard_append (cs : List Char) :
    (wildcard min max ++ cs).takeWhile (fun c => c ≠ ',') = wildcard min max ++ cs.takeWhile (fun c => c ≠ ',') := by
  rw [List.takeWhile_append_of_pos]
  intro c hc
  apply decide_eq_true
  rintro rfl
  exact not_mem_wildcard (by decide) (by decide) hc

/-- The range of a wildcard, with a step. -/
theorem readRange_wildcard {step : ℕ} {p : Progression} (h : readRange min max (wildcard min max) step = some p) :
    p.step = step := by
  have hsplit : (wildcard min max).splitOn '-' = [Nat.toDigits 10 min, Nat.toDigits 10 max] := by
    unfold wildcard
    rw [List.splitOn_append_cons_self_of_not_mem (not_mem_toDigits (by decide)),
      List.splitOn_eq_singleton (not_mem_toDigits (by decide))]
  unfold readRange at h
  rw [hsplit] at h
  dsimp only at h
  split_ifs at h
  obtain ⟨first, -, h⟩ := Option.bind_eq_some_iff.mp h
  obtain ⟨last, -, h⟩ := Option.bind_eq_some_iff.mp h
  split_ifs at h
  cases h
  rfl

/-- Digits up to a comma were there before wildcards were replaced. -/
theorem digits_of_replaceWildcards
    (h : ∀ c ∈ (replaceWildcards min max cs).takeWhile (fun c => c ≠ ','), c.isDigit = true) :
    cs = (replaceWildcards min max cs).takeWhile (fun c => c ≠ ',') ∨
      ∃ t, cs = (replaceWildcards min max cs).takeWhile (fun c => c ≠ ',') ++ ',' :: t := by
  induction cs with
  | nil => exact Or.inl rfl
  | cons c cs ih =>
    have hcons : replaceWildcards min max (c :: cs) =
        (if c = '*' then wildcard min max else [c]) ++ replaceWildcards min max cs := rfl
    rw [hcons] at h ⊢
    by_cases hstar : c = '*'
    · rw [if_pos hstar, takeWhile_wildcard_append] at h
      have hdash := h '-' (List.mem_append_left _ (List.mem_append_right _ List.mem_cons_self))
      exact absurd hdash (by decide)
    · rw [if_neg hstar, List.singleton_append] at h ⊢
      by_cases hcomma : c = ','
      · subst hcomma
        exact Or.inr ⟨cs, by simp⟩
      · have hhead : (c :: replaceWildcards min max cs).takeWhile (fun c => c ≠ ',') =
            c :: (replaceWildcards min max cs).takeWhile (fun c => c ≠ ',') :=
          List.takeWhile_cons_of_pos (by simpa using hcomma)
        rw [hhead] at h ⊢
        obtain heq | ⟨t, ht⟩ := ih fun d hd => h d (List.mem_cons_of_mem _ hd)
        · exact Or.inl (congrArg (List.cons c) heq)
        · exact Or.inr ⟨t, congrArg (List.cons c) ht⟩

example : readField 0 59 "-0,30".toList =
    some [⟨0, 0, 1, by decide, by decide⟩, ⟨30, 30, 1, by decide, by decide⟩] := by decide

/-- A field that starts with `*/` starts with the progression of a step that is a number, and ends or goes on with a
list after it. -/
theorem readField_wildcard (h : readField min max ('*' :: '/' :: cs) = some ps) :
    ∃ p rest digits, ps = p :: rest ∧ digits ≠ [] ∧ (∀ c ∈ digits, c.isDigit = true) ∧
      p.step = Nat.ofDigitChars 10 digits 0 ∧ (cs = digits ∨ ∃ t, cs = digits ++ ',' :: t) := by
  unfold readField at h
  split_ifs at h
  have hreplaced : replaceWildcards min max ('*' :: '/' :: cs) =
      wildcard min max ++ '/' :: replaceWildcards min max cs := rfl
  obtain ⟨t, ht, -⟩ := exists_splitOn ',' (replaceWildcards min max ('*' :: '/' :: cs))
  rw [ht, hreplaced, takeWhile_wildcard_append, List.takeWhile_cons_of_pos (by decide)] at h
  generalize hdigits : (replaceWildcards min max cs).takeWhile (fun c => c ≠ ',') = digits at h
  rw [List.mapM_cons] at h
  obtain ⟨p, hp, h⟩ := Option.bind_eq_some_iff.mp h
  obtain ⟨rest, -, h⟩ := Option.bind_eq_some_iff.mp h
  cases h
  split_ifs at hp
  unfold readRepeat at hp
  rw [List.splitOn_append_cons_self_of_not_mem (not_mem_wildcard (by decide) (by decide))] at hp
  have hwild : (wildcard min max).all Char.isDigit ≠ true := by
    intro hall
    have hdash := List.all_eq_true.mp hall '-' (List.mem_append_right _ List.mem_cons_self)
    exact absurd hdash (by decide)
  split at hp
  case h_1 val hval =>
    have htail := (List.cons.inj hval).2
    exact absurd htail (List.splitOn_ne_nil _ _)
  case h_2 val step hval =>
    obtain ⟨rfl, htail⟩ := List.cons.inj hval
    have hstep : digits = step := by
      have hjoin : ['/'].intercalate (digits.splitOn '/') = digits := List.intercalate_splitOn '/'
      rw [htail] at hjoin
      simpa using hjoin.symm
    subst hstep
    obtain ⟨n, hn, hp⟩ := Option.bind_eq_some_iff.mp hp
    rw [if_neg hwild] at hp
    have hpstep := readRange_wildcard hp
    obtain ⟨hall, hvalue⟩ := readNumber_eq_some.mp hn
    refine ⟨p, rest, digits, rfl, ?_, hall, hpstep.trans hvalue.symm, ?_⟩
    · rintro rfl
      have hpos := p.step_pos
      rw [hpstep, ← hvalue] at hpos
      exact absurd hpos (by decide)
    · rw [← hdigits] at hall ⊢
      exact digits_of_replaceWildcards hall
  case h_3 => cases hp

end Cron
