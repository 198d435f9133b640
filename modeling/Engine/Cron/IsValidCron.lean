import Engine.Cron.Fields
import Engine.Model.Types
import Engine.Text.Separated

/-! `utils/cron/isValidCron.ts`, which is to keep ten seconds between two runs of a schedule. -/
namespace Engine.Schedules
open Cron

def invalidCron (detail : String) : Err := createCustomError ("Invalid cron expression. " ++ detail) 400 "BAD_REQUEST"

/-- `parseInt(field.split("/")[1])`. None is `NaN`. -/
def intervalOf (field : String) : Option ℤ := Codec.parseInt ((split '/' field).getD 1 "").toList

/-- The interval is a number outside of the bounds. -/
def isOutside (minValue maxValue : ℤ) (parsedValue : Option ℤ) : Bool :=
  parsedValue.any fun n => n < minValue || n > maxValue

def checkCronFieldInterval (field : String) (minValue maxValue : ℤ) (fieldName : String) : Except Err Unit :=
  if startsWith field "*/" && isOutside minValue maxValue (intervalOf field) then
    .error (invalidCron (fieldName ++ " must be between " ++ toString minValue ++ " and " ++ toString maxValue ++
      " when using an interval."))
  else .ok ()

/-- The check of the field of the seconds. -/
def checkSeconds (seconds : String) : Except Err Unit :=
  let parsedSecondsValue := if startsWith seconds "*/" then some (intervalOf seconds) else none
  if parsedSecondsValue.any (isOutside 10 59) || seconds = "*" || seconds = "*/1" then
    .error (invalidCron (if parsedSecondsValue.isSome then "Seconds must be between 10 and 59 when using an interval."
      else "Cannot run every second of every minute of every hour."))
  else .ok ()

/-- `parseExpression` of the cron parser gives the seconds of the expression. None is thrown. -/
def isValidCron (parseExpression : String → Option (List ℕ)) (input : String) : Except Err Bool :=
  match parseExpression input with
  | none => .error (invalidCron "Please check the cron expression.")
  | some _ =>
    match split ' ' input with
    | [seconds, minutes, hours, dayOfMonth, month, dayOfWeek] => do
      checkSeconds seconds
      checkCronFieldInterval minutes 0 59 "Minutes"
      checkCronFieldInterval hours 0 23 "Hours"
      checkCronFieldInterval dayOfMonth 1 31 "Day of month"
      checkCronFieldInterval month 1 12 "Month"
      checkCronFieldInterval dayOfWeek 0 7 "Day of week"
      return true
    | _ => .error (invalidCron "Please check the cron expression.")

/-! ### The seconds of an expression -/

/-- The field of the seconds. It is zero in an expression of fewer than six words. -/
def secondsField (input : String) : List Char :=
  match words input.toList with
  | [seconds, _, _, _, _, _] => seconds
  | _ => ['0']

/-- The parser reads the field of the seconds of the expression by its grammar. -/
def ReadsSeconds (parseExpression : String → Option (List ℕ)) (input : String) : Prop :=
  ∀ seconds, parseExpression input = some seconds → ∃ ps, readField 0 59 (secondsField input) = some ps ∧
    ∀ x, x ∈ seconds ↔ ∃ p ∈ ps, p.has x = true

/-- Two different seconds of the expression are ten apart. -/
def RespectsFloor (parseExpression : String → Option (List ℕ)) (input : String) : Prop :=
  ∀ seconds, parseExpression input = some seconds →
    ∀ x ∈ seconds, ∀ y ∈ seconds, x ≠ y → x + 10 ≤ y ∨ y + 10 ≤ x

/-- The items of the seconds whose step is not looked at: all but a first one of the form `*/n`. -/
def uncheckedItems (input : String) (ps : List Progression) : List Progression :=
  if startsWith ((split ' ' input).headD "") "*/" then ps.tail else ps

/-- An item that is not looked at runs once or in steps of ten, and the items keep from one another. -/
def ItemsFit (input : String) : Prop :=
  ∀ ps, readField 0 59 (secondsField input) = some ps →
    (∀ p ∈ uncheckedItems input ps, p.isCoarse 10) ∧ ∀ p ∈ ps, ∀ q ∈ ps, KeepsFrom 10 p q

section
variable {parseExpression : String → Option (List ℕ)} {input : String} {cs ds : List Char} {ps : List Progression}

/-- What the check of an accepted expression leaves for an interval of the seconds. -/
theorem checkSeconds_of_isValidCron (h : isValidCron parseExpression input = .ok true) :
    checkSeconds ((split ' ' input).headD "") = .ok () := by
  unfold isValidCron at h
  split at h
  case h_1 => cases h
  case h_2 =>
    split at h
    case h_1 seconds minutes hours dayOfMonth month dayOfWeek hfields =>
      rw [hfields]
      cases hcheck : checkSeconds seconds with
      | ok u => exact hcheck
      | error e =>
        rw [hcheck] at h
        cases h
    case h_2 => cases h

theorem headD_split (c : Char) (input : String) :
    (split c input).headD "" = String.ofList (input.toList.takeWhile fun d => d ≠ c) := by
  obtain ⟨t, ht, -⟩ := exists_splitOn c input.toList
  unfold split
  rw [ht]
  rfl

/-- A field that starts with `*/` is read up to the next slash. -/
theorem intervalOf_wildcard (cs : List Char) :
    intervalOf (String.ofList ('*' :: '/' :: cs)) = Codec.parseInt (cs.takeWhile fun c => c ≠ '/') := by
  have hslash : '/' ∉ ['*'] := by decide
  have hsplit : ('*' :: '/' :: cs).splitOn '/' = ['*'] :: cs.splitOn '/' :=
    List.splitOn_append_cons_self_of_not_mem hslash cs
  obtain ⟨t, ht, -⟩ := exists_splitOn '/' cs
  unfold intervalOf split
  rw [String.toList_ofList, hsplit, ht]
  show Codec.parseInt (String.ofList (cs.takeWhile fun c => c ≠ '/')).toList = _
  rw [String.toList_ofList]

private theorem head?_takeWhile {f : Char → Bool} {c : Char} (h : c ∈ (cs.takeWhile f).head?) : c ∈ cs.head? := by
  cases cs with
  | nil => cases h
  | cons d cs =>
    rw [List.takeWhile_cons] at h
    split_ifs at h
    · exact h
    · cases h

/-- No number goes on behind a word. -/
theorem head?_dropWhile_word {c : Char} (h : c ∈ (cs.dropWhile fun d => !Codec.isWhitespace d).head?) :
    c.isDigit = false ∧ c ≠ 'x' ∧ c ≠ 'X' := by
  have hspace : Codec.isWhitespace c = true := by
    have hnot := List.head?_dropWhile_not (fun d => !Codec.isWhitespace d) cs
    rw [h] at hnot
    simpa using hnot
  refine ⟨?_, ?_, ?_⟩
  · by_contra hdigit
    rw [Codec.isWhitespace_of_isDigit (by simpa using hdigit)] at hspace
    cases hspace
  · rintro rfl
    exact absurd hspace (by decide)
  · rintro rfl
    exact absurd hspace (by decide)

/-- The interval of an expression that starts with `*/` is the step of the first item of its seconds. -/
theorem intervalOf_eq_step (hstar : startsWith ((split ' ' input).headD "") "*/" = true) {seconds : List Char}
    {rest : List (List Char)} (hwords : words input.toList = seconds :: rest)
    (hread : readField 0 59 seconds = some ps) :
    ∃ p ∈ ps.head?, intervalOf ((split ' ' input).headD "") = some (p.step : ℤ) := by
  rw [headD_split] at hstar ⊢
  obtain ⟨field, hfield⟩ := List.isPrefixOf_iff_prefix.mp hstar
  have hfield : ['*', '/'] ++ field = input.toList.takeWhile fun d => d ≠ ' ' := hfield.trans String.toList_ofList
  obtain ⟨cs, hinput⟩ : ∃ cs, input.toList = '*' :: '/' :: cs := by
    have hprefix := (List.takeWhile_prefix (fun d => d ≠ ' ') (l := input.toList))
    rw [← hfield] at hprefix
    obtain ⟨cs, hcs⟩ := hprefix
    exact ⟨field ++ cs, hcs.symm⟩
  rw [hinput] at hwords ⊢
  have hword : seconds = '*' :: '/' :: cs.takeWhile fun d => !Codec.isWhitespace d := by
    have hhead := head?_words (c := '*') (by decide) ('/' :: cs)
    rw [hwords] at hhead
    exact (Option.some.inj hhead).trans (congrArg (List.cons '*') (List.takeWhile_cons_of_pos (by decide)))
  rw [hword] at hread
  obtain ⟨p, rest', digits, rfl, hne, hdigits, hstep, hcs⟩ := readField_wildcard hread
  -- what follows the digits in the expression
  obtain ⟨tail, htail, hend⟩ :
      ∃ tail, cs = digits ++ tail ∧ ∀ c ∈ tail.head?, c.isDigit = false ∧ c ≠ 'x' ∧ c ≠ 'X' := by
    have hsplit := List.takeWhile_append_dropWhile (p := fun d => !Codec.isWhitespace d) (l := cs)
    obtain heq | ⟨t, heq⟩ := hcs
    · rw [heq] at hsplit
      exact ⟨_, hsplit.symm, fun c hc => head?_dropWhile_word hc⟩
    · rw [heq, List.append_assoc] at hsplit
      refine ⟨_, hsplit.symm, ?_⟩
      intro c hc
      cases hc
      decide
  have hfield : ('*' :: '/' :: cs).takeWhile (fun d => d ≠ ' ') = '*' :: '/' :: cs.takeWhile fun d => d ≠ ' ' := rfl
  have hspace : ∀ c ∈ digits, decide (c ≠ ' ') = true := by
    intro c hc
    apply decide_eq_true
    rintro rfl
    exact absurd (hdigits ' ' hc) (by decide)
  have hslash : ∀ c ∈ digits, decide (c ≠ '/') = true := by
    intro c hc
    apply decide_eq_true
    rintro rfl
    exact absurd (hdigits '/' hc) (by decide)
  refine ⟨p, rfl, ?_⟩
  rw [hfield, intervalOf_wildcard, htail, List.takeWhile_append_of_pos hspace, List.takeWhile_append_of_pos hslash,
    hstep]
  exact Codec.parseInt_append hne hdigits fun c hc => hend c (head?_takeWhile (head?_takeWhile hc))

/-- A first item of the form `*/n` has been looked at. -/
theorem isCoarse_head (h : isValidCron parseExpression input = .ok true)
    (hstar : startsWith ((split ' ' input).headD "") "*/" = true)
    (hread : readField 0 59 (secondsField input) = some ps) : ∀ p ∈ ps.head?, p.isCoarse 10 := by
  have hcheck := checkSeconds_of_isValidCron h
  unfold secondsField at hread
  split at hread
  case h_1 seconds a b c d e hwords =>
    obtain ⟨p, hp, hinterval⟩ := intervalOf_eq_step hstar hwords hread
    intro p' hp'
    cases hp.symm.trans hp'
    unfold checkSeconds at hcheck
    rw [if_pos hstar, hinterval] at hcheck
    have hinside : isOutside 10 59 (some (p.step : ℤ)) = false := by
      by_contra houtside
      rw [Bool.not_eq_false] at houtside
      simp [houtside] at hcheck
    simp only [isOutside, Option.any_some, Bool.or_eq_false_iff, decide_eq_false_iff_not] at hinside
    intro _
    omega
  case h_2 =>
    have hzero : readField 0 59 ['0'] = some [⟨0, 0, 1, le_rfl, Nat.one_pos⟩] := by decide
    cases hread.symm.trans hzero
    intro p hp
    cases hp
    intro hlast
    exact absurd hlast (by decide)

/-- An accepted expression keeps the floor of ten seconds exactly where the items that are not looked at do, and all
items keep from one another. -/
theorem respectsFloor_iff (hparse : ReadsSeconds parseExpression input)
    (h : isValidCron parseExpression input = .ok true) :
    RespectsFloor parseExpression input ↔ ItemsFit input := by
  cases hseconds : parseExpression input with
  | none =>
    unfold isValidCron at h
    rw [hseconds] at h
    cases h
  | some seconds =>
    obtain ⟨ps, hread, hmem⟩ := hparse seconds hseconds
    have hfloor : RespectsFloor parseExpression input ↔ Spaced 10 ps := by
      unfold RespectsFloor Spaced
      rw [hseconds]
      constructor
      · intro hrespects x y hx hy
        exact hrespects seconds rfl x ((hmem x).mpr hx) y ((hmem y).mpr hy)
      · intro hspaced seconds' hseconds' x hx y hy
        cases hseconds'
        exact hspaced x y ((hmem x).mp hx) ((hmem y).mp hy)
    have hcoarse : (∀ p ∈ ps, p.isCoarse 10) ↔ ∀ p ∈ uncheckedItems input ps, p.isCoarse 10 := by
      unfold uncheckedItems
      split_ifs with hstar
      · have hhead := isCoarse_head h hstar hread
        cases ps with
        | nil => rfl
        | cons p ps =>
          rw [List.forall_mem_cons]
          exact and_iff_right (hhead p rfl)
      · rfl
    rw [hfloor, spaced_iff, hcoarse]
    unfold ItemsFit
    rw [hread]
    constructor
    · intro hfit ps' hps'
      cases hps'
      exact hfit
    · intro hfit
      exact hfit ps rfl

/-- A parser that knows one expression. -/
def readsOnly (expression : String) (seconds : List ℕ) (input : String) : Option (List ℕ) :=
  if input = expression then some seconds else none

theorem readsSeconds_readsOnly {seconds : List ℕ} (hread : readField 0 59 (secondsField input) = some ps)
    (hmem : ∀ x, x ∈ seconds ↔ ∃ p ∈ ps, p.has x = true) : ReadsSeconds (readsOnly input seconds) input := by
  intro seconds' hseconds
  have hsame : readsOnly input seconds input = some seconds := if_pos rfl
  cases hsame.symm.trans hseconds
  exact ⟨ps, hread, hmem⟩

private theorem readsSeconds_half : ReadsSeconds (readsOnly "*/30 * * * * *" [0, 30]) "*/30 * * * * *" := by
  have hread : readField 0 59 (secondsField "*/30 * * * * *") = some [⟨0, 59, 30, by decide, by decide⟩] := by decide
  apply readsSeconds_readsOnly hread
  intro x
  simp only [List.mem_cons, List.not_mem_nil, or_false, exists_eq_left, Progression.has, Bool.and_eq_true,
    decide_eq_true_eq, beq_iff_eq]
  omega

private theorem readsSeconds_list : ReadsSeconds (readsOnly "0,5 * * * * *" [0, 5]) "0,5 * * * * *" := by
  have hread : readField 0 59 (secondsField "0,5 * * * * *") =
      some [⟨0, 0, 1, by decide, by decide⟩, ⟨5, 5, 1, by decide, by decide⟩] := by decide
  apply readsSeconds_readsOnly hread
  intro x
  simp only [List.mem_cons, List.not_mem_nil, or_false, exists_eq_or_imp, exists_eq_left, Progression.has,
    Bool.and_eq_true, decide_eq_true_eq, beq_iff_eq]
  omega

/-- Every half a minute. -/
theorem respectsFloor_iff_half :
    RespectsFloor (readsOnly "*/30 * * * * *" [0, 30]) "*/30 * * * * *" ↔ ItemsFit "*/30 * * * * *" :=
  respectsFloor_iff readsSeconds_half (by decide)

/-- Seconds in a list are not looked at. -/
theorem not_respectsFloor : ReadsSeconds (readsOnly "0,5 * * * * *" [0, 5]) "0,5 * * * * *" ∧
    isValidCron (readsOnly "0,5 * * * * *" [0, 5]) "0,5 * * * * *" = .ok true ∧
    ¬ RespectsFloor (readsOnly "0,5 * * * * *" [0, 5]) "0,5 * * * * *" := by
  refine ⟨readsSeconds_list, by decide, ?_⟩
  intro h
  have hseconds : readsOnly "0,5 * * * * *" [0, 5] "0,5 * * * * *" = some [0, 5] := by decide
  have happart := h [0, 5] hseconds 0 (by decide) 5 (by decide) (by decide)
  omega

end
end Engine.Schedules
