import Mathlib.Data.List.Infix
import Mathlib.Order.Lattice

/-! Regular expressions without groups and alternatives: a sequence of character classes,
each of them once, any number of times or at most once, and the two anchors. -/
namespace Text

inductive Piece (α : Type) : Type
  | one (p : α → Bool)
  | many (p : α → Bool)
  | maybe (p : α → Bool)
  | start
  | stop

section
variable {α : Type}

/-- The ways to pass over items of a class. With each goes whether it is still the start of
the text. -/
def skips (p : α → Bool) : Bool → List α → List (Bool × List α)
  | first, [] => [(first, [])]
  | first, c :: cs => (first, c :: cs) :: if p c then skips p false cs else []

/-- Whether the pieces match the text from here on, up to wherever. -/
def matchAt : List (Piece α) → Bool → List α → Bool
  | [], _, _ => true
  | .one p :: ps, _, c :: cs => p c && matchAt ps false cs
  | .one _ :: _, _, [] => false
  | .many p :: ps, first, cs => (skips p first cs).any fun x => matchAt ps x.1 x.2
  | .maybe p :: ps, first, c :: cs => matchAt ps first (c :: cs) || (p c && matchAt ps false cs)
  | .maybe _ :: ps, first, [] => matchAt ps first []
  | .start :: ps, first, cs => first && matchAt ps first cs
  | .stop :: ps, first, cs => cs.isEmpty && matchAt ps first cs

/-- Whether the pieces match somewhere in the text. -/
def search (ps : List (Piece α)) (cs : List α) : Bool := matchAt (.many (fun _ => true) :: ps) true cs

variable {p : α → Bool} {ps : List (Piece α)} {first : Bool} {cs : List α}

private theorem mem_skips {x : Bool × List α} : x ∈ skips p first cs ↔
    ∃ pre, cs = pre ++ x.2 ∧ (∀ c ∈ pre, p c = true) ∧ x.1 = (first && pre.isEmpty) := by
  induction cs generalizing first with
  | nil =>
    unfold skips
    rw [List.mem_singleton]
    constructor
    · rintro rfl
      exact ⟨[], rfl, by simp, by simp⟩
    · intro h
      obtain ⟨pre, hcs, -, hfirst⟩ := h
      obtain ⟨rfl, hrest⟩ := List.append_eq_nil_iff.mp hcs.symm
      exact Prod.ext (by simpa using hfirst) hrest
  | cons c cs ih =>
    unfold skips
    rw [List.mem_cons]
    constructor
    · intro h
      obtain rfl | h := h
      · exact ⟨[], rfl, by simp, by simp⟩
      · split_ifs at h with hc
        · obtain ⟨pre, hcs, hpre, hfirst⟩ := ih.mp h
          refine ⟨c :: pre, by rw [hcs, List.cons_append], ?_, by simpa using hfirst⟩
          intro b hb
          obtain rfl | hb := List.mem_cons.mp hb
          · exact hc
          · exact hpre b hb
        · cases h
    · intro h
      obtain ⟨pre, hcs, hpre, hfirst⟩ := h
      cases pre with
      | nil => exact Or.inl (Prod.ext (by simpa using hfirst) hcs.symm)
      | cons b pre =>
        obtain ⟨rfl, htail⟩ := List.cons.inj hcs
        refine Or.inr ?_
        rw [if_pos (hpre c List.mem_cons_self)]
        exact ih.mpr ⟨pre, htail, fun b hb => hpre b (List.mem_cons_of_mem c hb), by simpa using hfirst⟩

theorem matchAt_one : matchAt (.one p :: ps) first cs = true ↔
    ∃ c rest, cs = c :: rest ∧ p c = true ∧ matchAt ps false rest = true := by
  cases cs with
  | nil => simp [matchAt]
  | cons c cs => simp [matchAt]

theorem matchAt_many : matchAt (.many p :: ps) first cs = true ↔
    ∃ pre rest, cs = pre ++ rest ∧ (∀ c ∈ pre, p c = true) ∧ matchAt ps (first && pre.isEmpty) rest = true := by
  rw [matchAt, List.any_eq_true]
  constructor
  · intro h
    obtain ⟨x, hx, hmatch⟩ := h
    obtain ⟨pre, hcs, hpre, hfirst⟩ := mem_skips.mp hx
    exact ⟨pre, x.2, hcs, hpre, hfirst ▸ hmatch⟩
  · intro h
    obtain ⟨pre, rest, hcs, hpre, hmatch⟩ := h
    exact ⟨(first && pre.isEmpty, rest), mem_skips.mpr ⟨pre, hcs, hpre, rfl⟩, hmatch⟩

theorem matchAt_maybe : matchAt (.maybe p :: ps) first cs = true ↔
    matchAt ps first cs = true ∨ ∃ c rest, cs = c :: rest ∧ p c = true ∧ matchAt ps false rest = true := by
  cases cs with
  | nil => simp [matchAt]
  | cons c cs => simp [matchAt]

theorem matchAt_start : matchAt (.start :: ps) first cs = true ↔ first = true ∧ matchAt ps first cs = true := by
  rw [matchAt, Bool.and_eq_true]

theorem matchAt_stop : matchAt (.stop :: ps) first cs = true ↔ cs = [] ∧ matchAt ps first cs = true := by
  rw [matchAt, Bool.and_eq_true, List.isEmpty_iff]

/-- A word of classes is matched item by item. -/
theorem matchAt_word {word : List (α → Bool)} : matchAt (word.map .one ++ ps) first cs = true ↔
    ∃ w rest, cs = w ++ rest ∧ List.Forall₂ (fun p c => p c = true) word w ∧
      matchAt ps (first && word.isEmpty) rest = true := by
  induction word generalizing first cs with
  | nil =>
    constructor
    · intro h
      exact ⟨[], cs, rfl, .nil, by simpa using h⟩
    · intro h
      obtain ⟨w, rest, rfl, hw, hmatch⟩ := h
      cases hw
      simpa using hmatch
  | cons p word ih =>
    rw [List.map_cons, List.cons_append, matchAt_one]
    simp only [ih]
    constructor
    · intro h
      obtain ⟨c, rest, rfl, hc, w, rest', rfl, hw, hmatch⟩ := h
      exact ⟨c :: w, rest', rfl, .cons hc hw, by simpa using hmatch⟩
    · intro h
      obtain ⟨w, rest, rfl, hw, hmatch⟩ := h
      cases hw with
      | cons hc hw => exact ⟨_, _, rfl, hc, _, rest, rfl, hw, by simpa using hmatch⟩

/-- A literal word is matched by itself. -/
theorem matchAt_literal [DecidableEq α] {w : List α} :
    matchAt (w.map (fun c => .one (fun b => b = c)) ++ ps) first cs = true ↔
    ∃ rest, cs = w ++ rest ∧ matchAt ps (first && w.isEmpty) rest = true := by
  induction w generalizing first cs with
  | nil => simp
  | cons c w ih =>
    rw [List.map_cons, List.cons_append, matchAt_one]
    simp [ih]

theorem search_iff : search ps cs = true ↔ ∃ pre rest, cs = pre ++ rest ∧ matchAt ps pre.isEmpty rest = true := by
  unfold search
  rw [matchAt_many]
  simp

end
end Text
