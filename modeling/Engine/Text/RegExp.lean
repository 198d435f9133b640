import Engine.Text.Pattern
import Engine.Text.Strings

/-! JavaScript's regular expressions without groups, alternatives, brackets and counts. -/
namespace Engine

inductive Token : Type
  | atom (p : Char → Bool)
  | star
  | question
  | start
  | stop

def lineTerminator (c : Char) : Bool := c = '\n' || c = '\r' || c = '\u2028' || c = '\u2029'

/-- The class of `.`. -/
def dot (c : Char) : Bool := !lineTerminator c

/-- The class of a character that stands for itself. -/
def itself (c b : Char) : Bool := b = c

/-- The characters that begin what is not covered here, and the last backslash. -/
def special (c : Char) : Bool := c ∈ "+()[]{}|\\".toList

def tokenOf (c : Char) : Option Token :=
  if c = '.' then some (.atom dot)
  else if c = '*' then some .star
  else if c = '?' then some .question
  else if c = '^' then some .start
  else if c = '$' then some .stop
  else if special c then none
  else some (.atom (itself c))

/-- The tokens of a pattern, if it is one of those covered. -/
def tokens : List Char → Option (List Token)
  | [] => some []
  | '\\' :: c :: cs => if c.isAlphanum then none else (tokens cs).map (.atom (itself c) :: ·)
  | c :: cs => do
    let t ← tokenOf c
    let ts ← tokens cs
    some (t :: ts)

/-- The pieces that a pattern's tokens say. -/
def pieces : List Token → Option (List (Text.Piece Char))
  | [] => some []
  | .atom p :: .star :: ts => (pieces ts).map (.many p :: ·)
  | .atom p :: .question :: ts => (pieces ts).map (.maybe p :: ·)
  | .atom p :: ts => (pieces ts).map (.one p :: ·)
  | .start :: ts => (pieces ts).map (.start :: ·)
  | .stop :: ts => (pieces ts).map (.stop :: ·)
  | .star :: _ | .question :: _ => none

structure RegExp where
  pattern : List (Text.Piece Char)

/-- `new RegExp(source)`, for the sources covered. -/
def RegExp.new (source : String) : Option RegExp := do
  let ts ← tokens source.toList
  let ps ← pieces ts
  some ⟨ps⟩

/-- `regExp.test(text)` from the text's start. -/
def RegExp.test (r : RegExp) (text : String) : Bool := Text.search r.pattern text.toList

end Engine
