import Shorthand.Text.Lines

/-! # Positions and ranges

Lines and columns count from zero, columns in characters. Positions are ordered by line, then by
column. A range runs from its start up to, but without, its stop.
-/
namespace Shorthand

open Text

structure Position where
  line : Nat
  column : Nat
deriving DecidableEq, Repr, Inhabited

namespace Position

def origin : Position := ⟨0, 0⟩

instance : LE Position where
  le p q := p.line < q.line ∨ p.line = q.line ∧ p.column ≤ q.column

theorem le_iff {p q : Position} :
    p ≤ q ↔ p.line < q.line ∨ p.line = q.line ∧ p.column ≤ q.column := Iff.rfl

instance (p q : Position) : Decidable (p ≤ q) :=
  inferInstanceAs (Decidable (p.line < q.line ∨ p.line = q.line ∧ p.column ≤ q.column))

instance : Max Position where
  max p q := if p ≤ q then q else p

/-- The position right after `text` when it is inserted at `p`. -/
def after (p : Position) (text : List Char) : Position :=
  match text.count '\n' with
  | 0 => ⟨p.line, p.column + text.length⟩
  | breaks => ⟨p.line + breaks, (lastLine text).length⟩

end Position

structure Range where
  start : Position
  stop : Position
deriving DecidableEq, Repr

namespace Range

def caret (p : Position) : Range := ⟨p, p⟩

def inLine (line first last : Nat) : Range := ⟨⟨line, first⟩, ⟨line, last⟩⟩

def isEmpty (r : Range) : Bool := r.start = r.stop

end Range

end Shorthand
