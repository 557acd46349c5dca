import Shorthand.Document
import Shorthand.Dictionary
import Shorthand.Text.Blank

/-! # Triggers

Whether an edit has just completed a trigger. A trigger of one character counts as soon as it is
typed at the very start of a line; any trigger counts when a space is typed behind it and a blank
character, or nothing, stands before it.
-/
namespace Shorthand

open Text

/-- A completed trigger, where it stands and what replaces it. -/
structure Expansion where
  trigger : String
  span : Range
  template : String
deriving DecidableEq, Repr

/-- The trigger that ends the text before the caret, and how many characters it takes there. -/
def endingTrigger? (typed : Char) (before : List Char) (d : Dictionary) : Option (String × Nat) :=
  if before = [typed] ∧ d.contains (String.singleton typed) then
    some (String.singleton typed, 1)
  else if typed = ' ' ∧ before.getLast? = some ' ' then
    let word := lastWord before.dropLast
    if word ≠ [] ∧ d.contains (String.ofList word) then
      some (String.ofList word, word.length + 1)
    else none
  else none

def Edit.Kind.expansion? (k : Kind) (doc : Document) (d : Dictionary) : Option Expansion :=
  match k with
  | .other => none
  | .typed c caret =>
    if d.isEmpty then none
    else do
      let (trigger, length) ← endingTrigger? c (doc.textBefore caret) d
      let template ← d.get? trigger
      return ⟨trigger, .inLine caret.line (caret.column - length) caret.column, template⟩

def Edit.expansion? (e : Edit) (doc : Document) (d : Dictionary) : Option Expansion :=
  e.kind.expansion? doc d

end Shorthand
