import Shorthand.Position

/-! # Edits

What an editor reports about one change of a document, and the one kind of change that may complete
a trigger: a single typed character.
-/
namespace Shorthand

structure Edit where
  text : String
  range : Range
  rangeLength : Nat
  isFlush : Bool
  isUndoing : Bool
  isRedoing : Bool
  changeCount : Nat
deriving DecidableEq, Repr

namespace Edit

def keystroke (p : Position) (c : Char) : Edit where
  text := String.singleton c
  range := .caret p
  rangeLength := 0
  isFlush := false
  isUndoing := false
  isRedoing := false
  changeCount := 1

/-- Whether the text was set as a whole, undone or redone. -/
def isWholesale (e : Edit) : Bool := e.isFlush || e.isUndoing || e.isRedoing

inductive Kind where
  | other
  | typed (c : Char) (caret : Position)
deriving DecidableEq, Repr

def kind (e : Edit) : Kind :=
  if e.isWholesale || e.changeCount ≠ 1 || e.rangeLength ≠ 0 then .other
  else match e.text.toList with
    | [c] => .typed c ⟨e.range.start.line, e.range.start.column + 1⟩
    | _ => .other

theorem kind_eq_typed_iff {e : Edit} {c : Char} {p : Position} :
    e.kind = .typed c p ↔
      e.isWholesale = false ∧ e.changeCount = 1 ∧ e.rangeLength = 0 ∧ e.text.toList = [c] ∧
        p = ⟨e.range.start.line, e.range.start.column + 1⟩ := by
  unfold kind
  split
  next h =>
    simp only [reduceCtorEq, false_iff]
    rintro ⟨hb, hc, hr, -⟩
    simp [hb, hc, hr] at h
  next h =>
    simp only [Bool.or_eq_true, decide_eq_true_eq, not_or, Bool.not_eq_true, Decidable.not_not] at h
    split
    next d hd => simp [h, hd, eq_comm]
    next hn =>
      simp only [reduceCtorEq, false_iff]
      rintro ⟨-, -, -, ht, -⟩
      exact hn c ht

end Edit

end Shorthand
