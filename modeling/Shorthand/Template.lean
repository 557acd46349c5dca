import Shorthand.Position

/-! # Templates

A template is text with at most one place for the caret: the first `$CURSOR$` in it. Later
markers are text.
-/
namespace Shorthand

def placeholder : List Char := "$CURSOR$".toList

/-- The text before and after the first `mark`. -/
def cutAt (mark : List Char) : List Char → Option (List Char × List Char)
  | [] => if mark = [] then some ([], []) else none
  | c :: rest =>
    if mark.isPrefixOf (c :: rest) then some ([], (c :: rest).drop mark.length)
    else (cutAt mark rest).map fun (before, after) => (c :: before, after)

theorem eq_append_of_cutAt {mark text before after : List Char}
    (h : cutAt mark text = some (before, after)) : text = before ++ mark ++ after := by
  induction text generalizing before with
  | nil =>
    simp only [cutAt] at h
    split at h <;> simp_all
  | cons c rest ih =>
    rw [cutAt] at h
    split at h
    next hp =>
      obtain ⟨t, ht⟩ := List.isPrefixOf_iff_prefix.1 hp
      obtain ⟨rfl, rfl⟩ := Prod.mk.inj (Option.some.inj h)
      rw [← ht]
      simp
    next =>
      obtain ⟨⟨b, a⟩, hb, he⟩ := Option.map_eq_some_iff.1 h
      obtain ⟨rfl, rfl⟩ := Prod.mk.inj he
      simp [ih hb]

structure Template where
  text : List Char
  /-- The caret's place, counted from the start of the text. -/
  caret : Option Position
deriving DecidableEq, Repr

namespace Template

def parse (template : List Char) : Template :=
  match cutAt placeholder template with
  | none => ⟨template, none⟩
  | some (before, after) =>
    ⟨before ++ after, some ⟨before.count '\n', (Text.lastLine before).length⟩⟩

/-- Where the caret goes when the text is inserted at `start`. On later lines a column counts from
the line's own beginning. -/
def caretFrom (t : Template) (start : Position) : Position :=
  match t.caret with
  | none => start.after t.text
  | some ⟨0, column⟩ => ⟨start.line, start.column + column⟩
  | some ⟨line, column⟩ => ⟨start.line + line, column⟩

end Template

end Shorthand
