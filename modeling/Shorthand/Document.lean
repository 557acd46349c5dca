import Shorthand.Edit
import Shorthand.Template

/-! # Text documents

A document is a list of lines with a caret, a viewport and a history of edits. Positions outside the
text are moved to the nearest place in it, line first. An undo step keeps only where the inserted
text went and what it replaced.
-/
namespace Shorthand

open Text

/-- What it takes to revert one edit. -/
structure Reversal where
  inserted : Range
  removed : List Char
  caretBefore : Position
deriving DecidableEq, Repr

structure Document where
  lines : List (List Char)
  caret : Position
  /-- The first visible line. -/
  top : Nat
  /-- The number of visible lines. -/
  height : Nat
  /-- Latest first. -/
  history : List Reversal
deriving DecidableEq, Repr

namespace Document

def defaultHeight : Nat := 40

def ofText (content : List Char) : Document where
  lines := splitLines content
  caret := .origin
  top := 0
  height := defaultHeight
  history := []

def withHeight (d : Document) (lines : Nat) : Document := { d with height := max lines 1 }

def text (d : Document) : List Char := joinLines d.lines

theorem text_ofText (content : List Char) : (ofText content).text = content :=
  joinLines_splitLines content

def line? (d : Document) (n : Nat) : Option (List Char) := d.lines[n]?

def lineAt (d : Document) (n : Nat) : List Char := d.lines[n]?.getD []

def numLines (d : Document) : Nat := d.lines.length

def undoCount (d : Document) : Nat := d.history.length

/-- The place of the text nearest to `p`, by line and then by column. -/
def clamp (d : Document) (p : Position) : Position :=
  let line := min p.line (d.numLines - 1)
  ⟨line, min p.column (d.lineAt line).length⟩

def clampRange (d : Document) (r : Range) : Range :=
  ⟨d.clamp r.start, max (d.clamp r.stop) (d.clamp r.start)⟩

def textBefore (d : Document) (p : Position) : List Char :=
  let p := d.clamp p
  (d.lineAt p.line).take p.column

def slice (d : Document) (r : Range) : List Char :=
  let s := (d.clampRange r).start
  let t := (d.clampRange r).stop
  if s.line = t.line then
    ((d.lineAt s.line).drop s.column).take (t.column - s.column)
  else
    joinLines ((d.lineAt s.line).drop s.column ::
      (d.lines.drop (s.line + 1)).take (t.line - (s.line + 1)) ++
      [(d.lineAt t.line).take t.column])

def splice (d : Document) (r : Range) (text : List Char) : Document :=
  let s := (d.clampRange r).start
  let t := (d.clampRange r).stop
  let joined := (d.lineAt s.line).take s.column ++ text ++ (d.lineAt t.line).drop t.column
  { d with lines := d.lines.take s.line ++ splitLines joined ++ d.lines.drop (t.line + 1) }

/-- Puts `text` in the place of `r` as one edit that can be undone. The caret stays where it is. -/
def replace (d : Document) (r : Range) (text : List Char) : Document :=
  let start := d.clamp r.start
  let step : Reversal := ⟨⟨start, start.after text⟩, d.slice r, d.caret⟩
  { d.splice r text with history := step :: d.history }

def undo? (d : Document) : Option Document :=
  match d.history with
  | [] => none
  | step :: earlier =>
    some { d.splice step.inserted step.removed with caret := step.caretBefore, history := earlier }

def moveCaret (d : Document) (p : Position) : Document := { d with caret := d.clamp p }

/-- Scrolls only when the line of `p` is not visible, and then to have it in the middle. -/
def reveal (d : Document) (p : Position) : Document :=
  if p.line < d.top ∨ d.top + d.height ≤ p.line then { d with top := p.line - d.height / 2 } else d

/-- Types one character at the caret and tells what an editor would report of it. -/
def type (d : Document) (c : Char) : Document × Edit :=
  ({ d.replace (.caret d.caret) [c] with caret := d.caret.after [c] }, .keystroke d.caret c)

/-- Types a text character by character, with the edits in order. -/
def typeAll (d : Document) : List Char → Document × List Edit
  | [] => (d, [])
  | c :: rest =>
    let (d, e) := d.type c
    let (d, es) := d.typeAll rest
    (d, e :: es)

/-- Puts a template in the place of `span` as one edit and moves the caret to its marker, or
behind it. The position given back is where the template puts the caret. -/
def expand (d : Document) (span : Range) (template : List Char) : Document × Position :=
  let parsed := Template.parse template
  let caret := parsed.caretFrom span.start
  (((d.replace span parsed.text).moveCaret caret).reveal caret, caret)

end Document

end Shorthand
