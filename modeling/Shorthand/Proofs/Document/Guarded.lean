import Shorthand.Proofs.Document.Run
import Shorthand.Proofs.Guarded
import Shorthand.Proofs.Trigger.Exact

/-! # Guarded editing

The operations of a document with a check at each line that is read, at each cut and at each
difference. On a document made from a text none of them ever faults, whatever was done to it before
and whatever positions, ranges and edits it is given, and each gives what it gives without the
checks. Sums are not bounded.
-/
namespace Shorthand.Guarded

open Text

theorem length_le_of_endingTrigger? {typed : Char} {before : List Char} {d : Dictionary}
    {trigger : String} {length : Nat}
    (h : endingTrigger? typed before d = some (trigger, length)) : length ≤ before.length := by
  obtain ⟨hAlone, _, rfl⟩ | ⟨front, word, hWord, _, rfl⟩ := endingTrigger?_eq_some_iff.mp h
  · rw [hAlone.1, List.length_singleton]
  · rw [hWord.length_eq]
    exact Nat.le_add_left _ _

theorem length_textBefore_le (d : Document) (p : Position) :
    (d.textBefore p).length ≤ p.column := by
  refine Nat.le_trans (List.length_take_le _ _) ?_
  exact Nat.min_le_left _ _

/-- What the checks ask of a document. The order of positions is by line first, so within one line
it is the order of the columns. -/
structure Bounded (d : Document) : Prop where
  line_lt : ∀ p, (d.clamp p).line < d.numLines
  line_stop_lt : ∀ r, (d.clampRange r).stop.line < d.numLines
  ordered : ∀ r, (d.clampRange r).start ≤ (d.clampRange r).stop
  cut : ∀ n column, ∃ before behind, d.lineAt n = before ++ behind ∧
    byteOffset (d.lineAt n) column = numBytes before
  length_le : ∀ (typed : Char) (caret : Position) (dictionary : Dictionary) (trigger : String)
    (length : Nat), endingTrigger? typed (d.textBefore caret) dictionary = some (trigger, length) →
      length ≤ caret.column

/-- Also for a caret that is not in the document: then less is read than up to its column. -/
theorem bounded {d : Document} (hd : d.WellFormed) : Bounded d where
  line_lt p := (hd.holds_clamp p).1
  line_stop_lt r := (hd.holds_stop r).1
  ordered r := Position.le_max_right (d.clamp r.stop) (d.clamp r.start)
  cut n column := by
    refine ⟨(d.lineAt n).take column, (d.lineAt n).drop column, ?_, byteOffset_eq _ _⟩
    exact (List.take_append_drop column (d.lineAt n)).symm
  length_le _ caret _ _ _ h :=
    Nat.le_trans (length_le_of_endingTrigger? h) (length_textBefore_le d caret)

theorem Bounded.line_start_le {d : Document} (h : Bounded d) (r : Range) :
    (d.clampRange r).start.line ≤ (d.clampRange r).stop.line := by
  obtain hLess | ⟨hEq, _⟩ := h.ordered r
  · exact Nat.le_of_lt hLess
  · exact Nat.le_of_eq hEq

def clamp (d : Document) (p : Position) : Except Fault Position := do
  let line := min p.line (d.numLines - 1)
  let content ← lineAt d.lines line
  return ⟨line, min p.column content.length⟩

def clampRange (d : Document) (r : Range) : Except Fault Range := do
  let start ← clamp d r.start
  let stop ← clamp d r.stop
  return ⟨start, max stop start⟩

def textBefore (d : Document) (p : Position) : Except Fault (List Char) := do
  let p ← clamp d p
  let content ← lineAt d.lines p.line
  return content.take p.column

def slice (d : Document) (r : Range) : Except Fault (List Char) := do
  let r ← clampRange d r
  if r.start.line = r.stop.line then
    let content ← lineAt d.lines r.start.line
    let count ← minus r.stop.column r.start.column
    return (content.drop r.start.column).take count
  else
    -- The difference is the room made for the lines.
    let _ ← minus r.stop.line r.start.line
    let first ← lineAt d.lines r.start.line
    let between ← linesBetween d.lines (r.start.line + 1) r.stop.line
    let last ← lineAt d.lines r.stop.line
    return joinLines (first.drop r.start.column :: between ++ [last.take r.stop.column])

section Reading

variable {d : Document}

theorem lineAt_eq {n : Nat} (h : n < d.numLines) : lineAt d.lines n = .ok (d.lineAt n) :=
  lineAt_of_lt h []

theorem clamp_eq (hd : d.WellFormed) (p : Position) : clamp d p = .ok (d.clamp p) := by
  have hLine : min p.line (d.numLines - 1) < d.numLines := (bounded hd).line_lt p
  rw [clamp, lineAt_eq hLine]
  rfl

theorem clampRange_eq (hd : d.WellFormed) (r : Range) :
    clampRange d r = .ok (d.clampRange r) := by
  rw [clampRange, clamp_eq hd, clamp_eq hd]
  rfl

theorem textBefore_eq (hd : d.WellFormed) (p : Position) :
    textBefore d p = .ok (d.textBefore p) := by
  rw [textBefore, clamp_eq hd, ok_bind, lineAt_eq ((bounded hd).line_lt p)]
  rfl

theorem slice_eq (hd : d.WellFormed) (r : Range) : slice d r = .ok (d.slice r) := by
  have hStart : (d.clampRange r).start.line < d.numLines := (bounded hd).line_lt r.start
  have hStop := (bounded hd).line_stop_lt r
  rw [slice, clampRange_eq hd, ok_bind, Document.slice]
  obtain hLess | ⟨hLine, hColumn⟩ := (bounded hd).ordered r
  · rw [if_neg (Nat.ne_of_lt hLess), if_neg (Nat.ne_of_lt hLess),
      minus_of_le (Nat.le_of_lt hLess), ok_bind, lineAt_eq hStart, ok_bind,
      linesBetween_of_le hLess (Nat.le_of_lt hStop), ok_bind, lineAt_eq hStop, ok_bind]
    rfl
  · rw [if_pos hLine, if_pos hLine, lineAt_eq hStart, ok_bind, minus_of_le hColumn, ok_bind]
    rfl

end Reading

/-- The changed document and what was removed. -/
def splice (d : Document) (r : Range) (text : List Char) :
    Except Fault (Document × List Char) := do
  let r ← clampRange d r
  let removed ← slice d r
  let first ← lineAt d.lines r.start.line
  let last ← lineAt d.lines r.stop.line
  let (head, _) ← cutBytes first (byteOffset first r.start.column)
  let (_, tail) ← cutBytes last (byteOffset last r.stop.column)
  let lines ← replaceLines d.lines r.start.line r.stop.line (splitLines (head ++ text ++ tail))
  return ({ d with lines }, removed)

def replace (d : Document) (r : Range) (text : List Char) : Except Fault Document := do
  let start ← clamp d r.start
  let (edited, removed) ← splice d r text
  let step : Reversal := ⟨⟨start, start.after text⟩, removed, d.caret⟩
  return { edited with history := step :: d.history }

def undo? (d : Document) : Except Fault (Option Document) :=
  match d.history with
  | [] => .ok none
  | step :: earlier => do
    let (edited, _) ← splice d step.inserted step.removed
    return some { edited with caret := step.caretBefore, history := earlier }

def moveCaret (d : Document) (p : Position) : Except Fault Document := do
  let caret ← clamp d p
  return { d with caret }

def type (d : Document) (c : Char) : Except Fault (Document × Edit) := do
  let edited ← replace d (.caret d.caret) [c]
  return ({ edited with caret := d.caret.after [c] }, .keystroke d.caret c)

def typeAll (d : Document) : List Char → Except Fault (Document × List Edit)
  | [] => .ok (d, [])
  | c :: rest => do
    let (d, e) ← type d c
    let (d, es) ← typeAll d rest
    return (d, e :: es)

def expand (d : Document) (span : Range) (template : List Char) :
    Except Fault (Document × Position) := do
  let parsed ← parse template
  let edited ← replace d span parsed.text
  let caret := parsed.caretFrom span.start
  let moved ← moveCaret edited caret
  return (moved.reveal caret, caret)

section Editing

variable {d : Document}

theorem clampRange_clampRange (hd : d.WellFormed) (r : Range) :
    d.clampRange (d.clampRange r) = d.clampRange r :=
  Document.clampRange_of_holds (hd.holds_start r) (hd.holds_stop r) ((bounded hd).ordered r)

theorem slice_clampRange (hd : d.WellFormed) (r : Range) :
    d.slice (d.clampRange r) = d.slice r := by
  rw [Document.slice, clampRange_clampRange hd]
  rfl

theorem splice_eq (hd : d.WellFormed) (r : Range) (text : List Char) :
    splice d r text = .ok (d.splice r text, d.slice r) := by
  have hStart : (d.clampRange r).start.line < d.numLines := (bounded hd).line_lt r.start
  have hStop := (bounded hd).line_stop_lt r
  simp only [splice, clampRange_eq hd, slice_eq hd, slice_clampRange hd, lineAt_eq hStart,
    lineAt_eq hStop, cutBytes_byteOffset,
    replaceLines_of_lt ((bounded hd).line_start_le r) hStop, ok_bind]
  rfl

theorem replace_eq (hd : d.WellFormed) (r : Range) (text : List Char) :
    replace d r text = .ok (d.replace r text) := by
  rw [replace, clamp_eq hd, ok_bind, splice_eq hd]
  rfl

theorem undo?_eq (hd : d.WellFormed) : undo? d = .ok d.undo? := by
  cases hHistory : d.history with
  | nil => rw [undo?, Document.undo?, hHistory]
  | cons step earlier =>
    rw [undo?, Document.undo?, hHistory]
    dsimp only
    rw [splice_eq hd]
    rfl

theorem moveCaret_eq (hd : d.WellFormed) (p : Position) :
    moveCaret d p = .ok (d.moveCaret p) := by
  rw [moveCaret, clamp_eq hd]
  rfl

theorem type_eq (hd : d.WellFormed) (c : Char) : type d c = .ok (d.type c) := by
  rw [type, replace_eq hd]
  rfl

theorem typeAll_eq (hd : d.WellFormed) (text : List Char) :
    typeAll d text = .ok (d.typeAll text) := by
  induction text generalizing d with
  | nil => rfl
  | cons c rest ih =>
    rw [typeAll, type_eq hd, ok_bind]
    dsimp only
    rw [ih (hd.type c)]
    rfl

theorem expand_eq (hd : d.WellFormed) (span : Range) (template : List Char) :
    expand d span template = .ok (d.expand span template) := by
  simp only [expand, parse_eq, replace_eq hd, moveCaret_eq (hd.replace _ _), ok_bind]
  rfl

end Editing

def expansion? (e : Edit) (doc : Document) (d : Dictionary) : Except Fault (Option Expansion) :=
  match e.kind with
  | .other => .ok none
  | .typed c caret =>
    if d.isEmpty then .ok none
    else do
      let before ← textBefore doc caret
      match endingTrigger? c before d with
      | none => return none
      | some (trigger, length) =>
        match d.get? trigger with
        | none => return none
        | some template =>
          let first ← minus caret.column length
          return some ⟨trigger, .inLine caret.line first caret.column, template⟩

theorem expansion?_eq {doc : Document} (hdoc : doc.WellFormed) (e : Edit) (d : Dictionary) :
    expansion? e doc d = .ok (e.expansion? doc d) := by
  rw [expansion?, Edit.expansion?]
  cases e.kind with
  | other => rfl
  | typed c caret =>
    rw [Edit.Kind.expansion?]
    dsimp only
    split
    next => rfl
    next =>
      rw [textBefore_eq hdoc, ok_bind]
      cases hTrigger : endingTrigger? c (doc.textBefore caret) d with
      | none => rfl
      | some found =>
        obtain ⟨trigger, length⟩ := found
        have hLength := (bounded hdoc).length_le c caret d trigger length hTrigger
        simp only [Option.bind_eq_bind, Option.bind_some]
        cases d.get? trigger with
        | none => rfl
        | some template =>
          dsimp only
          rw [minus_of_le hLength]
          rfl

def perform (d : Document) : Document.Operation → Except Fault Document
  | .type c => return (← type d c).1
  | .typeAll text => return (← typeAll d text).1
  | .replace r text => replace d r text
  | .expand span template => return (← expand d span template).1
  | .moveCaret p => moveCaret d p
  | .reveal p => return d.reveal p
  | .resize lines => return d.withHeight lines
  | .undo => return (← undo? d).getD d

def run (d : Document) (ops : List Document.Operation) : Except Fault Document :=
  ops.foldlM perform d

variable {d : Document}

theorem perform_eq (hd : d.WellFormed) (op : Document.Operation) :
    perform d op = .ok (d.perform op) := by
  cases op with
  | type c => rw [perform, type_eq hd]; rfl
  | typeAll text => rw [perform, typeAll_eq hd]; rfl
  | replace r text => exact replace_eq hd r text
  | expand span template => rw [perform, expand_eq hd]; rfl
  | moveCaret p => exact moveCaret_eq hd p
  | reveal p => rfl
  | resize lines => rfl
  | undo => rw [perform, undo?_eq hd]; rfl

theorem run_eq (hd : d.WellFormed) (ops : List Document.Operation) :
    run d ops = .ok (d.run ops) := by
  induction ops generalizing d with
  | nil => rfl
  | cons op ops ih =>
    rw [run, List.foldlM_cons, perform_eq hd, ok_bind]
    exact ih (hd.perform op)

/-- No run of operations faults, and on no document that one leads to does reading, replacing,
undoing, expanding or looking for a trigger fault. The positions, ranges, templates and edits need
not fit the document. -/
theorem run_never_faults (content : List Char) (ops : List Document.Operation) :
    let d := (Document.ofText content).run ops
    Bounded d ∧ run (.ofText content) ops = .ok d ∧
    (∀ p, clamp d p = .ok (d.clamp p) ∧ textBefore d p = .ok (d.textBefore p)) ∧
    (∀ r, slice d r = .ok (d.slice r)) ∧
    (∀ r text, replace d r text = .ok (d.replace r text)) ∧
    undo? d = .ok d.undo? ∧
    (∀ span template, expand d span template = .ok (d.expand span template)) ∧
    ∀ (e : Edit) (dictionary : Dictionary),
      expansion? e d dictionary = .ok (e.expansion? d dictionary) := by
  intro d
  have hd : d.WellFormed := (Document.wellFormed_ofText content).run ops
  refine ⟨bounded hd, run_eq (Document.wellFormed_ofText content) ops, ?_, slice_eq hd,
    replace_eq hd, undo?_eq hd, expand_eq hd, expansion?_eq hd⟩
  intro p
  exact ⟨clamp_eq hd p, textBefore_eq hd p⟩

/-- A document without a line cannot come up in a run, and every look at it would fault. -/
example : clamp { Document.ofText [] with lines := [] } .origin = .error .noSuchLine := rfl

end Shorthand.Guarded
