import Shorthand.Proofs.Document.Flat

/-! # Runs of a document

Whatever is done to a document made from a text, its lines are the lines of its text, and reading
and replacing a range are reading and replacing between two offsets of that text. Typing with
reactions in between is a run of single keystrokes and of what they set off.
-/
namespace Shorthand.Document

open Text

inductive Operation where
  | type (c : Char)
  | typeAll (text : List Char)
  | replace (r : Range) (text : List Char)
  | expand (span : Range) (template : List Char)
  | moveCaret (p : Position)
  | reveal (p : Position)
  | resize (lines : Nat)
  | undo

/-- An undo without an edit to take back does nothing. -/
def perform (d : Document) : Operation → Document
  | .type c => (d.type c).1
  | .typeAll text => (d.typeAll text).1
  | .replace r text => d.replace r text
  | .expand span template => (d.expand span template).1
  | .moveCaret p => d.moveCaret p
  | .reveal p => d.reveal p
  | .resize lines => d.withHeight lines
  | .undo => d.undo?.getD d

def run (d : Document) (ops : List Operation) : Document := ops.foldl perform d

theorem run_cons (d : Document) (op : Operation) (ops : List Operation) :
    d.run (op :: ops) = (d.perform op).run ops := rfl

theorem lines_reveal (d : Document) (p : Position) : (d.reveal p).lines = d.lines := by
  rw [reveal]
  split <;> rfl

theorem history_reveal (d : Document) (p : Position) : (d.reveal p).history = d.history := by
  rw [reveal]
  split <;> rfl

theorem caret_reveal (d : Document) (p : Position) : (d.reveal p).caret = d.caret := by
  rw [reveal]
  split <;> rfl

theorem lines_expand (d : Document) (span : Range) (template : List Char) :
    (d.expand span template).1.lines = (d.splice span (Template.parse template).text).lines :=
  lines_reveal _ _

theorem WellFormed.congr {d e : Document} (hd : d.WellFormed) (h : e.lines = d.lines) :
    e.WellFormed := ⟨h ▸ hd.lines_ne_nil, h ▸ hd.newline_not_mem⟩

theorem WellFormed.replace {d : Document} (hd : d.WellFormed) (r : Range) (text : List Char) :
    (d.replace r text).WellFormed := (hd.splice r text).congr rfl

theorem WellFormed.type {d : Document} (hd : d.WellFormed) (c : Char) :
    (d.type c).1.WellFormed := (hd.splice (.caret d.caret) [c]).congr rfl

theorem WellFormed.typeAll {d : Document} (hd : d.WellFormed) (text : List Char) :
    (d.typeAll text).1.WellFormed := by
  induction text generalizing d with
  | nil => exact hd
  | cons c rest ih => exact ih (hd.type c)

theorem WellFormed.undo {d e : Document} (hd : d.WellFormed) (h : d.undo? = some e) :
    e.WellFormed := by
  rw [undo?] at h
  split at h
  · cases h
  next step _ _ =>
    cases h
    exact (hd.splice step.inserted step.removed).congr rfl

theorem WellFormed.perform {d : Document} (hd : d.WellFormed) (op : Operation) :
    (d.perform op).WellFormed := by
  cases op with
  | type c => exact hd.type c
  | typeAll text => exact hd.typeAll text
  | replace r text => exact hd.replace r text
  | expand span template => exact (hd.splice span _).congr (lines_expand d span template)
  | moveCaret p => exact hd.congr rfl
  | reveal p => exact hd.congr (lines_reveal d p)
  | resize lines => exact hd.congr rfl
  | undo =>
    rw [Document.perform]
    cases h : d.undo? with
    | none => exact hd
    | some e => exact hd.undo h

theorem WellFormed.run {d : Document} (hd : d.WellFormed) (ops : List Operation) :
    (d.run ops).WellFormed := by
  induction ops generalizing d with
  | nil => exact hd
  | cons op ops ih => exact ih (hd.perform op)

theorem WellFormed.textBefore_eq {d : Document} (hd : d.WellFormed) (p : Position) :
    d.textBefore p =
      (d.text.take (d.offset (d.clamp p))).drop (d.offset ⟨(d.clamp p).line, 0⟩) := by
  have hHolds := hd.holds_clamp p
  have hCut := joinLines_cut (d.lines.take (d.clamp p).line) [] []
    ((d.lineAt (d.clamp p).line).take (d.clamp p).column)
  have hLength : (joinLines (d.lines.take (d.clamp p).line ++ [[]])).length =
      d.offset ⟨(d.clamp p).line, 0⟩ := by
    rw [length_joinLines_concat, offset, List.length_nil]
  rw [← upTo_eq_take hHolds, upTo, ← hLength]
  rw [List.nil_append] at hCut
  rw [hCut, List.drop_left]
  rfl

theorem WellFormed.offset_le_offset {d : Document} (hd : d.WellFormed) (r : Range) :
    d.offset (d.clampRange r).start ≤ d.offset (d.clampRange r).stop := by
  rw [← length_upTo (hd.holds_start r), ← length_upTo (hd.holds_stop r),
    ← hd.upTo_append_slice, List.length_append]
  exact Nat.le_add_right _ _

theorem offset_le_length {d : Document} {p : Position} (h : d.Holds p) :
    d.offset p ≤ d.text.length := by
  rw [← length_upTo h, ← upTo_append_beyond h, List.length_append]
  exact Nat.le_add_right _ _

theorem WellFormed.slice_eq {d : Document} (hd : d.WellFormed) (r : Range) :
    d.slice r =
      (d.text.take (d.offset (d.clampRange r).stop)).drop (d.offset (d.clampRange r).start) := by
  rw [← upTo_eq_take (hd.holds_stop r), ← hd.upTo_append_slice,
    ← length_upTo (hd.holds_start r), List.drop_left]

theorem WellFormed.text_splice_eq {d : Document} (hd : d.WellFormed) (r : Range)
    (text : List Char) :
    (d.splice r text).text = d.text.take (d.offset (d.clampRange r).start) ++ text ++
      d.text.drop (d.offset (d.clampRange r).stop) := by
  rw [text_splice, ← upTo_eq_take (hd.holds_start r), ← beyond_eq_drop (hd.holds_stop r)]

theorem WellFormed.offset_splice {d : Document} (hd : d.WellFormed) (r : Range)
    (text : List Char) :
    (d.splice r text).offset ((d.clamp r.start).after text) =
      d.offset (d.clamp r.start) + text.length := by
  obtain ⟨hHolds, hUpTo, _⟩ := hd.cut_after r text
  rw [← length_upTo hHolds, hUpTo, List.length_append, length_upTo (hd.holds_clamp r.start)]

/-- A document is its flat text: the lines are the text's own, and the line before a place, the
text in a range and the text after a replacement are cut from the text at offsets. -/
theorem run_refines_text (content : List Char) (ops : List Operation) :
    let d := (ofText content).run ops
    (d.lines = splitLines d.text ∧ d.lines ≠ [] ∧ ∀ l ∈ d.lines, '\n' ∉ l) ∧
    (∀ p, d.textBefore p =
      (d.text.take (d.offset (d.clamp p))).drop (d.offset ⟨(d.clamp p).line, 0⟩)) ∧
    ∀ (r : Range) (text : List Char),
      let start := d.clamp r.start
      let a := d.offset start
      let b := d.offset (max (d.clamp r.stop) start)
      a ≤ b ∧ b ≤ d.text.length ∧
      d.slice r = (d.text.take b).drop a ∧
      (d.replace r text).text = d.text.take a ++ text ++ d.text.drop b ∧
      (d.replace r text).Holds (start.after text) ∧
      (d.replace r text).offset (start.after text) = a + text.length := by
  intro d
  have hd : d.WellFormed := (wellFormed_ofText content).run ops
  refine ⟨⟨hd.lines_eq, hd.lines_ne_nil, hd.newline_not_mem⟩, hd.textBefore_eq, ?_⟩
  intro r text
  exact ⟨hd.offset_le_offset r, offset_le_length (hd.holds_stop r), hd.slice_eq r,
    hd.text_splice_eq r text, (hd.cut_after r text).1, hd.offset_splice r text⟩

end Shorthand.Document
