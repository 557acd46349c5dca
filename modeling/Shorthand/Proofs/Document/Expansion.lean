import Shorthand.Proofs.Document.Caret

/-! # Where an expansion leaves the caret

The text before the template's marker ends at the caret, whatever stands around it and however the
document came about. The line of the caret is visible afterwards, and nothing scrolls when it was
visible before.
-/
namespace Shorthand.Document

def Shows (d : Document) (line : Nat) : Prop := d.top ≤ line ∧ line < d.top + d.height

instance (d : Document) (line : Nat) : Decidable (d.Shows line) :=
  inferInstanceAs (Decidable (d.top ≤ line ∧ line < d.top + d.height))

theorem height_reveal (d : Document) (p : Position) : (d.reveal p).height = d.height := by
  rw [reveal]
  split <;> rfl

theorem reveal_of_shows {d : Document} {p : Position} (h : d.Shows p.line) : d.reveal p = d := by
  obtain ⟨hTop, hBottom⟩ := h
  rw [reveal, if_neg]
  omega

theorem shows_reveal {d : Document} (hHeight : 0 < d.height) (p : Position) :
    (d.reveal p).Shows p.line := by
  rw [reveal]
  split
  next hOutside =>
    show p.line - d.height / 2 ≤ p.line ∧ p.line < p.line - d.height / 2 + d.height
    omega
  next hInside =>
    show d.top ≤ p.line ∧ p.line < d.top + d.height
    omega

theorem height_typeAll (d : Document) (text : List Char) :
    (d.typeAll text).1.height = d.height := by
  induction text generalizing d with
  | nil => rfl
  | cons c rest ih => exact ih (d.type c).1

theorem height_undo {d e : Document} (h : d.undo? = some e) : e.height = d.height := by
  rw [undo?] at h
  split at h
  · cases h
  · cases h
    rfl

theorem height_pos_perform {d : Document} (h : 0 < d.height) (op : Operation) :
    0 < (d.perform op).height := by
  cases op with
  | type c => exact h
  | typeAll text => exact (d.height_typeAll text).symm ▸ h
  | replace r text => exact h
  | expand span template => exact (height_reveal _ _).symm ▸ h
  | moveCaret p => exact h
  | reveal p => exact (d.height_reveal p).symm ▸ h
  | resize lines => exact Nat.le_max_right lines 1
  | undo =>
    rw [perform]
    cases hUndo : d.undo? with
    | none => exact h
    | some e => exact (height_undo hUndo).symm ▸ h

theorem height_pos_run (content : List Char) (ops : List Operation) :
    0 < ((ofText content).run ops).height := by
  have hStart : 0 < (ofText content).height := Nat.zero_lt_succ _
  generalize ofText content = d at hStart
  induction ops generalizing d with
  | nil => exact hStart
  | cons op ops ih => exact ih (d.perform op) (height_pos_perform hStart op)

theorem shows_expand {d : Document} (hHeight : 0 < d.height) (span : Range)
    (template : List Char) :
    (d.expand span template).1.Shows (d.expand span template).2.line := by
  let caret := (Template.parse template).caretFrom span.start
  let replaced := (d.replace span (Template.parse template).text).moveCaret caret
  have hReplaced : 0 < replaced.height := hHeight
  exact shows_reveal hReplaced caret

theorem top_expand_of_shows {d : Document} {span : Range} {template : List Char}
    (h : d.Shows (d.expand span template).2.line) : (d.expand span template).1.top = d.top := by
  let caret := (Template.parse template).caretFrom span.start
  let replaced := (d.replace span (Template.parse template).text).moveCaret caret
  have hReplaced : replaced.Shows caret.line := h
  calc (d.expand span template).1.top
      = replaced.top := congrArg top (reveal_of_shows hReplaced)
    _ = d.top := rfl

/-- An expansion puts the template, without its first marker, in the place of what is between the
start of the span and its clamped stop. The caret is in the text then, right behind what the
template has before the marker; later markers are part of the text. The line of the caret is
visible, and the viewport moves only to make it so. -/
theorem run_expand_exact (content : List Char) (ops : List Operation) (span : Range)
    (template : List Char) (hStart : ((ofText content).run ops).Holds span.start) :
    let d := (ofText content).run ops
    let before := d.text.take (d.offset span.start)
    let after := d.text.drop (d.offset (max (d.clamp span.stop) span.start))
    let e := (d.expand span template).1
    let p := (d.expand span template).2
    ∃ u v, Template.Parts template u v ∧
      e.text = before ++ u ++ v ++ after ∧
      e.Holds p ∧ e.caret = p ∧ e.text.take (e.offset p) = before ++ u ∧
      e.Shows p.line ∧ (d.Shows p.line → e.top = d.top) := by
  intro d before after e p
  have hd : d.WellFormed := (wellFormed_ofText content).run ops
  obtain ⟨u, v, hParts, hStands, hReturn⟩ := hd.stands_expand span template hStart
  have hBefore : d.upTo span.start = before := upTo_eq_take hStart
  have hAfter : d.beyond (d.clampRange span).stop = after := by
    rw [beyond_eq_drop (hd.holds_stop span), clampRange_stop, clamp_of_holds hStart]
  rw [hBefore, hAfter] at hStands
  have hPlace : p = e.caret := hReturn
  obtain ⟨hHolds, hUpTo, _⟩ := hStands.cut
  refine ⟨u, v, hParts, ?_, ?_, hPlace.symm, ?_, shows_expand (height_pos_run content ops) _ _,
    top_expand_of_shows⟩
  · rw [List.append_assoc (before ++ u)]
    exact hStands.text_eq
  · rw [hPlace]
    exact hHolds
  · rw [hPlace, ← upTo_eq_take hHolds]
    exact hUpTo

/-- A span that ends before it starts, a template with two markers and a viewport of one line. -/
theorem run_expand_exact_backwards :
    let d := (ofText "ab\ncd".toList).run [.resize 0, .type 'x', .undo]
    let span : Range := ⟨⟨1, 1⟩, ⟨0, 1⟩⟩
    let template := "f(\n$CURSOR$, $CURSOR$)".toList
    let e := (d.expand span template).1
    d.Holds span.start ∧ ¬ d.Shows 2 ∧
      e.text = "ab\ncf(\n, $CURSOR$)d".toList ∧ e.caret = ⟨2, 0⟩ ∧
      e.text.take (e.offset e.caret) = "ab\ncf(\n".toList ∧ e.Shows 2 := by
  intro d span template e
  have hStart : d.Holds span.start := by decide
  obtain ⟨u, v, _, _, _, hCaret, _, hShows, _⟩ :=
    run_expand_exact "ab\ncd".toList [.resize 0, .type 'x', .undo] span template hStart
  have hPlace : (d.expand span template).2 = ⟨2, 0⟩ := by decide
  rw [hPlace] at hCaret hShows
  exact ⟨hStart, by decide, by decide, hCaret, by decide, hShows⟩

end Shorthand.Document
