import Mathlib.Data.List.Induction
import Shorthand.Proofs.Document.Grounded

/-! # What is reported of a keystroke

A character that is typed comes in at the place that is nearest to the caret, but the edit names the
caret itself. The two are the same as long as the caret is in the text. Replacing a range can leave
it outside; no other operation does.
-/
namespace Shorthand.Document

/-- What is reported of a keystroke has happened. The edit names a place in the text, the character
came in there and the caret is right behind it. -/
structure Truthful (d : Document) (c : Char) : Prop where
  holds_start : d.Holds (d.type c).2.range.start
  text_eq : (d.type c).1.text =
    d.text.take (d.offset (d.type c).2.range.start) ++ [c] ++
      d.text.drop (d.offset (d.type c).2.range.start)
  holds_caret : (d.type c).1.Holds (d.type c).1.caret
  before_caret : (d.type c).1.text.take ((d.type c).1.offset (d.type c).1.caret) =
    d.text.take (d.offset (d.type c).2.range.start) ++ [c]

variable {d : Document}

theorem clampRange_caret (d : Document) (p : Position) :
    d.clampRange (.caret p) = .caret (d.clamp p) :=
  congrArg (Range.mk (d.clamp p)) (Position.max_eq_right (.inr ⟨rfl, Nat.le_refl _⟩))

theorem WellFormed.text_type (hd : d.WellFormed) (c : Char) :
    (d.type c).1.text =
      d.text.take (d.offset (d.clamp d.caret)) ++ [c] ++
        d.text.drop (d.offset (d.clamp d.caret)) := by
  have hText := hd.text_splice_eq (.caret d.caret) [c]
  rw [clampRange_caret] at hText
  exact hText

theorem WellFormed.truthful_iff (hd : d.WellFormed) (c : Char) :
    d.Truthful c ↔ d.Holds d.caret := by
  constructor
  · exact fun h => h.holds_start
  · intro hCaret
    have hStands := hd.stands hCaret
    obtain ⟨hHolds, hUpTo, _⟩ := (hStands.type c).cut
    have hText := hd.text_type c
    rw [clamp_of_holds hCaret] at hText
    refine ⟨hCaret, hText, hHolds, ?_⟩
    rw [← upTo_eq_take hHolds, hUpTo, upTo_eq_take hCaret]
    rfl

theorem run_concat (d : Document) (ops : List Operation) (op : Operation) :
    d.run (ops ++ [op]) = (d.run ops).perform op := by
  rw [run, List.foldl_append]
  rfl

theorem Grounded.typeAll (h : d.Grounded) (text : List Char) : (d.typeAll text).1.Grounded := by
  induction text generalizing d with
  | nil => exact h
  | cons c rest ih => exact ih (h.type c)

theorem Grounded.perform (h : d.Grounded) (op : Operation)
    (hReplace : ∀ r text, op = .replace r text → (d.replace r text).Holds d.caret) :
    (d.perform op).Grounded := by
  cases op with
  | type c => exact h.type c
  | typeAll text => exact h.typeAll text
  | replace r text => exact h.of_perform (.replace r text) (by simp) (hReplace r text rfl)
  | expand span template => exact h.expand span template
  | moveCaret p => exact h.moveCaret p
  | reveal p => exact h.reveal p
  | resize lines => exact h.resize lines
  | undo => exact h.undo

/-- No replacement of a run takes the caret out of the text. -/
def SparesCaret (d : Document) (ops : List Operation) : Prop :=
  ∀ before r text after, ops = before ++ .replace r text :: after →
    ((d.run before).replace r text).Holds (d.run before).caret

theorem SparesCaret.of_append {before after : List Operation}
    (h : d.SparesCaret (before ++ after)) : d.SparesCaret before := by
  rintro front r text back rfl
  exact h front r text (back ++ after) (by simp)

theorem Grounded.run (h : d.Grounded) {ops : List Operation} (hSpares : d.SparesCaret ops) :
    (d.run ops).Grounded := by
  induction ops using List.reverseRecOn with
  | nil => exact h
  | append_singleton ops op ih =>
    rw [run_concat]
    refine (ih hSpares.of_append).perform op ?_
    rintro r text rfl
    exact hSpares ops r text [] rfl

/-- Keystrokes are reported as they happen at every point of a run, whatever is typed, exactly if no
replacement of the run takes the caret out of the text. At any one point they are if the caret is in
the text; else the character comes in at the nearest place, and the edit does not name it. -/
theorem run_truthful_iff (content : List Char) (ops : List Operation) :
    ((∀ before after, ops = before ++ after → ∀ c, ((ofText content).run before).Truthful c) ↔
      (ofText content).SparesCaret ops) ∧
    ∀ c,
      let d := (ofText content).run ops
      (d.Truthful c ↔ d.Holds d.caret) ∧ (d.type c).2.range = .caret d.caret ∧
      (d.type c).1.text =
        d.text.take (d.offset (d.clamp d.caret)) ++ [c] ++
          d.text.drop (d.offset (d.clamp d.caret)) := by
  have hWellFormed (ops : List Operation) : ((ofText content).run ops).WellFormed :=
    (wellFormed_ofText content).run ops
  constructor
  · constructor
    · rintro hTruthful before r text after rfl
      have hSplit :
          before ++ .replace r text :: after = (before ++ [.replace r text]) ++ after := by
        simp
      have hCaret := (hTruthful _ after hSplit ' ').holds_start
      rw [run_concat] at hCaret
      exact hCaret
    · rintro hSpares before after rfl c
      have hGrounded := (grounded_ofText content).run hSpares.of_append
      exact ((hWellFormed before).truthful_iff c).mpr hGrounded.holds_caret
  · intro c
    exact ⟨(hWellFormed ops).truthful_iff c, rfl, (hWellFormed ops).text_type c⟩

/-- A line is emptied while the caret is behind it. -/
theorem type_misreported :
    let d := (ofText "ab".toList).run [.moveCaret ⟨0, 2⟩, .replace (.inLine 0 0 2) []]
    let typed := d.type 'x'
    d.text = [] ∧ typed.2.range.start = ⟨0, 2⟩ ∧ ¬ d.Holds typed.2.range.start ∧
      typed.1.text = ['x'] ∧ typed.1.caret = ⟨0, 3⟩ ∧ ¬ typed.1.Holds typed.1.caret := by
  decide

end Shorthand.Document
