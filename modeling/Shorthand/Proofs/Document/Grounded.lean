import Shorthand.Proofs.Document.Caret

/-! # Documents that keep their caret

An undo sets the caret without a look at the text that it brings back. So the caret stays in the
text only if every caret of the history is in the text that it belongs to. Replacing a range is
left out here: it does not move the caret along.
-/
namespace Shorthand.Document

def Snapshot.HoldsCaret (s : Snapshot) : Prop :=
  s.caret.line < s.lines.length ∧ s.caret.column ≤ (s.lines[s.caret.line]?.getD []).length

/-- The caret is in the text, and it is after any number of undos. -/
structure Grounded (d : Document) : Prop where
  wellFormed : d.WellFormed
  holds_caret : d.Holds d.caret
  recalls : ∃ content past, Recalls content d past ∧ ∀ s ∈ past, s.HoldsCaret

variable {d : Document}

theorem grounded_ofText (content : List Char) : (ofText content).Grounded := by
  refine ⟨wellFormed_ofText content, ?_, content, [], .start rfl (text_ofText content), by simp⟩
  constructor
  · exact (wellFormed_ofText content).numLines_pos
  · exact Nat.zero_le _

theorem holdsCaret_of_mem_remember {past : List Snapshot} (hCaret : d.Holds d.caret)
    (hPast : ∀ s ∈ past, s.HoldsCaret) {op : Operation} (hOp : ∀ text, op ≠ .typeAll text) :
    ∀ s ∈ d.remember past op, s.HoldsCaret := by
  have hPush : ∀ s ∈ d.snapshot :: past, s.HoldsCaret :=
    List.forall_mem_cons.mpr ⟨hCaret, hPast⟩
  cases op with
  | type c => exact hPush
  | replace r text => exact hPush
  | expand span template => exact hPush
  | typeAll text => exact absurd rfl (hOp text)
  | undo => exact fun s hs => hPast s (List.mem_of_mem_tail hs)
  | _ => exact hPast

theorem Grounded.of_perform (h : d.Grounded) (op : Operation) (hOp : ∀ text, op ≠ .typeAll text)
    (hCaret : (d.perform op).Holds (d.perform op).caret) : (d.perform op).Grounded := by
  obtain ⟨content, past, hRecalls, hPast⟩ := h.recalls
  exact ⟨h.wellFormed.perform op, hCaret, content, d.remember past op,
    hRecalls.perform h.wellFormed op, holdsCaret_of_mem_remember h.holds_caret hPast hOp⟩

theorem Grounded.type (h : d.Grounded) (c : Char) : (d.type c).1.Grounded :=
  h.of_perform (.type c) (by simp) ((h.wellFormed.stands h.holds_caret).type c).cut.1

theorem Grounded.expand (h : d.Grounded) (span : Range) (template : List Char) :
    (d.expand span template).1.Grounded := by
  refine h.of_perform (.expand span template) (by simp) ?_
  have hWellFormed := h.wellFormed.splice span (Template.parse template).text
  have hLines := lines_expand d span template
  have hCaret : (d.expand span template).1.caret =
      (d.splice span (Template.parse template).text).clamp (d.expand span template).2 :=
    caret_reveal _ _
  have hHolds := hWellFormed.holds_clamp (d.expand span template).2
  rw [← hCaret] at hHolds
  rw [Holds, numLines, lineAt] at hHolds ⊢
  rw [← hLines] at hHolds
  exact hHolds

theorem Grounded.moveCaret (h : d.Grounded) (p : Position) : (d.moveCaret p).Grounded :=
  h.of_perform (.moveCaret p) (by simp) (h.wellFormed.holds_clamp p)

theorem Grounded.scroll (h : d.Grounded) (top : Nat) : { d with top }.Grounded := by
  obtain ⟨content, past, hRecalls, hPast⟩ := h.recalls
  exact ⟨h.wellFormed.congr rfl, h.holds_caret, content, past, hRecalls.congr rfl rfl, hPast⟩

theorem Grounded.reveal (h : d.Grounded) (p : Position) : (d.reveal p).Grounded := by
  rw [Document.reveal]
  split
  · exact h.scroll _
  · exact h

theorem Grounded.resize (h : d.Grounded) (lines : Nat) : (d.withHeight lines).Grounded :=
  h.of_perform (.resize lines) (by simp) h.holds_caret

theorem Grounded.undo (h : d.Grounded) : (d.undo?.getD d).Grounded := by
  refine h.of_perform .undo (by simp) ?_
  obtain ⟨content, past, hRecalls, hPast⟩ := h.recalls
  rw [Document.perform]
  cases hRecalls with
  | start hHistory _ =>
    rw [undo?_eq_none_iff.mpr hHistory]
    exact h.holds_caret
  | step hUndo _ =>
    rw [hUndo]
    exact hPast _ List.mem_cons_self

theorem Grounded.text_type (h : d.Grounded) (c : Char) :
    (d.type c).2.range = .caret d.caret ∧ (d.type c).2.text = String.singleton c ∧
      (d.type c).1.text =
        d.text.take (d.offset d.caret) ++ [c] ++ d.text.drop (d.offset d.caret) := by
  have hStands := (h.wellFormed.stands h.holds_caret).type c
  refine ⟨rfl, rfl, ?_⟩
  rw [hStands.text_eq, upTo_eq_take h.holds_caret, beyond_eq_drop h.holds_caret]

end Shorthand.Document
