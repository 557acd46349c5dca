import Shorthand.Proofs.Document.History

/-! # The caret between two texts

While the caret is in the text, it parts the text in two. A keystroke moves its character over to
the first part, and an expansion parts what it inserts at the template's marker.
-/
namespace Shorthand.Document

open Text

/-- The caret is in the text, with `before` up to it and `after` beyond it. -/
structure Stands (d : Document) (before after : List Char) : Prop where
  wellFormed : d.WellFormed
  text_eq : d.text = before ++ after
  caret_eq : d.caret = Position.origin.after before

theorem WellFormed.stands {d : Document} (hd : d.WellFormed) (h : d.Holds d.caret) :
    d.Stands (d.upTo d.caret) (d.beyond d.caret) :=
  ⟨hd, (upTo_append_beyond h).symm, (hd.origin_after_upTo h).symm⟩

theorem caret_type {c : Char} (hc : c ≠ '\n') (d : Document) :
    (d.type c).1.caret = ⟨d.caret.line, d.caret.column + 1⟩ :=
  Position.after_of_not_mem (fun hm => hc (List.mem_singleton.mp hm).symm) d.caret

namespace Stands

variable {d : Document} {before after : List Char}

theorem cut (h : d.Stands before after) :
    d.Holds d.caret ∧ d.upTo d.caret = before ∧ d.beyond d.caret = after := by
  rw [h.caret_eq]
  exact h.wellFormed.cut h.text_eq

theorem offset_caret (h : d.Stands before after) : d.offset d.caret = before.length := by
  rw [h.caret_eq]
  exact h.wellFormed.offset_after h.text_eq

theorem textBefore_caret (h : d.Stands before after) : d.textBefore d.caret = lastLine before := by
  obtain ⟨hHolds, hUpTo, _⟩ := h.cut
  rw [textBefore_eq_lastLine h.wellFormed, clamp_of_holds hHolds, hUpTo]

theorem column_caret (h : d.Stands before after) : d.caret.column = (lastLine before).length := by
  rw [h.caret_eq, Position.origin_after]

theorem text_replace (h : d.Stands before after) (text : List Char) :
    (d.replace (.caret d.caret) text).text = before ++ text ++ after := by
  obtain ⟨hHolds, hUpTo, hBeyond⟩ := h.cut
  have hRange : d.clampRange (.caret d.caret) = .caret d.caret :=
    clampRange_of_holds hHolds hHolds (.inr ⟨rfl, Nat.le_refl _⟩)
  have hText := d.text_splice (.caret d.caret) text
  rw [hRange, Range.caret, hUpTo, hBeyond] at hText
  exact hText

theorem type (h : d.Stands before after) (c : Char) :
    (d.type c).1.Stands (before ++ [c]) after := by
  refine ⟨h.wellFormed.type c, h.text_replace [c], ?_⟩
  show d.caret.after [c] = _
  rw [Position.after_append, h.caret_eq]

end Stands

theorem WellFormed.stands_expand {d : Document} (hd : d.WellFormed) (span : Range)
    (template : List Char) (hStart : d.Holds span.start) :
    ∃ u v, Template.Parts template u v ∧
      (d.expand span template).1.Stands (d.upTo span.start ++ u)
        (v ++ d.beyond (d.clampRange span).stop) ∧
      (d.expand span template).2 = (d.expand span template).1.caret := by
  obtain ⟨u, v, hParts, hText, hCaret⟩ := Template.parts_parse template
  have hSplice : (d.splice span (Template.parse template).text).text =
      (d.upTo span.start ++ u) ++ (v ++ d.beyond (d.clampRange span).stop) := by
    rw [text_splice, clampRange_start, clamp_of_holds hStart, hText]
    simp only [List.append_assoc]
  have hPlace : (d.expand span template).2 = Position.origin.after (d.upTo span.start ++ u) := by
    rw [Position.after_append, hd.origin_after_upTo hStart]
    exact hCaret span.start
  have hClamp : (d.expand span template).1.caret =
      (d.splice span (Template.parse template).text).clamp (d.expand span template).2 :=
    caret_reveal _ _
  have hHolds := ((hd.splice span (Template.parse template).text).cut hSplice).1
  rw [hPlace, clamp_of_holds hHolds] at hClamp
  refine ⟨u, v, hParts, ⟨hd.perform (.expand span template), ?_, hClamp⟩, hPlace.trans hClamp.symm⟩
  rw [← hSplice]
  exact congrArg joinLines (lines_expand d span template)

theorem Stands.expand {d : Document} {before typed after : List Char}
    (h : d.Stands (before ++ typed) after) (template : List Char) :
    ∃ u v, Template.Parts template u v ∧
      (d.expand ⟨Position.origin.after before, d.caret⟩ template).1.Stands (before ++ u)
        (v ++ after) ∧
      (d.expand ⟨Position.origin.after before, d.caret⟩ template).2 =
        (d.expand ⟨Position.origin.after before, d.caret⟩ template).1.caret := by
  obtain ⟨hStop, _, hBeyond⟩ := h.cut
  obtain ⟨hStart, hUpTo, _⟩ := h.wellFormed.cut (h.text_eq.trans (List.append_assoc _ _ _))
  have hLe : Position.origin.after before ≤ d.caret := by
    rw [h.caret_eq, Position.after_append]
    exact Position.le_after _ _
  obtain ⟨u, v, hParts, hExpand, hReturn⟩ :=
    h.wellFormed.stands_expand ⟨Position.origin.after before, d.caret⟩ template hStart
  rw [hUpTo, clampRange_of_holds hStart hStop hLe, hBeyond] at hExpand
  exact ⟨u, v, hParts, hExpand, hReturn⟩

end Shorthand.Document
