import Shorthand.Proofs.Document.History
import Shorthand.Proofs.Words

/-! # What an edit leaves alone

An edit of a pane that expands nothing only asks for a refresh of the preview. One that expands
also changes the document of that pane, by one step that can be undone, and nothing else. How sums
of words are made does not matter for that.
-/
namespace Shorthand.Playground

variable {α : Type}

/-- Nothing but the pane `p` and the number of refreshes differs. -/
structure SameBut (p : Pane) (g g' : Playground α) : Prop where
  catalogue : g'.catalogue = g.catalogue
  stock : g'.stock = g.stock
  languages : ∀ q, (g'.panes.get? q).map (·.language) = (g.panes.get? q).map (·.language)
  others : ∀ q, q ≠ p → g'.panes.get? q = g.panes.get? q

theorem SameBut.withDocument {g : Playground α} {p : Pane} {editor : Editor}
    (hPane : g.panes.get? p = some editor) (d : Document) (n : Nat) :
    SameBut p g { g.withDocument p editor d with refreshes := n } where
  catalogue := rfl
  stock := rfl
  languages q := by
    rw [Playground.withDocument, Panes.get?_set]
    split
    next h => rw [h, hPane]; rfl
    next => rfl
  others q hq := by rw [Playground.withDocument, Panes.get?_set, if_neg hq]

theorem history_of_expand {plus : Addition} {d d' : Document} {span : Range}
    {template : List Char} {caret : Position}
    (h : Words.expand plus d span template = some (d', caret)) :
    ∃ step, d'.history = step :: d.history := by
  obtain ⟨top, rfl⟩ := Words.expand_eq_some h
  exact ⟨_, Document.history_reveal _ _⟩

theorem not_types_of_other {e : Edit}
    (h : e.isFlush ∨ e.isUndoing ∨ e.isRedoing ∨ e.changeCount ≠ 1 ∨ e.rangeLength ≠ 0 ∨
      e.text.toList.length ≠ 1) (c : Char) : ¬ e.Types c := by
  intro hTypes
  rw [hTypes.isFlush, hTypes.isUndoing, hTypes.isRedoing, hTypes.changeCount, hTypes.rangeLength,
    hTypes.text, String.toList_singleton] at h
  simp at h

end Shorthand.Playground
