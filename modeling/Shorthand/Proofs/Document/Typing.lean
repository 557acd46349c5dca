import Mathlib.Data.List.Induction
import Shorthand.Proofs.Document.Caret

/-! # Typing a text

As long as nothing reacts to the keystrokes, a typed text comes in as one insertion at the caret
would bring it in, line breaks and all. It can be taken back character by character.
-/
namespace Shorthand.Document

open Text

variable {d : Document}

theorem typeAll_concat (d : Document) (text : List Char) (c : Char) :
    d.typeAll (text ++ [c]) =
      (((d.typeAll text).1.type c).1, (d.typeAll text).2 ++ [((d.typeAll text).1.type c).2]) := by
  induction text generalizing d with
  | nil => rfl
  | cons b rest ih =>
    have hFirst (text : List Char) : d.typeAll (b :: text) =
        (((d.type b).1.typeAll text).1, (d.type b).2 :: ((d.type b).1.typeAll text).2) := rfl
    rw [List.cons_append, hFirst, ih, hFirst, List.cons_append]

theorem Stands.typeAll {before after : List Char} (h : d.Stands before after) (text : List Char) :
    (d.typeAll text).1.Stands (before ++ text) after := by
  induction text using List.reverseRecOn with
  | nil =>
    rw [List.append_nil]
    exact h
  | append_singleton text c ih =>
    rw [typeAll_concat, ← List.append_assoc]
    exact ih.type c

theorem caret_typeAll (d : Document) (text : List Char) :
    (d.typeAll text).1.caret = d.caret.after text := by
  induction text using List.reverseRecOn with
  | nil => rfl
  | append_singleton text c ih =>
    rw [typeAll_concat, Position.after_append, ← ih]
    rfl

theorem undoCount_typeAll (d : Document) (text : List Char) :
    (d.typeAll text).1.undoCount = d.undoCount + text.length := by
  induction text using List.reverseRecOn with
  | nil => rfl
  | append_singleton text c ih =>
    rw [typeAll_concat, List.length_append, ← Nat.add_assoc, ← ih]
    rfl

theorem getElem?_edits_typeAll (d : Document) (text : List Char) (i : Nat) :
    (d.typeAll text).2[i]? =
      text[i]?.map fun c => .keystroke (d.caret.after (text.take i)) c := by
  induction text generalizing d i with
  | nil => rfl
  | cons c rest ih =>
    cases i with
    | zero => rfl
    | succ i =>
      have hCaret : (d.type c).1.caret.after (rest.take i) = d.caret.after (c :: rest.take i) :=
        (Position.after_append d.caret [c] (rest.take i)).symm
      rw [List.getElem?_cons_succ, List.take_succ_cons, ← hCaret]
      exact ih (d.type c).1 i

theorem WellFormed.undo?_type (hd : d.WellFormed) (c : Char) : (d.type c).1.undo? = some d := by
  have hLines := hd.lines_splice_splice (.caret d.caret) [c]
  rw [undo?_of_cons rfl]
  exact congrArg (fun lines => some { d with lines }) hLines

theorem WellFormed.run_undo_typeAll (hd : d.WellFormed) (before after : List Char) :
    (d.typeAll (before ++ after)).1.run (List.replicate after.length .undo) =
      (d.typeAll before).1 := by
  induction after using List.reverseRecOn with
  | nil =>
    rw [List.append_nil]
    rfl
  | append_singleton after c ih =>
    have hUndo : ((d.typeAll (before ++ after)).1.type c).1.perform .undo =
        (d.typeAll (before ++ after)).1 := by
      rw [Document.perform, (hd.typeAll _).undo?_type c]
      rfl
    rw [← List.append_assoc, typeAll_concat, List.length_append, List.length_singleton,
      List.replicate_succ, run_cons, hUndo]
    exact ih

/-- Typing a text at a caret in the text is inserting it there: lines and text are the same, the
caret goes behind what was typed and stays in the text, and every character is reported at its own
place. Each character is an undo step, and undoing some of them leaves what was typed before. -/
theorem run_typeAll_eq_replace (content : List Char) (ops : List Operation) (text : List Char)
    (hCaret : ((ofText content).run ops).Holds ((ofText content).run ops).caret) :
    let d := (ofText content).run ops
    let typed := (d.typeAll text).1
    let inserted := d.replace (.caret d.caret) text
    typed.text = inserted.text ∧ typed.lines = inserted.lines ∧
    typed.caret = d.caret.after text ∧ typed.Holds typed.caret ∧
    typed.undoCount = d.undoCount + text.length ∧
    (∀ before after, text = before ++ after →
      typed.run (List.replicate after.length .undo) = (d.typeAll before).1) ∧
    ∀ i : Nat, (d.typeAll text).2[i]? =
      text[i]?.map fun c => .keystroke (d.caret.after (text.take i)) c := by
  intro d typed inserted
  have hd : d.WellFormed := (wellFormed_ofText content).run ops
  have hStands := hd.stands hCaret
  have hTyped := hStands.typeAll text
  have hText : typed.text = inserted.text :=
    hTyped.text_eq.trans (hStands.text_replace text).symm
  have hLines : typed.lines = inserted.lines := by
    rw [hTyped.wellFormed.lines_eq, (hd.replace (.caret d.caret) text).lines_eq]
    exact congrArg splitLines hText
  refine ⟨hText, hLines, caret_typeAll d text, hTyped.cut.1, undoCount_typeAll d text, ?_,
    getElem?_edits_typeAll d text⟩
  rintro before after rfl
  exact hd.run_undo_typeAll before after

/-- Two lines in the place of the caret, the second one taken back again. -/
theorem run_typeAll_eq_replace_two_lines :
    let d := (ofText "ad".toList).run [.moveCaret ⟨0, 1⟩]
    let typed := (d.typeAll "b\nc".toList).1
    d.Holds d.caret ∧ typed.lines = ["ab".toList, "cd".toList] ∧ typed.caret = ⟨1, 1⟩ ∧
      typed.undoCount = 3 ∧ (typed.run (List.replicate 2 .undo)) = (d.typeAll "b".toList).1 := by
  intro d typed
  have hCaret : d.Holds d.caret := by decide
  obtain ⟨_, hLines, hPlace, _, hCount, hUndo, _⟩ :=
    run_typeAll_eq_replace "ad".toList [.moveCaret ⟨0, 1⟩] "b\nc".toList hCaret
  refine ⟨hCaret, hLines.trans (by decide), hPlace.trans (by decide), hCount.trans (by decide), ?_⟩
  exact hUndo "b".toList "\nc".toList rfl

end Shorthand.Document
