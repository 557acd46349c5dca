import Shorthand.Proofs.Document.Run

/-! # The history of a document

A step of the history holds a range, a text and a caret only. Beside it stands a stack of what the
document was before each recorded edit. The two have the same height throughout, and an undo brings
back exactly the top of the stack.
-/
namespace Shorthand.Document

open Text

/-- What an undo brings back. -/
structure Snapshot where
  lines : List (List Char)
  caret : Position

def snapshot (d : Document) : Snapshot := ⟨d.lines, d.caret⟩

def rememberTyping (d : Document) (past : List Snapshot) : List Char → List Snapshot
  | [] => past
  | c :: rest => (d.type c).1.rememberTyping (d.snapshot :: past) rest

/-- Every recorded edit puts on top what the document was before it; typing a text is an edit for
each character. An undo takes the top away. -/
def remember (d : Document) (past : List Snapshot) : Operation → List Snapshot
  | .type _ | .replace _ _ | .expand _ _ => d.snapshot :: past
  | .typeAll text => d.rememberTyping past text
  | .moveCaret _ | .reveal _ | .resize _ => past
  | .undo => past.tail

def remembered (d : Document) (past : List Snapshot) : List Operation → List Snapshot
  | [] => past
  | op :: ops => (d.perform op).remembered (d.remember past op) ops

/-- The steps of the history bring back the snapshots one by one, and at last the first text. -/
inductive Recalls (content : List Char) : Document → List Snapshot → Prop where
  | start {d : Document} (hHistory : d.history = []) (hText : d.text = content) :
      Recalls content d []
  | step {d e : Document} {past : List Snapshot} (hUndo : d.undo? = some e)
      (hPast : Recalls content e past) : Recalls content d (e.snapshot :: past)

theorem undo?_of_cons {d : Document} {step : Reversal} {earlier : List Reversal}
    (h : d.history = step :: earlier) :
    d.undo? = some { d.splice step.inserted step.removed with
      caret := step.caretBefore, history := earlier } := by
  rw [undo?, h]

theorem undo?_eq_none_iff {d : Document} : d.undo? = none ↔ d.history = [] := by
  cases h : d.history with
  | nil => simp [undo?, h]
  | cons step earlier => simp [undo?_of_cons h]

theorem undoCount_undo {d e : Document} (h : d.undo? = some e) :
    d.undoCount = e.undoCount + 1 := by
  cases hHistory : d.history with
  | nil => rw [undo?_eq_none_iff.mpr hHistory] at h; cases h
  | cons step earlier =>
    rw [undo?_of_cons hHistory] at h
    cases h
    simp [undoCount, hHistory]

theorem undoCount_expand (d : Document) (span : Range) (template : List Char) :
    (d.expand span template).1.undoCount = d.undoCount + 1 :=
  congrArg List.length (history_reveal _ _)

theorem lines_splice_congr {d d' : Document} (h : d'.lines = d.lines) (r : Range)
    (text : List Char) : (d'.splice r text).lines = (d.splice r text).lines := by
  obtain ⟨_, _, _, _, _⟩ := d
  cases h
  rfl

theorem undo?_congr {d d' e : Document} (hLines : d'.lines = d.lines)
    (hHistory : d'.history = d.history) (h : d.undo? = some e) :
    ∃ e', d'.undo? = some e' ∧ e'.snapshot = e.snapshot ∧ e'.history = e.history := by
  cases hd : d.history with
  | nil => rw [undo?_eq_none_iff.mpr hd] at h; cases h
  | cons step earlier =>
    rw [undo?_of_cons hd] at h
    cases h
    refine ⟨_, undo?_of_cons (hHistory.trans hd), ?_, rfl⟩
    exact congrArg (Snapshot.mk · step.caretBefore) (lines_splice_congr hLines _ _)

theorem Recalls.congr {content : List Char} {d d' : Document} {past : List Snapshot}
    (h : Recalls content d past) (hLines : d'.lines = d.lines)
    (hHistory : d'.history = d.history) : Recalls content d' past := by
  induction h generalizing d' with
  | start hEmpty hText =>
    exact .start (hHistory.trans hEmpty) ((congrArg joinLines hLines).trans hText)
  | step hUndo _ ih =>
    obtain ⟨e', hUndo', hSnapshot, hEarlier⟩ := undo?_congr hLines hHistory hUndo
    rw [← hSnapshot]
    exact .step hUndo' (ih (congrArg Snapshot.lines hSnapshot) hEarlier)

theorem WellFormed.undo?_replace {d : Document} (hd : d.WellFormed) (r : Range)
    (text : List Char) :
    ∃ e, (d.replace r text).undo? = some e ∧ e.snapshot = d.snapshot ∧ e.history = d.history := by
  refine ⟨_, undo?_of_cons rfl, ?_, rfl⟩
  exact congrArg (Snapshot.mk · d.caret) (hd.lines_splice_splice r text)

theorem WellFormed.undo?_expand {d : Document} (hd : d.WellFormed) (span : Range)
    (template : List Char) :
    ∃ e, (d.expand span template).1.undo? = some e ∧ e.snapshot = d.snapshot ∧
      e.history = d.history := by
  obtain ⟨e, hUndo, hSnapshot, hEarlier⟩ := hd.undo?_replace span (Template.parse template).text
  have hLines : (d.expand span template).1.lines =
      (d.replace span (Template.parse template).text).lines := lines_reveal _ _
  obtain ⟨e', hUndo', hSnapshot', hEarlier'⟩ := undo?_congr hLines (history_reveal _ _) hUndo
  exact ⟨e', hUndo', hSnapshot'.trans hSnapshot, hEarlier'.trans hEarlier⟩

theorem Recalls.edit {content : List Char} {d f : Document} {past : List Snapshot}
    (h : Recalls content d past) (hd : d.WellFormed) (r : Range) (text : List Char)
    (hLines : f.lines = (d.replace r text).lines)
    (hHistory : f.history = (d.replace r text).history) :
    Recalls content f (d.snapshot :: past) := by
  obtain ⟨e, hUndo, hSnapshot, hEarlier⟩ := hd.undo?_replace r text
  have hPast : Recalls content e past := h.congr (congrArg Snapshot.lines hSnapshot) hEarlier
  have hReplace : Recalls content (d.replace r text) (e.snapshot :: past) := .step hUndo hPast
  rw [← hSnapshot]
  exact hReplace.congr hLines hHistory

theorem Recalls.typeAll {content : List Char} {d : Document} {past : List Snapshot}
    (h : Recalls content d past) (hd : d.WellFormed) (text : List Char) :
    Recalls content (d.typeAll text).1 (d.rememberTyping past text) := by
  induction text generalizing d past with
  | nil => exact h
  | cons c rest ih => exact ih (h.edit hd (.caret d.caret) [c] rfl rfl) (hd.type c)

theorem Recalls.perform {content : List Char} {d : Document} {past : List Snapshot}
    (h : Recalls content d past) (hd : d.WellFormed) (op : Operation) :
    Recalls content (d.perform op) (d.remember past op) := by
  cases op with
  | type c => exact h.edit hd (.caret d.caret) [c] rfl rfl
  | typeAll text => exact h.typeAll hd text
  | replace r text => exact h.edit hd r text rfl rfl
  | expand span template =>
    exact h.edit hd span (Template.parse template).text (lines_reveal _ _) (history_reveal _ _)
  | moveCaret p => exact h.congr rfl rfl
  | reveal p => exact h.congr (lines_reveal d p) (history_reveal d p)
  | resize lines => exact h.congr rfl rfl
  | undo =>
    rw [Document.perform]
    cases h with
    | start hHistory hText =>
      rw [undo?_eq_none_iff.mpr hHistory]
      exact .start hHistory hText
    | step hUndo hPast =>
      rw [hUndo]
      exact hPast

theorem Recalls.run {content : List Char} {d : Document} {past : List Snapshot}
    (h : Recalls content d past) (hd : d.WellFormed) (ops : List Operation) :
    Recalls content (d.run ops) (d.remembered past ops) := by
  induction ops generalizing d past with
  | nil => exact h
  | cons op ops ih => exact ih (h.perform hd op) (hd.perform op)

theorem Recalls.undoCount_eq {content : List Char} {d : Document} {past : List Snapshot}
    (h : Recalls content d past) : d.undoCount = past.length := by
  induction h with
  | start hHistory _ => rw [undoCount, hHistory]; rfl
  | step hUndo _ ih => rw [undoCount_undo hUndo, ih, List.length_cons]

theorem Recalls.text_undoAll {content : List Char} {d : Document} {past : List Snapshot}
    (h : Recalls content d past) :
    (d.run (List.replicate past.length .undo)).text = content := by
  induction h with
  | start _ hText => exact hText
  | @step d e past hUndo _ ih =>
    have hStep : d.perform .undo = e := by rw [Document.perform, hUndo, Option.getD_some]
    rw [List.length_cons, List.replicate_succ, run_cons, hStep]
    exact ih

/-- Undo is an exact history. The snapshots taken before the recorded edits are brought back in
reverse, each with its lines and its caret, and undoing all of them brings back the first text. -/
theorem run_undo_exact (content : List Char) (ops : List Operation) :
    let d := (ofText content).run ops
    let past := (ofText content).remembered [] ops
    d.undoCount = past.length ∧
    (d.undo? = none ↔ past = []) ∧
    (past = [] → d.perform .undo = d) ∧
    (∀ top rest, past = top :: rest →
      ∃ e, d.undo? = some e ∧ d.perform .undo = e ∧ e.lines = top.lines ∧ e.caret = top.caret) ∧
    (d.run (List.replicate d.undoCount .undo)).text = content ∧
    ∀ span template,
      (d.expand span template).1.undoCount = d.undoCount + 1 ∧
      ∃ e, (d.expand span template).1.undo? = some e ∧ e.lines = d.lines ∧ e.caret = d.caret := by
  intro d past
  have hd : d.WellFormed := (wellFormed_ofText content).run ops
  have hStart : Recalls content (ofText content) [] := .start rfl (text_ofText content)
  have h : Recalls content d past := hStart.run (wellFormed_ofText content) ops
  have hNone : d.undo? = none ↔ past = [] := by
    rw [undo?_eq_none_iff, ← List.length_eq_zero_iff, ← List.length_eq_zero_iff,
      ← h.undoCount_eq, undoCount]
  refine ⟨h.undoCount_eq, hNone, ?_, ?_, ?_, ?_⟩
  · intro hPast
    rw [Document.perform, hNone.mpr hPast, Option.getD_none]
  · intro top rest hPast
    rw [hPast] at h
    cases h with
    | @step _ e _ hUndo _ =>
      exact ⟨e, hUndo, by rw [Document.perform, hUndo, Option.getD_some], rfl, rfl⟩
  · rw [h.undoCount_eq]
    exact h.text_undoAll
  · intro span template
    obtain ⟨e, hUndo, hSnapshot, _⟩ := hd.undo?_expand span template
    exact ⟨undoCount_expand d span template, e, hUndo, congrArg Snapshot.lines hSnapshot,
      congrArg Snapshot.caret hSnapshot⟩

end Shorthand.Document
