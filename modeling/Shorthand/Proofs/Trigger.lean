import Shorthand.Trigger
import Shorthand.Proofs.Dictionary
import Shorthand.Proofs.Document.Caret
import Shorthand.Proofs.Text.Blank

/-! # Laws of triggers

What a keystroke can set off depends on the line up to it only. A character that is not blank sets
something off at the start of a line at most. A space sets off the word in front of it.
-/
namespace Shorthand

open Text

theorem Dictionary.isEmpty_of_contains {d : Dictionary} {trigger : String}
    (h : d.contains trigger) : d.isEmpty = false := by
  obtain ⟨template, hGet⟩ := Dictionary.contains_iff.mp h
  rw [Bool.eq_false_iff, Ne, d.isEmpty_iff]
  intro hNone
  rw [hNone trigger] at hGet
  cases hGet

theorem endingTrigger?_of_not_blank {c : Char} (hc : isBlank c = false) {before : List Char}
    {d : Dictionary} (h : before = [c] → d.contains (String.singleton c) = false) :
    endingTrigger? c before d = none := by
  have hSpace : ¬ (c = ' ' ∧ before.getLast? = some ' ') := by
    rintro ⟨rfl, _⟩
    cases hc
  rw [endingTrigger?, if_neg, if_neg hSpace]
  rintro ⟨hBefore, hContains⟩
  rw [h hBefore] at hContains
  cases hContains

theorem endingTrigger?_space {line word : List Char} {d : Dictionary} (hne : word ≠ [])
    (hWord : ∀ c ∈ word, isBlank c = false)
    (hLine : ∀ c, line.getLast? = some c → isBlank c = true)
    (hKey : d.contains (String.ofList word)) :
    endingTrigger? ' ' (line ++ word ++ [' ']) d = some (String.ofList word, word.length + 1) := by
  have hLong : ¬ (line ++ word ++ [' '] = [' '] ∧ d.contains (String.singleton ' ')) := by
    rintro ⟨h, _⟩
    have hLength := congrArg List.length h
    have := List.length_pos_iff.mpr hne
    simp only [List.length_append, List.length_singleton] at hLength
    omega
  have hLast : lastWord (line ++ word ++ [' ']).dropLast = word := by
    rw [List.dropLast_concat, lastWord_append hWord hLine]
  rw [endingTrigger?, if_neg hLong, if_pos ⟨rfl, List.getLast?_concat⟩, hLast]
  exact if_pos ⟨hne, hKey⟩

/-- One character was typed, and nothing else happened. -/
structure Edit.Types (e : Edit) (c : Char) : Prop where
  isFlush : e.isFlush = false
  isUndoing : e.isUndoing = false
  isRedoing : e.isRedoing = false
  changeCount : e.changeCount = 1
  rangeLength : e.rangeLength = 0
  text : e.text = String.singleton c

theorem Edit.types_iff {e : Edit} {c : Char} :
    e.Types c ↔ e.kind = .typed c ⟨e.range.start.line, e.range.start.column + 1⟩ := by
  have hText : e.text.toList = [c] ↔ e.text = String.singleton c := by
    rw [← String.toList_singleton, String.toList_inj]
  rw [kind_eq_typed_iff, hText, isWholesale, Bool.or_eq_false_iff, Bool.or_eq_false_iff]
  constructor
  · intro h
    exact ⟨⟨⟨h.isFlush, h.isUndoing⟩, h.isRedoing⟩, h.changeCount, h.rangeLength, h.text, rfl⟩
  · rintro ⟨⟨⟨hFlush, hUndoing⟩, hRedoing⟩, hCount, hLength, hTyped, _⟩
    exact ⟨hFlush, hUndoing, hRedoing, hCount, hLength, hTyped⟩

theorem Edit.kind_eq_other_iff {e : Edit} : e.kind = .other ↔ ∀ c, ¬ e.Types c := by
  constructor
  · intro h c hc
    rw [types_iff.mp hc] at h
    cases h
  · intro h
    cases hKind : e.kind with
    | other => rfl
    | typed c p =>
      obtain ⟨_, _, _, _, rfl⟩ := kind_eq_typed_iff.mp hKind
      exact absurd (types_iff.mpr hKind) (h c)

theorem Edit.kind_keystroke (p : Position) (c : Char) :
    (Edit.keystroke p c).kind = .typed c ⟨p.line, p.column + 1⟩ :=
  Edit.kind_eq_typed_iff.mpr ⟨rfl, rfl, rfl, String.toList_singleton c, rfl⟩

section Keystroke

variable {doc : Document} {before after : List Char} {c : Char} {d : Dictionary}

theorem Document.Stands.textBefore_keystroke (h : doc.Stands before after) (hc : c ≠ '\n') :
    (doc.type c).1.textBefore ⟨doc.caret.line, doc.caret.column + 1⟩ = lastLine before ++ [c] := by
  have hLine : '\n' ∉ [c] := fun hm => hc (List.mem_singleton.mp hm).symm
  rw [← Document.caret_type hc, (h.type c).textBefore_caret, lastLine_append_of_not_mem hLine]

theorem Document.Stands.expansion?_not_blank (h : doc.Stands before after) (hc : isBlank c = false)
    (hFirst : lastLine before = [] → d.contains (String.singleton c) = false) :
    (Edit.keystroke doc.caret c).expansion? (doc.type c).1 d = none := by
  have hNewline : c ≠ '\n' := by
    rintro rfl
    cases hc
  have hNone : endingTrigger? c (lastLine before ++ [c]) d = none := by
    apply endingTrigger?_of_not_blank hc
    intro hAlone
    rcases List.append_eq_singleton_iff.mp hAlone with ⟨hEmpty, _⟩ | ⟨_, hEmpty⟩
    · exact hFirst hEmpty
    · cases hEmpty
  rw [Edit.expansion?, Edit.kind_keystroke, Edit.Kind.expansion?]
  simp only [h.textBefore_keystroke hNewline, hNone]
  split <;> rfl

theorem Document.Stands.expansion?_space {word : List Char} {template : String}
    (h : doc.Stands (before ++ word) after) (hne : word ≠ [])
    (hWord : ∀ c ∈ word, isBlank c = false)
    (hLine : ∀ c, (lastLine before).getLast? = some c → isBlank c = true)
    (hKey : d.get? (String.ofList word) = some template) :
    (Edit.keystroke doc.caret ' ').expansion? (doc.type ' ').1 d =
      some ⟨String.ofList word, ⟨Position.origin.after before, (doc.type ' ').1.caret⟩,
        template⟩ := by
  have hContains : d.contains (String.ofList word) :=
    Dictionary.contains_iff.mpr ⟨template, hKey⟩
  have hNewline : '\n' ∉ word := fun hm => absurd (hWord '\n' hm) (by decide)
  have hTextBefore := h.textBefore_keystroke (c := ' ') (by decide)
  rw [lastLine_append_of_not_mem hNewline] at hTextBefore
  have hStop : (doc.type ' ').1.caret = ⟨doc.caret.line, doc.caret.column + 1⟩ :=
    Document.caret_type (by decide) doc
  have hStart : Position.origin.after before =
      ⟨doc.caret.line, doc.caret.column + 1 - (word.length + 1)⟩ := by
    rw [h.caret_eq, Position.after_append, Position.after_of_not_mem hNewline]
    simp
  rw [Edit.expansion?, Edit.kind_keystroke, Edit.Kind.expansion?]
  simp only [Dictionary.isEmpty_of_contains hContains, hTextBefore,
    endingTrigger?_space hne hWord hLine hContains, hKey, hStop, hStart, Bool.false_eq_true,
    if_false, Option.bind_eq_bind, Option.bind_some]
  rfl

end Keystroke

end Shorthand
