import Shorthand.Proofs.Trigger

/-! # Exactly which edits expand

Where an edit names a character of the document, it expands in two cases only: what it typed stands
alone in its line and is a trigger, or it typed a space behind a word that is one.
-/
namespace Shorthand

open Text

/-- The text is the typed character alone, and that is a trigger. -/
def StandsAlone (d : Dictionary) (typed : Char) (text : List Char) : Prop :=
  text = [typed] ∧ d.contains (String.singleton typed)

/-- A space was typed behind a word that is a trigger. The word reaches back to a blank character
or to the start of the text. -/
structure EndsWord (d : Dictionary) (typed : Char) (text before word : List Char) : Prop where
  typed_eq : typed = ' '
  text_eq : text = before ++ word ++ [' ']
  ne_nil : word ≠ []
  solid : ∀ c ∈ word, isBlank c = false
  apart : ∀ c, before.getLast? = some c → isBlank c = true
  known : d.contains (String.ofList word)

section Ending

variable {d : Dictionary} {typed : Char} {text : List Char}

theorem EndsWord.length_eq {before word : List Char} (h : EndsWord d typed text before word) :
    text.length = before.length + (word.length + 1) := by
  rw [h.text_eq, List.length_append, List.length_append, List.length_singleton, Nat.add_assoc]

theorem EndsWord.not_standsAlone {before word : List Char}
    (h : EndsWord d typed text before word) : ¬ StandsAlone d typed text := by
  rintro ⟨hText, _⟩
  have hLength := h.length_eq
  have hWord := List.length_pos_iff.mpr h.ne_nil
  rw [hText, List.length_singleton] at hLength
  omega

theorem endsWord_lastWord (hTyped : typed = ' ') (hSpace : text.getLast? = some ' ')
    (hne : lastWord text.dropLast ≠ [])
    (hKey : d.contains (String.ofList (lastWord text.dropLast))) :
    ∃ before, EndsWord d typed text before (lastWord text.dropLast) := by
  obtain ⟨front, rfl⟩ := List.getLast?_eq_some_iff.mp hSpace
  obtain ⟨before, hBefore, hSolid, hApart⟩ := exists_append_lastWord (front ++ [' ']).dropLast
  refine ⟨before, hTyped, ?_, hne, hSolid, hApart, hKey⟩
  rw [← hBefore, List.dropLast_concat]

theorem endingTrigger?_eq_some_iff {trigger : String} {length : Nat} :
    endingTrigger? typed text d = some (trigger, length) ↔
      StandsAlone d typed text ∧ trigger = String.singleton typed ∧ length = 1 ∨
      ∃ before word, EndsWord d typed text before word ∧ trigger = String.ofList word ∧
        length = word.length + 1 := by
  constructor
  · intro h
    unfold endingTrigger? at h
    split at h
    next hAlone =>
      cases h
      exact .inl ⟨hAlone, rfl, rfl⟩
    next =>
      split at h
      next hSpace =>
        dsimp only at h
        split at h
        next hWord =>
          obtain ⟨before, hEnds⟩ := endsWord_lastWord hSpace.1 hSpace.2 hWord.1 hWord.2
          cases h
          exact .inr ⟨before, _, hEnds, rfl, rfl⟩
        next => cases h
      next => cases h
  · rintro (⟨hAlone, rfl, rfl⟩ | ⟨before, word, hWord, rfl, rfl⟩)
    · exact if_pos hAlone
    · rw [hWord.typed_eq, hWord.text_eq]
      exact endingTrigger?_space hWord.ne_nil hWord.solid hWord.apart hWord.known

end Ending

namespace Document

def HasCharAt (doc : Document) (p : Position) : Prop := p.column < (doc.lineAt p.line).length

instance (doc : Document) (p : Position) : Decidable (doc.HasCharAt p) :=
  inferInstanceAs (Decidable (p.column < (doc.lineAt p.line).length))

/-- The line of `p` up to the character at `p`, and with it. -/
def lineThrough (doc : Document) (p : Position) : List Char :=
  (doc.lineAt p.line).take (p.column + 1)

variable {doc : Document} {p : Position}

theorem HasCharAt.line_lt (h : doc.HasCharAt p) : p.line < doc.numLines := by
  by_contra hLine
  rw [HasCharAt, lineAt, List.getElem?_eq_none (Nat.le_of_not_lt hLine)] at h
  exact Nat.not_lt_zero _ h

theorem HasCharAt.length_lineThrough (h : doc.HasCharAt p) :
    (doc.lineThrough p).length = p.column + 1 := List.length_take_of_le h

theorem HasCharAt.textBefore_eq (h : doc.HasCharAt p) :
    doc.textBefore ⟨p.line, p.column + 1⟩ = doc.lineThrough p := by
  have hHolds : doc.Holds ⟨p.line, p.column + 1⟩ := ⟨h.line_lt, h⟩
  rw [textBefore, clamp_of_holds hHolds, lineThrough]

theorem HasCharAt.slice_eq (h : doc.HasCharAt p) (length : Nat) :
    doc.slice (.inLine p.line (p.column + 1 - length) (p.column + 1)) =
      (doc.lineThrough p).drop (p.column + 1 - length) :=
  slice_inLine h.line_lt (Nat.sub_le _ _) h

theorem getElem?_lineAt_of_lineThrough {before behind : List Char} {c : Char}
    (h : doc.lineThrough p = before ++ behind) (hLast : before.getLast? = some c) :
    (doc.lineAt p.line)[before.length - 1]? = some c := by
  obtain ⟨rest, hLine⟩ := List.take_prefix (p.column + 1) (doc.lineAt p.line)
  obtain ⟨front, rfl⟩ := List.getLast?_eq_some_iff.mp hLast
  rw [← hLine, ← lineThrough, h, List.length_append, List.length_singleton, Nat.add_sub_cancel,
    List.append_assoc, List.append_assoc, List.getElem?_append_right (Nat.le_refl _), Nat.sub_self]
  rfl

end Document

/-- What an expansion of a character typed at `p` says. It lies in the line of `p` and ends behind
the character. It covers the trigger, and the space behind a trigger that does not stand alone. -/
structure Expansion.Fits (x : Expansion) (doc : Document) (d : Dictionary) (p : Position)
    (c : Char) : Prop where
  template : d.get? x.trigger = some x.template
  line : x.span.start.line = p.line
  stop : x.span.stop = ⟨p.line, p.column + 1⟩
  alone : StandsAlone d c (doc.lineThrough p) →
    x.trigger = String.singleton c ∧ doc.slice x.span = x.trigger.toList
  word : ¬ StandsAlone d c (doc.lineThrough p) →
    doc.slice x.span = x.trigger.toList ++ [' '] ∧
    (∃ before word, EndsWord d c (doc.lineThrough p) before word ∧
      x.trigger = String.ofList word) ∧
    (x.span.start.column = 0 ∨
      ∃ b, (doc.lineAt p.line)[x.span.start.column - 1]? = some b ∧ isBlank b = true)

namespace Edit

variable {e : Edit} {doc : Document} {d : Dictionary} {x : Expansion}

theorem Kind.expansion?_eq_some_iff {k : Kind} :
    k.expansion? doc d = some x ↔
      ∃ c caret length, k = .typed c caret ∧
        endingTrigger? c (doc.textBefore caret) d = some (x.trigger, length) ∧
        d.get? x.trigger = some x.template ∧
        x.span = .inLine caret.line (caret.column - length) caret.column := by
  constructor
  · intro h
    cases k with
    | other => cases h
    | typed c caret =>
      rw [expansion?, Option.ite_none_left_eq_some] at h
      obtain ⟨⟨trigger, length⟩, hTrigger, h⟩ := Option.bind_eq_some_iff.mp h.2
      obtain ⟨template, hGet, h⟩ := Option.bind_eq_some_iff.mp h
      cases h
      exact ⟨c, caret, length, rfl, hTrigger, hGet, rfl⟩
  · rintro ⟨c, caret, length, rfl, hTrigger, hGet, hSpan⟩
    have hEmpty := Dictionary.isEmpty_of_contains (Dictionary.contains_iff.mpr ⟨_, hGet⟩)
    obtain ⟨trigger, span, template⟩ := x
    cases hSpan
    simp only [expansion?, hEmpty, hTrigger, hGet, Bool.false_eq_true, if_false,
      Option.bind_eq_bind, Option.bind_some]
    rfl

theorem expansion?_eq_some_iff (hPlace : doc.HasCharAt e.range.start) :
    e.expansion? doc d = some x ↔
      ∃ c length, e.Types c ∧
        endingTrigger? c (doc.lineThrough e.range.start) d = some (x.trigger, length) ∧
        d.get? x.trigger = some x.template ∧
        x.span = .inLine e.range.start.line (e.range.start.column + 1 - length)
          (e.range.start.column + 1) := by
  rw [expansion?, Kind.expansion?_eq_some_iff]
  constructor
  · rintro ⟨c, caret, length, hKind, hTrigger, hGet, hSpan⟩
    obtain ⟨_, _, _, _, rfl⟩ := kind_eq_typed_iff.mp hKind
    rw [hPlace.textBefore_eq] at hTrigger
    exact ⟨c, length, types_iff.mpr hKind, hTrigger, hGet, hSpan⟩
  · rintro ⟨c, length, hTypes, hTrigger, hGet, hSpan⟩
    rw [← hPlace.textBefore_eq] at hTrigger
    exact ⟨c, _, length, types_iff.mp hTypes, hTrigger, hGet, hSpan⟩

theorem fits_of_standsAlone {c : Char} (hPlace : doc.HasCharAt e.range.start)
    (hAlone : StandsAlone d c (doc.lineThrough e.range.start))
    (hKey : x.trigger = String.singleton c) (hGet : d.get? x.trigger = some x.template)
    (hSpan : x.span = .inLine e.range.start.line (e.range.start.column + 1 - 1)
      (e.range.start.column + 1)) : x.Fits doc d e.range.start c where
  template := hGet
  line := by rw [hSpan]; rfl
  stop := by rw [hSpan]; rfl
  alone _ := by
    have hLength := hPlace.length_lineThrough
    rw [hAlone.1, List.length_singleton] at hLength
    have hZero : e.range.start.column = 0 := by omega
    refine ⟨hKey, ?_⟩
    rw [hSpan, hPlace.slice_eq, hAlone.1, hKey, hZero, String.toList_singleton]
    rfl
  word hNot := absurd hAlone hNot

theorem fits_of_endsWord {c : Char} {before word : List Char} (hPlace : doc.HasCharAt e.range.start)
    (hWord : EndsWord d c (doc.lineThrough e.range.start) before word)
    (hKey : x.trigger = String.ofList word) (hGet : d.get? x.trigger = some x.template)
    (hSpan : x.span = .inLine e.range.start.line (e.range.start.column + 1 - (word.length + 1))
      (e.range.start.column + 1)) : x.Fits doc d e.range.start c where
  template := hGet
  line := by rw [hSpan]; rfl
  stop := by rw [hSpan]; rfl
  alone hAlone := absurd hAlone hWord.not_standsAlone
  word _ := by
    have hLength := hWord.length_eq
    rw [hPlace.length_lineThrough] at hLength
    have hBefore : e.range.start.column + 1 - (word.length + 1) = before.length := by omega
    have hText := hWord.text_eq
    rw [List.append_assoc] at hText
    refine ⟨?_, ⟨before, word, hWord, hKey⟩, ?_⟩
    · rw [hSpan, hPlace.slice_eq, hBefore, hText, List.drop_left, hKey, String.toList_ofList]
    · rw [hSpan]
      show e.range.start.column + 1 - (word.length + 1) = 0 ∨ _
      rw [Range.inLine, hBefore]
      cases hLast : before.getLast? with
      | none => exact .inl (by rw [List.getLast?_eq_none_iff.mp hLast, List.length_nil])
      | some b =>
        exact .inr ⟨b, Document.getElem?_lineAt_of_lineThrough hText hLast, hWord.apart b hLast⟩

/-- An edit at a character of the document expands just when it types a trigger that stands alone
in its line, or a space behind a word that is a trigger; and the expansion is of that trigger. -/
theorem expansion?_exact (e : Edit) (doc : Document) (d : Dictionary)
    (hPlace : doc.HasCharAt e.range.start) :
    ((e.expansion? doc d).isSome ↔
      ∃ c, e.Types c ∧ (StandsAlone d c (doc.lineThrough e.range.start) ∨
        ∃ before word, EndsWord d c (doc.lineThrough e.range.start) before word)) ∧
    ∀ x, e.expansion? doc d = some x → ∃ c, e.Types c ∧ x.Fits doc d e.range.start c := by
  constructor
  · rw [Option.isSome_iff_exists]
    constructor
    · rintro ⟨x, h⟩
      obtain ⟨c, length, hTypes, hTrigger, _, _⟩ := (expansion?_eq_some_iff hPlace).mp h
      refine ⟨c, hTypes, ?_⟩
      obtain ⟨hAlone, _, _⟩ | ⟨before, word, hWord, _, _⟩ := endingTrigger?_eq_some_iff.mp hTrigger
      · exact .inl hAlone
      · exact .inr ⟨before, word, hWord⟩
    · rintro ⟨c, hTypes, hAlone | ⟨before, word, hWord⟩⟩
      · obtain ⟨template, hGet⟩ := Dictionary.contains_iff.mp hAlone.2
        exact ⟨⟨_, _, template⟩, (expansion?_eq_some_iff hPlace).mpr ⟨c, 1, hTypes,
          endingTrigger?_eq_some_iff.mpr (.inl ⟨hAlone, rfl, rfl⟩), hGet, rfl⟩⟩
      · obtain ⟨template, hGet⟩ := Dictionary.contains_iff.mp hWord.known
        exact ⟨⟨_, _, template⟩, (expansion?_eq_some_iff hPlace).mpr ⟨c, word.length + 1, hTypes,
          endingTrigger?_eq_some_iff.mpr (.inr ⟨before, word, hWord, rfl, rfl⟩), hGet, rfl⟩⟩
  · intro x h
    obtain ⟨c, length, hTypes, hTrigger, hGet, hSpan⟩ := (expansion?_eq_some_iff hPlace).mp h
    refine ⟨c, hTypes, ?_⟩
    obtain ⟨hAlone, hKey, rfl⟩ | ⟨before, word, hWord, hKey, rfl⟩ :=
      endingTrigger?_eq_some_iff.mp hTrigger
    · exact fits_of_standsAlone hPlace hAlone hKey hGet hSpan
    · exact fits_of_endsWord hPlace hWord hKey hGet hSpan

/-- A space typed behind the second word of a line. -/
theorem expansion?_exact_fn :
    let doc := Document.ofText "let fn (x)".toList
    let d : Dictionary := ⟨.ofList [("fn", "f($CURSOR$)"), ("let", "l")], none⟩
    doc.HasCharAt ⟨0, 6⟩ ∧
      ∃ c, (keystroke ⟨0, 6⟩ ' ').Types c ∧
        Expansion.Fits ⟨"fn", .inLine 0 4 7, "f($CURSOR$)"⟩ doc d ⟨0, 6⟩ c := by
  intro doc d
  have hPlace : doc.HasCharAt ⟨0, 6⟩ := by decide
  exact ⟨hPlace, (expansion?_exact (keystroke ⟨0, 6⟩ ' ') doc d hPlace).2 _ (by decide)⟩

end Edit

end Shorthand
