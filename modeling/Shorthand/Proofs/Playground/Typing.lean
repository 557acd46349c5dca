import Mathlib.Data.List.Induction
import Shorthand.Proofs.Playground.Caret
import Shorthand.Proofs.Trigger.Exact

/-! # What is typed after an expansion

What typing a text gives back is the caret after the last expansion, and that caret does not move
when typing goes on. The caret of the document is then behind it, by the text that was typed since.
-/
namespace Shorthand

section Keystroke

variable {doc : Document} {d : Dictionary} {x : Expansion}

/-- A newline ends no trigger. No line ends in one, and it is no space. -/
theorem Document.WellFormed.expansion?_newline (h : doc.WellFormed) (p : Position) :
    (Edit.keystroke p '\n').expansion? doc d = none := by
  have hNone : endingTrigger? '\n' (doc.textBefore ⟨p.line, p.column + 1⟩) d = none := by
    rw [Option.eq_none_iff_forall_ne_some]
    rintro ⟨trigger, length⟩ hTrigger
    obtain ⟨⟨hAlone, _⟩, _⟩ | ⟨_, _, hWord, _⟩ := endingTrigger?_eq_some_iff.mp hTrigger
    · have hMem : '\n' ∈ doc.textBefore ⟨p.line, p.column + 1⟩ := hAlone ▸ List.mem_singleton_self _
      exact h.newline_not_mem_lineAt _ (List.mem_of_mem_take hMem)
    · cases hWord.typed_eq
  rw [Edit.expansion?, Edit.kind_keystroke, Edit.Kind.expansion?]
  simp only [hNone]
  split <;> rfl

theorem Document.Grounded.hasCharAt_type (h : doc.Grounded) {c : Char} (hc : c ≠ '\n') :
    (doc.type c).1.HasCharAt doc.caret := by
  have hHolds := (h.type c).holds_caret
  rw [caret_type hc] at hHolds
  exact hHolds.2

theorem Document.Grounded.holds_start_of_keystroke (h : doc.Grounded) {c : Char}
    (hSome : (Edit.keystroke doc.caret c).expansion? (doc.type c).1 d = some x) :
    (doc.type c).1.Holds x.span.start := by
  have hc : c ≠ '\n' := by
    rintro rfl
    rw [(h.type '\n').wellFormed.expansion?_newline] at hSome
    cases hSome
  have hPlace := h.hasCharAt_type hc
  obtain ⟨_, length, _, _, _, hSpan⟩ := (Edit.expansion?_eq_some_iff hPlace).mp hSome
  rw [hSpan]
  exact ⟨hPlace.line_lt, Nat.le_trans (Nat.sub_le _ _) hPlace⟩

end Keystroke

/-- The caret is in the text, and `place` is in front of it by `since`. -/
def Document.Trails (doc : Document) (place : Position) (since : List Char) : Prop :=
  ∃ before after, doc.Stands (before ++ since) after ∧ place = Position.origin.after before

theorem Document.Grounded.trails {doc : Document} (h : doc.Grounded) : doc.Trails doc.caret [] := by
  have hStands := h.wellFormed.stands h.holds_caret
  refine ⟨doc.upTo doc.caret, doc.beyond doc.caret, ?_, hStands.caret_eq⟩
  rwa [List.append_nil]

theorem Document.Trails.type {doc : Document} {place : Position} {since : List Char}
    (h : doc.Trails place since) (c : Char) : (doc.type c).1.Trails place (since ++ [c]) := by
  obtain ⟨before, after, hStands, hPlace⟩ := h
  refine ⟨before, after, ?_, hPlace⟩
  rw [← List.append_assoc]
  exact hStands.type c

namespace Playground

variable {α : Type} {g : Playground α} {p : Pane} {editor : Editor}

theorem enter_cases (g : Playground α) (p : Pane) (editor : Editor)
    (h : editor.document.Grounded) (c : Char) :
    ∃ d, (g.enter p editor c).1.panes.get? p = some { editor with document := d } ∧
      ((g.enter p editor c).2 = none ∧ d = (editor.document.type c).1 ∨
        (g.enter p editor c).2 = some d.caret) := by
  cases hExpansion : (Edit.keystroke editor.document.caret c).expansion?
      (editor.document.type c).1 (g.dictionary editor.language) with
  | none =>
    rw [enter_of_none hExpansion]
    exact ⟨_, get?_withDocument g p editor _, .inl ⟨rfl, rfl⟩⟩
  | some x =>
    obtain ⟨hPane, hPlace⟩ := enter_of_some (p := p) hExpansion
    obtain ⟨_, _, _, _, hReturn⟩ := (h.type c).wellFormed.stands_expand x.span x.template.toList
      (h.holds_start_of_keystroke hExpansion)
    exact ⟨_, hPane, .inr (hPlace.trans (congrArg some hReturn))⟩

/-- The text goes on behind an expansion: something expands before its last character is typed, and
that character expands nothing. -/
def TypesOn (g : Playground α) (p : Pane) (text : List Char) : Prop :=
  (g.typeAll p text.dropLast).2.isSome ∧
    (typeFrom p none (g.typeAll p text.dropLast).1 text.getLast?.toList).2 = none

instance (g : Playground α) (p : Pane) (text : List Char) : Decidable (g.TypesOn p text) :=
  inferInstanceAs (Decidable (_ ∧ _))

theorem not_typesOn_nil : ¬ g.TypesOn p [] := by
  rintro ⟨hSome, _⟩
  cases hSome

section Concat

variable {before : List Char} {c : Char}

theorem typesOn_concat_iff (hPane : (g.typeAll p before).1.panes.get? p = some editor) :
    g.TypesOn p (before ++ [c]) ↔
      (g.typeAll p before).2.isSome ∧ ((g.typeAll p before).1.enter p editor c).2 = none := by
  have hLast : (typeFrom p none (g.typeAll p before).1 [c]).2 =
      ((g.typeAll p before).1.enter p editor c).2 := by
    rw [typeFrom_cons hPane, typeFrom, Option.or_none]
  rw [TypesOn, List.dropLast_concat, List.getLast?_concat, Option.toList_some, hLast]

theorem typeAll_append {first : Editor} (hFirst : g.panes.get? p = some first)
    (rest : List Char) :
    g.typeAll p (before ++ rest) =
      typeFrom p (g.typeAll p before).2 (g.typeAll p before).1 rest := by
  have h := typeFrom_append .exact hFirst none before rest
  simp only [Words.typeFrom_eq, Option.bind_some, Option.some_inj] at h
  exact h

theorem typeAll_concat {first : Editor} (hFirst : g.panes.get? p = some first)
    (hPane : (g.typeAll p before).1.panes.get? p = some editor) :
    g.typeAll p (before ++ [c]) =
      (((g.typeAll p before).1.enter p editor c).1,
        ((g.typeAll p before).1.enter p editor c).2.or (g.typeAll p before).2) := by
  rw [typeAll_append hFirst, typeFrom_cons hPane, typeFrom]

end Concat

/-- After a text is typed, the caret that was given back is in front of the caret of the document by
what was typed since the last expansion. That is nothing, unless typing went on after one. -/
theorem typeAll_trails (hPane : g.panes.get? p = some editor) (hGrounded : g.Grounded)
    (text : List Char) :
    ∃ d since, (g.typeAll p text).1.panes.get? p = some { editor with document := d } ∧
      d.Trails ((g.typeAll p text).2.getD d.caret) since ∧ since <:+ text ∧
      (since = [] ↔ ¬ g.TypesOn p text) := by
  induction text using List.reverseRecOn with
  | nil =>
    exact ⟨editor.document, [], hPane, (hGrounded p editor hPane).trails, List.suffix_rfl,
      iff_of_true rfl not_typesOn_nil⟩
  | append_singleton before c ih =>
    obtain ⟨d, since, hBefore, hTrails, hSuffix, _⟩ := ih
    have hTyped : (g.typeAll p before).1.Grounded :=
      hGrounded.typeFrom (Words.typeFrom_eq p none g before)
    have hDocument : d.Grounded := hTyped p _ hBefore
    obtain ⟨d', hAfter, hEnter⟩ :=
      enter_cases (g.typeAll p before).1 p { editor with document := d } hDocument c
    have hDocument' : d'.Grounded :=
      hTyped.enter hBefore (Words.handle_eq _ p _) p _ hAfter
    rw [typesOn_concat_iff hBefore, typeAll_concat hPane hBefore]
    -- An expansion starts `since` anew. Any other character is added to it, once there was one.
    obtain ⟨hNone, rfl⟩ | hSome := hEnter
    · rw [hNone, Option.none_or]
      cases hLast : (g.typeAll p before).2 with
      | none => exact ⟨_, [], hAfter, hDocument'.trails, List.nil_suffix, by simp⟩
      | some place =>
        rw [hLast] at hTrails
        have hOn : since ++ [c] <:+ before ++ [c] :=
          (List.suffix_append_inj_of_length_eq rfl).mpr ⟨hSuffix, rfl⟩
        exact ⟨_, since ++ [c], hAfter, hTrails.type c, hOn, by simp⟩
    · rw [hSome]
      exact ⟨d', [], hAfter, hDocument'.trails, List.nil_suffix, by simp⟩

end Playground

end Shorthand
