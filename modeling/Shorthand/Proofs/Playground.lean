import Shorthand.Playground
import Shorthand.Proofs.Trigger

/-! # Typing in a playground

While a word is typed nothing expands, whatever stands around it. The space behind it expands it,
when it is a trigger of the pane's language.
-/
namespace Shorthand.Playground

open Text

variable {α : Type} {g : Playground α} {p : Pane} {editor : Editor} {c : Char}

theorem get?_withDocument (g : Playground α) (p : Pane) (editor : Editor) (d : Document) :
    (g.withDocument p editor d).panes.get? p = some { editor with document := d } := by
  rw [withDocument, Panes.get?_set, if_pos rfl]

theorem expandAfter_of_none {e : Edit} (hPane : g.panes.get? p = some editor)
    (hNone : e.expansion? editor.document (g.dictionary editor.language) = none) :
    g.expandAfter p e = (g, none) := by
  rw [expandAfter, hPane]
  simp only [hNone]

theorem expandAfter_of_some {e : Edit} {x : Expansion} (hPane : g.panes.get? p = some editor)
    (hSome : e.expansion? editor.document (g.dictionary editor.language) = some x) :
    g.expandAfter p e =
      (g.withDocument p editor (editor.document.expand x.span x.template.toList).1,
        some (editor.document.expand x.span x.template.toList).2) := by
  rw [expandAfter, hPane]
  simp only [hSome]

def enter (g : Playground α) (p : Pane) (editor : Editor) (c : Char) :
    Playground α × Option Position :=
  (g.withDocument p editor (editor.document.type c).1).handle p (editor.document.type c).2

theorem typeFrom_cons (hPane : g.panes.get? p = some editor) (last : Option Position)
    (rest : List Char) :
    typeFrom p last g (c :: rest) =
      typeFrom p ((g.enter p editor c).2.or last) (g.enter p editor c).1 rest := by
  rw [typeFrom, hPane]
  rfl

theorem enter_of_none
    (hNone : (Edit.keystroke editor.document.caret c).expansion? (editor.document.type c).1
      (g.dictionary editor.language) = none) :
    g.enter p editor c =
      ({ g.withDocument p editor (editor.document.type c).1 with refreshes := g.refreshes + 1 },
        none) := by
  have hAfter := expandAfter_of_none (g := g.withDocument p editor (editor.document.type c).1)
    (e := (editor.document.type c).2) (get?_withDocument g p editor _) hNone
  rw [enter, handle, hAfter]
  rfl

theorem enter_of_some {x : Expansion}
    (hSome : (Edit.keystroke editor.document.caret c).expansion? (editor.document.type c).1
      (g.dictionary editor.language) = some x) :
    (g.enter p editor c).1.panes.get? p = some { editor with
        document := ((editor.document.type c).1.expand x.span x.template.toList).1 } ∧
      (g.enter p editor c).2 =
        some ((editor.document.type c).1.expand x.span x.template.toList).2 := by
  have hAfter := expandAfter_of_some (g := g.withDocument p editor (editor.document.type c).1)
    (e := (editor.document.type c).2) (get?_withDocument g p editor _) hSome
  rw [enter, handle, hAfter]
  exact ⟨get?_withDocument _ p _ _, rfl⟩

/-- Nothing expands while a word is typed. Only its first character could stand alone in its line,
so that is where the dictionary matters. -/
theorem typeFrom_word {before after word : List Char} (hPane : g.panes.get? p = some editor)
    (hStands : editor.document.Stands before after) (hWord : ∀ c ∈ word, isBlank c = false)
    (hFirst : lastLine before = [] → ∀ c, word.head? = some c →
      (g.dictionary editor.language).contains (String.singleton c) = false)
    (last : Option Position) (rest : List Char) :
    ∃ g' d', typeFrom p last g (word ++ rest) = typeFrom p last g' rest ∧
      g'.panes.get? p = some { editor with document := d' } ∧ g'.dictionary = g.dictionary ∧
      d'.Stands (before ++ word) after ∧
      d'.undoCount = editor.document.undoCount + word.length := by
  induction word generalizing g editor before with
  | nil =>
    refine ⟨g, editor.document, rfl, hPane, rfl, ?_, rfl⟩
    rwa [List.append_nil]
  | cons c word ih =>
    have hc := hWord c List.mem_cons_self
    have hNewline : '\n' ∉ [c] := by
      intro hm
      rw [← List.mem_singleton.mp hm] at hc
      cases hc
    have hNone := hStands.expansion?_not_blank hc (fun h => hFirst h c rfl)
    -- Behind the first character the line is not empty, so the dictionary is not asked again.
    have hNext : lastLine (before ++ [c]) ≠ [] := by
      rw [lastLine_append_of_not_mem hNewline]
      simp
    have hEnter := enter_of_none (p := p) hNone
    obtain ⟨g', d', hType, hPane', hDictionary, hStands', hCount⟩ :=
      ih (g := (g.enter p editor c).1) (by rw [hEnter]; exact get?_withDocument g p editor _)
        (hStands.type c) (fun c hc => hWord c (List.mem_cons_of_mem _ hc))
        (fun h => absurd h hNext)
    refine ⟨g', d', ?_, hPane', ?_, ?_, ?_⟩
    · rw [List.cons_append, typeFrom_cons hPane, ← hType, hEnter]
      rfl
    · rw [hDictionary, hEnter]
      rfl
    · rwa [List.append_assoc, List.singleton_append] at hStands'
    · rw [hCount, List.length_cons]
      show editor.document.history.length + 1 + word.length = _
      rw [Document.undoCount]
      omega

theorem enter_space (g : Playground α) (p : Pane) (editor : Editor)
    {before word after : List Char} {template : String}
    (hStands : editor.document.Stands (before ++ word) after) (hne : word ≠ [])
    (hWord : ∀ c ∈ word, isBlank c = false)
    (hLine : ∀ c, (lastLine before).getLast? = some c → isBlank c = true)
    (hKey : (g.dictionary editor.language).get? (String.ofList word) = some template) :
    ∃ d' u v, (g.enter p editor ' ').1.panes.get? p = some { editor with document := d' } ∧
      (g.enter p editor ' ').2 = some d'.caret ∧ Template.Parts template.toList u v ∧
      d'.Stands (before ++ u) (v ++ after) ∧ d'.undoCount = editor.document.undoCount + 2 ∧
      ∃ e, d'.undo? = some e ∧ e.text = before ++ word ++ [' '] ++ after := by
  obtain ⟨hPane, hPlace⟩ := enter_of_some (p := p) (hStands.expansion?_space hne hWord hLine hKey)
  have hSpace := hStands.type ' '
  have hTyped : (editor.document.type ' ').1.Stands (before ++ (word ++ [' '])) after := by
    rw [← List.append_assoc]
    exact hSpace
  obtain ⟨u, v, hParts, hExpand, hReturn⟩ := hTyped.expand template.toList
  obtain ⟨e, hUndo, hSnapshot, _⟩ := hSpace.wellFormed.undo?_expand
    ⟨Position.origin.after before, (editor.document.type ' ').1.caret⟩ template.toList
  refine ⟨_, u, v, hPane, hPlace.trans (congrArg some hReturn), hParts, hExpand, ?_, e, hUndo, ?_⟩
  · exact Document.undoCount_expand _ _ _
  · exact (congrArg (joinLines ∘ Document.Snapshot.lines) hSnapshot).trans hSpace.text_eq

/-- A trigger typed behind a blank or at the start of a line, and then a space, becomes its
template. The caret is where the template's marker was, or else behind the template, and one undo
brings back what was typed. -/
theorem typeAll_word_space (g : Playground α) (p : Pane) (editor : Editor) (first : Char)
    (rest : List Char) (template : String) (hPane : g.panes.get? p = some editor)
    (hDocument : editor.document.WellFormed)
    (hCaret : editor.document.Holds editor.document.caret)
    (hBefore : editor.document.caret.column = 0 ∨
      ∃ c, (editor.document.textBefore editor.document.caret).getLast? = some c ∧
        isBlank c = true)
    (hWord : ∀ c ∈ first :: rest, isBlank c = false)
    (hKey : (g.dictionary editor.language).get? (String.ofList (first :: rest)) = some template)
    (hFirst : editor.document.caret.column = 0 →
      (g.dictionary editor.language).contains (String.singleton first) = false) :
    let d := editor.document
    let P := d.text.take (d.offset d.caret)
    let S := d.text.drop (d.offset d.caret)
    let typed := g.typeAll p (first :: rest ++ [' '])
    ∃ (d' : Document) (u v : List Char),
      typed.1.panes.get? p = some { editor with document := d' } ∧
      typed.2 = some d'.caret ∧
      Template.Parts template.toList u v ∧
      d'.text = P ++ (u ++ v) ++ S ∧
      d'.Holds d'.caret ∧ d'.offset d'.caret = (P ++ u).length ∧
      d'.undoCount = d.undoCount + ((first :: rest).length + 2) ∧
      ∃ e, d'.undo? = some e ∧ e.text = P ++ (first :: rest) ++ [' '] ++ S := by
  intro d P S typed
  have hStands : d.Stands P S := by
    have h := hDocument.stands hCaret
    rwa [Document.upTo_eq_take hCaret, Document.beyond_eq_drop hCaret] at h
  have hColumn := hStands.column_caret
  have hLine : ∀ c, (lastLine P).getLast? = some c → isBlank c = true := by
    intro c hc
    rcases hBefore with h | ⟨b, hb, hBlank⟩
    · rw [List.length_eq_zero_iff.mp (hColumn.symm.trans h)] at hc
      cases hc
    · rw [hStands.textBefore_caret, hc] at hb
      cases hb
      exact hBlank
  have hAlone : lastLine P = [] → ∀ c, (first :: rest).head? = some c →
      (g.dictionary editor.language).contains (String.singleton c) = false := by
    intro hEmpty c hc
    cases hc
    exact hFirst (hColumn.trans (congrArg List.length hEmpty))
  obtain ⟨g', d₁, hType, hPane', hDictionary, hStands₁, hCount⟩ :=
    typeFrom_word hPane hStands hWord hAlone none [' ']
  rw [← hDictionary] at hKey
  obtain ⟨d', u, v, hPane₂, hPlace, hParts, hStands₂, hCount₂, e, hUndo, hText⟩ :=
    enter_space g' p { editor with document := d₁ } hStands₁ (List.cons_ne_nil _ _) hWord hLine
      hKey
  have hTyped : typed = g'.enter p { editor with document := d₁ } ' ' := by
    show typeFrom p none g (first :: rest ++ [' ']) = _
    rw [hType, typeFrom_cons hPane', typeFrom, Option.or_none]
  rw [hTyped]
  refine ⟨d', u, v, hPane₂, hPlace, hParts, ?_, hStands₂.cut.1, hStands₂.offset_caret, ?_, e,
    hUndo, hText⟩
  · rw [hStands₂.text_eq]
    simp only [List.append_assoc]
  · rw [hCount₂, hCount, Nat.add_assoc]

/-- A snippet of the user behind a blank, in front of a second line. -/
theorem typeAll_fn_space :
    let s : Snippet := ⟨"1", "fn", "f($CURSOR$)\n", "javascript", true, true, ""⟩
    let d := (Document.ofText "let \nend".toList).moveCaret ⟨0, 4⟩
    let g : Playground Memory :=
      ⟨Panes.none.set .script ⟨d, "javascript"⟩, ⟨[s], .empty, ⟨fun _ => "", 0, ""⟩⟩, .empty, 0⟩
    let typed := g.typeAll .script "fn ".toList
    ∃ (d' : Document) (u v : List Char),
      typed.1.panes.get? .script = some ⟨d', "javascript"⟩ ∧
      typed.2 = some d'.caret ∧
      Template.Parts s.template.toList u v ∧
      d'.text = "let ".toList ++ (u ++ v) ++ "\nend".toList ∧
      d'.Holds d'.caret ∧ d'.offset d'.caret = ("let ".toList ++ u).length ∧
      d'.undoCount = 4 ∧
      ∃ e, d'.undo? = some e ∧ e.text = "let fn \nend".toList := by
  intro s d g typed
  have hWord : ∀ c ∈ ['f', 'n'], isBlank c = false :=
    List.forall_mem_cons.mpr ⟨rfl, List.forall_mem_singleton.mpr rfl⟩
  exact typeAll_word_space g .script ⟨d, "javascript"⟩ 'f' ['n'] s.template rfl
    ((Document.wellFormed_ofText _).perform (.moveCaret ⟨0, 4⟩)) (by decide)
    (.inr ⟨' ', by decide, rfl⟩) hWord (by decide) (by decide)

end Shorthand.Playground
