import Shorthand.Proofs.Document.Grounded
import Shorthand.Proofs.Words

/-! # The caret in a session

What an editor reports need not describe the text of its pane, and a caret may be asked for
anywhere. All the same the caret of each pane stays in the text of that pane, and what is typed
comes in at the caret. A wrong sum of words does not change that, because the caret is brought back
into the text behind each.
-/
namespace Shorthand.Playground

variable {α : Type}

/-- What can happen to a playground. A command on snippets is any change of the catalogue. -/
inductive Step (α : Type) where
  | fill (p : Pane) (content : List Char) (height : Nat)
  | switchLanguage (p : Pane) (language : String)
  | command (change : Catalogue α → Catalogue α)
  | type (p : Pane) (text : List Char)
  | edit (p : Pane) (e : Edit)
  | moveCaret (p : Pane) (target : Position)
  | reveal (p : Pane) (place : Position)
  | undo (p : Pane)

/-- Changes the document of a pane, if there is one, without an edit to report. -/
def adjust (g : Playground α) (p : Pane) (f : Document → Option Document) :
    Option (Playground α) :=
  match g.panes.get? p with
  | none => some g
  | some editor => (f editor.document).map (g.withDocument p editor)

def perform (plus : Addition) (g : Playground α) : Step α → Option (Playground α)
  | .fill p content height =>
    some (g.fillPane p ((Document.ofText content).withHeight height))
  | .switchLanguage p language => some ((g.switchLanguage? p language).getD g)
  | .command change => some { g with catalogue := change g.catalogue }
  | .type p text => (Words.typeAll plus g p text).map (·.1)
  | .edit p e => (Words.handle plus g p e).map (·.1)
  | .moveCaret p target => g.adjust p fun d => some (d.moveCaret target)
  | .reveal p place => g.adjust p fun d => Words.reveal plus d place
  | .undo p => g.adjust p fun d => some (d.undo?.getD d)

def run (plus : Addition) (g : Playground α) (steps : List (Step α)) : Option (Playground α) :=
  steps.foldlM (perform plus) g

/-- Every pane keeps its caret in its text. -/
def Grounded (g : Playground α) : Prop :=
  ∀ p editor, g.panes.get? p = some editor → editor.document.Grounded

variable {plus : Addition} {g g' : Playground α} {p : Pane} {editor : Editor}

theorem grounded_new (c : Catalogue α) (stock : Stock) : (new c stock).Grounded := by
  intro p editor h
  cases p <;> cases h

namespace Grounded

theorem congr (h : g.Grounded) (hPanes : g'.panes = g.panes) : g'.Grounded := by
  rw [Grounded, hPanes]
  exact h

theorem set (h : g.Grounded) (p : Pane) {e : Editor} (he : e.document.Grounded) :
    Grounded { g with panes := g.panes.set p e } := by
  intro q editor hq
  rw [Panes.get?_set] at hq
  split at hq
  · cases hq
    exact he
  · exact h q editor hq

theorem adjust (h : g.Grounded) {f : Document → Option Document}
    (hf : ∀ d d' : Document, d.Grounded → f d = some d' → d'.Grounded)
    (hAdjust : g.adjust p f = some g') : g'.Grounded := by
  rw [Playground.adjust] at hAdjust
  cases hPane : g.panes.get? p with
  | none =>
    rw [hPane] at hAdjust
    cases hAdjust
    exact h
  | some editor =>
    rw [hPane] at hAdjust
    obtain ⟨d, hd, rfl⟩ := Option.map_eq_some_iff.mp hAdjust
    exact h.set p (hf _ d (h p editor hPane) hd)

theorem handle (h : g.Grounded) {e : Edit} {caret : Option Position}
    (hHandle : Words.handle plus g p e = some (g', caret)) : g'.Grounded := by
  obtain ⟨rfl, _⟩ | ⟨editor, span, template, d, place, hPane, hExpand, rfl, _⟩ :=
    Words.handle_cases hHandle
  · exact h.congr rfl
  · obtain ⟨top, rfl⟩ := Words.expand_eq_some hExpand
    exact h.set p ((((h p editor hPane).expand span template).moveCaret place).scroll top)

theorem enter (h : g.Grounded) (hPane : g.panes.get? p = some editor) {c : Char}
    {caret : Option Position} (hEnter : Words.enter plus g p editor c = some (g', caret)) :
    g'.Grounded :=
  handle (h.set p ((h p editor hPane).type c)) hEnter

theorem typeFrom (h : g.Grounded) {last caret : Option Position} {text : List Char}
    (hType : Words.typeFrom plus p last g text = some (g', caret)) : g'.Grounded := by
  induction text generalizing g last with
  | nil =>
    cases hType
    exact h
  | cons c rest ih =>
    cases hPane : g.panes.get? p with
    | none =>
      rw [Words.typeFrom_of_none hPane] at hType
      cases hType
      exact h
    | some editor =>
      rw [Words.typeFrom_cons hPane] at hType
      obtain ⟨⟨entered, _⟩, hEnter, hRest⟩ := Option.bind_eq_some_iff.mp hType
      exact ih (h.enter hPane hEnter) hRest

theorem perform (h : g.Grounded) {s : Step α} (hPerform : g.perform plus s = some g') :
    g'.Grounded := by
  cases s with
  | fill p content height =>
    cases hPerform
    exact h.set p ((Document.grounded_ofText content).resize height)
  | switchLanguage p language =>
    cases hPerform
    rw [switchLanguage?]
    cases hPane : g.panes.get? p with
    | none => exact h
    | some editor => exact h.set p (h p editor hPane)
  | command change =>
    cases hPerform
    exact h.congr rfl
  | type p text =>
    obtain ⟨_, hType, rfl⟩ := Option.map_eq_some_iff.mp hPerform
    exact h.typeFrom hType
  | edit p e =>
    obtain ⟨_, hHandle, rfl⟩ := Option.map_eq_some_iff.mp hPerform
    exact h.handle hHandle
  | moveCaret p target =>
    rw [Playground.perform] at hPerform
    refine h.adjust ?_ hPerform
    rintro d _ hd ⟨⟩
    exact hd.moveCaret target
  | reveal p place =>
    rw [Playground.perform] at hPerform
    refine h.adjust ?_ hPerform
    intro d d' hd hReveal
    obtain ⟨top, rfl⟩ := Words.reveal_eq_some hReveal
    exact hd.scroll top
  | undo p =>
    rw [Playground.perform] at hPerform
    refine h.adjust ?_ hPerform
    rintro d _ hd ⟨⟩
    exact hd.undo

theorem run (h : g.Grounded) {steps : List (Step α)} (hRun : g.run plus steps = some g') :
    g'.Grounded := by
  induction steps generalizing g with
  | nil =>
    cases hRun
    exact h
  | cons s steps ih =>
    rw [Playground.run, List.foldlM_cons] at hRun
    obtain ⟨next, hPerform, hRest⟩ := Option.bind_eq_some_iff.mp hRun
    exact ih (h.perform hPerform) hRest

end Grounded

theorem isSome_perform (h : plus.Total) (g : Playground α) (s : Step α) :
    (g.perform plus s).isSome := by
  have hAdjust (p : Pane) (f : Document → Option Document) (hf : ∀ d, (f d).isSome) :
      (g.adjust p f).isSome := by
    rw [adjust]
    split
    · rfl
    · exact Option.isSome_map.trans (hf _)
  cases s with
  | fill => rfl
  | switchLanguage => rfl
  | command => rfl
  | type p text => exact Option.isSome_map.trans (Words.isSome_typeFrom h p none g text)
  | edit p e => exact Option.isSome_map.trans (Words.isSome_handle h g p e)
  | moveCaret p target => exact hAdjust p (fun d => some (d.moveCaret target)) fun _ => rfl
  | reveal p place => exact hAdjust p _ fun d => Words.isSome_reveal h d place
  | undo p => exact hAdjust p (fun d => some (d.undo?.getD d)) fun _ => rfl

theorem isSome_run (h : plus.Total) (g : Playground α) (steps : List (Step α)) :
    (g.run plus steps).isSome := by
  induction steps generalizing g with
  | nil => rfl
  | cons s steps ih =>
    obtain ⟨next, hPerform⟩ := Option.isSome_iff_exists.mp (isSome_perform h g s)
    rw [run, List.foldlM_cons, hPerform]
    exact ih next

theorem get?_enter {c : Char} {caret : Option Position}
    (h : Words.enter plus g p editor c = some (g', caret)) :
    ∃ editor', g'.panes.get? p = some editor' := by
  obtain ⟨rfl, _⟩ | ⟨_, _, _, d, _, _, _, rfl, _⟩ := Words.handle_cases h
  · exact ⟨_, get?_withDocument g p editor _⟩
  · exact ⟨_, get?_withDocument _ p _ d⟩

theorem get?_typeFrom (hPane : g.panes.get? p = some editor) {last caret : Option Position}
    {text : List Char} (h : Words.typeFrom plus p last g text = some (g', caret)) :
    ∃ editor', g'.panes.get? p = some editor' := by
  induction text generalizing g editor last with
  | nil =>
    cases h
    exact ⟨editor, hPane⟩
  | cons c rest ih =>
    rw [Words.typeFrom_cons hPane] at h
    obtain ⟨⟨entered, _⟩, hEnter, hRest⟩ := Option.bind_eq_some_iff.mp h
    obtain ⟨editor', hPane'⟩ := get?_enter hEnter
    exact ih hPane' hRest

theorem typeFrom_append (plus : Addition) (hPane : g.panes.get? p = some editor)
    (last : Option Position) (before rest : List Char) :
    Words.typeFrom plus p last g (before ++ rest) =
      (Words.typeFrom plus p last g before).bind fun (g, last) =>
        Words.typeFrom plus p last g rest := by
  induction before generalizing g editor last with
  | nil => rfl
  | cons c before ih =>
    rw [List.cons_append, Words.typeFrom_cons hPane, Words.typeFrom_cons hPane, Option.bind_assoc]
    refine Option.bind_congr fun ⟨entered, caret⟩ hEnter => ?_
    obtain ⟨editor', hPane'⟩ := get?_enter hEnter
    exact ih hPane' _

/-- After any run the caret of a pane is in its text. When a text is typed there, this is so before
each character, which comes in right at the caret; the edit that is reported of it says so, and it
is handled before the next character is typed. Where sums of words wrap around, no run stops. -/
theorem run_caret_in_text (c : Catalogue α) (stock : Stock) (steps : List (Step α)) :
    ((new c stock).run .wrapping steps).isSome ∧
    ∀ (plus : Addition) (g : Playground α), (new c stock).run plus steps = some g →
      ∀ (p : Pane) (editor : Editor), g.panes.get? p = some editor →
        editor.document.Holds editor.document.caret ∧
        ∀ before typed last, Words.typeAll plus g p before = some (typed, last) →
          ∃ editor', typed.panes.get? p = some editor' ∧
            editor'.document.Holds editor'.document.caret ∧
            ∀ (ch : Char) (after : List Char),
              let d := editor'.document
              let e := (d.type ch).2
              (e.range = .caret d.caret ∧ e.text = String.singleton ch) ∧
              (d.type ch).1.text =
                d.text.take (d.offset d.caret) ++ [ch] ++ d.text.drop (d.offset d.caret) ∧
              (d.type ch).1.Holds (d.type ch).1.caret ∧
              Words.typeAll plus g p (before ++ ch :: after) =
                (Words.handle plus (typed.withDocument p editor' (d.type ch).1) p e).bind
                  fun (handled, caret) => Words.typeFrom plus p (caret.or last) handled after := by
  refine ⟨isSome_run Addition.total_wrapping _ steps, ?_⟩
  intro plus g hRun p editor hPane
  have hGrounded : g.Grounded := (grounded_new c stock).run hRun
  refine ⟨(hGrounded p editor hPane).holds_caret, ?_⟩
  intro before typed last hType
  obtain ⟨editor', hPane'⟩ := get?_typeFrom hPane hType
  have hDocument := hGrounded.typeFrom hType p editor' hPane'
  refine ⟨editor', hPane', hDocument.holds_caret, ?_⟩
  intro ch after d e
  obtain ⟨hRange, hText, hInserted⟩ := hDocument.text_type ch
  refine ⟨⟨hRange, hText⟩, hInserted, (hDocument.type ch).holds_caret, ?_⟩
  have hBefore : Words.typeFrom plus p none g before = some (typed, last) := hType
  rw [Words.typeAll, typeFrom_append plus hPane, hBefore, Option.bind_some]
  dsimp only
  rw [Words.typeFrom_cons hPane']
  rfl

/-- Edits are reported that never happened, one at the largest column there can be, and the caret is
asked for behind the text. -/
theorem run_caret_in_text_script :
    let s : Snippet := ⟨"1", "fn", "f()
", "javascript", true, true, ""⟩
    let c : Catalogue Memory := ⟨[s], .empty, ⟨fun _ => "", 0, ""⟩⟩
    let steps : List (Step Memory) :=
      [.fill .script "let fn ".toList 10, .edit .script (.keystroke ⟨0, 6⟩ ' '),
        .edit .script (.keystroke ⟨0, Json.wordLimit - 1⟩ ' '), .moveCaret .script ⟨9, 9⟩]
    ∃ g editor editor' typed last, (new c .empty).run .wrapping steps = some g ∧
      g.panes.get? .script = some editor ∧
      editor.document.text = "let f()
".toList ∧
      editor.document.Holds editor.document.caret ∧
      Words.typeAll .wrapping g .script ['x'] = some (typed, last) ∧
      typed.panes.get? .script = some editor' ∧
      editor'.document.Holds editor'.document.caret := by
  intro s c steps
  obtain ⟨hTotal, hRuns⟩ := run_caret_in_text c .empty steps
  obtain ⟨g, hRun⟩ := Option.isSome_iff_exists.mp hTotal
  have hText : ((new c .empty).run .wrapping steps).bind (fun g => (g.panes.get? .script).map
      fun editor => editor.document.text) = some "let f()
".toList := by decide +kernel
  rw [hRun, Option.bind_some] at hText
  obtain ⟨editor, hPane, hText⟩ := Option.map_eq_some_iff.mp hText
  obtain ⟨hHolds, hType⟩ := hRuns .wrapping g hRun .script editor hPane
  obtain ⟨⟨typed, last⟩, hTyped⟩ := Option.isSome_iff_exists.mp
    (Words.isSome_typeFrom Addition.total_wrapping .script none g ['x'])
  obtain ⟨editor', hPane', hHolds', _⟩ := hType ['x'] typed last hTyped
  exact ⟨g, editor, editor', typed, last, hRun, hPane, hText, hHolds, hTyped, hPane', hHolds'⟩

end Shorthand.Playground
