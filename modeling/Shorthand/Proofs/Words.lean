import Shorthand.Json.Numeral
import Shorthand.Proofs.Document.Run
import Shorthand.Proofs.Playground

/-! # Sums of machine words

A position that is reported or asked for may be anywhere up to the largest machine word, and what
is added to it may go over that. Then the sum wraps around or the program stops, as it was built.
Here the operations that make such sums take the addition as a parameter. With that of the natural
numbers they are what a document and a playground do. Places in a text are never that far, so where
only those are added to, no addition is asked for.
-/
namespace Shorthand

open Json (wordLimit)

/-- What `x` gives, `y` gives too. -/
def Agrees {β : Type} (x y : Option β) : Prop := ∀ b, x = some b → y = some b

namespace Agrees

variable {β γ : Type} {x y : Option β}

theorem refl (x : Option β) : Agrees x x := fun _ h => h

theorem bind (h : Agrees x y) {f f' : β → Option γ} (hf : ∀ b, Agrees (f b) (f' b)) :
    Agrees (x.bind f) (y.bind f') := by
  intro c hc
  obtain ⟨b, hb, hfb⟩ := Option.bind_eq_some_iff.mp hc
  exact Option.bind_eq_some_iff.mpr ⟨b, h b hb, hf b c hfb⟩

theorem map (h : Agrees x y) (f : β → γ) : Agrees (x.map f) (y.map f) := by
  intro c hc
  obtain ⟨b, hb, hfb⟩ := Option.map_eq_some_iff.mp hc
  exact Option.map_eq_some_iff.mpr ⟨b, h b hb, hfb⟩

end Agrees

/-- The sum of two words, or `none` where the program stops. -/
abbrev Addition := Nat → Nat → Option Nat

namespace Addition

def exact : Addition := fun a b => some (a + b)

/-- As a release build adds. -/
def wrapping : Addition := fun a b => some ((a + b) % wordLimit)

/-- As a build for tests adds. -/
def checked : Addition := fun a b => if a + b < wordLimit then some (a + b) else none

def Total (plus : Addition) : Prop := ∀ a b, (plus a b).isSome

def Within (plus plus' : Addition) : Prop := ∀ a b, Agrees (plus a b) (plus' a b)

theorem total_wrapping : wrapping.Total := fun _ _ => rfl

theorem checked_eq_some_iff {a b s : Nat} : checked a b = some s ↔ s < wordLimit ∧ a + b = s := by
  rw [checked, Option.ite_none_right_eq_some, Option.some_inj]
  constructor
  · rintro ⟨h, rfl⟩
    exact ⟨h, rfl⟩
  · rintro ⟨h, rfl⟩
    exact ⟨h, rfl⟩

theorem checked_within_exact : checked.Within exact :=
  fun _ _ _ h => congrArg some (checked_eq_some_iff.mp h).2

theorem checked_within_wrapping : checked.Within wrapping := by
  intro a b s h
  obtain ⟨hLess, rfl⟩ := checked_eq_some_iff.mp h
  exact congrArg some (Nat.mod_eq_of_lt hLess)

end Addition

namespace Words

section Operations

variable (plus : Addition)

def after (p : Position) (text : List Char) : Option Position :=
  match text.count '\n' with
  | 0 => (plus p.column text.length).map (⟨p.line, ·⟩)
  | breaks => (plus p.line breaks).map (⟨·, (Text.lastLine text).length⟩)

def caretFrom (t : Template) (start : Position) : Option Position :=
  match t.caret with
  | none => after plus start t.text
  | some ⟨0, column⟩ => (plus start.column column).map (⟨start.line, ·⟩)
  | some ⟨line, column⟩ => (plus start.line line).map (⟨·, column⟩)

def reveal (d : Document) (p : Position) : Option Document :=
  (plus d.top d.height).map fun bottom =>
    if p.line < d.top ∨ bottom ≤ p.line then { d with top := p.line - d.height / 2 } else d

def expand (d : Document) (span : Range) (template : List Char) : Option (Document × Position) :=
  let parsed := Template.parse template
  (caretFrom plus parsed span.start).bind fun caret =>
    (reveal plus ((d.replace span parsed.text).moveCaret caret) caret).map (·, caret)

def kind (e : Edit) : Option Edit.Kind :=
  if e.isWholesale || e.changeCount ≠ 1 || e.rangeLength ≠ 0 then some .other
  else match e.text.toList with
    | [c] => (plus e.range.start.column 1).map fun column => .typed c ⟨e.range.start.line, column⟩
    | _ => some .other

def expansion? (e : Edit) (doc : Document) (d : Dictionary) : Option (Option Expansion) :=
  (kind plus e).map fun k => k.expansion? doc d

variable {α : Type}

def expandAfter (g : Playground α) (p : Pane) (e : Edit) :
    Option (Playground α × Option Position) :=
  match g.panes.get? p with
  | none => some (g, none)
  | some editor =>
    (expansion? plus e editor.document (g.dictionary editor.language)).bind fun
      | none => some (g, none)
      | some x => (expand plus editor.document x.span x.template.toList).map fun (d, caret) =>
        (g.withDocument p editor d, some caret)

def handle (g : Playground α) (p : Pane) (e : Edit) : Option (Playground α × Option Position) :=
  (expandAfter plus g p e).map fun (g, caret) => ({ g with refreshes := g.refreshes + 1 }, caret)

def enter (g : Playground α) (p : Pane) (editor : Editor) (c : Char) :
    Option (Playground α × Option Position) :=
  handle plus (g.withDocument p editor (editor.document.type c).1) p (editor.document.type c).2

def typeFrom (p : Pane) (last : Option Position) (g : Playground α) :
    List Char → Option (Playground α × Option Position)
  | [] => some (g, last)
  | c :: rest =>
    match g.panes.get? p with
    | none => some (g, none)
    | some editor =>
      (enter plus g p editor c).bind fun (g, caret) => typeFrom p (caret.or last) g rest

def typeAll (g : Playground α) (p : Pane) (text : List Char) :
    Option (Playground α × Option Position) :=
  typeFrom plus p none g text

end Operations

variable {plus plus' : Addition} {α : Type} {g : Playground α} {p : Pane} {e : Edit}

theorem after_eq (q : Position) (text : List Char) : after .exact q text = some (q.after text) := by
  rw [after, Position.after]
  cases text.count '\n' <;> rfl

theorem caretFrom_eq (t : Template) (start : Position) :
    caretFrom .exact t start = some (t.caretFrom start) := by
  obtain ⟨text, _ | ⟨_ | line, column⟩⟩ := t
  · exact after_eq start text
  · rfl
  · rfl

theorem expand_eq (d : Document) (span : Range) (template : List Char) :
    expand .exact d span template = some (d.expand span template) := by
  rw [expand, caretFrom_eq]
  rfl

theorem kind_eq (e : Edit) : kind .exact e = some e.kind := by
  rw [kind, Edit.kind]
  split
  · rfl
  · rcases e.text.toList with _ | ⟨c, _ | ⟨next, rest⟩⟩ <;> rfl

theorem expandAfter_eq (g : Playground α) (p : Pane) (e : Edit) :
    expandAfter .exact g p e = some (g.expandAfter p e) := by
  cases hPane : g.panes.get? p with
  | none => rw [expandAfter, Playground.expandAfter, hPane]
  | some editor =>
    simp only [expandAfter, Playground.expandAfter, hPane, expansion?, kind_eq, Option.map_some,
      Option.bind_some, ← Edit.expansion?.eq_1]
    cases e.expansion? editor.document (g.dictionary editor.language) with
    | none => rfl
    | some x =>
      dsimp only
      rw [expand_eq]
      rfl

theorem handle_eq (g : Playground α) (p : Pane) (e : Edit) :
    handle .exact g p e = some (g.handle p e) := by
  rw [handle, expandAfter_eq]
  rfl

theorem typeFrom_of_none (hPane : g.panes.get? p = none) (last : Option Position) (c : Char)
    (rest : List Char) : typeFrom plus p last g (c :: rest) = some (g, none) := by
  rw [typeFrom, hPane]

theorem typeFrom_cons {editor : Editor} (hPane : g.panes.get? p = some editor)
    (last : Option Position) (c : Char) (rest : List Char) :
    typeFrom plus p last g (c :: rest) =
      (enter plus g p editor c).bind fun (g, caret) => typeFrom plus p (caret.or last) g rest := by
  rw [typeFrom, hPane]

theorem typeFrom_eq (p : Pane) (last : Option Position) (g : Playground α) (text : List Char) :
    typeFrom .exact p last g text = some (Playground.typeFrom p last g text) := by
  induction text generalizing g last with
  | nil => rfl
  | cons c rest ih =>
    cases hPane : g.panes.get? p with
    | none => rw [typeFrom_of_none hPane, Playground.typeFrom, hPane]
    | some editor =>
      rw [typeFrom_cons hPane, Playground.typeFrom_cons hPane, enter, handle_eq]
      exact ih _ _

section Within

variable (h : plus.Within plus')
include h

theorem after_agrees (q : Position) (text : List Char) :
    Agrees (after plus q text) (after plus' q text) := by
  rw [after, after]
  cases text.count '\n' with
  | zero => exact (h _ _).map _
  | succ breaks => exact (h _ _).map _

theorem caretFrom_agrees (t : Template) (start : Position) :
    Agrees (caretFrom plus t start) (caretFrom plus' t start) := by
  obtain ⟨text, _ | ⟨_ | line, column⟩⟩ := t
  · exact after_agrees h start text
  · exact (h _ _).map _
  · exact (h _ _).map _

theorem reveal_agrees (d : Document) (q : Position) :
    Agrees (reveal plus d q) (reveal plus' d q) :=
  (h _ _).map _

theorem expand_agrees (d : Document) (span : Range) (template : List Char) :
    Agrees (expand plus d span template) (expand plus' d span template) :=
  (caretFrom_agrees h _ _).bind fun _ => (reveal_agrees h _ _).map _

theorem kind_agrees (e : Edit) : Agrees (kind plus e) (kind plus' e) := by
  rw [kind, kind]
  split
  · exact .refl _
  · rcases e.text.toList with _ | ⟨c, _ | ⟨next, rest⟩⟩
    · exact .refl _
    · exact (h _ _).map _
    · exact .refl _

theorem expandAfter_agrees (g : Playground α) (p : Pane) (e : Edit) :
    Agrees (expandAfter plus g p e) (expandAfter plus' g p e) := by
  rw [expandAfter, expandAfter]
  cases g.panes.get? p with
  | none => exact .refl _
  | some editor =>
    refine ((kind_agrees h e).map _).bind fun found => ?_
    cases found with
    | none => exact .refl _
    | some x => exact (expand_agrees h _ _ _).map _

theorem handle_agrees (g : Playground α) (p : Pane) (e : Edit) :
    Agrees (handle plus g p e) (handle plus' g p e) :=
  (expandAfter_agrees h g p e).map _

end Within

theorem handle_eq_of_checked {answer : Playground α × Option Position}
    (h : handle .checked g p e = some answer) :
    handle .wrapping g p e = some answer ∧ g.handle p e = answer := by
  refine ⟨handle_agrees Addition.checked_within_wrapping g p e answer h, ?_⟩
  have hExact := handle_agrees Addition.checked_within_exact g p e answer h
  rw [handle_eq] at hExact
  exact Option.some.inj hExact

section Total

variable (h : plus.Total)
include h

theorem isSome_after (q : Position) (text : List Char) : (after plus q text).isSome := by
  rw [after]
  cases text.count '\n' with
  | zero => exact Option.isSome_map.trans (h _ _)
  | succ breaks => exact Option.isSome_map.trans (h _ _)

theorem isSome_caretFrom (t : Template) (start : Position) : (caretFrom plus t start).isSome := by
  obtain ⟨text, _ | ⟨_ | line, column⟩⟩ := t
  · exact isSome_after h start text
  · exact Option.isSome_map.trans (h _ _)
  · exact Option.isSome_map.trans (h _ _)

theorem isSome_reveal (d : Document) (q : Position) : (reveal plus d q).isSome :=
  Option.isSome_map.trans (h _ _)

theorem isSome_expand (d : Document) (span : Range) (template : List Char) :
    (expand plus d span template).isSome := by
  obtain ⟨caret, hCaret⟩ :=
    Option.isSome_iff_exists.mp (isSome_caretFrom h (Template.parse template) span.start)
  rw [expand, hCaret, Option.bind_some, Option.isSome_map]
  exact isSome_reveal h _ caret

theorem isSome_kind (e : Edit) : (kind plus e).isSome := by
  rw [kind]
  split
  · rfl
  · rcases e.text.toList with _ | ⟨c, _ | ⟨next, rest⟩⟩
    · rfl
    · exact Option.isSome_map.trans (h _ _)
    · rfl

theorem isSome_handle (g : Playground α) (p : Pane) (e : Edit) : (handle plus g p e).isSome := by
  rw [handle, Option.isSome_map, expandAfter]
  cases g.panes.get? p with
  | none => rfl
  | some editor =>
    obtain ⟨k, hKind⟩ := Option.isSome_iff_exists.mp (isSome_kind h e)
    dsimp only
    rw [expansion?, hKind, Option.map_some, Option.bind_some]
    cases k.expansion? editor.document (g.dictionary editor.language) with
    | none => rfl
    | some x => exact Option.isSome_map.trans (isSome_expand h _ _ _)

theorem isSome_typeFrom (p : Pane) (last : Option Position) (g : Playground α)
    (text : List Char) : (typeFrom plus p last g text).isSome := by
  induction text generalizing g last with
  | nil => rfl
  | cons c rest ih =>
    cases hPane : g.panes.get? p with
    | none =>
      rw [typeFrom_of_none hPane]
      rfl
    | some editor =>
      obtain ⟨answer, hEnter⟩ := Option.isSome_iff_exists.mp
        (isSome_handle h (g.withDocument p editor (editor.document.type c).1) p
          (editor.document.type c).2)
      rw [typeFrom_cons hPane, enter, hEnter]
      exact ih _ _

end Total

theorem kind_eq_some_other (plus : Addition) (h : ∀ c, ¬ e.Types c) :
    kind plus e = some .other := by
  have hKind := Edit.kind_eq_other_iff.mpr h
  rw [Edit.kind] at hKind
  rw [kind]
  split at hKind
  next hWhole => rw [if_pos hWhole]
  next hPlain =>
    rw [if_neg hPlain]
    rcases hText : e.text.toList with _ | ⟨first, _ | ⟨next, rest⟩⟩
    · rfl
    · rw [hText] at hKind
      cases hKind
    · rfl

theorem reveal_eq_some {d d' : Document} {q : Position} (h : reveal plus d q = some d') :
    ∃ top, d' = { d with top } := by
  obtain ⟨bottom, _, rfl⟩ := Option.map_eq_some_iff.mp h
  split
  · exact ⟨_, rfl⟩
  · exact ⟨_, rfl⟩

/-- Wherever the sums lead, the text and the history are those of an expansion, and the caret is
brought back into the text. -/
theorem expand_eq_some {d d' : Document} {span : Range} {template : List Char} {caret : Position}
    (h : expand plus d span template = some (d', caret)) :
    ∃ top, d' = { (d.expand span template).1.moveCaret caret with top } := by
  obtain ⟨place, _, h⟩ := Option.bind_eq_some_iff.mp h
  obtain ⟨revealed, hReveal, h⟩ := Option.map_eq_some_iff.mp h
  cases h
  obtain ⟨top, rfl⟩ := reveal_eq_some hReveal
  obtain ⟨_, _, hExact⟩ := Option.bind_eq_some_iff.mp (expand_eq d span template)
  obtain ⟨_, hExact, h⟩ := Option.map_eq_some_iff.mp hExact
  obtain ⟨_, rfl⟩ := reveal_eq_some hExact
  rw [← h]
  exact ⟨top, rfl⟩

theorem handle_of_no_pane (plus : Addition) (e : Edit) (h : g.panes.get? p = none) :
    handle plus g p e = some ({ g with refreshes := g.refreshes + 1 }, none) := by
  rw [handle, expandAfter, h]
  rfl

theorem handle_of_not_types (plus : Addition) (g : Playground α) (p : Pane)
    (h : ∀ c, ¬ e.Types c) :
    handle plus g p e = some ({ g with refreshes := g.refreshes + 1 }, none) := by
  have hExpansion (doc : Document) (d : Dictionary) : expansion? plus e doc d = some none := by
    rw [expansion?, kind_eq_some_other plus h]
    rfl
  cases hPane : g.panes.get? p with
  | none => exact handle_of_no_pane plus e hPane
  | some editor =>
    rw [handle, expandAfter, hPane]
    dsimp only
    rw [hExpansion]
    rfl

theorem handle_cases {g' : Playground α} {caret : Option Position}
    (h : handle plus g p e = some (g', caret)) :
    (g' = { g with refreshes := g.refreshes + 1 } ∧ caret = none) ∨
      ∃ editor span template d place, g.panes.get? p = some editor ∧
        expand plus editor.document span template = some (d, place) ∧
        g' = { g.withDocument p editor d with refreshes := g.refreshes + 1 } ∧
        caret = some place := by
  obtain ⟨⟨after, place⟩, hAfter, hAnswer⟩ := Option.map_eq_some_iff.mp h
  cases hAnswer
  rw [expandAfter] at hAfter
  cases hPane : g.panes.get? p with
  | none =>
    rw [hPane] at hAfter
    cases hAfter
    exact .inl ⟨rfl, rfl⟩
  | some editor =>
    rw [hPane] at hAfter
    obtain ⟨found, _, hAfter⟩ := Option.bind_eq_some_iff.mp hAfter
    cases found with
    | none =>
      cases hAfter
      exact .inl ⟨rfl, rfl⟩
    | some x =>
      obtain ⟨⟨d, place⟩, hExpand, hAfter⟩ := Option.map_eq_some_iff.mp hAfter
      cases hAfter
      exact .inr ⟨editor, x.span, x.template.toList, d, place, rfl, hExpand, rfl, rfl⟩

end Words

end Shorthand
