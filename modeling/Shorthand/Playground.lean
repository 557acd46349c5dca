import Shorthand.Management
import Shorthand.Trigger

/-! # The playground

Three panes, each with a document and a language, over one catalogue. Every edit of a pane may
complete a trigger, which is then expanded; in any case the preview is asked to refresh.
-/
namespace Shorthand

inductive Pane where
  | markup
  | style
  | script
deriving DecidableEq, Repr

namespace Pane

def all : List Pane := [markup, style, script]

def name : Pane → String
  | markup => "markup"
  | style => "style"
  | script => "script"

/-- The language that a new pane starts with. -/
def language : Pane → String
  | markup => "html"
  | style => "css"
  | script => "javascript"

end Pane

structure Editor where
  document : Document
  language : String

structure Panes where
  markup : Option Editor
  style : Option Editor
  script : Option Editor

namespace Panes

def none : Panes := ⟨.none, .none, .none⟩

def get? (ps : Panes) : Pane → Option Editor
  | .markup => ps.markup
  | .style => ps.style
  | .script => ps.script

def set (ps : Panes) (p : Pane) (e : Editor) : Panes :=
  match p with
  | .markup => { ps with markup := some e }
  | .style => { ps with style := some e }
  | .script => { ps with script := some e }

theorem get?_set (ps : Panes) (p q : Pane) (e : Editor) :
    (ps.set p e).get? q = if q = p then some e else ps.get? q := by
  cases p <;> cases q <;> rfl

end Panes

structure Playground (α : Type) where
  panes : Panes
  catalogue : Catalogue α
  stock : Stock
  /-- How often a refresh of the preview was asked for. -/
  refreshes : Nat

namespace Playground

variable {α : Type}

def new (c : Catalogue α) (stock : Stock) : Playground α := ⟨.none, c, stock, 0⟩

/-- Puts a document into a pane, in the language that the pane starts with. -/
def fillPane (g : Playground α) (p : Pane) (d : Document) : Playground α :=
  { g with panes := g.panes.set p ⟨d, p.language⟩ }

/-- Switches the language of a pane; `none` if there is no such pane. -/
def switchLanguage? (g : Playground α) (p : Pane) (language : String) : Option (Playground α) :=
  (g.panes.get? p).map fun e => { g with panes := g.panes.set p { e with language } }

def dictionary (g : Playground α) (language : String) : Dictionary :=
  g.stock.dictionary g.catalogue.snippets language

def withDocument (g : Playground α) (p : Pane) (e : Editor) (d : Document) : Playground α :=
  { g with panes := g.panes.set p { e with document := d } }

/-- Expands the trigger that an edit completed, if it did. Gives back the caret the template asks
for. -/
def expandAfter (g : Playground α) (p : Pane) (e : Edit) : Playground α × Option Position :=
  match g.panes.get? p with
  | none => (g, none)
  | some editor =>
    match e.expansion? editor.document (g.dictionary editor.language) with
    | none => (g, none)
    | some x =>
      let (d, caret) := editor.document.expand x.span x.template.toList
      (g.withDocument p editor d, some caret)

def handle (g : Playground α) (p : Pane) (e : Edit) : Playground α × Option Position :=
  let (g, caret) := g.expandAfter p e
  ({ g with refreshes := g.refreshes + 1 }, caret)

def typeFrom (p : Pane) (last : Option Position) (g : Playground α) :
    List Char → Playground α × Option Position
  | [] => (g, last)
  | c :: rest =>
    match g.panes.get? p with
    | none => (g, none)
    | some editor =>
      let (d, e) := editor.document.type c
      let (g, caret) := (g.withDocument p editor d).handle p e
      typeFrom p (caret.or last) g rest

/-- Types a text into a pane, one keystroke at a time. Gives back the caret after the last
expansion. -/
def typeAll (g : Playground α) (p : Pane) (text : List Char) : Playground α × Option Position :=
  typeFrom p none g text

end Playground

end Shorthand
