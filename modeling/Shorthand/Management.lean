import Shorthand.Catalogue.Exchange
import Shorthand.Notice

/-! # Management

The operations on a catalogue as a user asks for them. Every outcome is told by a notice, and
every change of the list by a change event, also when the change could not be saved.
-/
namespace Shorthand

open Catalogue

/-- What an operation answers, what it tells, and the catalogue after it. -/
structure Outcome (α β : Type) where
  answer : Except String β
  events : List Event
  catalogue : Catalogue α

namespace CatalogueError

def level : CatalogueError → Notice.Level
  | unsaved _ => .warn
  | _ => .error

def keepsChange : CatalogueError → Bool
  | unsaved _ => true
  | _ => false

end CatalogueError

namespace Management

variable {α β : Type}

def told (c : Catalogue α) (level : Notice.Level) (message : String) : Event :=
  .notice ⟨level, message, c.supply.now⟩

def changeEvent (action : String) (id : Option String) : Event := .changed ⟨action, id⟩

/-- The outcome of an operation that the catalogue refused or could not save. -/
def failed (c : Catalogue α) (e : CatalogueError) (action : String) (id : Option String) :
    Outcome α β where
  answer := .error e.userMessage
  events :=
    (if e.keepsChange then [changeEvent action id] else []) ++ [told c e.level e.userMessage]
  catalogue := c

/-- The outcome of an operation on one snippet. `id` is what is known of it beforehand. -/
def reported (action : String) (id : Option String) (level : Notice.Level)
    (message : Snippet → String) :
    Except CatalogueError Snippet × Catalogue α → Outcome α Snippet
  | (.error e, c) => failed c e action id
  | (.ok s, c) =>
    ⟨.ok s, [changeEvent action (some (id.getD s.id)), told c level (message s)], c⟩

variable [Archive α]

def reload (c : Catalogue α) : Outcome α (List Snippet) :=
  match c.load with
  | (.error e, c) => failed c e "load" none
  | (.ok (), c) => ⟨.ok c.snippets, [], c⟩

def add (c : Catalogue α) (trigger template language : String) : Outcome α Snippet :=
  reported "add" none .success
    (fun s => "Snippet '" ++ s.trigger ++ "' for " ++ s.language ++ " added.")
    (c.add trigger template language)

def update (c : Catalogue α) (id : String) (p : Snippet.Patch) : Outcome α Snippet :=
  reported "update" (some id) .success (fun s => "Snippet '" ++ s.trigger ++ "' updated.")
    (c.update id p)

/-- Updates the snippet that the form names, or adds one if it names none. -/
def submit (c : Catalogue α) (f : Snippet.Form) : Outcome α Snippet :=
  match f.id.filter (· ≠ "") with
  | some id => update c id ⟨some f.trigger, some f.template, some f.language, none⟩
  | none => add c f.trigger f.template f.language

def delete (c : Catalogue α) (id : String) : Outcome α Unit :=
  let o := reported "delete" (some id) .success (fun _ => "Snippet deleted.") (c.delete id)
  ⟨o.answer.map fun _ => (), o.events, o.catalogue⟩

def toggle (c : Catalogue α) (id : String) : Outcome α Snippet :=
  reported "toggle" (some id) .info
    (fun s => "Snippet '" ++ s.trigger ++ "' " ++
      (if s.isEnabled then "enabled" else "disabled") ++ ".")
    (c.toggle id)

omit [Archive α] in
def export? (c : Catalogue α) : Outcome α (Option String) :=
  match c.export? with
  | some text => ⟨.ok (some text), [told c .success "User snippets exported."], c⟩
  | none => ⟨.ok none, [told c .info "No user snippets to export."], c⟩

def skipWarning : CatalogueError → String
  | .taken trigger language =>
    "Skipped importing '" ++ trigger ++ "' for " ++ language ++ " (trigger taken)."
  | .incomplete _ => "Skipped invalid snippet object."
  | e => e.userMessage

def importText (c : Catalogue α) (raw : String) : Outcome α ImportTally :=
  match c.importText raw with
  | (.error e, c) => failed c e "import" none
  | (.ok s, c) =>
    { answer := .ok s
      events :=
        (if s.imported = 0 then [] else [changeEvent "import" none]) ++
          s.reasons.map (fun e => told c .warn (skipWarning e)) ++
          s.refusal.toList.map (fun e => told c .warn e.userMessage) ++
          [told c (if s.skipped = 0 then .info else .warn)
            (toString s.imported ++ " snippets imported. " ++ toString s.skipped ++ " skipped.")]
      catalogue := c }

end Management

end Shorthand
