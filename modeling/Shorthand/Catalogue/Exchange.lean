import Shorthand.Catalogue
import Shorthand.Snippet.Record

/-! # Exchange of snippets

Catalogues give and take snippets as a JSON array of their triggers, templates and languages. A
text that is no array is refused as a whole; elements that cannot be taken are skipped one by one.
-/
namespace Shorthand

open Json

structure ImportTally where
  imported : Nat
  skipped : Nat
  /-- Why elements were skipped, in their order. -/
  reasons : List CatalogueError
  /-- Set while the archive lacks snippets that were imported. -/
  refusal : Option CatalogueError

namespace ImportTally

def start : ImportTally := ⟨0, 0, [], none⟩

def lacksSave (s : ImportTally) : Bool := s.refusal.isSome

def skip (s : ImportTally) (reason : CatalogueError) : ImportTally :=
  { s with skipped := s.skipped + 1, reasons := s.reasons ++ [reason] }

/-- Counts an element as imported. A later save that succeeds also saves the elements before. -/
def take (s : ImportTally) (refusal : Option CatalogueError) : ImportTally :=
  { s with imported := s.imported + 1, refusal }

end ImportTally

/-- A member of an element that is a string and not empty. -/
def filledMember? (t : Tree) (name : String) : Option String :=
  ((t.member? name).bind Tree.asString?).filter (· ≠ "")

def candidate? (t : Tree) : Option Snippet.Portable := do
  let trigger ← filledMember? t "trigger"
  let template ← filledMember? t "template"
  let language ← filledMember? t "language"
  return { trigger, template, language }

namespace Catalogue

variable {α : Type}

/-- The snippets of the user as text; `none` when there are none. -/
def export? (c : Catalogue α) : Option String :=
  match (c.snippets.filter (·.isUserDefined)).map Snippet.portable with
  | [] => none
  | l => some (Snippet.Portable.listToText l)

variable [Archive α]

def importItem (state : ImportTally × Catalogue α) (item : Tree) :
    ImportTally × Catalogue α :=
  let (summary, c) := state
  match candidate? item with
  | none => (summary.skip (.incomplete "invalid snippet object"), c)
  | some p =>
    match c.add p.trigger p.template p.language with
    | (.ok _, c) => (summary.take none, c)
    | (.error (.unsaved detail), c) => (summary.take (some (.unsaved detail)), c)
    | (.error e, c) => (summary.skip e, c)

def importText (c : Catalogue α) (raw : String) : Except CatalogueError ImportTally × Catalogue α :=
  match Tree.parseValue? raw.toList with
  | none => (.error (.notImportable "not a JSON text"), c)
  | some t =>
    match t.items? with
    | none => (.error (.notImportable "Invalid snippet array."), c)
    | some items =>
      let (summary, c) := items.foldl importItem (.start, c)
      (.ok summary, c)

end Catalogue

end Shorthand
