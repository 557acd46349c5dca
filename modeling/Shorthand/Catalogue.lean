import Shorthand.Catalogue.Archive
import Shorthand.Text.Blank
import Shorthand.Text.Lowercase

/-! # Catalogues

The snippets of a user, in the order in which they were added, on top of an archive. No two
snippets of one language may have triggers that differ only in letter case. A change is made in
memory first and then saved; when the save is refused the change stays.
-/
namespace Shorthand

open Text

/-- Where new snippets get their identifier and their time from. -/
structure Supply where
  id : Nat → String
  issued : Nat
  now : String

def Supply.next (supply : Supply) : Supply := { supply with issued := supply.issued + 1 }

structure Catalogue (α : Type) where
  snippets : List Snippet
  archive : α
  supply : Supply

namespace Catalogue

variable {α : Type}

/-- A catalogue that has not loaded its archive yet. -/
def new (archive : α) (supply : Supply) : Catalogue α := ⟨[], archive, supply⟩

def get? (c : Catalogue α) (id : String) : Option Snippet := c.snippets.find? (·.id = id)

/-- Whether another snippet of the language has this trigger, letter case and blanks around the
given one aside. -/
def isTaken (c : Catalogue α) (trigger language : String) (except : Option String) : Bool :=
  let wanted := lowered (trimmed trigger)
  c.snippets.any fun s =>
    s.language = language && lowered s.trigger = wanted && some s.id ≠ except

def amend (id : String) (f : Snippet → Snippet) : List Snippet → List Snippet
  | [] => []
  | s :: rest => if s.id = id then f s :: rest else s :: amend id f rest

variable [Archive α]

def load (c : Catalogue α) : Except CatalogueError Unit × Catalogue α :=
  match Archive.load c.archive with
  | .ok snippets => (.ok (), { c with snippets })
  | .error e => (.error e, c)

/-- Saves the list and answers with `result`, or with the archive's refusal. -/
def saving {β : Type} (c : Catalogue α) (result : β) : Except CatalogueError β × Catalogue α :=
  let (saved, archive) := Archive.save c.snippets c.archive
  (saved.map fun () => result, { c with archive })

def add (c : Catalogue α) (trigger template language : String) :
    Except CatalogueError Snippet × Catalogue α :=
  let trigger := trimmed trigger
  if trigger = "" ∨ template = "" ∨ language = "" then
    (.error (.incomplete "trigger, template and language are required"), c)
  else if c.isTaken trigger language none then (.error (.taken trigger language), c)
  else
    let s : Snippet :=
      { id := c.supply.id c.supply.issued, trigger, template, language, isUserDefined := true
        isEnabled := true, createdAt := c.supply.now }
    { c with snippets := c.snippets ++ [s], supply := c.supply.next }.saving s

def update (c : Catalogue α) (id : String) (p : Snippet.Patch) :
    Except CatalogueError Snippet × Catalogue α :=
  match c.get? id with
  | none => (.error (.unknown id), c)
  | some s =>
    let given := p.trigger.map trimmed
    if given = some "" ∨ p.template = some "" ∨ p.language = some "" then
      (.error (.incomplete "trigger, template and language cannot be empty"), c)
    else
      let trigger := given.getD s.trigger
      let language := p.language.getD s.language
      if c.isTaken trigger language (some id) then (.error (.taken trigger language), c)
      else
        let t : Snippet :=
          { s with trigger, language, template := p.template.getD s.template
                   isEnabled := p.isEnabled.getD s.isEnabled }
        { c with snippets := amend id (fun _ => t) c.snippets }.saving t

def delete (c : Catalogue α) (id : String) : Except CatalogueError Snippet × Catalogue α :=
  match c.get? id with
  | none => (.error (.unknown id), c)
  | some s => { c with snippets := c.snippets.eraseP (·.id = id) }.saving s

def toggle (c : Catalogue α) (id : String) : Except CatalogueError Snippet × Catalogue α :=
  match c.get? id with
  | none => (.error (.unknown id), c)
  | some s =>
    let t : Snippet := { s with isEnabled := !s.isEnabled }
    { c with snippets := amend id (fun _ => t) c.snippets }.saving t

end Catalogue

/-- The languages of the snippets in order of first appearance, each with its snippets. -/
def Snippet.groupByLanguage : List Snippet → List (String × List Snippet) :=
  List.foldl (fun groups s => place s groups) []
where
  place (s : Snippet) : List (String × List Snippet) → List (String × List Snippet)
    | [] => [(s.language, [s])]
    | g :: rest => if g.1 = s.language then (g.1, g.2 ++ [s]) :: rest else g :: place s rest

end Shorthand
