import Shorthand.Catalogue.Error
import Shorthand.Snippet

/-! # Archives

The durable record behind a catalogue. A save either replaces the whole record or is refused.
`Memory` is a record that lives only as long as the program and can be told which saves to refuse.
-/
namespace Shorthand

class Archive (α : Type) where
  load : α → Except CatalogueError (List Snippet)
  save : List Snippet → α → Except CatalogueError Unit × α

/-- An archive that can always name its record: a load gives the record or nothing, and a save
replaces it by the given list or leaves it alone. -/
class LawfulArchive (α : Type) extends Archive α where
  record : α → List Snippet
  load_eq (a : α) : load a = .ok (record a) ∨ ∃ detail, load a = .error (.unreadable detail)
  save_eq (l : List Snippet) (a : α) :
    (save l a).1 = .ok () ∧ record (save l a).2 = l ∨
      ∃ detail, (save l a).1 = .error (.unsaved detail) ∧ record (save l a).2 = record a

structure Memory where
  record : List Snippet
  /-- What becomes of the next saves; those past its end succeed. -/
  refusals : List (Option String)
  /-- Why the record cannot be read, if so. -/
  damage : Option String
  /-- The number of saves that succeeded. -/
  saves : Nat

namespace Memory

def empty : Memory := ⟨[], [], none, 0⟩

def load (m : Memory) : Except CatalogueError (List Snippet) :=
  match m.damage with
  | some detail => .error (.unreadable detail)
  | none => .ok m.record

def save (snippets : List Snippet) (m : Memory) : Except CatalogueError Unit × Memory :=
  match m.refusals with
  | some detail :: later => (.error (.unsaved detail), { m with refusals := later })
  | none :: later =>
    (.ok (), { m with record := snippets, refusals := later, saves := m.saves + 1 })
  | [] => (.ok (), { m with record := snippets, saves := m.saves + 1 })

theorem load_eq (m : Memory) :
    m.load = .ok m.record ∨ ∃ detail, m.load = .error (.unreadable detail) := by
  unfold load
  cases m.damage <;> simp

theorem save_eq (l : List Snippet) (m : Memory) :
    (save l m).1 = .ok () ∧ (save l m).2.record = l ∨
      ∃ detail, (save l m).1 = .error (.unsaved detail) ∧ (save l m).2.record = m.record := by
  unfold save
  rcases m.refusals with _ | ⟨_ | detail, later⟩ <;> simp

instance : Archive Memory := ⟨load, save⟩

instance : LawfulArchive Memory := ⟨record, load_eq, save_eq⟩

end Memory

end Shorthand
