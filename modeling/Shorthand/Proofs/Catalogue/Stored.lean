import Shorthand.Proofs.Catalogue.Durable
import Shorthand.Proofs.Catalogue.File

/-! # Catalogues on snippet files

As long as saves succeed, a catalogue on a snippet file never needs to load it again: the file
holds the list after every operation, whether it was refused or not.
-/
namespace Shorthand.Catalogue

open Files

def withSupply {α : Type} (c : Catalogue α) (supply : Supply) : Catalogue α := { c with supply }

/-- The file holds the list and can be saved again. Since `start` nothing else has changed, apart
from directories that were added. -/
structure Stored (start : SnippetFile) (c : Catalogue SnippetFile) : Prop where
  path : c.archive.path = start.path
  plain : SnippetFile.Plain start.path c.archive.files
  held : SnippetFile.load c.archive = .ok c.snippets
  saves : ∀ l, (SnippetFile.save l c.archive).1 = .ok ()
  places : SnippetFile.places start.path c.archive.files =
    SnippetFile.places start.path start.files
  changed : ChangedWithin (SnippetFile.places start.path start.files) start.files c.archive.files

namespace Stored

variable {start : SnippetFile} {c : Catalogue SnippetFile}

theorem of_load {l : List Snippet} {supply : Supply}
    (hPlain : SnippetFile.Plain start.path start.files)
    (hLoad : SnippetFile.load start = .ok l) (hSave : ∀ l, (SnippetFile.save l start).1 = .ok ()) :
    Stored start ⟨l, start, supply⟩ :=
  ⟨rfl, hPlain, hLoad, hSave, rfl, .refl _ _⟩

theorem withSupply (h : Stored start c) (supply : Supply) : Stored start (c.withSupply supply) :=
  ⟨h.path, h.plain, h.held, h.saves, h.places, h.changed⟩

theorem saving (h : Stored start c) (l : List Snippet) (supply : Supply) :
    Stored start (Catalogue.saving ⟨l, c.archive, supply⟩ ()).2 := by
  have hPlain : SnippetFile.Plain c.archive.path c.archive.files := by
    rw [h.path]
    exact h.plain
  obtain ⟨hPath, hPlain', hAgain, hChanged⟩ := SnippetFile.save_again hPlain h.saves l
  rw [h.path] at hPlain' hChanged
  have hPlaces := h.plain.places_eq hChanged
  rw [h.places] at hChanged hPlaces
  exact ⟨hPath.trans h.path, hPlain', SnippetFile.load_save hPlain (h.saves l), hAgain, hPlaces,
    h.changed.trans hChanged⟩

theorem single (h : Stored start c) {op : Operation} (hOnce : op.savesOnce = true) :
    Stored start (c.perform op) := by
  rcases c.answer_cases hOnce with ⟨_, _, hRefused⟩ | ⟨l, supply, hSaved⟩
  · have hSame := (hRefused SnippetFile c.archive).2
    rw [on_archive] at hSame
    rw [hSame]
    exact h
  · have hSaving := (hSaved SnippetFile c.archive).2
    rw [on_archive] at hSaving
    rw [hSaving]
    exact h.saving l supply

theorem load_eq (h : Stored start c) (l : List Snippet) (supply : Supply) :
    Catalogue.load ⟨l, c.archive, supply⟩ = (.ok (), c.withSupply supply) := by
  have hHeld : Archive.load c.archive = .ok c.snippets := h.held
  rw [Catalogue.load, hHeld]
  rfl

theorem perform (h : Stored start c) (op : Operation) : Stored start (c.perform op) := by
  cases op with
  | importText raw =>
    have hAdd (c : Catalogue SnippetFile) (trigger template language : String)
        (h : Stored start c) : Stored start (c.add trigger template language).2 := by
      have hOnce : (Operation.add trigger template language).savesOnce = true := rfl
      exact h.single hOnce
    exact importText_keeps hAdd h raw
  | load =>
    have hLoad : c.load = (.ok (), c) := h.load_eq c.snippets c.supply
    rw [Catalogue.perform, hLoad]
    exact h
  | _ => exact h.single rfl

end Stored

end Shorthand.Catalogue
