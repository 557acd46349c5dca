import Shorthand.Catalogue.Archive
import Shorthand.Files
import Shorthand.Snippet.Record
import Shorthand.Text.Blank

/-! # Snippet files

An archive in one file, a JSON array. A missing or blank file holds no snippets. A save writes a
second file beside it and then moves that one into its place, so that the first is never half
written.
-/
namespace Shorthand

structure SnippetFile where
  path : Path
  files : Files

namespace SnippetFile

def ofText (s : String) : Except CatalogueError (List Snippet) :=
  if Text.trim s.toList = [] then .ok []
  else match Snippet.listOfText? s with
    | some l => .ok l
    | none => .error (.unreadable "not a list of snippets")

def load (f : SnippetFile) : Except CatalogueError (List Snippet) :=
  if f.files.holds f.path then
    match f.files.readText f.path with
    | .error fault => .error (.unreadable fault.message)
    | .ok s => ofText s
  else .ok []

/-- The file that is written before it takes the place of the snippet file. -/
def draft (p : Path) : Path := p.withExtension ['t', 'm', 'p']

/-- Makes the directories that hold a path, if it is in any. -/
def prepare (p : Path) (f : Files) : Except Files.Fault Unit × Files :=
  match p.parent? with
  | some d => f.makeDirectories d
  | none => (.ok (), f)

/-- Writes a file and waits until it is kept. What fails, fails with the name of its stage. -/
def writeOut (p : Path) (c : Files.Content) (f : Files) :
    Except (String × Files.Fault) Unit × Files :=
  match f.create p with
  | (.error fault, f) => (.error ("Failed to create temp file: ", fault), f)
  | (.ok opened, f) =>
    match f.fill opened c with
    | (.error fault, f) => (.error ("Failed to write: ", fault), f)
    | (.ok (), f) => ((f.sync opened).mapError (("Failed to sync: ", ·)), f)

def failed (stage : String) (fault : Files.Fault) : Except CatalogueError Unit :=
  .error (.unsaved (stage ++ fault.message))

def save (snippets : List Snippet) (f : SnippetFile) : Except CatalogueError Unit × SnippetFile :=
  match prepare f.path f.files with
  | (.error fault, files) => (failed "" fault, { f with files })
  | (.ok (), files) =>
    match writeOut (draft f.path) (.text (Snippet.listToText snippets)) files with
    | (.error (stage, fault), files) => (failed stage fault, { f with files })
    | (.ok (), files) =>
      match files.rename (draft f.path) f.path with
      | (.error fault, files) =>
        (failed "Failed to rename: " fault, { f with files := files.removeFile (draft f.path) })
      | (.ok (), files) => (.ok (), { f with files })

instance : Archive SnippetFile := ⟨load, save⟩

end SnippetFile

end Shorthand
