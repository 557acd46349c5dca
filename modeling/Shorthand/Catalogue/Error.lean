/-! # Catalogue errors

Why an operation on a catalogue fails, with a wording for logs and one for the user.
-/
namespace Shorthand

inductive CatalogueError where
  /-- A required field is missing or empty. -/
  | incomplete (detail : String)
  /-- Another snippet of the language has the trigger. -/
  | taken (trigger language : String)
  /-- No snippet has the identifier. -/
  | unknown (id : String)
  /-- The record could not be written; the change is kept in memory. -/
  | unsaved (detail : String)
  /-- A text to import is not a list of snippets. -/
  | notImportable (detail : String)
  /-- The record could not be read. -/
  | unreadable (detail : String)
deriving DecidableEq, Repr

namespace CatalogueError

def message : CatalogueError → String
  | incomplete detail => "Snippet data incomplete: " ++ detail
  | taken trigger language => "Trigger '" ++ trigger ++ "' already exists for " ++ language
  | unknown id => "Snippet with ID " ++ id ++ " not found"
  | unsaved detail => "Failed to persist snippets: " ++ detail
  | notImportable detail => "Invalid snippet import: " ++ detail
  | unreadable detail => "Failed to load snippets: " ++ detail

def userMessage : CatalogueError → String
  | incomplete _ => "Snippet data incomplete."
  | taken trigger language => "Trigger '" ++ trigger ++ "' already exists for " ++ language ++ "."
  | unknown id => "Snippet with ID '" ++ id ++ "' not found."
  | unsaved detail => "Error saving snippets. Storage might be full. (" ++ detail ++ ")"
  | notImportable detail => "Import error: " ++ detail
  | unreadable detail => "Error loading snippets: " ++ detail

end CatalogueError

end Shorthand
