/-! # Snippets

A snippet replaces its trigger by its template in texts of one language.
-/
namespace Shorthand

structure Snippet where
  id : String
  trigger : String
  template : String
  language : String
  isUserDefined : Bool
  isEnabled : Bool
  createdAt : String
deriving DecidableEq, Repr, Inhabited

namespace Snippet

structure Patch where
  trigger : Option String
  template : Option String
  language : Option String
  isEnabled : Option Bool
deriving DecidableEq, Repr

/-- What of a snippet travels between catalogues. -/
structure Portable where
  trigger : String
  template : String
  language : String
deriving DecidableEq, Repr

/-- What the editor form of a snippet submits; `id` is that of the snippet being edited. -/
structure Form where
  id : Option String
  trigger : String
  template : String
  language : String
deriving DecidableEq, Repr

def portable (s : Snippet) : Portable := ⟨s.trigger, s.template, s.language⟩

end Snippet

end Shorthand
