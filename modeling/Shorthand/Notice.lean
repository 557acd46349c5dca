/-! # Notices and changes

What listings and users are told: that the catalogue changed, and how an operation went.
-/
namespace Shorthand

namespace Notice

inductive Level where
  | info
  | success
  | warn
  | error
deriving DecidableEq, Repr

def Level.name : Level → String
  | info => "info"
  | success => "success"
  | warn => "warn"
  | error => "error"

end Notice

structure Notice where
  level : Notice.Level
  message : String
  timestamp : String
deriving DecidableEq, Repr

/-- A change of the catalogue; `snippetId` names the snippet if only one was concerned. -/
structure Change where
  action : String
  snippetId : Option String
deriving DecidableEq, Repr

inductive Event where
  | changed (c : Change)
  | notice (n : Notice)
deriving DecidableEq, Repr

end Shorthand
