import Shorthand.Stock
import Shorthand.Snippet

/-! # Active dictionaries

The triggers of one language in two tiers: snippets of the user that are enabled, and below them
the stock templates. Of several snippets for one trigger the last counts.
-/
namespace Shorthand

structure Dictionary where
  own : Table String String
  stock : Option (Table String String)

namespace Dictionary

def get? (d : Dictionary) (trigger : String) : Option String :=
  (d.own.get? trigger).or (d.stock.bind (·.get? trigger))

def contains (d : Dictionary) (trigger : String) : Bool := (d.get? trigger).isSome

def isEmpty (d : Dictionary) : Bool := d.own.isEmpty && d.stock.all (·.isEmpty)

/-- The number of triggers, those in both tiers once. -/
def size (d : Dictionary) : Nat :=
  d.own.size + match d.stock with
    | none => 0
    | some t => t.keys.countP (!d.own.contains ·)

def toTable (d : Dictionary) : Table String String :=
  d.own.entries.foldl (fun t e => t.insert e.1 e.2) (d.stock.getD .empty)

end Dictionary

/-- The snippets that may expand in a language. -/
def Snippet.activeIn (language : String) (snippets : List Snippet) : List Snippet :=
  snippets.filter fun s => s.language = language && s.isUserDefined && s.isEnabled

def Stock.dictionary (st : Stock) (snippets : List Snippet) (language : String) : Dictionary where
  own := .ofList ((Snippet.activeIn language snippets).map fun s => (s.trigger, s.template))
  stock := st.serving? language

theorem Dictionary.contains_iff {d : Dictionary} {trigger : String} :
    d.contains trigger ↔ ∃ template, d.get? trigger = some template := Option.isSome_iff_exists

end Shorthand
