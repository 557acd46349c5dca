import Shorthand.Json.Value

/-! # Records in JSON

A record is written as an object, where unknown members are passed over and a known one may come
only once, or as an array of its fields in order, where fields at the end may be left out if they
have a default.
-/
namespace Shorthand.Json

/-- The known fields of a record as far as they were given. -/
structure Fields where
  given : List (String × Tree)
  inOrder : Bool

def textOfName? (m : List StringUnit × Tree) : Option (String × Tree) :=
  (StringUnit.text? m.1).map fun name => (String.ofList name, m.2)

namespace Tree

def fields? (names : List String) : Tree → Option Fields
  | array items => if items.length ≤ names.length then some ⟨names.zip items, true⟩ else none
  | object members =>
    match members.mapM textOfName? with
    | none => none
    | some named =>
      let given := named.filter fun m => names.contains m.1
      if (given.map Prod.fst).Nodup then some ⟨given, false⟩ else none
  | _ => none

/-- Reads `null` as nothing. -/
def orNull {α : Type} (read : Tree → Option α) : Tree → Option (Option α)
  | null => some none
  | t => (read t).map some

def ofOption {α : Type} (write : α → Tree) : Option α → Tree
  | none => null
  | some a => write a

def record (members : List (String × Tree)) : Tree :=
  object (members.map fun m => (StringUnit.ofText m.1.toList, m.2))

def items? : Tree → Option (List Tree)
  | array items => some items
  | _ => none

def listOf? {α : Type} (read : Tree → Option α) (t : Tree) : Option (List α) :=
  t.items?.bind (·.mapM read)

end Tree

namespace Fields

variable {α : Type}

def get? (f : Fields) (name : String) : Option Tree := f.given.lookup name

def required (f : Fields) (name : String) (read : Tree → Option α) : Option α :=
  (f.get? name).bind read

def withDefault (f : Fields) (name : String) (default : α) (read : Tree → Option α) : Option α :=
  match f.get? name with
  | none => some default
  | some t => read t

/-- A field that may be `null`. In an object it may also be missing, in an array it may not. -/
def nullable (f : Fields) (name : String) (read : Tree → Option α) : Option (Option α) :=
  match f.get? name with
  | none => if f.inOrder then none else some none
  | some t => t.orNull read

end Fields

end Shorthand.Json
