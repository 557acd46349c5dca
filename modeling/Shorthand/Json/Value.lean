import Shorthand.Json.Tree

/-! # Plain JSON values

Reading a text whose shape is not known beforehand is stricter than splitting it into a tree:
nesting is limited, every string must be text, and every number must fit a double.
-/
namespace Shorthand.Json

def Token.isPlain : Token → Bool
  | .number n => n.fitsDouble
  | .string units => (StringUnit.text? units).isSome
  | _ => true

/-- Whether at most `room` containers are open at any point. -/
def nestsWithin (room : Nat) : List Token → Bool
  | [] => true
  | .openArray :: rest | .openObject :: rest =>
    match room with
    | 0 => false
    | room + 1 => nestsWithin room rest
  | .closeArray :: rest | .closeObject :: rest => nestsWithin (room + 1) rest
  | _ :: rest => nestsWithin room rest

def deepestNesting : Nat := 127

namespace Tree

/-- The tree of a text that is a plain value. -/
def parseValue? (s : List Char) : Option Tree :=
  match lex s with
  | none => none
  | some ts => if ts.all Token.isPlain && nestsWithin deepestNesting ts then ofTokens? ts else none

def asString? : Tree → Option String
  | string units => (StringUnit.text? units).map String.ofList
  | _ => none

def asBool? : Tree → Option Bool
  | bool b => some b
  | _ => none

/-- A natural number below `wordLimit`, written as digits only. -/
def asWord? : Tree → Option Nat
  | number n => n.toWord?
  | _ => none

def ofString (s : String) : Tree := string (StringUnit.ofText s.toList)

def ofWord (n : Nat) : Tree := number (.ofNat n)

theorem asString?_ofString (s : String) : asString? (ofString s) = some s := by
  simp [asString?, ofString, StringUnit.text?_ofText]

theorem asWord?_ofWord {n : Nat} (h : n < wordLimit) : asWord? (ofWord n) = some n :=
  Numeral.toWord?_ofNat h

/-- The value under `name` in an object; of several the last. -/
def member? (t : Tree) (name : String) : Option Tree :=
  match t with
  | object members =>
    (members.reverse.find? fun m =>
      (StringUnit.text? m.1).map String.ofList = some name).map Prod.snd
  | _ => none

end Tree

end Shorthand.Json
