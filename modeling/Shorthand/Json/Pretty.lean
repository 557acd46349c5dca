import Shorthand.Json.Tree

/-! # Indented JSON text

One element to a line, two spaces to a level, and no newline at the end. In strings only the
quote, the backslash and the characters below the space are escaped.
-/
namespace Shorthand.Json

def hexDigits (width n : Nat) : List Char :=
  match width with
  | 0 => []
  | width + 1 => hexDigits width (n / 16) ++ [Nat.digitChar (n % 16)]

def escape (c : Char) : List Char :=
  if c = '"' then ['\\', '"']
  else if c = '\\' then ['\\', '\\']
  else if c = '\x08' then ['\\', 'b']
  else if c = '\x0c' then ['\\', 'f']
  else if c = '\n' then ['\\', 'n']
  else if c = '\r' then ['\\', 'r']
  else if c = '\t' then ['\\', 't']
  else if c.toNat < 0x20 then '\\' :: 'u' :: hexDigits 4 c.toNat
  else [c]

def StringUnit.spell : StringUnit → List Char
  | .char c => escape c
  | .half code => '\\' :: 'u' :: hexDigits 4 code

def quote (units : List StringUnit) : List Char := '"' :: units.flatMap StringUnit.spell ++ ['"']

def newline (depth : Nat) : List Char := '\n' :: List.replicate (2 * depth) ' '

namespace Tree

mutual

def prettyAt (depth : Nat) : Tree → List Char
  | null => ['n', 'u', 'l', 'l']
  | bool true => ['t', 'r', 'u', 'e']
  | bool false => ['f', 'a', 'l', 's', 'e']
  | number n => n.spell
  | string units => quote units
  | array [] => ['[', ']']
  | array (t :: ts) =>
    '[' :: newline (depth + 1) ++ prettyAt (depth + 1) t ++ prettyItems (depth + 1) ts ++
      newline depth ++ [']']
  | object [] => ['\x7b', '\x7d']
  | object ((name, t) :: ms) =>
    '\x7b' :: newline (depth + 1) ++ quote name ++ ':' :: ' ' :: prettyAt (depth + 1) t ++
      prettyMembers (depth + 1) ms ++ newline depth ++ ['\x7d']

def prettyItems (depth : Nat) : List Tree → List Char
  | [] => []
  | t :: ts => ',' :: newline depth ++ prettyAt depth t ++ prettyItems depth ts

def prettyMembers (depth : Nat) : List (List StringUnit × Tree) → List Char
  | [] => []
  | (name, t) :: ms =>
    ',' :: newline depth ++ quote name ++ ':' :: ' ' :: prettyAt depth t ++ prettyMembers depth ms

end

def pretty (t : Tree) : String := String.ofList (prettyAt 0 t)

end Tree

end Shorthand.Json
