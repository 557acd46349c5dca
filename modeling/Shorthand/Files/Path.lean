import Shorthand.Text.Split

/-! # Paths

A path is what stands between the slashes of its text, from the root or from the working directory.
A piece that is empty or a single dot leads nowhere, apart from a dot that begins a relative path.
A path that ends in such a piece names directories only.
Main statement: a path keeps its text.
-/
namespace Shorthand

structure Path where
  absolute : Bool
  /-- The text behind the root, split at its slashes. -/
  pieces : List (List Char)
deriving DecidableEq, Repr

namespace Path

inductive Step where
  | here
  | up
  | name (s : List Char)
deriving DecidableEq, Repr

def ofText : List Char → Path
  | '/' :: rest => ⟨true, Text.split '/' rest⟩
  | text => ⟨false, Text.split '/' text⟩

def toText (p : Path) : List Char :=
  (if p.absolute then ['/'] else []) ++ Text.join '/' p.pieces

def ofString (s : String) : Path := ofText s.toList

def isIdle (piece : List Char) : Bool := piece = [] || piece = ['.']

def step? (piece : List Char) : Option Step :=
  if isIdle piece then none else if piece = ['.', '.'] then some .up else some (.name piece)

def steps (p : Path) : List Step :=
  (if !p.absolute && p.pieces.head? = some ['.'] then [.here] else []) ++ p.pieces.filterMap step?

def directoryOnly (p : Path) : Bool := p.pieces.getLast?.any isIdle

def dropIdle (pieces : List (List Char)) : List (List Char) :=
  (pieces.reverse.dropWhile isIdle).reverse

/-- The pieces up to the last one that counts. -/
def body (p : Path) : List (List Char) :=
  match p.absolute, p.pieces with
  | false, ['.'] :: rest => ['.'] :: dropIdle rest
  | _, pieces => dropIdle pieces

/-- The directory that holds the path; a path without steps is in none. -/
def parent? (p : Path) : Option Path :=
  if p.body = [] then none else some ⟨p.absolute, body ⟨p.absolute, p.body.dropLast⟩⟩

/-- A file name up to its last dot, with that dot. A dot at the very beginning does not count. -/
def upToDot (name : List Char) : List Char :=
  match name.reverse.dropWhile (· ≠ '.') with
  | [] | [_] => name
  | before => before.reverse

/-- A file name without its extension. -/
def stem (name : List Char) : List Char :=
  match name.reverse.dropWhile (· ≠ '.') with
  | [] | [_] => name
  | _ :: before => before.reverse

/-- The path with another extension; a path that ends in no name stays as it is. The old extension
goes first. Where the path ends in a name such as `..x`, that leaves no name to extend. -/
def withExtension (p : Path) (extension : List Char) : Path :=
  match p.body.getLast?.bind step? with
  | some (.name s) =>
    let rest := if p.pieces = p.body then upToDot s else s
    let last := if rest = ['.', '.'] then rest else stem rest ++ '.' :: extension
    ⟨p.absolute, p.body.dropLast ++ [last]⟩
  | _ => p

/-- One path after another as text. An absolute second path stands alone. -/
def join (base rest : String) : String :=
  if rest.toList.head? = some '/' || base = "" then rest
  else if base.toList.getLast? = some '/' then base ++ rest
  else base ++ "/" ++ rest

end Path

end Shorthand
