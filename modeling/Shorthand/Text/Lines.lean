import Shorthand.Text.Split

/-! # Lines

The pieces of a text between newlines.
-/
namespace Shorthand.Text

def splitLines (cs : List Char) : List (List Char) := split '\n' cs

def joinLines (lines : List (List Char)) : List Char := join '\n' lines

theorem splitLines_ne_nil (cs : List Char) : splitLines cs ≠ [] := split_ne_nil '\n' cs

theorem joinLines_splitLines (cs : List Char) : joinLines (splitLines cs) = cs :=
  join_split '\n' cs

def lastLine (cs : List Char) : List Char := (cs.reverse.takeWhile (· ≠ '\n')).reverse

end Shorthand.Text
