import Shorthand.Json.Pretty

/-! # Identifiers

Random identifiers of 128 bits, written as hexadecimal groups with the version and variant of a
random one.
-/
namespace Shorthand.Identifier

/-- Writes 128 bits as an identifier. Six of them are overwritten by version and variant. -/
def ofBits (bits : Nat) : String :=
  let group (low width : Nat) : List Char := Json.hexDigits width (bits >>> low)
  String.ofList (group 96 8 ++ '-' :: group 80 4 ++ '-' :: '4' :: group 64 3 ++
    '-' :: Nat.digitChar (8 + (bits >>> 60) % 4) :: group 48 3 ++ '-' :: group 0 12)

/-- Identifiers that differ in their last group, for one seed. -/
def numbered (seed n : Nat) : String :=
  ofBits (((seed >>> 48) <<< 48) + (seed + n) % (1 <<< 48))

end Shorthand.Identifier
