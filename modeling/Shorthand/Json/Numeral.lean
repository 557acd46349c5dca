/-! # Numerals

Numbers as they are spelled. A numeral is read as a 64-bit natural when it is digits only, and it
fits a double when the double nearest to it is finite, reckoned as readers of doubles commonly do:
the digits that fit 64 bits, rounded, times a rounded power of ten.
-/
namespace Shorthand.Json

structure Numeral where
  negative : Bool
  whole : List Char
  /-- Empty where the numeral has no point. -/
  fraction : List Char
  exponent : Option Int
deriving DecidableEq, Repr

def wordLimit : Nat := 1 <<< 64

namespace Numeral

def ofNat (n : Nat) : Numeral := ⟨false, Nat.toDigits 10 n, [], none⟩

def toWord? (n : Numeral) : Option Nat :=
  if n.negative || n.fraction ≠ [] || n.exponent.isSome then none
  else
    let v := Nat.ofDigitChars 10 n.whole 0
    if v < wordLimit then some v else none

theorem toWord?_ofNat {n : Nat} (h : n < wordLimit) : (ofNat n).toWord? = some n := by
  simp [toWord?, ofNat, Nat.ofDigitChars_toDigits, h]

/-- Appends digits to `v` as long as the value fits 64 bits; the digits left over come back. -/
def absorb (v : Nat) : List Char → Nat × List Char
  | [] => (v, [])
  | d :: ds =>
    let w := 10 * v + (d.toNat - '0'.toNat)
    if w < wordLimit then absorb w ds else (v, d :: ds)

/-- The nearest number with 53 significant bits, ties to even. -/
def roundToDouble (n : Nat) : Nat :=
  let unit := 1 <<< (n.log2 - 52)
  let q := n / unit
  let twice := 2 * (n % unit)
  if unit < twice ∨ (unit = twice ∧ q % 2 = 1) then (q + 1) * unit else q * unit

/-- The least number that rounds beyond the largest double. -/
def doubleLimit : Nat := (1 <<< 1024) - (1 <<< 970)

def fitsDouble (n : Numeral) : Bool :=
  let (v, skipped) := absorb 0 n.whole
  let (significand, ignored) := absorb v n.fraction
  let scale : Int :=
    skipped.length - (n.fraction.length - ignored.length : Nat) + n.exponent.getD 0
  significand = 0 || scale < 0 ||
    (scale ≤ 308 &&
      roundToDouble significand * roundToDouble (Nat.pow 10 scale.toNat) < doubleLimit)

def spell (n : Numeral) : List Char :=
  (if n.negative then ['-'] else []) ++ n.whole ++
    (if n.fraction = [] then [] else '.' :: n.fraction) ++
    match n.exponent with
    | none => []
    | some e => 'e' :: (if e < 0 then ['-'] else []) ++ Nat.toDigits 10 e.natAbs

end Numeral

end Shorthand.Json
