import Shorthand.Json.Numeral

/-! # Tokens of JSON text

The marks, words, numerals and strings of a JSON text, without the space between them. A string
keeps every escape that names half of a surrogate pair, since not every reader refuses one.
-/
namespace Shorthand.Json

/-- A piece of a string: a character, or an escape that names half of a surrogate pair. -/
inductive StringUnit where
  | char (c : Char)
  | half (code : Nat)
deriving DecidableEq, Repr

namespace StringUnit

def isHigh (code : Nat) : Bool := 0xD800 ≤ code && code ≤ 0xDBFF

def isLow (code : Nat) : Bool := 0xDC00 ≤ code && code ≤ 0xDFFF

def ofCode (code : Nat) : StringUnit :=
  if isHigh code || isLow code then .half code else .char (Char.ofNat code)

def ofText (text : List Char) : List StringUnit := text.map .char

def textFrom? (done : List Char) : List StringUnit → Option (List Char)
  | [] => some done.reverse
  | .char c :: rest => textFrom? (c :: done) rest
  | .half high :: .half low :: rest =>
    if isHigh high && isLow low then
      textFrom? (Char.ofNat (0x10000 + (high - 0xD800) * 0x400 + (low - 0xDC00)) :: done) rest
    else none
  | .half _ :: _ => none

/-- The text that the pieces spell; `none` when half of a surrogate pair stands alone. -/
def text? (units : List StringUnit) : Option (List Char) := textFrom? [] units

theorem textFrom?_ofText (done text : List Char) :
    textFrom? done (ofText text) = some (done.reverse ++ text) := by
  induction text generalizing done with
  | nil => simp [ofText, textFrom?]
  | cons c rest ih =>
    have := ih (c :: done)
    simp only [ofText, List.map_cons, textFrom?] at this ⊢
    simpa using this

theorem text?_ofText (text : List Char) : text? (ofText text) = some text :=
  textFrom?_ofText [] text

end StringUnit

inductive Token where
  | openArray
  | closeArray
  | openObject
  | closeObject
  | comma
  | colon
  | null
  | bool (b : Bool)
  | number (n : Numeral)
  | string (units : List StringUnit)
deriving DecidableEq, Repr

def escaped? : Char → Option Char
  | '"' => some '"'
  | '\\' => some '\\'
  | '/' => some '/'
  | 'b' => some '\x08'
  | 'f' => some '\x0c'
  | 'n' => some '\n'
  | 'r' => some '\r'
  | 't' => some '\t'
  | _ => none

def hexDigit? (c : Char) : Option Nat :=
  if '0' ≤ c ∧ c ≤ '9' then some (c.toNat - '0'.toNat)
  else if 'a' ≤ c ∧ c ≤ 'f' then some (c.toNat - 'a'.toNat + 10)
  else if 'A' ≤ c ∧ c ≤ 'F' then some (c.toNat - 'A'.toNat + 10)
  else none

def code? (a b c d : Char) : Option Nat := do
  let a ← hexDigit? a
  let b ← hexDigit? b
  let c ← hexDigit? c
  let d ← hexDigit? d
  return ((a * 16 + b) * 16 + c) * 16 + d

/-- Reads a string up to its closing quote. `done` holds the pieces so far, latest first. -/
def lexString (done : List StringUnit) : List Char → Option (List StringUnit × List Char)
  | [] => none
  | '"' :: rest => some (done.reverse, rest)
  | '\\' :: 'u' :: a :: b :: c :: d :: rest =>
    match code? a b c d with
    | some code => lexString (.ofCode code :: done) rest
    | none => none
  | '\\' :: e :: rest =>
    match escaped? e with
    | some c => lexString (.char c :: done) rest
    | none => none
  | '\\' :: [] => none
  | c :: rest => if c.toNat < 0x20 then none else lexString (.char c :: done) rest

def lexDigits (s : List Char) : List Char × List Char :=
  (s.takeWhile Char.isDigit, s.dropWhile Char.isDigit)

def lexWhole (s : List Char) : Option (List Char × List Char) :=
  match s with
  | '0' :: rest => some (['0'], rest)
  | _ => if (lexDigits s).1 = [] then none else some (lexDigits s)

def lexFraction (s : List Char) : Option (List Char × List Char) :=
  match s with
  | '.' :: rest => if (lexDigits rest).1 = [] then none else some (lexDigits rest)
  | _ => some ([], s)

def lexSign : List Char → Bool × List Char
  | '+' :: rest => (false, rest)
  | '-' :: rest => (true, rest)
  | s => (false, s)

def lexExponent (s : List Char) : Option (Option Int × List Char) :=
  match s with
  | c :: rest =>
    if c = 'e' ∨ c = 'E' then
      let (negative, rest) := lexSign rest
      let (digits, rest) := lexDigits rest
      let size : Int := Nat.ofDigitChars 10 digits 0
      if digits = [] then none else some (some (if negative then -size else size), rest)
    else some (none, s)
  | [] => some (none, [])

def lexNumeral (negative : Bool) (s : List Char) : Option (Numeral × List Char) :=
  match lexWhole s with
  | none => none
  | some (whole, s) =>
    match lexFraction s with
    | none => none
    | some (fraction, s) =>
      match lexExponent s with
      | none => none
      | some (exponent, s) => some (⟨negative, whole, fraction, exponent⟩, s)

/-- Reads one token from a text that does not begin with space. -/
def lexToken : List Char → Option (Token × List Char)
  | '[' :: rest => some (.openArray, rest)
  | ']' :: rest => some (.closeArray, rest)
  | '\x7b' :: rest => some (.openObject, rest)
  | '\x7d' :: rest => some (.closeObject, rest)
  | ',' :: rest => some (.comma, rest)
  | ':' :: rest => some (.colon, rest)
  | '"' :: rest => (lexString [] rest).map fun (units, rest) => (.string units, rest)
  | '-' :: rest => (lexNumeral true rest).map fun (n, rest) => (.number n, rest)
  | 'n' :: 'u' :: 'l' :: 'l' :: rest => some (.null, rest)
  | 't' :: 'r' :: 'u' :: 'e' :: rest => some (.bool true, rest)
  | 'f' :: 'a' :: 'l' :: 's' :: 'e' :: rest => some (.bool false, rest)
  | s => (lexNumeral false s).map fun (n, rest) => (.number n, rest)

theorem lexString_length {done : List StringUnit} {s : List Char} {r : List StringUnit × List Char}
    (h : lexString done s = some r) : r.2.length < s.length := by
  fun_induction lexString done s <;> grind

theorem lexDigits_length (s : List Char) :
    (lexDigits s).1.length + (lexDigits s).2.length = s.length := by
  rw [← List.length_append, lexDigits, List.takeWhile_append_dropWhile]

theorem lexWhole_length {s : List Char} {r : List Char × List Char} (h : lexWhole s = some r) :
    r.2.length < s.length := by
  have := lexDigits_length s
  unfold lexWhole at h
  split at h
  · grind
  · split at h
    · contradiction
    next hn =>
      have := List.length_pos_iff.2 hn
      grind

theorem lexFraction_length {s : List Char} {r : List Char × List Char}
    (h : lexFraction s = some r) : r.2.length ≤ s.length := by
  unfold lexFraction at h
  split at h
  next rest =>
    have := lexDigits_length rest
    grind
  · grind

theorem lexSign_length (s : List Char) : (lexSign s).2.length ≤ s.length := by
  unfold lexSign
  split <;> grind

theorem lexExponent_length {s : List Char} {r : Option Int × List Char}
    (h : lexExponent s = some r) : r.2.length ≤ s.length := by
  unfold lexExponent at h
  split at h
  next c rest =>
    have := lexSign_length rest
    have := lexDigits_length (lexSign rest).2
    grind
  · grind

theorem lexNumeral_length {negative : Bool} {s : List Char} {r : Numeral × List Char}
    (h : lexNumeral negative s = some r) : r.2.length < s.length := by
  unfold lexNumeral at h
  split at h
  · contradiction
  next whole s₁ hw =>
    split at h
    · contradiction
    next fraction s₂ hf =>
      split at h
      · contradiction
      next exponent s₃ he =>
        have := lexWhole_length hw
        have := lexFraction_length hf
        have := lexExponent_length he
        grind

theorem lexToken_length {s : List Char} {r : Token × List Char} (h : lexToken s = some r) :
    r.2.length < s.length := by
  unfold lexToken at h
  split at h
  all_goals first
    | grind
    | (obtain ⟨q, hq, rfl⟩ := Option.map_eq_some_iff.1 h
       first
        | exact Nat.lt_succ_of_lt (lexString_length hq)
        | exact Nat.lt_succ_of_lt (lexNumeral_length hq)
        | exact lexNumeral_length hq)

def isSpace (c : Char) : Bool := c = ' ' || c = '\n' || c = '\t' || c = '\r'

/-- Reads all tokens of a text. `done` holds those so far, latest first. -/
def lexFrom (done : List Token) (s : List Char) : Option (List Token) :=
  match s with
  | [] => some done.reverse
  | c :: rest =>
    if isSpace c then lexFrom done rest
    else
      match h : lexToken (c :: rest) with
      | none => none
      | some (t, after) =>
        have : after.length < (c :: rest).length := lexToken_length h
        lexFrom (t :: done) after
termination_by s.length
decreasing_by
  · exact Nat.lt_succ_self _
  · exact this

def lex (s : List Char) : Option (List Token) := lexFrom [] s

end Shorthand.Json
