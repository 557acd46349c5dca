import Shorthand.Json.Token

/-! # JSON trees

The structure of a JSON text with nothing decided yet: members keep their order and may repeat a
key, numerals and strings stay as spelled, and nesting has no limit.
Main statement: the tokens of a tree read back as that tree.
-/
namespace Shorthand.Json

inductive Tree where
  | null
  | bool (b : Bool)
  | number (n : Numeral)
  | string (units : List StringUnit)
  | array (items : List Tree)
  | object (members : List (List StringUnit × Tree))

instance : Inhabited Tree := ⟨.null⟩

namespace Tree

mutual

def tokens : Tree → List Token
  | null => [.null]
  | bool b => [.bool b]
  | number n => [.number n]
  | string units => [.string units]
  | array [] => [.openArray, .closeArray]
  | array (t :: ts) => .openArray :: tokens t ++ itemTokens ts ++ [.closeArray]
  | object [] => [.openObject, .closeObject]
  | object ((name, t) :: ms) =>
    .openObject :: .string name :: .colon :: tokens t ++ memberTokens ms ++ [.closeObject]

def itemTokens : List Tree → List Token
  | [] => []
  | t :: ts => .comma :: tokens t ++ itemTokens ts

def memberTokens : List (List StringUnit × Tree) → List Token
  | [] => []
  | (name, t) :: ms => .comma :: .string name :: .colon :: tokens t ++ memberTokens ms

end

/-- A container that is still open, with what came before in it, latest first. -/
inductive Frame where
  | array (done : List Tree)
  | object (done : List (List StringUnit × Tree)) (name : List StringUnit)

/-- What may come next. -/
inductive Reading where
  | value (outer : List Frame)
  | item (outer : List Frame)
  | member (outer : List Frame)
  | key (done : List (List StringUnit × Tree)) (outer : List Frame)
  | colon (done : List (List StringUnit × Tree)) (name : List StringUnit) (outer : List Frame)
  | ready (t : Tree) (outer : List Frame)

namespace Reading

def begin? (outer : List Frame) : Token → Option Reading
  | .openArray => some (item outer)
  | .openObject => some (member outer)
  | .null => some (ready .null outer)
  | .bool b => some (ready (.bool b) outer)
  | .number n => some (ready (.number n) outer)
  | .string units => some (ready (.string units) outer)
  | _ => none

def step? : Reading → Token → Option Reading
  | value k, t => begin? k t
  | item k, .closeArray => some (ready (.array []) k)
  | item k, t => begin? (.array [] :: k) t
  | member k, .closeObject => some (ready (.object []) k)
  | member k, .string s => some (colon [] s k)
  | key done k, .string s => some (colon done s k)
  | colon done s k, .colon => some (value (.object done s :: k))
  | ready t (.array done :: k), .comma => some (value (.array (t :: done) :: k))
  | ready t (.array done :: k), .closeArray => some (ready (.array (t :: done).reverse) k)
  | ready t (.object done s :: k), .comma => some (key ((s, t) :: done) k)
  | ready t (.object done s :: k), .closeObject =>
    some (ready (.object ((s, t) :: done).reverse) k)
  | _, _ => none

end Reading

def ofTokens? (ts : List Token) : Option Tree :=
  match ts.foldlM Reading.step? (.value []) with
  | some (.ready t []) => some t
  | _ => none

def parse? (s : List Char) : Option Tree := (lex s).bind ofTokens?

open Reading

mutual

theorem run_tokens (t : Tree) (k : List Frame) (rest : List Token) :
    (tokens t ++ rest).foldlM step? (value k) = rest.foldlM step? (ready t k) := by
  match t with
  | null | bool _ | number _ | string _ => simp [tokens, step?, begin?]
  | array [] => simp [tokens, step?, begin?]
  | array (t :: ts) =>
    have hb : ∀ r, ((.openArray :: tokens t) ++ r).foldlM step? (value k) =
        (tokens t ++ r).foldlM step? (value (.array [] :: k)) := by
      intro r
      cases t with
      | array items => cases items <;> simp [tokens, step?, begin?]
      | object members => cases members <;> simp [tokens, step?, begin?]
      | _ => simp [tokens, step?, begin?]
    rw [tokens, List.append_assoc, List.append_assoc, hb, run_tokens t]
    rw [List.singleton_append, run_items ts]
    simp
  | object [] => simp [tokens, step?, begin?]
  | object ((name, t) :: ms) =>
    have := run_tokens t (.object [] name :: k) (memberTokens ms ++ (.closeObject :: rest))
    simp only [tokens, List.cons_append, List.append_assoc, List.foldlM_cons, step?, begin?,
      List.nil_append, Option.bind_eq_bind, Option.bind_some, this]
    rw [run_members ms]
    simp

theorem run_items (ts : List Tree) (t : Tree) (done : List Tree) (k : List Frame)
    (rest : List Token) :
    (itemTokens ts ++ (.closeArray :: rest)).foldlM step? (ready t (.array done :: k)) =
      rest.foldlM step? (ready (.array (done.reverse ++ t :: ts)) k) := by
  match ts with
  | [] => simp [itemTokens, step?]
  | u :: us =>
    have := run_tokens u (.array (t :: done) :: k) (itemTokens us ++ (.closeArray :: rest))
    simp only [itemTokens, List.cons_append, List.append_assoc, List.foldlM_cons, step?,
      Option.bind_eq_bind, Option.bind_some, this]
    rw [run_items us]
    simp

theorem run_members (ms : List (List StringUnit × Tree)) (t : Tree) (name : List StringUnit)
    (done : List (List StringUnit × Tree)) (k : List Frame) (rest : List Token) :
    (memberTokens ms ++ (.closeObject :: rest)).foldlM step? (ready t (.object done name :: k)) =
      rest.foldlM step? (ready (.object (done.reverse ++ (name, t) :: ms)) k) := by
  match ms with
  | [] => simp [memberTokens, step?]
  | (name', u) :: us =>
    have := run_tokens u (.object ((name, t) :: done) name' :: k)
      (memberTokens us ++ (.closeObject :: rest))
    simp only [memberTokens, List.cons_append, List.append_assoc, List.foldlM_cons, step?,
      Option.bind_eq_bind, Option.bind_some, this]
    rw [run_members us]
    simp

end

theorem ofTokens?_tokens (t : Tree) : ofTokens? (tokens t) = some t := by
  have := run_tokens t [] []
  rw [List.append_nil] at this
  simp [ofTokens?, this]

end Tree

end Shorthand.Json
