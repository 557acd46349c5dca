import Shorthand.Edit
import Shorthand.Json.Record
import Shorthand.Json.Pretty

/-! # Positions, ranges and edits as JSON records -/
namespace Shorthand

open Json Json.Tree

namespace Position

def toTree (p : Position) : Tree := record [("line", ofWord p.line), ("column", ofWord p.column)]

def ofTree? (t : Tree) : Option Position := do
  let f ← t.fields? ["line", "column"]
  let line ← f.required "line" asWord?
  let column ← f.required "column" asWord?
  return { line, column }

end Position

namespace Range

def toTree (r : Range) : Tree := record [("start", r.start.toTree), ("end", r.stop.toTree)]

def ofTree? (t : Tree) : Option Range := do
  let f ← t.fields? ["start", "end"]
  let start ← f.required "start" Position.ofTree?
  let stop ← f.required "end" Position.ofTree?
  return { start, stop }

end Range

namespace Edit

def toTree (e : Edit) : Tree :=
  record [("text", ofString e.text), ("range", e.range.toTree),
    ("rangeLength", ofWord e.rangeLength), ("isFlush", bool e.isFlush),
    ("isUndoing", bool e.isUndoing), ("isRedoing", bool e.isRedoing),
    ("changeCount", ofWord e.changeCount)]

def fieldNames : List String :=
  ["text", "range", "rangeLength", "isFlush", "isUndoing", "isRedoing", "changeCount"]

def ofTree? (t : Tree) : Option Edit := do
  let f ← t.fields? fieldNames
  let text ← f.required "text" asString?
  let range ← f.required "range" Range.ofTree?
  let rangeLength ← f.required "rangeLength" asWord?
  let isFlush ← f.withDefault "isFlush" false asBool?
  let isUndoing ← f.withDefault "isUndoing" false asBool?
  let isRedoing ← f.withDefault "isRedoing" false asBool?
  let changeCount ← f.withDefault "changeCount" 1 asWord?
  return { text, range, rangeLength, isFlush, isUndoing, isRedoing, changeCount }

end Edit

end Shorthand
