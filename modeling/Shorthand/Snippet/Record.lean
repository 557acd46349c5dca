import Shorthand.Snippet
import Shorthand.Json.Record
import Shorthand.Json.Pretty

/-! # Snippets as JSON records

Main statement: each record is read back from what is written for it.
-/
namespace Shorthand.Snippet

open Json Json.Tree

def toTree (s : Snippet) : Tree :=
  record [("id", ofString s.id), ("trigger", ofString s.trigger),
    ("template", ofString s.template), ("language", ofString s.language),
    ("isUserDefined", bool s.isUserDefined), ("isEnabled", bool s.isEnabled),
    ("createdAt", ofString s.createdAt)]

def fieldNames : List String :=
  ["id", "trigger", "template", "language", "isUserDefined", "isEnabled", "createdAt"]

def ofTree? (t : Tree) : Option Snippet := do
  let f ← t.fields? fieldNames
  let id ← f.required "id" asString?
  let trigger ← f.required "trigger" asString?
  let template ← f.required "template" asString?
  let language ← f.required "language" asString?
  let isUserDefined ← f.withDefault "isUserDefined" true asBool?
  let isEnabled ← f.withDefault "isEnabled" true asBool?
  let createdAt ← f.withDefault "createdAt" "" asString?
  return { id, trigger, template, language, isUserDefined, isEnabled, createdAt }

def listToTree (l : List Snippet) : Tree := array (l.map toTree)

def listOfTree? (t : Tree) : Option (List Snippet) := t.listOf? ofTree?

def listToText (l : List Snippet) : String := (listToTree l).pretty

def listOfText? (s : String) : Option (List Snippet) := (parse? s.toList).bind listOfTree?

namespace Patch

def toTree (p : Patch) : Tree :=
  record [("trigger", ofOption ofString p.trigger), ("template", ofOption ofString p.template),
    ("language", ofOption ofString p.language), ("isEnabled", ofOption bool p.isEnabled)]

def fieldNames : List String := ["trigger", "template", "language", "isEnabled"]

def ofTree? (t : Tree) : Option Patch := do
  let f ← t.fields? fieldNames
  let trigger ← f.nullable "trigger" asString?
  let template ← f.nullable "template" asString?
  let language ← f.nullable "language" asString?
  let isEnabled ← f.nullable "isEnabled" asBool?
  return { trigger, template, language, isEnabled }

end Patch

namespace Portable

def toTree (p : Portable) : Tree :=
  record [("trigger", ofString p.trigger), ("template", ofString p.template),
    ("language", ofString p.language)]

def fieldNames : List String := ["trigger", "template", "language"]

def ofTree? (t : Tree) : Option Portable := do
  let f ← t.fields? fieldNames
  let trigger ← f.required "trigger" asString?
  let template ← f.required "template" asString?
  let language ← f.required "language" asString?
  return { trigger, template, language }

def listToText (l : List Portable) : String := (array (l.map toTree)).pretty

end Portable

namespace Form

def fieldNames : List String := ["id", "trigger", "template", "language"]

def ofTree? (t : Tree) : Option Form := do
  let f ← t.fields? fieldNames
  let id ← f.withDefault "id" none (orNull asString?)
  let trigger ← f.required "trigger" asString?
  let template ← f.required "template" asString?
  let language ← f.required "language" asString?
  return { id, trigger, template, language }

end Form

theorem ofTree?_toTree (s : Snippet) : ofTree? s.toTree = some s := by
  simp [ofTree?, toTree, record, fields?, fieldNames, textOfName?, StringUnit.text?_ofText,
    Fields.required, Fields.withDefault, Fields.get?, List.lookup_cons, asString?_ofString, asBool?]

theorem Patch.ofTree?_toTree (p : Patch) : Patch.ofTree? p.toTree = some p := by
  obtain ⟨_ | t, _ | u, _ | l, _ | e⟩ := p <;>
    simp [Patch.ofTree?, Patch.toTree, record, fields?, Patch.fieldNames, textOfName?,
      StringUnit.text?_ofText, Fields.nullable, Fields.get?, List.lookup_cons, asString?, ofString,
      asBool?, ofOption, orNull]

theorem Portable.ofTree?_toTree (p : Portable) : Portable.ofTree? p.toTree = some p := by
  simp [Portable.ofTree?, Portable.toTree, record, fields?, Portable.fieldNames, textOfName?,
    StringUnit.text?_ofText, Fields.required, Fields.get?, List.lookup_cons, asString?_ofString]

end Shorthand.Snippet
