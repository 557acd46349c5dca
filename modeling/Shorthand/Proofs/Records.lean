import Shorthand.Edit.Record
import Shorthand.Proofs.Json.Pretty
import Shorthand.Settings
import Shorthand.Snippet.Record

/-! # Records read back

Every record that the library writes is read back from its text, as long as its numbers fit 64 bits.
-/
namespace Shorthand

namespace Json

theorem mapM_map_eq_some {α β : Type} {read : β → Option α} {write : α → β}
    (h : ∀ a, read (write a) = some a) (l : List α) : (l.map write).mapM read = some l := by
  induction l with
  | nil => rfl
  | cons a l ih => simp [List.mapM_cons, h, ih]

namespace Tree

theorem fields?_record {names : List String} {members : List (String × Tree)}
    (hKnown : ∀ m ∈ members, m.1 ∈ names) (hDistinct : (members.map Prod.fst).Nodup) :
    (record members).fields? names = some ⟨members, false⟩ := by
  have hNamed : (members.map fun m => (StringUnit.ofText m.1.toList, m.2)).mapM textOfName? =
      some members := by
    apply mapM_map_eq_some
    intro m
    simp [textOfName?, StringUnit.text?_ofText]
  have hGiven : members.filter (fun m => names.contains m.1) = members := by
    rw [List.filter_eq_self]
    intro m hm
    exact List.contains_iff_mem.mpr (hKnown m hm)
  simp only [record, fields?, hNamed, hGiven, if_pos hDistinct]

theorem listOf?_map {α : Type} {read : Tree → Option α} {write : α → Tree}
    (h : ∀ a, read (write a) = some a) (l : List α) :
    listOf? read (array (l.map write)) = some l := by
  rw [listOf?, items?, Option.bind_some, mapM_map_eq_some h]

def readAs {α : Type} (read : Tree → Option α) (s : String) : Option α :=
  (parse? s.toList).bind read

theorem readAs_pretty {α : Type} {t : Tree} (h : Written t) (read : Tree → Option α) :
    readAs read t.pretty = read t := by
  rw [readAs, parse?_pretty h, Option.bind_some]

theorem orNull_ofString (s : String) : orNull asString? (ofString s) = some (some s) := by
  rw [orNull, asString?_ofString, Option.map_some]
  simp [ofString]

theorem Written.ofOption {α : Type} {write : α → Tree} (h : ∀ a, Written (write a))
    (o : Option α) : Written (Tree.ofOption write o) := by
  cases o with
  | none => exact .null
  | some a => exact h a

theorem Written.ofMembers {members : List (String × Tree)}
    (h : (members.map Prod.snd).Forall Written) : Written (Tree.record members) := by
  rw [List.forall_iff_forall_mem] at h
  exact .record fun m hm => h m.2 (List.mem_map_of_mem hm)

theorem Written.ofList {α : Type} {write : α → Tree} (h : ∀ a, Written (write a)) (l : List α) :
    Written (Tree.array (l.map write)) := by
  refine .array fun t ht => ?_
  obtain ⟨a, _, rfl⟩ := List.mem_map.mp ht
  exact h a

end Tree

end Json

open Json Json.Tree

namespace Snippet

theorem written_toTree (s : Snippet) : Written s.toTree :=
  .ofMembers ⟨.string _, .string _, .string _, .string _, .bool _, .bool _, .string _⟩

theorem Patch.written_toTree (p : Patch) : Written p.toTree :=
  .ofMembers ⟨.ofOption .string _, .ofOption .string _, .ofOption .string _, .ofOption .bool _⟩

theorem Portable.written_toTree (p : Portable) : Written p.toTree :=
  .ofMembers ⟨.string _, .string _, .string _⟩

theorem listOfText?_listToText (l : List Snippet) : listOfText? (listToText l) = some l := by
  have hRead := readAs_pretty (.ofList written_toTree l) listOfTree?
  exact hRead.trans (listOf?_map ofTree?_toTree l)

end Snippet

namespace Position

structure FitsWord (p : Position) : Prop where
  line : p.line < wordLimit
  column : p.column < wordLimit

theorem written_toTree (p : Position) : Written p.toTree := .ofMembers ⟨.word _, .word _⟩

theorem ofTree?_toTree {p : Position} (h : p.FitsWord) : ofTree? p.toTree = some p := by
  rw [ofTree?, toTree, fields?_record (by simp) (by simp)]
  simp [Fields.required, Fields.get?, List.lookup_cons, asWord?_ofWord h.line,
    asWord?_ofWord h.column]

end Position

namespace Range

structure FitsWord (r : Range) : Prop where
  start : r.start.FitsWord
  stop : r.stop.FitsWord

theorem written_toTree (r : Range) : Written r.toTree :=
  .ofMembers ⟨r.start.written_toTree, r.stop.written_toTree⟩

theorem ofTree?_toTree {r : Range} (h : r.FitsWord) : ofTree? r.toTree = some r := by
  rw [ofTree?, toTree, fields?_record (by simp) (by simp)]
  simp [Fields.required, Fields.get?, List.lookup_cons, Position.ofTree?_toTree h.start,
    Position.ofTree?_toTree h.stop]

end Range

namespace Edit

structure FitsWord (e : Edit) : Prop where
  range : e.range.FitsWord
  rangeLength : e.rangeLength < wordLimit
  changeCount : e.changeCount < wordLimit

theorem written_toTree (e : Edit) : Written e.toTree :=
  .ofMembers ⟨.string _, e.range.written_toTree, .word _, .bool _, .bool _, .bool _, .word _⟩

theorem ofTree?_toTree {e : Edit} (h : e.FitsWord) : ofTree? e.toTree = some e := by
  rw [ofTree?, toTree, fields?_record (by simp [fieldNames]) (by simp)]
  simp [Fields.required, Fields.withDefault, Fields.get?, List.lookup_cons, asString?_ofString,
    asBool?, asWord?_ofWord h.rangeLength, asWord?_ofWord h.changeCount,
    Range.ofTree?_toTree h.range]

end Edit

namespace Settings

theorem written_toTree (s : Settings) : Written s.toTree := by
  obtain ⟨_ | file, window, level⟩ := s
  · exact .ofMembers ⟨.word _, .string _⟩
  · exact .ofMembers ⟨.string _, .word _, .string _⟩

theorem ofTree?_toTree {s : Settings} (h : s.previewDebounce < wordLimit) :
    ofTree? s.toTree = some s := by
  obtain ⟨_ | file, window, level⟩ := s
  · rw [ofTree?, toTree, Option.map_none, Option.toList_none, List.nil_append,
      fields?_record (by simp [fieldNames]) (by simp)]
    simp [Fields.withDefault, Fields.get?, List.lookup_cons, asString?_ofString, asWord?_ofWord h]
  · rw [ofTree?, toTree, Option.map_some, Option.toList_some, List.singleton_append,
      fields?_record (by simp [fieldNames]) (by simp)]
    simp [Fields.withDefault, Fields.get?, List.lookup_cons, orNull_ofString, asString?_ofString,
      asWord?_ofWord h]

end Settings

end Shorthand
