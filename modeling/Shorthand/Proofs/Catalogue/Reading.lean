import Shorthand.Catalogue
import Shorthand.Catalogue.File
import Shorthand.Proofs.Files
import Shorthand.Proofs.Json.Grammar
import Shorthand.Proofs.Json.Members
import Shorthand.Proofs.Text.Blank

/-! # Snippet files of other writers

A snippet file may come from a program that wrote fewer fields, or more of them. An object is read
as the snippet that it describes, fields left out having their defaults, and in a file with an
object that describes none nothing is read at all.
-/
namespace Shorthand

open Json Json.Tree

namespace Snippet

variable {members members' : List (List StringUnit × Tree)} {s : Snippet}

/-- What an object must say, in any order and among members of any other names. -/
structure Describes (members : List (List StringUnit × Tree)) (s : Snippet) : Prop where
  named : Named members
  id : Gives asString? "id" s.id members
  trigger : Gives asString? "trigger" s.trigger members
  template : Gives asString? "template" s.template members
  language : Gives asString? "language" s.language members
  isUserDefined : GivesOrOmits asBool? "isUserDefined" true s.isUserDefined members
  isEnabled : GivesOrOmits asBool? "isEnabled" true s.isEnabled members
  createdAt : GivesOrOmits asString? "createdAt" "" s.createdAt members

theorem Describes.congr (h : Describes members s) (hNamed : Named members')
    (hSame : ∀ name ∈ fieldNames, (valuesOf name members').Perm (valuesOf name members)) :
    Describes members' s := by
  obtain ⟨hId, hTrigger, hTemplate, hLanguage, hUser, hEnabled, hCreated⟩ :=
    List.forall_iff_forall_mem.mpr hSame
  exact ⟨hNamed, h.id.congr hId, h.trigger.congr hTrigger, h.template.congr hTemplate,
    h.language.congr hLanguage, h.isUserDefined.congr hUser, h.isEnabled.congr hEnabled,
    h.createdAt.congr hCreated⟩

theorem Describes.perm (h : Describes members s) (hPerm : members'.Perm members) :
    Describes members' s := by
  apply h.congr
  · intro m hm
    exact h.named m (hPerm.mem_iff.mp hm)
  · intro name _
    exact valuesOf_perm hPerm name

/-- A member with a name of its own may stand anywhere and have any value. -/
theorem Describes.insert {before after : List (List StringUnit × Tree)}
    (h : Describes (before ++ after) s) {m : List StringUnit × Tree} {name : String}
    (hName : StringUnit.text? m.1 = some name.toList) (hUnknown : name ∉ fieldNames) :
    Describes (before ++ m :: after) s := by
  apply h.congr
  · intro m' hm
    rw [List.perm_middle.mem_iff, List.mem_cons] at hm
    rcases hm with rfl | hm
    · exact ⟨_, hName⟩
    · exact h.named m' hm
  · intro known hKnown
    rw [valuesOf_insert]
    rw [hName]
    intro hSame
    exact hUnknown (String.toList_injective (Option.some.inj hSame) ▸ hKnown)

def requiredNames : List String := ["id", "trigger", "template", "language"]

/-- A required field is missing, or some field is given twice or as `null`. -/
inductive Spoilt (members : List (List StringUnit × Tree)) : Prop
  | lacks {name : String} (hRequired : name ∈ requiredNames) (h : valuesOf name members = [])
  | repeats {name : String} (hKnown : name ∈ fieldNames)
    (h : 2 ≤ (valuesOf name members).length)
  | isNull {name : String} (hKnown : name ∈ fieldNames) (h : .null ∈ valuesOf name members)

theorem Describes.valuesOf_ne_nil (h : Describes members s) :
    ∀ name ∈ requiredNames, valuesOf name members ≠ [] := by
  have hAll : requiredNames.Forall fun name => valuesOf name members ≠ [] :=
    ⟨h.id.ne_nil, h.trigger.ne_nil, h.template.ne_nil, h.language.ne_nil⟩
  exact List.forall_iff_forall_mem.mp hAll

theorem Describes.length_le (h : Describes members s) :
    ∀ name ∈ fieldNames, (valuesOf name members).length ≤ 1 := by
  have hAll : fieldNames.Forall fun name => (valuesOf name members).length ≤ 1 :=
    ⟨h.id.length_le, h.trigger.length_le, h.template.length_le, h.language.length_le,
      h.isUserDefined.length_le, h.isEnabled.length_le, h.createdAt.length_le⟩
  exact List.forall_iff_forall_mem.mp hAll

theorem Describes.null_not_mem (h : Describes members s) :
    ∀ name ∈ fieldNames, Tree.null ∉ valuesOf name members := by
  have hAll : fieldNames.Forall fun name => Tree.null ∉ valuesOf name members :=
    ⟨h.id.not_mem rfl, h.trigger.not_mem rfl, h.template.not_mem rfl, h.language.not_mem rfl,
      h.isUserDefined.not_mem rfl, h.isEnabled.not_mem rfl, h.createdAt.not_mem rfl⟩
  exact List.forall_iff_forall_mem.mp hAll

theorem Spoilt.not_describes (h : Spoilt members) (s : Snippet) : ¬ Describes members s := by
  intro hDescribes
  cases h with
  | lacks hRequired h => exact hDescribes.valuesOf_ne_nil _ hRequired h
  | repeats hKnown h =>
    have hOnce := hDescribes.length_le _ hKnown
    omega
  | isNull hKnown h => exact hDescribes.null_not_mem _ hKnown h

theorem forall_mem_fieldNames : fieldNames.Forall (· ∈ fieldNames) :=
  List.forall_iff_forall_mem.mpr fun _ h => h

theorem describes_of_ofTree? (h : ofTree? (.object members) = some s) :
    Describes members s := by
  obtain ⟨f, hFields, h⟩ := Option.bind_eq_some_iff.mp h
  obtain ⟨_, hId, h⟩ := Option.bind_eq_some_iff.mp h
  obtain ⟨_, hTrigger, h⟩ := Option.bind_eq_some_iff.mp h
  obtain ⟨_, hTemplate, h⟩ := Option.bind_eq_some_iff.mp h
  obtain ⟨_, hLanguage, h⟩ := Option.bind_eq_some_iff.mp h
  obtain ⟨_, hUser, h⟩ := Option.bind_eq_some_iff.mp h
  obtain ⟨_, hEnabled, h⟩ := Option.bind_eq_some_iff.mp h
  obtain ⟨_, hCreated, h⟩ := Option.bind_eq_some_iff.mp h
  cases h
  have hReads := reads_of_fields? hFields
  obtain ⟨k₁, k₂, k₃, k₄, k₅, k₆, k₇⟩ := forall_mem_fieldNames
  exact
    { named := named_of_fields? hFields
      id := (hReads.required_eq_some_iff k₁).mp hId
      trigger := (hReads.required_eq_some_iff k₂).mp hTrigger
      template := (hReads.required_eq_some_iff k₃).mp hTemplate
      language := (hReads.required_eq_some_iff k₄).mp hLanguage
      isUserDefined := (hReads.withDefault_eq_some_iff k₅).mp hUser
      isEnabled := (hReads.withDefault_eq_some_iff k₆).mp hEnabled
      createdAt := (hReads.withDefault_eq_some_iff k₇).mp hCreated }

theorem Describes.ofTree?_eq (h : Describes members s) :
    ofTree? (.object members) = some s := by
  obtain ⟨f, hFields⟩ := exists_fields? h.named h.length_le
  have hReads := reads_of_fields? hFields
  obtain ⟨k₁, k₂, k₃, k₄, k₅, k₆, k₇⟩ := forall_mem_fieldNames
  have hId := (hReads.required_eq_some_iff k₁).mpr h.id
  have hTrigger := (hReads.required_eq_some_iff k₂).mpr h.trigger
  have hTemplate := (hReads.required_eq_some_iff k₃).mpr h.template
  have hLanguage := (hReads.required_eq_some_iff k₄).mpr h.language
  have hUser := (hReads.withDefault_eq_some_iff k₅).mpr h.isUserDefined
  have hEnabled := (hReads.withDefault_eq_some_iff k₆).mpr h.isEnabled
  have hCreated := (hReads.withDefault_eq_some_iff k₇).mpr h.createdAt
  simp only [ofTree?, hFields, hId, hTrigger, hTemplate, hLanguage, hUser, hEnabled, hCreated,
    Option.bind_eq_bind, Option.bind_some, Option.pure_def]

theorem ofTree?_object_eq_some_iff :
    ofTree? (.object members) = some s ↔ Describes members s :=
  ⟨describes_of_ofTree?, Describes.ofTree?_eq⟩

theorem listOfTree?_objects_eq_some_iff {objects : List (List (List StringUnit × Tree))}
    {l : List Snippet} :
    listOfTree? (.array (objects.map .object)) = some l ↔ List.Forall₂ Describes objects l := by
  rw [listOfTree?, listOf?, items?, Option.bind_some, mapM_eq_some_iff, List.forall₂_map_left_iff]
  simp only [ofTree?_object_eq_some_iff]

theorem listOfTree?_eq_none_of_spoilt {items : List Tree} (hMem : .object members ∈ items)
    (h : Spoilt members) : listOfTree? (.array items) = none := by
  rw [Option.eq_none_iff_forall_ne_some]
  intro l hList
  obtain ⟨s, hs⟩ := exists_mapM_iff.mp ⟨l, hList⟩ _ hMem
  exact h.not_describes s (describes_of_ofTree? hs)

end Snippet

theorem Json.Spells.bracket_mem {ts : List Token} {s : List Char} (h : Spells ts s)
    (hMem : .openArray ∈ ts) : '[' ∈ s := by
  induction h with
  | nil => cases hMem
  | space _ _ ih => exact List.mem_cons_of_mem _ (ih hMem)
  | token ht _ ih =>
    rcases List.mem_cons.mp hMem with rfl | hMem
    · cases ht
      exact List.mem_cons_self
    · exact List.mem_append_right _ (ih hMem)

theorem SnippetFile.ofText_of_spells {items : List Tree} {text : String}
    (h : Spells (Tree.array items).tokens text.toList) :
    ofText text =
      match Snippet.listOfTree? (.array items) with
      | some l => .ok l
      | none => .error (.unreadable "not a list of snippets") := by
  have hSolid : Text.trim text.toList ≠ [] := by
    rw [Ne, Text.trim_eq_nil_iff]
    intro hBlank
    have hBracket : '[' ∈ text.toList := by
      apply h.bracket_mem
      cases items <;> simp [tokens]
    exact absurd (hBlank '[' hBracket) (by decide)
  have hList : Snippet.listOfText? text = Snippet.listOfTree? (.array items) := by
    rw [Snippet.listOfText?, parse?_eq_some_iff.mpr h, Option.bind_some]
  cases hItems : Snippet.listOfTree? (.array items) with
  | none => simp only [ofText, if_neg hSolid, hList, hItems]
  | some l => simp only [ofText, if_neg hSolid, hList, hItems]

namespace Catalogue

/-- Loading a file with an array of objects succeeds exactly with the snippets that they describe,
in their order. A file with a spoilt object in its array is refused and leaves all as it was. -/
theorem load_of_objects {c : Catalogue SnippetFile} {text : String}
    (hFile : c.archive.files.readText c.archive.path = .ok text) :
    (∀ objects, Spells (Tree.array (objects.map .object)).tokens text.toList →
      ∀ l, c.load = (.ok (), { c with snippets := l }) ↔
        List.Forall₂ Snippet.Describes objects l) ∧
    ∀ items members, Spells (Tree.array items).tokens text.toList → .object members ∈ items →
      Snippet.Spoilt members → ∃ detail, c.load = (.error (.unreadable detail), c) := by
  have hLoad : Archive.load c.archive = SnippetFile.ofText text := by
    show SnippetFile.load c.archive = _
    rw [SnippetFile.load, if_pos (Files.holds_of_readText hFile), hFile]
  constructor
  · intro objects hText l
    rw [← Snippet.listOfTree?_objects_eq_some_iff, load, hLoad, SnippetFile.ofText_of_spells hText]
    cases Snippet.listOfTree? (.array (objects.map .object)) with
    | none => simp
    | some l' => simp
  · intro items members hText hMem hSpoilt
    refine ⟨"not a list of snippets", ?_⟩
    rw [load, hLoad, SnippetFile.ofText_of_spells hText,
      Snippet.listOfTree?_eq_none_of_spoilt hMem hSpoilt]

/-- The members are in another order, with an escape in a name and a field of another program. In
the damaged file a name comes twice, the second time spelled with an escape. -/
theorem load_of_objects_newer :
    let text := "[ \x7b\"x\" : [1.50e+3, \x7b\"id\":null\x7d, \"\\ud800\"],\n\t" ++
      "\"l\\u0061nguage\":\"js\", \"isEnabled\":false, \"trigger\":\"fn\", " ++
      "\"id\":\"1\", \"template\":\"\\/\"\x7d]\r\n"
    let damaged := "[7,\x7b\"id\":\"1\",\"trigger\":\"a\",\"template\":\"b\"," ++
      "\"language\":\"c\",\"\\u0069d\":\"1\"\x7d]"
    let old : Snippet := ⟨"old", "LOG", "c", "js", true, true, ""⟩
    let catalogue (s : String) : Catalogue SnippetFile :=
      ⟨[old], ⟨.ofString "/s", (Files.startingAt []).put ["s".toList] (.file (.text s))⟩,
        ⟨fun _ => "x", 0, ""⟩⟩
    let l : List Snippet := [⟨"1", "fn", "/", "js", true, false, ""⟩]
    (catalogue text).load = (.ok (), { catalogue text with snippets := l }) ∧
      ∃ detail, (catalogue damaged).load = (.error (.unreadable detail), catalogue damaged) := by
  intro text damaged old catalogue l
  let named (members : List (String × Tree)) : List (List StringUnit × Tree) :=
    members.map fun m => (StringUnit.ofText m.1.toList, m.2)
  let foreign : Tree := .array
    [.number ⟨false, ['1'], ['5', '0'], some 3⟩, .object (named [("id", .null)]),
      .string [.half 0xd800]]
  let good := named [("x", foreign), ("language", .ofString "js"), ("isEnabled", .bool false),
    ("trigger", .ofString "fn"), ("id", .ofString "1"), ("template", .ofString "/")]
  let spoilt := named [("id", .ofString "1"), ("trigger", .ofString "a"),
    ("template", .ofString "b"), ("language", .ofString "c"), ("id", .ofString "1")]
  have hText : (catalogue text).archive.files.readText (catalogue text).archive.path =
      .ok text := rfl
  have hDamaged : (catalogue damaged).archive.files.readText (catalogue damaged).archive.path =
      .ok damaged := rfl
  have hSpells : Spells (Tree.array ([good].map .object)).tokens text.toList :=
    spells_of_lex (by decide +kernel)
  have hSpellsDamaged : Spells (Tree.array [.number (.ofNat 7), .object spoilt]).tokens
      damaged.toList := spells_of_lex (by decide +kernel)
  have hGood : List.Forall₂ Snippet.Describes [good] l :=
    .cons (Snippet.describes_of_ofTree? (by decide +kernel)) .nil
  have hSpoilt : Snippet.Spoilt spoilt :=
    .repeats (show "id" ∈ Snippet.fieldNames by decide) (by decide)
  exact ⟨((load_of_objects hText).1 [good] hSpells l).mpr hGood,
    (load_of_objects hDamaged).2 _ spoilt hSpellsDamaged (by simp) hSpoilt⟩

end Catalogue

end Shorthand
