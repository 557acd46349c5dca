import Shorthand.Proofs.Catalogue.WellKept
import Shorthand.Proofs.Records

/-! # Export and import

What one catalogue exports another one imports: each snippet is added unless its trigger is taken
there, and none of them stands in the way of another one behind it.
-/
namespace Shorthand

open Json Json.Tree Text

namespace Snippet.Portable

theorem isPlain_tokens (p : Portable) : p.toTree.tokens.all Token.isPlain = true := by
  simp [toTree, record, tokens, memberTokens, ofString, Token.isPlain, StringUnit.text?_ofText]

theorem nesting_toTree (p : Portable) : p.toTree.nesting = 1 := by
  simp [toTree, record, nesting, memberNesting, ofString]

theorem isPlain_itemTokens (l : List Portable) :
    (itemTokens (l.map toTree)).all Token.isPlain = true := by
  induction l with
  | nil => rfl
  | cons p l ih => simp [itemTokens, isPlain_tokens, ih, Token.isPlain]

theorem parseValue?_listToText (l : List Portable) :
    parseValue? (listToText l).toList = some (array (l.map toTree)) := by
  have hWritten : Written (array (l.map toTree)) := .ofList written_toTree l
  have hPlain : (array (l.map toTree)).tokens.all Token.isPlain = true := by
    cases l with
    | nil => rfl
    | cons p l => simp [tokens, isPlain_tokens, isPlain_itemTokens, Token.isPlain]
  have hNesting : itemNesting (l.map toTree) ≤ 1 := by
    apply itemNesting_le
    intro t ht
    obtain ⟨p, _, rfl⟩ := List.mem_map.mp ht
    exact Nat.le_of_eq p.nesting_toTree
  refine parseValue?_eq_some_iff.mpr ⟨hWritten.spells_pretty, List.all_eq_true.mp hPlain, ?_⟩
  rw [nesting, deepestNesting]
  omega

theorem candidate?_toTree {p : Portable} (hTrigger : p.trigger ≠ "") (hTemplate : p.template ≠ "")
    (hLanguage : p.language ≠ "") : candidate? p.toTree = some p := by
  simp [candidate?, filledMember?, toTree, record, member?, StringUnit.text?_ofText,
    asString?_ofString, hTrigger, hTemplate, hLanguage, Option.filter]

end Snippet.Portable

namespace Catalogue

variable {α : Type}

theorem export?_of_isUserDefined {c : Catalogue α} (h : ∀ s ∈ c.snippets, s.isUserDefined = true) :
    c.export? =
      if c.snippets = [] then none
      else some (Snippet.Portable.listToText (c.snippets.map Snippet.portable)) := by
  rw [export?, List.filter_eq_self.mpr h]
  cases c.snippets <;> simp

def minted (supply : Supply) : List Snippet → List Snippet
  | [] => []
  | s :: rest =>
    { s with
      id := supply.id supply.issued, isUserDefined := true, isEnabled := true
      createdAt := supply.now } :: minted supply.next rest

theorem map_portable_minted (supply : Supply) (l : List Snippet) :
    (minted supply l).map Snippet.portable = l.map Snippet.portable := by
  induction l generalizing supply with
  | nil => rfl
  | cons s l ih => rw [minted, List.map_cons, List.map_cons, ih]; rfl

def isFree (c : Catalogue α) (s : Snippet) : Bool := !c.isTaken s.trigger s.language none

theorem isFree_of_append {c d : Catalogue α} {l : List Snippet} {t : Snippet}
    (h : d.snippets = c.snippets ++ l) (ht : t.Tidy) (hApart : ∀ s ∈ l, ¬ s.Clashes t) :
    d.isFree t = c.isFree t := by
  have hNone : (l.any fun s =>
      s.language = t.language && lowered s.trigger = lowered (trimmed t.trigger) &&
        some s.id ≠ none) = false := by
    rw [ht.isTrimmed.trimmed_eq, List.any_eq_false]
    intro s hs
    have hClash := hApart s hs
    rw [Snippet.Clashes] at hClash
    simpa using hClash
  rw [isFree, isFree, isTaken, h, List.any_append, hNone, Bool.or_false]
  rfl

section Import

variable [LawfulArchive α]

omit [LawfulArchive α] in
theorem minted_singleton (c : Catalogue α) {s : Snippet} (hs : s.Tidy) :
    minted c.supply [s] = [c.newSnippet s.trigger s.template s.language] := by
  rw [newSnippet, hs.isTrimmed.trimmed_eq]
  rfl

theorem importItem_portable (c : Catalogue α) (tally : ImportTally) {s : Snippet} (hs : s.Tidy) :
    (c.isFree s = false ∧
      ∃ reason, importItem (tally, c) s.portable.toTree = (tally.skip reason, c)) ∨
    (c.isFree s = true ∧
      ∃ refusal d, importItem (tally, c) s.portable.toTree = (tally.take refusal, d) ∧
        d.snippets = c.snippets ++ minted c.supply [s] ∧ d.supply = c.supply.next) := by
  have hTrimmed : trimmed s.trigger = s.trigger := hs.isTrimmed.trimmed_eq
  have hCandidate : candidate? s.portable.toTree = some s.portable :=
    Snippet.Portable.candidate?_toTree hs.trigger_ne hs.template_ne hs.language_ne
  simp only [importItem, hCandidate]
  rcases c.add_cases s.trigger s.template s.language with
    ⟨hEmpty, _⟩ | ⟨_, hTaken, hAdd⟩ | ⟨_, hTaken, hAdd⟩
  · rw [hTrimmed] at hEmpty
    rcases hEmpty with h | h | h
    · exact absurd h hs.trigger_ne
    · exact absurd h hs.template_ne
    · exact absurd h hs.language_ne
  · rw [hTrimmed] at hTaken hAdd
    refine .inl ⟨by rw [isFree, hTaken]; rfl, .taken s.trigger s.language, ?_⟩
    simp only [Snippet.portable, hAdd]
  · rw [hTrimmed] at hTaken
    refine .inr ⟨by rw [isFree, hTaken]; rfl, ?_⟩
    rw [minted_singleton c hs]
    obtain ⟨archive, hSave | ⟨detail, hSave⟩⟩ := saving_eq
      { c with
        snippets := c.snippets ++ [c.newSnippet s.trigger s.template s.language]
        supply := c.supply.next } (c.newSnippet s.trigger s.template s.language)
    · refine ⟨none, ⟨_, archive, c.supply.next⟩, ?_, rfl, rfl⟩
      simp only [Snippet.portable, hAdd.trans hSave]
    · refine ⟨some (.unsaved detail), ⟨_, archive, c.supply.next⟩, ?_, rfl, rfl⟩
      simp only [Snippet.portable, hAdd.trans hSave]

theorem foldl_importItem_portable (l : List Snippet) (c : Catalogue α) (tally : ImportTally)
    (hTidy : ∀ s ∈ l, s.Tidy) (hTriggers : l.Pairwise fun s t => ¬ s.Clashes t) :
    let after := (l.map fun s => s.portable.toTree).foldl importItem (tally, c)
    after.2.snippets = c.snippets ++ minted c.supply (l.filter c.isFree) ∧
      after.1.imported = tally.imported + (l.filter c.isFree).length ∧
      after.1.skipped = tally.skipped + (l.filter fun s => !c.isFree s).length := by
  induction l generalizing c tally with
  | nil => simp [minted]
  | cons s l ih =>
    have hRest : ∀ t ∈ l, t.Tidy := fun t ht => hTidy t (List.mem_cons_of_mem _ ht)
    obtain ⟨hFirst, hTriggers⟩ := List.pairwise_cons.mp hTriggers
    rcases importItem_portable c tally (hTidy s List.mem_cons_self) with
      ⟨hTaken, reason, hItem⟩ | ⟨hFree, refusal, d, hItem, hSnippets, hSupply⟩
    · obtain ⟨hList, hImported, hSkipped⟩ := ih c (tally.skip reason) hRest hTriggers
      have hOne : (tally.skip reason).skipped = tally.skipped + 1 := rfl
      rw [List.map_cons, List.foldl_cons, hItem]
      refine ⟨?_, ?_, ?_⟩
      · rw [hList, List.filter_cons_of_neg (by simp [hTaken])]
      · rw [hImported, List.filter_cons_of_neg (by simp [hTaken])]
        rfl
      · rw [hSkipped, List.filter_cons_of_pos (by simp [hTaken]), List.length_cons, hOne]
        omega
    · obtain ⟨hList, hImported, hSkipped⟩ := ih d (tally.take refusal) hRest hTriggers
      have hOne : (tally.take refusal).imported = tally.imported + 1 := rfl
      -- No snippet of the list clashes with the one just added, so the rest is as free as before.
      have hSame : ∀ t ∈ l, d.isFree t = c.isFree t := by
        intro t ht
        refine isFree_of_append hSnippets (hRest t ht) ?_
        intro u hu
        rw [List.mem_singleton.mp hu]
        exact hFirst t ht
      have hSkip : (l.filter fun t => !d.isFree t) = l.filter fun t => !c.isFree t :=
        List.filter_congr fun t ht => congrArg (!·) (hSame t ht)
      rw [List.filter_congr hSame] at hList hImported
      rw [hSkip] at hSkipped
      rw [List.map_cons, List.foldl_cons, hItem]
      refine ⟨?_, ?_, ?_⟩
      · rw [hList, hSnippets, hSupply, List.filter_cons_of_pos hFree, List.append_assoc]
        rfl
      · rw [hImported, List.filter_cons_of_pos hFree, List.length_cons, hOne]
        omega
      · rw [hSkipped, List.filter_cons_of_neg (by simp [hFree])]
        rfl

theorem importText_listToText (c : Catalogue α) (l : List Snippet) :
    c.importText (Snippet.Portable.listToText (l.map Snippet.portable)) =
      let after := (l.map fun s => s.portable.toTree).foldl importItem (.start, c)
      (.ok after.1, after.2) := by
  rw [importText, Snippet.Portable.parseValue?_listToText, List.map_map]
  rfl

omit [LawfulArchive α] in
theorem isFree_of_mem {c : Catalogue α} {s : Snippet} (hs : s ∈ c.snippets) (hTidy : s.Tidy) :
    c.isFree s = false := by
  rw [isFree, isTaken, hTidy.isTrimmed.trimmed_eq, Bool.not_eq_false', List.any_eq_true]
  exact ⟨s, hs, by simp⟩

omit [LawfulArchive α] in
theorem isFree_of_nil {c : Catalogue α} (h : c.snippets = []) (s : Snippet) :
    c.isFree s = true := by
  rw [isFree, isTaken, h]
  rfl

end Import

section Merge

variable {α β : Type} [LawfulArchive α] [LawfulArchive β]

/-- What a catalogue that began empty exports, another one imports: it keeps its own list and adds,
in order and as new snippets, those whose trigger is not taken. -/
theorem importText_export (archive : α) (supply : Supply)
    (hEmpty : LawfulArchive.record archive = []) (hIds : supply.Distinct) (calls : List Call)
    (b : Catalogue β) :
    let a := (new archive supply).run calls
    (a.snippets = [] → a.export? = none) ∧
    (a.snippets ≠ [] → ∃ text, a.export? = some text ∧
      (∃ tally, (b.importText text).1 = .ok tally ∧
        tally.imported + tally.skipped = a.snippets.length ∧
        tally.imported = (a.snippets.filter b.isFree).length) ∧
      (b.importText text).2.snippets = b.snippets ++ minted b.supply (a.snippets.filter b.isFree) ∧
      (b.snippets = [] →
        (b.importText text).2.snippets.map Snippet.portable = a.snippets.map Snippet.portable ∧
        ∃ tally, (b.importText text).1 = .ok tally ∧ tally.skipped = 0) ∧
      (a.importText text).2.snippets = a.snippets) := by
  intro a
  have hKept : a.Kept := (Kept.new hEmpty hIds).run calls
  obtain ⟨_, hTriggers, hTidy⟩ := hKept.listed
  have hExport := export?_of_isUserDefined (c := a) fun s hs => (hTidy s hs).isUserDefined
  refine ⟨fun hNil => by rw [hExport, if_pos hNil], fun hSome => ?_⟩
  rw [if_neg hSome] at hExport
  refine ⟨_, hExport, ?_⟩
  obtain ⟨hList, hImported, hSkipped⟩ :=
    foldl_importItem_portable a.snippets b .start hTidy hTriggers
  obtain ⟨hOwn, _⟩ := foldl_importItem_portable a.snippets a .start hTidy hTriggers
  have hNone : a.snippets.filter a.isFree = [] := by
    rw [List.filter_eq_nil_iff]
    intro s hs
    rw [isFree_of_mem hs (hTidy s hs)]
    exact Bool.false_ne_true
  rw [importText_listToText, importText_listToText]
  have hSplit : (a.snippets.filter b.isFree).length +
      (a.snippets.filter fun s => !b.isFree s).length = a.snippets.length :=
    (a.snippets.length_eq_length_filter_add b.isFree).symm
  have hStart : ImportTally.start.imported = 0 ∧ ImportTally.start.skipped = 0 := ⟨rfl, rfl⟩
  refine ⟨⟨_, rfl, by omega, by omega⟩, hList, ?_, ?_⟩
  · intro hNil
    have hAll : a.snippets.filter b.isFree = a.snippets :=
      List.filter_eq_self.mpr fun s _ => isFree_of_nil hNil s
    refine ⟨?_, _, rfl, ?_⟩
    · rw [hList, hNil, List.nil_append, hAll, map_portable_minted]
    · rw [hAll] at hSplit
      omega
  · rw [hNone] at hOwn
    exact hOwn.trans (List.append_nil _)

/-- One of two triggers is taken where the text is imported, in other letters. -/
theorem importText_export_overlap :
    let m : Memory := .empty
    let supply : Supply := ⟨fun n => String.ofList (List.replicate n 'x'), 0, ""⟩
    let calls : List Call := [⟨.add " log " "a\"" "js", "1"⟩, ⟨.add "fn" "b\n" "js", "2"⟩]
    let a := (new m supply).run calls
    let b := ((new m supply).add "LOG" "c" "js").2
    LawfulArchive.record m = [] ∧ supply.Distinct ∧ a.snippets ≠ [] ∧
      ∃ text, a.export? = some text ∧
        (b.importText text).2.snippets.map Snippet.portable =
          [⟨"LOG", "c", "js"⟩, ⟨"fn", "b\n", "js"⟩] ∧
        (∃ tally, (b.importText text).1 = .ok tally ∧ tally.imported = 1) ∧
        (a.importText text).2.snippets = a.snippets := by
  intro m supply calls a b
  have hIds : supply.Distinct := Supply.distinct_replicate 'x' 0 ""
  have hSome : a.snippets ≠ [] := by decide
  obtain ⟨text, hExport, ⟨tally, hTally, _, hImported⟩, hList, _, hOwn⟩ :=
    (importText_export m supply rfl hIds calls b).2 hSome
  have hFree : (a.snippets.filter b.isFree).map Snippet.portable = [⟨"fn", "b\n", "js"⟩] := by
    decide
  refine ⟨rfl, hIds, hSome, text, hExport, ?_, ⟨tally, hTally, ?_⟩, hOwn⟩
  · rw [hList, List.map_append, map_portable_minted, hFree]
    rfl
  · rw [hImported, ← List.length_map Snippet.portable, hFree]
    rfl

end Merge

end Catalogue

end Shorthand
