import Shorthand.Proofs.Catalogue.Exchange
import Shorthand.Proofs.Catalogue.Verdict

/-! # What an import does

An import puts what it accepts behind the list and tells in its tally what it skipped. The elements
of a text that was imported are spent: another import of it takes nothing.
-/
namespace Shorthand

open Json Text

namespace Catalogue

section Import

variable {α : Type} [Archive α]

theorem importText_of_array {raw : String} {items : List Tree}
    (h : (Tree.array items).IsPlainText raw.toList) (c : Catalogue α) :
    c.importText raw =
      (.ok (items.foldl importItem (.start, c)).1, (items.foldl importItem (.start, c)).2) := by
  rw [importText, Tree.parseValue?_eq_some_iff.mpr h]
  rfl

theorem exists_array_of_importText {c : Catalogue α} {raw : String} {tally : ImportTally}
    (h : (c.importText raw).1 = .ok tally) :
    ∃ items, (Tree.array items).IsPlainText raw.toList := by
  rw [importText] at h
  cases hParse : Tree.parseValue? raw.toList with
  | none =>
    rw [hParse] at h
    cases h
  | some t =>
    rw [hParse] at h
    cases t with
    | array items => exact ⟨items, Tree.parseValue?_eq_some_iff.mp hParse⟩
    | _ => cases h

theorem held_importItem (tally : ImportTally) (c : Catalogue α) (item : Tree) :
    c.held ⊆ (importItem (tally, c) item).2.held ∧
      Spent (importItem (tally, c) item).2.held item := by
  obtain ⟨reason, hJudges, hSkip⟩ | ⟨q, hItem, hJudges, hAdd⟩ := c.importItem_judged item
  · rw [hSkip]
    exact ⟨List.Subset.refl _, spent_of_skipped hJudges⟩
  · have hHeld : (importItem (tally, c) item).2.held =
        c.held ++ [(c.newSnippet q.trigger q.template q.language).portable] := by
      rw [importItem_some tally c hItem, hAdd]
      exact List.map_append
    rw [hHeld]
    exact ⟨List.subset_append_left _ _, spent_of_accepted hJudges⟩

theorem spent_foldl_importItem (items : List Tree) (state : ImportTally × Catalogue α) :
    state.2.held ⊆ (items.foldl importItem state).2.held ∧
      ∀ item ∈ items, Spent (items.foldl importItem state).2.held item := by
  induction items generalizing state with
  | nil => exact ⟨List.Subset.refl _, by simp⟩
  | cons item items ih =>
    obtain ⟨hFirst, hItem⟩ := held_importItem state.1 state.2 item
    obtain ⟨hRest, hItems⟩ := ih (importItem state item)
    refine ⟨List.Subset.trans hFirst hRest, ?_⟩
    intro other hOther
    obtain rfl | hOther := List.mem_cons.mp hOther
    · exact hItem.mono hRest
    · exact hItems other hOther

theorem importItem_of_spent {c : Catalogue α} {item : Tree} (h : Spent c.held item)
    (tally : ImportTally) : ∃ reason, importItem (tally, c) item = (tally.skip reason, c) := by
  obtain ⟨reason, _, hSkip⟩ | ⟨_, _, ⟨hOffers, hFree⟩, _⟩ := c.importItem_judged item
  · exact ⟨reason, hSkip tally⟩
  · obtain ⟨q, hq, hClash⟩ := h _ hOffers
    exact absurd hClash (hFree q hq)

theorem foldl_importItem_of_spent {c : Catalogue α} {items : List Tree}
    (h : ∀ item ∈ items, Spent c.held item) (tally : ImportTally) :
    (items.foldl importItem (tally, c)).2 = c ∧
      (items.foldl importItem (tally, c)).1.imported = tally.imported ∧
      (items.foldl importItem (tally, c)).1.skipped = tally.skipped + items.length := by
  induction items generalizing tally with
  | nil => exact ⟨rfl, rfl, rfl⟩
  | cons item items ih =>
    obtain ⟨reason, hSkip⟩ := importItem_of_spent (h item List.mem_cons_self) tally
    obtain ⟨hSame, hImported, hSkipped⟩ :=
      ih (fun other hOther => h other (List.mem_cons_of_mem _ hOther)) (tally.skip reason)
    have hOne : (tally.skip reason).skipped = tally.skipped + 1 := rfl
    rw [List.foldl_cons, hSkip]
    refine ⟨hSame, hImported, ?_⟩
    rw [hSkipped, hOne, List.length_cons]
    omega

/-- A text that was imported has nothing more to give: another import skips all its elements and
changes nothing, whatever was in the list before and whichever saves are refused. -/
theorem importText_again (c : Catalogue α) (raw : String) (tally : ImportTally)
    (h : (c.importText raw).1 = .ok tally) (now : String) :
    let d := (c.importText raw).2.atTime now
    ∃ items again, (Tree.array items).IsPlainText raw.toList ∧
      d.importText raw = (.ok again, d) ∧ again.imported = 0 ∧ again.skipped = items.length := by
  intro d
  obtain ⟨items, hParse⟩ := exists_array_of_importText h
  have hSpent : ∀ item ∈ items, Spent d.held item := by
    have hImport : d.held = (items.foldl importItem (.start, c)).2.held := by
      rw [← congrArg Prod.snd (importText_of_array hParse c)]
      rfl
    rw [hImport]
    exact (spent_foldl_importItem items (.start, c)).2
  obtain ⟨hSame, hImported, hSkipped⟩ := foldl_importItem_of_spent hSpent .start
  refine ⟨items, (items.foldl importItem (.start, d)).1, hParse, ?_, hImported, ?_⟩
  · rw [importText_of_array hParse d, hSame]
  · rw [hSkipped]
    exact Nat.zero_add _

/-- The trigger that was there is not trimmed and stands in nobody's way, and no save succeeds. -/
theorem importText_again_unsaved :
    let old : Snippet := ⟨"old", " LOG ", "c", "js", true, true, ""⟩
    let m : Memory := ⟨[old], [some "full", some "full"], none, 0⟩
    let c : Catalogue Memory := ⟨[old], m, ⟨fun n => String.ofList (List.replicate n 'x'), 0, ""⟩⟩
    let raw := Snippet.Portable.listToText
      [⟨"log", "a", "js"⟩, ⟨" Log ", "b", "js"⟩, ⟨"fn", "d", "js"⟩]
    (c.importText raw).2.snippets.map Snippet.trigger = [" LOG ", "log", "fn"] ∧
      (c.importText raw).2.record = [old] ∧
      let d := (c.importText raw).2.atTime "later"
      ∃ again, d.importText raw = (.ok again, d) ∧ again.imported = 0 ∧ again.skipped = 3 := by
  intro old m c raw
  let items : List Tree := List.map Snippet.Portable.toTree
    [⟨"log", "a", "js"⟩, ⟨" Log ", "b", "js"⟩, ⟨"fn", "d", "js"⟩]
  have hParse : Tree.parseValue? raw.toList = some (.array items) :=
    Snippet.Portable.parseValue?_listToText _
  have hImport := importText_of_array (Tree.parseValue?_eq_some_iff.mp hParse) c
  have hList : (items.foldl importItem (.start, c)).2.snippets.map Snippet.trigger =
      [" LOG ", "log", "fn"] := by
    decide
  have hRecord : (items.foldl importItem (.start, c)).2.record = [old] := by
    decide
  obtain ⟨items', again, hItems, hAgain, hImported, hSkipped⟩ :=
    importText_again c raw _ (congrArg Prod.fst hImport) "later"
  obtain rfl : items = items' :=
    Tree.array.inj (Option.some.inj (hParse.symm.trans (Tree.parseValue?_eq_some_iff.mpr hItems)))
  rw [hImport] at hAgain ⊢
  generalize items.foldl importItem (.start, c) = after at hList hRecord hAgain ⊢
  exact ⟨hList, hRecord, again, hAgain, hImported, hSkipped⟩

end Import

section Lawful

variable {α : Type} [LawfulArchive α]

/-- The last save that succeeded, if any, was that of `front`. The refusal stands while something
of what was added is behind it. -/
def SavedUpTo (c : Catalogue α) (added : List Snippet) (refusal : Option CatalogueError)
    (record : List Snippet) : Prop :=
  ∃ front rest, added = front ++ rest ∧ (refusal = none ↔ rest = []) ∧
    record = if front = [] then c.record else c.snippets ++ front

/-- What an import has done so far, with one entry of the log for each element. -/
structure Sifted (c : Catalogue α) (log : List (Tree × Verdict)) (added : List Snippet)
    (tally : ImportTally) (d : Catalogue α) : Prop where
  judged : Judged c.held log
  snippets : d.snippets = c.snippets ++ added
  portable : added.map Snippet.portable = acceptedIn log
  new : ∀ s ∈ added, s.isUserDefined = true ∧ s.isEnabled = true ∧ s.createdAt = c.supply.now
  ids : added.map Snippet.id = (List.range' c.supply.issued added.length).map c.supply.id
  supply : d.supply = { c.supply with issued := c.supply.issued + added.length }
  imported : tally.imported = (acceptedIn log).length
  skipped : tally.skipped = (skippedIn log).length
  reasons : tally.reasons = skippedIn log
  refusal : ∀ e, tally.refusal = some e → ∃ detail, e = .unsaved detail
  saved : SavedUpTo c added tally.refusal d.record

theorem Sifted.start (c : Catalogue α) : Sifted c [] [] .start c where
  judged := .nil
  snippets := (List.append_nil _).symm
  portable := rfl
  new := by simp
  ids := rfl
  supply := rfl
  imported := rfl
  skipped := rfl
  reasons := rfl
  refusal := by simp [ImportTally.start]
  saved := ⟨[], [], rfl, by simp [ImportTally.start], rfl⟩

/-- A new snippet is put behind the others and saved with them, unless the save is refused. -/
structure Appends (c : Catalogue α) (s : Snippet) (refusal : Option CatalogueError)
    (d : Catalogue α) : Prop where
  new : ∃ trigger template language, s = c.newSnippet trigger template language
  snippets : d.snippets = c.snippets ++ [s]
  supply : d.supply = c.supply.next
  saved : refusal = none ∧ d.record = d.snippets ∨
    (∃ detail, refusal = some (.unsaved detail)) ∧ d.record = c.record

theorem importItem_sifts (c : Catalogue α) (item : Tree) :
    (∃ reason, Judges c.held item (.skipped reason) ∧
      ∀ tally, importItem (tally, c) item = (tally.skip reason, c)) ∨
    ∃ s refusal d, Judges c.held item (.accepted s.portable) ∧ c.Appends s refusal d ∧
      ∀ tally, importItem (tally, c) item = (tally.take refusal, d) := by
  refine (c.importItem_judged item).imp_right ?_
  rintro ⟨q, hItem, hJudges, hAdd⟩
  obtain ⟨hSnippets, hSupply, hSave⟩ := saving_cases
    { c with
      snippets := c.snippets ++ [c.newSnippet q.trigger q.template q.language]
      supply := c.supply.next } (c.newSnippet q.trigger q.template q.language)
  rw [← hAdd] at hSnippets hSupply hSave
  cases hOutcome : c.add q.trigger q.template q.language with
  | mk result d =>
    rw [hOutcome] at hSnippets hSupply hSave
    obtain ⟨rfl, hRecord⟩ | ⟨detail, rfl, hRecord⟩ := hSave
    · refine ⟨_, none, d, hJudges, ?_, ?_⟩
      · exact ⟨⟨_, _, _, rfl⟩, hSnippets, hSupply, .inl ⟨rfl, hRecord.trans hSnippets.symm⟩⟩
      · intro tally
        simp only [importItem, hItem, hOutcome]
    · refine ⟨_, some (.unsaved detail), d, hJudges, ?_, ?_⟩
      · exact ⟨⟨_, _, _, rfl⟩, hSnippets, hSupply, .inr ⟨⟨detail, rfl⟩, hRecord⟩⟩
      · intro tally
        simp only [importItem, hItem, hOutcome]

variable {c d : Catalogue α} {log : List (Tree × Verdict)} {added : List Snippet}
  {tally : ImportTally}

theorem Appends.refusal_unsaved {s : Snippet} {refusal : Option CatalogueError}
    (h : c.Appends s refusal d) {e : CatalogueError} (he : refusal = some e) :
    ∃ detail, e = .unsaved detail := by
  obtain ⟨hNone, _⟩ | ⟨⟨detail, hUnsaved⟩, _⟩ := h.saved
  · rw [hNone] at he
    cases he
  · rw [hUnsaved] at he
    exact ⟨detail, (Option.some.inj he).symm⟩

theorem SavedUpTo.concat {refusal : Option CatalogueError}
    (h : SavedUpTo c added refusal d.record) (hSnippets : d.snippets = c.snippets ++ added)
    {s : Snippet} {refusal' : Option CatalogueError} {d' : Catalogue α}
    (hAppends : d.Appends s refusal' d') : SavedUpTo c (added ++ [s]) refusal' d'.record := by
  obtain ⟨rfl, hRecord⟩ | ⟨⟨detail, rfl⟩, hRecord⟩ := hAppends.saved
  · refine ⟨added ++ [s], [], (List.append_nil _).symm, iff_of_true rfl rfl, ?_⟩
    rw [hRecord, hAppends.snippets, hSnippets, List.append_assoc, if_neg (by simp)]
  · obtain ⟨front, rest, hAdded, _, hFront⟩ := h
    refine ⟨front, rest ++ [s], ?_, iff_of_false (by simp) (by simp), hRecord.trans hFront⟩
    rw [hAdded, List.append_assoc]

theorem Sifted.held (h : Sifted c log added tally d) : d.held = c.held ++ acceptedIn log := by
  rw [Catalogue.held, h.snippets, List.map_append, h.portable]
  rfl

theorem Sifted.skip (h : Sifted c log added tally d) {item : Tree} {reason : CatalogueError}
    (hJudges : Judges d.held item (.skipped reason)) :
    Sifted c (log ++ [(item, .skipped reason)]) added (tally.skip reason) d := by
  have hAccepted : acceptedIn (log ++ [(item, .skipped reason)]) = acceptedIn log := by
    rw [acceptedIn_concat]
    exact List.append_nil _
  have hReasons : skippedIn (log ++ [(item, .skipped reason)]) = skippedIn log ++ [reason] :=
    skippedIn_concat _ _ _
  rw [h.held] at hJudges
  exact
    { h with
      judged := .concat h.judged hJudges
      portable := hAccepted ▸ h.portable
      imported := hAccepted ▸ h.imported
      skipped := by
        rw [hReasons, List.length_append, ← h.skipped]
        rfl
      reasons := by
        rw [hReasons, ← h.reasons]
        rfl }

theorem Sifted.take (h : Sifted c log added tally d) {item : Tree} {s : Snippet}
    {refusal : Option CatalogueError} {d' : Catalogue α}
    (hJudges : Judges d.held item (.accepted s.portable)) (hAppends : d.Appends s refusal d') :
    Sifted c (log ++ [(item, .accepted s.portable)]) (added ++ [s]) (tally.take refusal) d' := by
  have hAccepted :
      acceptedIn (log ++ [(item, .accepted s.portable)]) = acceptedIn log ++ [s.portable] :=
    acceptedIn_concat _ _ _
  have hReasons : skippedIn (log ++ [(item, .accepted s.portable)]) = skippedIn log := by
    rw [skippedIn_concat]
    exact List.append_nil _
  obtain ⟨_, _, _, hNew⟩ := hAppends.new
  rw [h.held] at hJudges
  exact
    { judged := .concat h.judged hJudges
      snippets := by rw [hAppends.snippets, h.snippets, List.append_assoc]
      portable := by
        rw [List.map_append, h.portable, hAccepted]
        rfl
      new := by
        intro t ht
        obtain ht | ht := List.mem_append.mp ht
        · exact h.new t ht
        · rw [List.mem_singleton.mp ht, hNew]
          exact ⟨rfl, rfl, by rw [newSnippet, h.supply]⟩
      ids := by
        have hId : s.id = c.supply.id (c.supply.issued + added.length) := by
          rw [hNew, newSnippet, h.supply]
        rw [List.map_append, h.ids, List.length_append, List.length_singleton, List.range'_concat,
          List.map_append, List.map_singleton, List.map_singleton, hId, Nat.one_mul]
      supply := by
        rw [hAppends.supply, h.supply, List.length_append]
        rfl
      imported := by
        rw [hAccepted, List.length_append, ← h.imported]
        rfl
      skipped := hReasons ▸ h.skipped
      reasons := hReasons ▸ h.reasons
      refusal := fun _ he => hAppends.refusal_unsaved he
      saved := h.saved.concat h.snippets hAppends }

theorem foldl_importItem_sifted (c : Catalogue α) (items : List Tree) :
    ∃ log added, log.map Prod.fst = items ∧
      Sifted c log added (items.foldl importItem (.start, c)).1
        (items.foldl importItem (.start, c)).2 := by
  induction items using List.reverseRecOn with
  | nil => exact ⟨[], [], rfl, .start c⟩
  | append_singleton items item ih =>
    obtain ⟨log, added, rfl, hSifted⟩ := ih
    rw [List.foldl_append]
    generalize ((log.map Prod.fst).foldl importItem (.start, c)) = state at hSifted ⊢
    obtain ⟨tally, d⟩ := state
    show ∃ log' added', log'.map Prod.fst = log.map Prod.fst ++ [item] ∧
      Sifted c log' added' (importItem (tally, d) item).1 (importItem (tally, d) item).2
    obtain ⟨reason, hJudges, hItem⟩ | ⟨s, refusal, d', hJudges, hAppends, hItem⟩ :=
      d.importItem_sifts item
    · rw [hItem]
      exact ⟨_, _, List.map_append, hSifted.skip hJudges⟩
    · rw [hItem]
      exact ⟨_, _, List.map_append, hSifted.take hJudges hAppends⟩

theorem Sifted.nodup (h : Sifted c log added tally d) : added.Nodup := by
  have hApart := h.judged.apart
  rw [← h.portable, List.pairwise_map] at hApart
  refine hApart.imp ?_
  rintro s _ hClash rfl
  exact hClash ⟨rfl, rfl⟩

theorem Sifted.refusal_eq_none_iff (h : Sifted c log added tally d)
    (hFresh : ∀ s ∈ added, ∀ t ∈ c.snippets ++ c.record, t.id ≠ s.id) :
    tally.refusal = none ↔ ∀ s ∈ added, s ∈ d.record := by
  obtain ⟨front, rest, hAdded, hRefusal, hRecord⟩ := h.saved
  have hNodup := h.nodup
  rw [hAdded] at hNodup hFresh ⊢
  rw [hRefusal, hRecord]
  constructor
  · rintro rfl s hs
    rw [List.append_nil] at hs
    rw [if_neg (List.ne_nil_of_mem hs)]
    exact List.mem_append_right _ hs
  · intro hAll
    refine List.eq_nil_iff_forall_not_mem.mpr ?_
    intro s hs
    -- What is behind `front` is no old snippet, and no other snippet has its trigger.
    have hOld : s ∉ c.snippets ++ c.record := by
      intro hMem
      exact hFresh s (List.mem_append_right _ hs) s hMem rfl
    have hFront : s ∉ front := by
      intro hMem
      exact (List.nodup_append.mp hNodup).2.2 s hMem s hs rfl
    have hMem := hAll s (List.mem_append_right _ hs)
    split at hMem
    · exact hOld (List.mem_append_right _ hMem)
    · obtain hMem | hMem := List.mem_append.mp hMem
      · exact hOld (List.mem_append_left _ hMem)
      · exact hFront hMem

/-- What an import does. A text that is no list is refused; of a list each element is accepted or
skipped for its reason, and what is accepted is put behind the list as new snippets. Either all of
them end up on record, or the tally tells that they did not. -/
theorem importText_sifts (c : Catalogue α) (raw : String) :
    ((∃ detail, (c.importText raw).1 = .error (.notImportable detail)) ↔
      ∀ items, ¬ (Tree.array items).IsPlainText raw.toList) ∧
    (∀ e, (c.importText raw).1 = .error e → (c.importText raw).2 = c) ∧
    ∀ items, (Tree.array items).IsPlainText raw.toList →
      ∃ tally log added, (c.importText raw).1 = .ok tally ∧ log.map Prod.fst = items ∧
        Sifted c log added tally (c.importText raw).2 ∧
        tally.imported + tally.skipped = items.length ∧
        ((∀ s ∈ added, ∀ t ∈ c.snippets ++ c.record, t.id ≠ s.id) →
          (tally.refusal = none ↔ ∀ s ∈ added, s ∈ (c.importText raw).2.record)) := by
  refine ⟨⟨?_, ?_⟩, ?_, ?_⟩
  · rintro ⟨detail, hRefused⟩ items hItems
    rw [importText_of_array hItems] at hRefused
    cases hRefused
  · intro hNone
    obtain ⟨detail, hRefused⟩ | ⟨tally, hTally⟩ := c.importText_cases raw
    · rw [hRefused]
      exact ⟨detail, rfl⟩
    · obtain ⟨items, hItems⟩ := exists_array_of_importText hTally
      exact absurd hItems (hNone items)
  · intro e he
    obtain ⟨detail, hRefused⟩ | ⟨tally, hTally⟩ := c.importText_cases raw
    · rw [hRefused]
    · rw [hTally] at he
      cases he
  · intro items hItems
    obtain ⟨log, added, hLog, hSifted⟩ := c.foldl_importItem_sifted items
    rw [importText_of_array hItems]
    refine ⟨_, log, added, rfl, hLog, hSifted, ?_, hSifted.refusal_eq_none_iff⟩
    rw [hSifted.imported, hSifted.skipped, length_acceptedIn_add_skippedIn, ← hLog,
      List.length_map]

/-- The save of the first element is refused, and that of the last one saves both. -/
theorem importText_sifts_caught_up :
    let old : Snippet := ⟨"old", "LOG", "c", "js", true, true, ""⟩
    let m : Memory := ⟨[old], [some "full"], none, 0⟩
    let c : Catalogue Memory := ⟨[old], m, ⟨fun n => String.ofList (List.replicate n 'x'), 0, ""⟩⟩
    let raw := Snippet.Portable.listToText
      [⟨" fn ", "a", "js"⟩, ⟨"log", "b", "js"⟩, ⟨" ", "d", "js"⟩, ⟨"FN", "e", "js"⟩,
        ⟨"FN", "f", "c"⟩]
    ∃ tally added, (c.importText raw).1 = .ok tally ∧
      (c.importText raw).2.snippets = c.snippets ++ added ∧
      added.map Snippet.portable = [⟨"fn", "a", "js"⟩, ⟨"FN", "f", "c"⟩] ∧
      tally.reasons = [.taken "log" "js",
        .incomplete "trigger, template and language are required", .taken "FN" "js"] ∧
      (∀ s ∈ added, ∀ t ∈ c.snippets ++ c.record, t.id ≠ s.id) ∧
      tally.refusal = none ∧ ∀ s ∈ added, s ∈ (c.importText raw).2.record := by
  intro old m c raw
  let items : List Tree := List.map Snippet.Portable.toTree
    [⟨" fn ", "a", "js"⟩, ⟨"log", "b", "js"⟩, ⟨" ", "d", "js"⟩, ⟨"FN", "e", "js"⟩, ⟨"FN", "f", "c"⟩]
  have hItems : (Tree.array items).IsPlainText raw.toList :=
    Tree.parseValue?_eq_some_iff.mp (Snippet.Portable.parseValue?_listToText _)
  have hList : (items.foldl importItem (.start, c)).2.snippets = c.snippets ++
      [⟨"", "fn", "a", "js", true, true, ""⟩, ⟨"x", "FN", "f", "c", true, true, ""⟩] := by
    decide
  have hReasons : (items.foldl importItem (.start, c)).1.reasons = [.taken "log" "js",
      .incomplete "trigger, template and language are required", .taken "FN" "js"] := by
    decide
  have hRefusal : (items.foldl importItem (.start, c)).1.refusal = none := by
    decide
  obtain ⟨tally, log, added, hTally, _, hSifted, _, hSaved⟩ :=
    (importText_sifts c raw).2.2 items hItems
  rw [importText_of_array hItems] at hTally hSifted hSaved ⊢
  generalize items.foldl importItem (.start, c) = after
    at hList hReasons hRefusal hTally hSifted hSaved ⊢
  obtain rfl := Except.ok.inj hTally
  have hAdded := List.append_cancel_left (hSifted.snippets.symm.trans hList)
  have hFresh : ∀ s ∈ added, ∀ t ∈ c.snippets ++ c.record, t.id ≠ s.id := by
    rw [hAdded]
    decide
  refine ⟨after.1, added, rfl, hSifted.snippets, ?_, hReasons,
    hFresh, hRefusal, (hSaved hFresh).mp hRefusal⟩
  rw [hAdded]
  rfl

end Lawful

end Catalogue

end Shorthand
