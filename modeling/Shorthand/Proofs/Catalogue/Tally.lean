import Shorthand.Proofs.Catalogue.Durable
import Shorthand.Proofs.Catalogue.File

/-! # What imports count and what they save

Only an operation that succeeds saves a list. An import counts what it puts behind the list, saved
or not, and so it has counted whatever it saved.
-/
namespace Shorthand

theorem SnippetFile.refusesAsUnsaved : Archive.RefusesAsUnsaved SnippetFile :=
  fun l f => (save_cases l f).2

namespace Catalogue

variable {α : Type} [Archive α]

theorem saved?_of_error {c : Catalogue α} {op : Operation} {e : CatalogueError}
    (h : c.answer op = .error e) : c.saved? op = none := by
  rw [saved?, h]
  cases op.savesOnce <;> rfl

theorem saved?_of_ok {c : Catalogue α} {op : Operation} (hOnce : op.savesOnce = true)
    (h : c.answer op = .ok ()) : c.saved? op = some (c.perform op).snippets := by
  rw [saved?, hOnce, h]

theorem additions_of_refused {c d : Catalogue α} {raw : String} {e : CatalogueError}
    (h : c.importText raw = (.error e, d)) : additions raw = [] := by
  rw [importText] at h
  rw [additions]
  split at h
  next hParse =>
    rw [hParse]
    rfl
  next t hParse =>
    rw [hParse, Option.bind_some]
    split at h
    next hItems =>
      rw [hItems]
      rfl
    next => cases h

theorem answer_of_saved {c : Catalogue α} {op : Operation} (h : c.savedByParts op.parts ≠ []) :
    c.answer op = .ok () := by
  cases hAnswer : c.answer op with
  | ok _ => rfl
  | error e =>
    have hNone := saved?_of_error hAnswer
    cases op with
    | importText raw =>
      rw [answer] at hAnswer
      cases hImport : c.importText raw with
      | mk result d =>
        rw [hImport] at hAnswer
        cases result with
        | ok tally => cases hAnswer
        | error e' =>
          rw [Operation.parts, additions_of_refused hImport] at h
          exact absurd rfl h
    | _ => exact absurd (congrArg (fun saved => saved.toList ++ []) hNone) h

theorem add_appends (hArchive : Archive.RefusesAsUnsaved α) (c : Catalogue α)
    (trigger template language : String) :
    (∃ e, (∀ detail, e ≠ .unsaved detail) ∧ c.add trigger template language = (.error e, c)) ∨
    ∃ s d, d.snippets = c.snippets ++ [s] ∧ (c.add trigger template language = (.ok s, d) ∨
      ∃ detail, c.add trigger template language = (.error (.unsaved detail), d)) := by
  obtain ⟨_, hAdd⟩ | ⟨_, _, hAdd⟩ | ⟨_, _, hAdd⟩ := c.add_cases trigger template language
  · exact .inl ⟨_, by simp, hAdd⟩
  · exact .inl ⟨_, by simp, hAdd⟩
  · refine .inr ⟨c.newSnippet trigger template language, (c.add trigger template language).2,
      ?_, ?_⟩
    · rw [hAdd]
      rfl
    · rw [hAdd]
      obtain hOk | ⟨detail, hUnsaved⟩ :=
        answer_saving hArchive _ (c.newSnippet trigger template language)
      · exact .inl (Prod.ext hOk rfl)
      · exact .inr ⟨detail, Prod.ext hUnsaved rfl⟩

theorem importItem_cases (hArchive : Archive.RefusesAsUnsaved α) (tally : ImportTally)
    (c : Catalogue α) (item : Json.Tree) :
    (∃ reason, importItem (tally, c) item = (tally.skip reason, c) ∧
      ∀ p, candidate? item = some p →
        ∃ e, c.add p.trigger p.template p.language = (.error e, c)) ∨
    ∃ s d refusal, d.snippets = c.snippets ++ [s] ∧
      importItem (tally, c) item = (tally.take refusal, d) := by
  cases hItem : candidate? item with
  | none =>
    refine .inl ⟨.incomplete "invalid snippet object", ?_, by simp⟩
    simp only [importItem, hItem]
  | some p =>
    obtain ⟨e, hOther, hAdd⟩ | ⟨s, d, hSnippets, hAdd | ⟨detail, hAdd⟩⟩ :=
      add_appends hArchive c p.trigger p.template p.language
    · refine .inl ⟨e, ?_, ?_⟩
      · cases e with
        | unsaved detail => exact absurd rfl (hOther detail)
        | _ => simp only [importItem, hItem, hAdd]
      · rintro _ ⟨⟩
        exact ⟨e, hAdd⟩
    · refine .inr ⟨s, d, none, hSnippets, ?_⟩
      simp only [importItem, hItem, hAdd]
    · refine .inr ⟨s, d, some (.unsaved detail), hSnippets, ?_⟩
      simp only [importItem, hItem, hAdd]

theorem foldl_importItem_counts (hArchive : Archive.RefusesAsUnsaved α) (items : List Json.Tree)
    (tally : ImportTally) (c : Catalogue α) :
    ∃ added, (items.foldl importItem (tally, c)).2.snippets = c.snippets ++ added ∧
      (items.foldl importItem (tally, c)).1.imported = tally.imported + added.length := by
  induction items generalizing tally c with
  | nil => exact ⟨[], (List.append_nil _).symm, rfl⟩
  | cons item items ih =>
    rw [List.foldl_cons]
    obtain ⟨reason, hItem, _⟩ | ⟨s, d, refusal, hSnippets, hItem⟩ :=
      importItem_cases hArchive tally c item
    · rw [hItem]
      exact ih (tally.skip reason) c
    · rw [hItem]
      obtain ⟨added, hRest, hCount⟩ := ih (tally.take refusal) d
      refine ⟨s :: added, ?_, ?_⟩
      · rw [hRest, hSnippets, List.append_assoc, List.singleton_append]
      · have hTake : (tally.take refusal).imported = tally.imported + 1 := rfl
        rw [hCount, hTake, List.length_cons]
        omega

theorem exists_items_of_importText {c d : Catalogue α} {raw : String} {tally : ImportTally}
    (h : c.importText raw = (.ok tally, d)) :
    ∃ items : List Json.Tree, items.foldl importItem (.start, c) = (tally, d) ∧
      additions raw = items.filterMap candidate? := by
  rw [importText] at h
  split at h
  next => cases h
  next t hParse =>
    split at h
    next => cases h
    next items hItems =>
      cases h
      refine ⟨items, rfl, ?_⟩
      rw [additions, hParse, Option.bind_some, hItems, Option.getD_some]

theorem importText_counts (hArchive : Archive.RefusesAsUnsaved α) {c d : Catalogue α} {raw : String}
    {tally : ImportTally} (h : c.importText raw = (.ok tally, d)) :
    ∃ added, d.snippets = c.snippets ++ added ∧ tally.imported = added.length := by
  obtain ⟨items, hItems, _⟩ := exists_items_of_importText h
  obtain ⟨added, hSnippets, hCount⟩ := foldl_importItem_counts hArchive items .start c
  rw [hItems] at hSnippets hCount
  exact ⟨added, hSnippets, hCount.trans (Nat.zero_add _)⟩

theorem imported_lt_of_saved (hArchive : Archive.RefusesAsUnsaved α) (items : List Json.Tree)
    (tally : ImportTally) (c : Catalogue α)
    (h : c.savedByParts ((items.filterMap candidate?).map fun p =>
      .add p.trigger p.template p.language) ≠ []) :
    tally.imported < (items.foldl importItem (tally, c)).1.imported := by
  induction items generalizing tally c with
  | nil => exact absurd rfl h
  | cons item items ih =>
    rw [List.foldl_cons]
    obtain ⟨reason, hItem, hRefused⟩ | ⟨s, d, refusal, _, hItem⟩ :=
      importItem_cases hArchive tally c item
    · rw [hItem]
      apply ih (tally.skip reason) c
      cases hCandidate : candidate? item with
      | none => rwa [List.filterMap_cons_none hCandidate] at h
      | some p =>
        obtain ⟨e, hAdd⟩ := hRefused p hCandidate
        have hAnswer : c.answer (.add p.trigger p.template p.language) = .error e := by
          rw [answer, hAdd]
          rfl
        have hPerform : c.perform (.add p.trigger p.template p.language) = c := by
          rw [perform, hAdd]
        rwa [List.filterMap_cons_some hCandidate, List.map_cons, savedByParts, hPerform,
          saved?_of_error hAnswer] at h
    · obtain ⟨added, _, hCount⟩ := foldl_importItem_counts hArchive items (tally.take refusal) d
      have hTake : (tally.take refusal).imported = tally.imported + 1 := rfl
      rw [hItem, hCount, hTake]
      omega

theorem imported_pos_of_saved (hArchive : Archive.RefusesAsUnsaved α) {c d : Catalogue α}
    {raw : String} {tally : ImportTally} (h : c.importText raw = (.ok tally, d))
    (hSaved : c.savedByParts (Operation.importText raw).parts ≠ []) : 0 < tally.imported := by
  obtain ⟨items, hItems, hAdditions⟩ := exists_items_of_importText h
  rw [Operation.parts, hAdditions] at hSaved
  have hCounted := imported_lt_of_saved hArchive items .start c hSaved
  rwa [hItems] at hCounted

end Catalogue

end Shorthand
