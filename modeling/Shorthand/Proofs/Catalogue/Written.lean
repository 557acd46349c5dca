import Shorthand.Proofs.Catalogue.Tally
import Shorthand.Proofs.Files.Footprint

/-! # What saves write

A save writes the draft and the snippet file, and makes the directories that hold them. When it is
refused the snippet file is as it was, unless its path leads to the draft.
-/
namespace Shorthand

open Files

namespace SnippetFile

variable {path : Path} {f g : Files} {p q : Place} {l : List Snippet}

def directories (path : Path) (f : Files) : List Place :=
  match path.parent? with
  | some d => (f.way true d).places
  | none => []

theorem directories_eq {ps : List Place} (hg : ChangedWithin ps f g)
    (hAvoids : ∀ r ∈ (f.way false path).links, r ∉ ps) :
    directories path g = directories path f := by
  rw [directories, directories]
  cases hParent : path.parent? with
  | none => rfl
  | some d =>
    rw [← links_parent hParent] at hAvoids
    dsimp only
    rw [hg.way_eq hAvoids]

theorem madeWithin_prepare (path : Path) (f : Files) :
    MadeWithin (directories path f) f (prepare path f).2 := by
  rw [prepare, directories]
  cases path.parent? with
  | none => exact .refl [] f
  | some d => exact f.madeWithin_makeDirectories d

/-- The path does not lead to its own draft. -/
def Apart (path : Path) (f : Files) : Prop :=
  ∀ p, f.spot? (draft path) = some p → f.goal? path ≠ some p

/-- A path that is no link is apart from its draft if the two names differ. -/
theorem apart_of_steps (hSteps : (draft path).steps ≠ path.steps)
    (hTarget : ∀ q, f.spot? path = some q → f.linkAt? q = none) : Apart path f := by
  intro p hDraft hGoal
  obtain ⟨q, hSpot⟩ := exists_spot_of_goal hGoal
  have hWay := way_whole_of_spot hSpot (hTarget q hSpot)
  rw [goal?, hWay] at hGoal
  cases hParent : path.parent? with
  | none =>
    rw [draft, (Path.steps_of_parent_none hParent).1] at hSteps
    exact hSteps rfl
  | some d =>
    obtain ⟨hPath, hAbsolute, s, t, hs, ht, hName⟩ := steps_draft hParent
    have hLast (r : Path) (s : Path.Step) (hr : r.absolute = path.absolute)
        (hSteps : r.steps = d.steps ++ [s]) (hSpot : (f.way false r).stop = some p) :
        ∃ place, (f.way true d).stop = some place ∧ p = place.after s := by
      have hOrigin : f.origin r = f.origin d := by rw [origin, origin, hPath, hr]
      rw [way, hOrigin, hSteps, route_append f (.inr (List.cons_ne_nil _ _)),
        Route.andThen] at hSpot
      split at hSpot
      next hNone => exact absurd (hNone.symm.trans hSpot) (by simp)
      next place hPlace =>
        simp only [route_last, Option.some.injEq] at hSpot
        exact ⟨place, hPlace, hSpot.symm⟩
    obtain ⟨place, hPlace, hp⟩ := hLast path s rfl hs hGoal
    obtain ⟨place', hPlace', hp'⟩ := hLast (draft path) t hAbsolute ht hDraft
    obtain rfl : place = place' := Option.some.inj (hPlace.symm.trans hPlace')
    rcases hName with rfl | ⟨name, rfl⟩
    · exact hSteps (ht.trans hs.symm)
    · rw [hp] at hp'
      cases t with
      | name other =>
        have hOther : other = name := by simpa [Place.after] using hp'.symm
        rw [hs, ht, hOther] at hSteps
        exact hSteps rfl
      | here => simp [Place.after] at hp'
      | up =>
        have hLength := congrArg List.length hp'
        simp only [Place.after, List.length_append, List.length_dropLast,
          List.length_cons] at hLength
        omega

theorem changedWithin_takenBack {c : Content} (h : f.Opens path p) :
    ChangedWithin [p] f ((f.put p (.file c)).remove p) := by
  have hEntry : (f.put p (.file c)).entryAt p ≠ some .directory := by
    rw [entryAt_put_opened h]
    simp
  exact (changedWithin_put h.entry _).trans (changedWithin_remove hEntry)

theorem Ready.madeWithin_moved (h : Ready path f p q) (l : List Snippet) :
    MadeWithin [] f (SnippetFile.moved f p q l) :=
  (f.madeWithin_put_file (ne_nil_of_entryAt h.draft.entry) _).trans (madeWithin_move _ p q _)

theorem save_refused {e : CatalogueError} (hPlain : Plain path f)
    (h : (save l ⟨path, f⟩).1 = .error e) :
    let after := (save l ⟨path, f⟩).2.files
    ChangedWithin (f.spot? (draft path)).toList f after ∧
      MadeWithin (directories path f) f after ∧ Plain path after := by
  intro after
  have hPrepared := changedWithin_prepare path f
  have hPlain' := hPlain.of_nil hPrepared
  have hMade := madeWithin_prepare path f
  have hDraft {p : Place} (hOpens : (prepare path f).2.Opens (draft path) p)
      (hChanged : ChangedWithin [p] (prepare path f).2 after)
      (hNone : MadeWithin [] (prepare path f).2 after)
      (hOpen : (prepare path f).2.isLocked p = false → after.isLocked p = false) :
      ChangedWithin (f.spot? (draft path)).toList f after ∧
        MadeWithin (directories path f) f after ∧ Plain path after := by
    have hSpot := (hPlain'.spot_of_opens hOpens).1
    have hUnlocked := hOpen (hPlain'.draft p hSpot).2
    rw [hPlain.spot?_draft_eq (hPrepared.mono (List.nil_subset _))] at hSpot
    have hAll := (hPrepared.mono (List.nil_subset _)).trans hChanged
    rw [hSpot]
    refine ⟨hAll, hMade.trans (hNone.mono (List.nil_subset _)), hPlain.changed (hAll.mono ?_) ?_⟩
    · intro r hr
      rw [List.mem_singleton.mp hr]
      exact draft_mem_places hSpot
    · intro r hr
      obtain rfl : p = r := Option.some.inj (hSpot.symm.trans hr)
      exact hUnlocked
  rcases save_outcomes hPlain l with
    ⟨_, hSave⟩ | ⟨p, _, left, hOpens, hSave⟩ | ⟨p, _, hOpens, _, hSave⟩ | ⟨_, _, _, _, hSave⟩
  · have hAfter : after = (prepare path f).2 := congrArg (·.2.files) hSave
    rw [hAfter]
    exact ⟨hPrepared.mono (List.nil_subset _), hMade, hPlain'⟩
  · have hAfter : after = (prepare path f).2.put p (.file left) := congrArg (·.2.files) hSave
    rw [hAfter] at hDraft ⊢
    exact hDraft hOpens (changedWithin_put hOpens.entry _)
      (madeWithin_put_file _ (ne_nil_of_entryAt hOpens.entry) _) id
  · have hAfter : after = ((prepare path f).2.put p (.file (content l))).remove p :=
      congrArg (·.2.files) hSave
    rw [hAfter] at hDraft ⊢
    refine hDraft hOpens (changedWithin_takenBack hOpens) ?_ ?_
    · exact (madeWithin_put_file _ (ne_nil_of_entryAt hOpens.entry) _).trans
        (madeWithin_remove _ p)
    · simp [isLocked_remove]
  · rw [hSave] at h
    cases h

theorem Ready.apart_moved (h : Ready path f p q) (hPlain : Plain path f) (hApart : Apart path f)
    (l : List Snippet) : Apart path (SnippetFile.moved f p q l) := by
  intro r hDraft hGoal
  have hSpot := (hPlain.spot_of_opens h.draft).1
  rw [hPlain.spot?_draft_eq (h.changedWithin_places hPlain l)] at hDraft
  obtain rfl : p = r := Option.some.inj (hSpot.symm.trans hDraft)
  -- The path leads to the entry that it names, as that is a file by now.
  have hEntry := entryAt_moved f p q l (ne_nil_of_entryAt h.target.entry)
  rw [if_pos rfl] at hEntry
  have hLeads := locate_of_locateEntry (h.moved hPlain l).target.leads (by simp [linkAt?, hEntry])
  obtain rfl : q = p := Option.some.inj ((stop_of_resolve hLeads).symm.trans hGoal)
  have hTarget : f.spot? path = some q := stop_of_resolve h.target.leads
  apply hApart q hSpot
  rw [goal?, way_whole_of_spot hTarget (hPlain.draft q hSpot).1]
  exact hTarget

theorem save_succeeded (hPlain : Plain path f) (h : (save l ⟨path, f⟩).1 = .ok ()) :
    let after := (save l ⟨path, f⟩).2.files
    ChangedWithin (places path f) f after ∧ MadeWithin (directories path f) f after ∧
      Plain path after ∧ (Apart path f → Apart path after) ∧
      after.find path = .ok (.file (content l)) := by
  intro after
  have hPrepared := changedWithin_prepare path f
  have hPlain' := hPlain.of_nil hPrepared
  obtain ⟨p, q, hReady, _, hSave⟩ := save_eq_of_ok hPlain h
  have hAfter : after = moved (prepare path f).2 p q l := congrArg (·.2.files) hSave
  have hChanged := hReady.changedWithin_places hPlain' l
  rw [hPlain.places_eq (hPrepared.mono (List.nil_subset _))] at hChanged
  rw [hAfter]
  refine ⟨(hPrepared.mono (List.nil_subset _)).trans hChanged,
    (madeWithin_prepare path f).trans ((hReady.madeWithin_moved l).mono (List.nil_subset _)),
    hReady.plain_moved hPlain' l, ?_, ?_⟩
  · intro hApart
    apply hReady.apart_moved hPlain'
    intro r hDraft hGoal
    rw [hPlain.spot?_draft_eq (hPrepared.mono (List.nil_subset _))] at hDraft
    rw [hPrepared.goal?_eq fun _ _ => List.not_mem_nil] at hGoal
    exact hApart r hDraft hGoal
  · have hTarget := (hReady.moved hPlain' l).target
    have hEntry := entryAt_moved (prepare path f).2 p q l (ne_nil_of_entryAt hReady.target.entry)
    rw [if_pos rfl] at hEntry
    have hLeads := locate_of_locateEntry hTarget.leads (by simp [linkAt?, hEntry])
    exact find_eq_file_iff.mpr ⟨q, hLeads, hEntry, hTarget.namesFile⟩

/-- The draft is on no way, so a change to it changes no way to the snippet file. -/
theorem links_avoid_draft (hPlain : Plain path f) :
    ∀ r ∈ (f.way true path).links, r ∉ (f.spot? (draft path)).toList := by
  intro r hr hDraft
  obtain ⟨target, hLink⟩ := f.linkAt?_of_mem_links true _ _ _ r hr
  rw [(hPlain.draft r (Option.mem_toList.mp hDraft)).1] at hLink
  cases hLink

theorem keepsFile_of_changed_draft (hPlain : Plain path f) (hApart : Apart path f)
    (hg : ChangedWithin (f.spot? (draft path)).toList f g) : KeepsFile path f g := by
  apply hg.keepsFile
  intro r hr hDraft
  rcases List.mem_append.mp hr with hLink | hGoal
  · exact links_avoid_draft hPlain r hLink hDraft
  · exact hApart r (Option.mem_toList.mp hDraft) (Option.mem_toList.mp hGoal)

/-- What is known of the files of `start` once the lists `saved` were written to it, in this order,
and any number of saves were refused. -/
structure Written (start : SnippetFile) (saved : List (List Snippet)) (now : SnippetFile) :
    Prop where
  path : now.path = start.path
  plain : Plain start.path now.files
  changed : ChangedWithin (places start.path start.files) start.files now.files
  made : MadeWithin (directories start.path start.files) start.files now.files
  apart : Apart start.path start.files → Apart start.path now.files
  aim : saved = [] → now.files.goal? start.path = start.files.goal? start.path
  kept : saved = [] → Apart start.path start.files → KeepsFile start.path start.files now.files
  holds : ∀ l, saved.getLast? = some l → Apart start.path start.files →
    now.files.find start.path = .ok (.file (content l))

theorem Written.refl {start : SnippetFile} (hPlain : Plain start.path start.files) :
    Written start [] start where
  path := rfl
  plain := hPlain
  changed := .refl _ _
  made := .refl _ _
  apart := id
  aim _ := rfl
  kept _ _ := .refl _ _
  holds l h := by cases h

variable {start now : SnippetFile} {saved : List (List Snippet)}

theorem Written.refused {e : CatalogueError} (hPlain : Plain start.path start.files)
    (h : Written start saved now) (hSave : (save l now).1 = .error e) :
    Written start saved (save l now).2 := by
  obtain ⟨path, f⟩ := now
  obtain rfl : path = start.path := h.path
  obtain ⟨hChanged, hMade, hPlain'⟩ := save_refused h.plain hSave
  have hAim := hChanged.goal?_eq (links_avoid_draft h.plain)
  have hPlaces : (f.spot? (draft start.path)).toList ⊆ places start.path start.files := by
    rw [hPlain.spot?_draft_eq h.changed]
    exact List.subset_append_left _ _
  rw [directories_eq h.changed hPlain.avoids] at hMade
  refine ⟨(save_cases l _).1, hPlain', h.changed.trans (hChanged.mono hPlaces), h.made.trans hMade,
    ?_, ?_, ?_, ?_⟩
  · intro hApart r hDraft hGoal
    rw [hAim] at hGoal
    rw [h.plain.spot?_draft_eq (hChanged.mono (List.subset_append_left _ _))] at hDraft
    exact h.apart hApart r hDraft hGoal
  · intro hNone
    exact hAim.trans (h.aim hNone)
  · intro hNone hApart
    exact (h.kept hNone hApart).trans (h.aim hNone)
      (keepsFile_of_changed_draft h.plain (h.apart hApart) hChanged)
  · intro l' hLast hApart
    exact (keepsFile_of_changed_draft h.plain (h.apart hApart) hChanged).found _
      (h.holds l' hLast hApart)

theorem Written.succeeded (hPlain : Plain start.path start.files) (h : Written start saved now)
    (hSave : (save l now).1 = .ok ()) : Written start (saved ++ [l]) (save l now).2 := by
  obtain ⟨path, f⟩ := now
  obtain rfl : path = start.path := h.path
  obtain ⟨hChanged, hMade, hPlain', hApart, hFound⟩ := save_succeeded h.plain hSave
  rw [hPlain.places_eq h.changed] at hChanged
  rw [directories_eq h.changed hPlain.avoids] at hMade
  refine ⟨(save_cases l _).1, hPlain', h.changed.trans hChanged, h.made.trans hMade,
    fun hStart => hApart (h.apart hStart), ?_, ?_, ?_⟩
  · simp
  · simp
  · intro l' hLast _
    rw [List.getLast?_concat] at hLast
    cases hLast
    exact hFound

end SnippetFile

namespace Catalogue

open SnippetFile

variable {start : SnippetFile} {saved : List (List Snippet)} {c : Catalogue SnippetFile}

theorem written_single (hPlain : Plain start.path start.files)
    (h : Written start saved c.archive) {op : Operation}
    (hOnce : op.savesOnce = true) :
    Written start (saved ++ (c.saved? op).toList) (c.perform op).archive := by
  obtain ⟨e, _, hRefused⟩ | ⟨l, supply, hSaved⟩ := c.answer_cases hOnce
  · obtain ⟨hAnswer, hPerform⟩ := hRefused SnippetFile c.archive
    rw [on_archive] at hAnswer hPerform
    rw [saved?_of_error hAnswer, hPerform, Option.toList_none, List.append_nil]
    exact h
  · obtain ⟨hAnswer, hPerform⟩ := hSaved SnippetFile c.archive
    rw [on_archive] at hAnswer hPerform
    have hArchive : (c.perform op).archive = (SnippetFile.save l c.archive).2 := by
      rw [hPerform]
      rfl
    have hResult : c.answer op = (SnippetFile.save l c.archive).1.map fun _ => () := hAnswer
    rw [hArchive]
    cases hSave : (SnippetFile.save l c.archive).1 with
    | error e =>
      rw [hSave] at hResult
      rw [saved?_of_error hResult, Option.toList_none, List.append_nil]
      exact h.refused hPlain hSave
    | ok _ =>
      rw [hSave] at hResult
      rw [saved?_of_ok hOnce hResult, hPerform]
      exact h.succeeded hPlain hSave

theorem written_foldl_perform (hPlain : Plain start.path start.files)
    (h : Written start saved c.archive) {ops : List Operation}
    (hOnce : ∀ op ∈ ops, op.savesOnce = true) :
    Written start (saved ++ c.savedByParts ops) (ops.foldl perform c).archive := by
  induction ops generalizing c saved with
  | nil => simpa [savedByParts] using h
  | cons op ops ih =>
    have hFirst := written_single hPlain h (hOnce op List.mem_cons_self)
    have hRest := ih hFirst fun part hPart => hOnce part (List.mem_cons_of_mem _ hPart)
    rwa [List.append_assoc] at hRest

theorem Operation.savesOnce_of_mem_parts {op part : Operation} (hLoad : op ≠ .load)
    (h : part ∈ op.parts) : part.savesOnce = true := by
  cases op with
  | load => exact absurd rfl hLoad
  | importText raw =>
    obtain ⟨p, _, rfl⟩ := List.mem_map.mp h
    rfl
  | _ =>
    rw [List.mem_singleton.mp h]
    rfl

theorem written_perform (c : Catalogue SnippetFile)
    (hPlain : Plain c.archive.path c.archive.files) {op : Operation} (hLoad : op ≠ .load) :
    Written c.archive (c.savedByParts op.parts) (c.perform op).archive := by
  have hOnce : ∀ part ∈ op.parts, part.savesOnce = true :=
    fun _ => Operation.savesOnce_of_mem_parts hLoad
  have hParts := written_foldl_perform hPlain (.refl hPlain) hOnce
  rwa [foldl_perform_parts, List.nil_append] at hParts

theorem saving_file_cases {β : Type} (hPlain : Plain c.archive.path c.archive.files) (result : β) :
    (c.saving result).1 = .ok result ∧
        SnippetFile.load (c.saving result).2.archive = .ok c.snippets ∨
      ∃ detail, (c.saving result).1 = .error (.unsaved detail) := by
  rcases (SnippetFile.save_cases c.snippets c.archive).2 with hSave | ⟨detail, hSave⟩
  · exact .inl ⟨congrArg (Except.map fun _ => result) hSave, SnippetFile.load_save hPlain hSave⟩
  · exact .inr ⟨detail, congrArg (Except.map fun _ => result) hSave⟩

/-- How far an import has come that has saved the lists `saved`. It counts what it has put behind
the list that it found, and it has a refusal to tell of as long as the list ends in something that
no save has written. -/
structure Tallied (start : Catalogue SnippetFile) (saved : List (List Snippet))
    (tally : ImportTally) (c : Catalogue SnippetFile) : Prop where
  written : Written start.archive saved c.archive
  appended : ∃ added, c.snippets = start.snippets ++ added ∧ added.length = tally.imported
  unsaved : ∃ rest, c.snippets = saved.getLast?.getD start.snippets ++ rest ∧
    (rest = [] ↔ tally.refusal = none)
  refusal : ∀ e, tally.refusal = some e → ∃ detail, e = .unsaved detail
  held : tally.refusal = none → SnippetFile.load c.archive = .ok c.snippets

namespace Tallied

variable {start : Catalogue SnippetFile} {tally : ImportTally}

theorem skip (h : Tallied start saved tally c) (reason : CatalogueError) :
    Tallied start saved (tally.skip reason) c :=
  ⟨h.written, h.appended, h.unsaved, h.refusal, h.held⟩

theorem plain (h : Tallied start saved tally c) : Plain c.archive.path c.archive.files := by
  rw [h.written.path]
  exact h.written.plain

theorem appended_take (h : Tallied start saved tally c) {c' : Catalogue SnippetFile} {s : Snippet}
    (hSnippets : c'.snippets = c.snippets ++ [s]) (refusal : Option CatalogueError) :
    ∃ added, c'.snippets = start.snippets ++ added ∧
      added.length = (tally.take refusal).imported := by
  obtain ⟨added, hList, hLength⟩ := h.appended
  refine ⟨added ++ [s], ?_, ?_⟩
  · rw [hSnippets, hList, List.append_assoc]
  · rw [List.length_append, hLength]
    rfl

section Item

variable {p : Snippet.Portable} {item : Json.Tree}

theorem refused (h : Tallied start saved tally c) (hItem : candidate? item = some p)
    {e : CatalogueError} (hOther : ∀ detail, e ≠ .unsaved detail)
    (hAdd : c.add p.trigger p.template p.language = (.error e, c)) :
    let op : Operation := .add p.trigger p.template p.language
    let next := importItem (tally, c) item
    next.2 = c.perform op ∧ Tallied start (saved ++ (c.saved? op).toList) next.1 next.2 := by
  intro op next
  have hPerform : c.perform op = c := congrArg Prod.snd hAdd
  have hAnswer : c.answer op = .error e := congrArg (fun r => r.1.map fun _ => ()) hAdd
  have hNext : next = (tally.skip e, c) := by
    cases e with
    | unsaved detail => exact absurd rfl (hOther detail)
    | _ => simp only [next, importItem, hItem, hAdd]
  rw [hNext, saved?_of_error hAnswer, Option.toList_none, List.append_nil]
  exact ⟨hPerform.symm, h.skip e⟩

/-- The snippet that is added is saved with all that were not saved before it, or joins them. -/
theorem added (hPlain : Plain start.archive.path start.archive.files)
    (h : Tallied start saved tally c) (hItem : candidate? item = some p) {s : Snippet}
    (hAdd : c.add p.trigger p.template p.language =
      (⟨c.snippets ++ [s], c.archive, c.supply.next⟩ : Catalogue SnippetFile).saving s) :
    let op : Operation := .add p.trigger p.template p.language
    let next := importItem (tally, c) item
    next.2 = c.perform op ∧ Tallied start (saved ++ (c.saved? op).toList) next.1 next.2 := by
  intro op next
  let d : Catalogue SnippetFile := ⟨c.snippets ++ [s], c.archive, c.supply.next⟩
  have hOnce : op.savesOnce = true := rfl
  have hWritten := written_single hPlain h.written hOnce
  have hPerform : c.perform op = (d.saving s).2 := congrArg Prod.snd hAdd
  have hAnswer : c.answer op = (d.saving s).1.map fun _ => () :=
    congrArg (fun r => r.1.map fun _ => ()) hAdd
  have hSnippets : (c.perform op).snippets = c.snippets ++ [s] := by
    rw [hPerform]
    rfl
  have hAppended := h.appended_take hSnippets
  rcases saving_file_cases (c := d) h.plain s with ⟨hOk, hHeld⟩ | ⟨detail, hUnsaved⟩
  · have hSucceeded : c.answer op = .ok () := by
      rw [hAnswer, hOk]
      rfl
    have hNext : next = (tally.take none, c.perform op) := by
      have hPair : c.add p.trigger p.template p.language = (.ok s, c.perform op) :=
        hAdd.trans (Prod.ext hOk hPerform.symm)
      simp only [next, importItem, hItem, hPair]
    rw [saved?_of_ok hOnce hSucceeded] at hWritten ⊢
    rw [hNext]
    refine ⟨rfl, hWritten, hAppended none, ⟨[], ?_, by simp [ImportTally.take]⟩, ?_, ?_⟩
    · simp
    · rintro _ ⟨⟩
    · intro _
      rw [hSnippets, hPerform]
      exact hHeld
  · have hFailed : c.answer op = .error (.unsaved detail) := by
      rw [hAnswer, hUnsaved]
      rfl
    have hNext : next = (tally.take (some (.unsaved detail)), c.perform op) := by
      have hPair : c.add p.trigger p.template p.language =
          (.error (.unsaved detail), c.perform op) :=
        hAdd.trans (Prod.ext hUnsaved hPerform.symm)
      simp only [next, importItem, hItem, hPair]
    obtain ⟨rest, hRest, _⟩ := h.unsaved
    rw [saved?_of_error hFailed, Option.toList_none, List.append_nil] at hWritten ⊢
    rw [hNext]
    refine ⟨rfl, hWritten, hAppended _, ⟨rest ++ [s], ?_, by simp [ImportTally.take]⟩, ?_, ?_⟩
    · rw [hSnippets, hRest, List.append_assoc]
    · rintro _ ⟨⟩
      exact ⟨detail, rfl⟩
    · rintro ⟨⟩

theorem take (hPlain : Plain start.archive.path start.archive.files)
    (h : Tallied start saved tally c) (hItem : candidate? item = some p) :
    let op : Operation := .add p.trigger p.template p.language
    let next := importItem (tally, c) item
    next.2 = c.perform op ∧ Tallied start (saved ++ (c.saved? op).toList) next.1 next.2 := by
  rcases c.add_cases p.trigger p.template p.language with
    ⟨_, hAdd⟩ | ⟨_, _, hAdd⟩ | ⟨_, _, hAdd⟩
  · exact h.refused hItem (by simp) hAdd
  · exact h.refused hItem (by simp) hAdd
  · exact h.added hPlain hItem hAdd

end Item

theorem foldl_importItem (hPlain : Plain start.archive.path start.archive.files)
    (h : Tallied start saved tally c) (items : List Json.Tree) :
    let last := items.foldl importItem (tally, c)
    Tallied start (saved ++ c.savedByParts ((items.filterMap candidate?).map fun p =>
      .add p.trigger p.template p.language)) last.1 last.2 := by
  induction items generalizing saved tally c with
  | nil => simpa [savedByParts] using h
  | cons item items ih =>
    cases hItem : candidate? item with
    | none =>
      have hNext : importItem (tally, c) item =
          (tally.skip (.incomplete "invalid snippet object"), c) := by
        simp only [importItem, hItem]
      rw [List.filterMap_cons_none hItem, List.foldl_cons, hNext]
      exact ih (h.skip _)
    | some p =>
      obtain ⟨hPerform, hNext⟩ := h.take hPlain hItem
      rw [List.filterMap_cons_some hItem, List.foldl_cons, List.map_cons, savedByParts, ← hPerform,
        ← List.append_assoc]
      exact ih hNext

end Tallied

theorem tallied_importText (hPlain : Plain c.archive.path c.archive.files)
    (hHeld : SnippetFile.load c.archive = .ok c.snippets) {raw : String} {tally : ImportTally}
    (hOk : (c.importText raw).1 = .ok tally) :
    Tallied c (c.savedByParts (Operation.importText raw).parts) tally
      (c.perform (.importText raw)) := by
  have hStart : Tallied c [] .start c :=
    ⟨.refl hPlain, ⟨[], (List.append_nil _).symm, rfl⟩, ⟨[], (List.append_nil _).symm, by simp
      [ImportTally.start]⟩, by rintro _ ⟨⟩, fun _ => hHeld⟩
  obtain ⟨items, hItems, hAdditions⟩ := exists_items_of_importText (Prod.ext hOk rfl)
  have hLast := hStart.foldl_importItem hPlain items
  rw [hItems, ← hAdditions] at hLast
  exact hLast

end Catalogue

end Shorthand
