import Shorthand.Catalogue.File
import Shorthand.Proofs.Files.Footprint
import Shorthand.Proofs.Files.Path
import Shorthand.Proofs.Records
import Shorthand.Proofs.Text.Blank

/-! # Saving to a snippet file and loading from it

A save that succeeds makes directories and moves its draft into place, and that is all it changes.
What it wrote is what the next load gives, unless the draft is a link or what the path leads to is
behind the entry that the draft replaces.
-/
namespace Shorthand.SnippetFile

open Files Text

theorem trim_listToText_ne_nil (l : List Snippet) : trim (Snippet.listToText l).toList ≠ [] := by
  intro h
  rw [trim_eq_nil_iff] at h
  have hBracket : '[' ∈ (Snippet.listToText l).toList := by
    rw [Snippet.listToText, Json.Tree.pretty, String.toList_ofList]
    cases l with
    | nil => exact List.mem_cons_self
    | cons s l => exact List.mem_cons_self
  exact absurd (h '[' hBracket) (by decide)

theorem ofText_listToText (l : List Snippet) : ofText (Snippet.listToText l) = .ok l := by
  rw [ofText, if_neg (trim_listToText_ne_nil l), Snippet.listOfText?_listToText]

variable {path : Path} {f g : Files} {p q : Place} {ps : List Place} {l : List Snippet}

theorem steps_draft {d : Path} (h : path.parent? = some d) :
    d.absolute = path.absolute ∧ (draft path).absolute = path.absolute ∧
      ∃ s t, path.steps = d.steps ++ [s] ∧ (draft path).steps = d.steps ++ [t] ∧
        (t = s ∨ ∃ name, s = .name name) :=
  Path.steps_of_parent (List.cons_ne_nil _ _) h

theorem links_draft (path : Path) (f : Files) :
    (f.way false (draft path)).links = (f.way false path).links := by
  cases h : path.parent? with
  | none => rw [draft, (Path.steps_of_parent_none h).1]
  | some d =>
    obtain ⟨hPath, hDraft, s, t, hs, ht, _⟩ := steps_draft h
    rw [links_of_steps (hPath.trans hDraft.symm) ht, links_of_steps hPath hs]

theorem links_parent {d : Path} (h : path.parent? = some d) :
    (f.way true d).links = (f.way false path).links := by
  obtain ⟨hPath, _, s, _, hs, _⟩ := steps_draft h
  rw [links_of_steps hPath hs]

/-- The entries that a save replaces. -/
def places (path : Path) (f : Files) : List Place :=
  (f.spot? (draft path)).toList ++ (f.spot? path).toList

theorem draft_mem_places (h : f.spot? (draft path) = some p) : p ∈ places path f :=
  List.mem_append_left _ (Option.mem_toList.mpr h)

theorem target_mem_places (h : f.spot? path = some q) : q ∈ places path f :=
  List.mem_append_right _ (Option.mem_toList.mpr h)

/-- The draft is no link and may be read, and the path does not lead through the very entry that it
names. -/
structure Plain (path : Path) (f : Files) : Prop where
  draft : ∀ p, f.spot? (SnippetFile.draft path) = some p →
    f.linkAt? p = none ∧ f.isLocked p = false
  target : ∀ q, f.spot? path = some q → q ∉ (f.way false path).links

namespace Plain

theorem avoids (h : Plain path f) : ∀ r ∈ (f.way false path).links, r ∉ places path f := by
  intro r hr hPlace
  rcases List.mem_append.mp hPlace with hDraft | hTarget
  · obtain ⟨target, hLink⟩ := f.linkAt?_of_mem_links false _ _ _ r hr
    rw [(h.draft r (Option.mem_toList.mp hDraft)).1] at hLink
    cases hLink
  · exact h.target r (Option.mem_toList.mp hTarget) hr

theorem avoids_draft (h : Plain path f) :
    ∀ r ∈ (f.way false (SnippetFile.draft path)).links, r ∉ places path f := by
  rw [links_draft]
  exact h.avoids

theorem way_eq (h : Plain path f) (hg : ChangedWithin (places path f) f g) :
    g.way false path = f.way false path := hg.way_eq h.avoids

theorem spot?_eq (h : Plain path f) (hg : ChangedWithin (places path f) f g) :
    g.spot? path = f.spot? path := by
  rw [spot?, spot?, h.way_eq hg]

theorem spot?_draft_eq (h : Plain path f) (hg : ChangedWithin (places path f) f g) :
    g.spot? (SnippetFile.draft path) = f.spot? (SnippetFile.draft path) := by
  rw [spot?, spot?, hg.way_eq h.avoids_draft]

theorem places_eq (h : Plain path f) (hg : ChangedWithin (places path f) f g) :
    places path g = places path f := by
  rw [places, places, h.spot?_eq hg, h.spot?_draft_eq hg]

theorem changed (h : Plain path f) (hg : ChangedWithin (places path f) f g)
    (hOpen : ∀ p, f.spot? (SnippetFile.draft path) = some p → g.isLocked p = false) :
    Plain path g where
  draft p hp := by
    rw [h.spot?_draft_eq hg] at hp
    exact ⟨hg.toExtends.linkAt?_eq_none (h.draft p hp).1, hOpen p hp⟩
  target q hq := by
    rw [h.spot?_eq hg] at hq
    rw [h.way_eq hg]
    exact h.target q hq

theorem of_nil (h : Plain path f) (hg : ChangedWithin [] f g) : Plain path g := by
  apply h.changed (hg.mono (List.nil_subset _))
  intro p hp
  rw [hg.locked p List.not_mem_nil]
  exact (h.draft p hp).2

theorem spot_of_opens (h : Plain path f) (hOpens : f.Opens (SnippetFile.draft path) p) :
    f.spot? (SnippetFile.draft path) = some p ∧ f.locateEntry (SnippetFile.draft path) = .ok p := by
  obtain ⟨r, hSpot⟩ := exists_spot_of_goal (stop_of_resolve hOpens.leads)
  have hEntry := locateEntry_of_locate hOpens.leads hSpot (h.draft r hSpot).1
  exact ⟨stop_of_resolve hEntry, hEntry⟩

theorem way_draft (h : Plain path f) (hSpot : f.spot? (SnippetFile.draft path) = some p) :
    ∀ r ∈ (f.way true (SnippetFile.draft path)).links, r ∉ places path f := by
  rw [way_whole_of_spot hSpot (h.draft p hSpot).1]
  exact h.avoids_draft

theorem startingAt (path : Path) (workingPlace : Place) :
    Plain path (.startingAt workingPlace) := by
  have hNone (r : Place) : (Files.startingAt workingPlace).linkAt? r = none := by
    by_cases hr : r = []
    · rw [hr]
      rfl
    · rw [linkAt?, entryAt, if_neg hr]
      rfl
  constructor
  · exact fun p _ => ⟨hNone p, rfl⟩
  · intro q _ hq
    obtain ⟨target, hLink⟩ := linkAt?_of_mem_links _ false _ _ _ q hq
    rw [hNone] at hLink
    cases hLink

end Plain

theorem changedWithin_prepare (path : Path) (f : Files) :
    ChangedWithin [] f (prepare path f).2 := by
  rw [prepare]
  cases path.parent? with
  | none => exact .refl [] f
  | some d => exact changedWithin_makeDirectories f d

theorem prepare_again (h : (prepare path f).1 = .ok ())
    (hg : ChangedWithin ps (prepare path f).2 g)
    (hAvoids : ∀ r ∈ (f.way false path).links, r ∉ ps) : prepare path g = (.ok (), g) := by
  rw [prepare] at h hg ⊢
  cases hParent : path.parent? with
  | none => rfl
  | some d =>
    rw [hParent] at h hg
    rw [← links_parent hParent] at hAvoids
    exact makeDirectories_again h hg hAvoids

theorem writeOut_of_opens {c : Content} (hOpens : f.Opens path q) (hFits : f.Fits q c)
    (hSync : f.sync q = .ok ()) : writeOut path c f = (.ok (), f.put q (.file c)) := by
  have hRoom : (f.put q (.file .empty)).Fits q c := hFits
  have hFill := fill_of_fits hRoom
  rw [put_put] at hFill
  have hSynced : (f.put q (.file c)).sync q = .ok () := hSync
  rw [writeOut, hOpens.create]
  dsimp only
  rw [hFill]
  dsimp only
  rw [hSynced]
  rfl

theorem writeOut_cases (path : Path) (c : Content) (f : Files) :
    (∃ failure, writeOut path c f = (.error failure, f)) ∨
      ∃ q, f.Opens path q ∧
        ((∃ failure left, writeOut path c f = (.error failure, f.put q (.file left))) ∨
          f.Fits q c ∧ f.sync q = .ok () ∧ writeOut path c f = (.ok (), f.put q (.file c))) := by
  rcases create_cases f path with ⟨fault, hCreate⟩ | ⟨q, hOpens, hCreate⟩
  · refine .inl ⟨("Failed to create temp file: ", fault), ?_⟩
    rw [writeOut, hCreate]
  · refine .inr ⟨q, hOpens, ?_⟩
    rcases fill_cases (f.put q (.file .empty)) q c with ⟨fault, left, hFill⟩ | ⟨hFits, hFill⟩
    · refine .inl ⟨("Failed to write: ", fault), left, ?_⟩
      rw [writeOut, hCreate]
      dsimp only
      rw [hFill, put_put]
    · cases hSync : f.sync q with
      | ok _ => exact .inr ⟨hFits, rfl, writeOut_of_opens hOpens hFits hSync⟩
      | error fault =>
        have hSynced : (f.put q (.file c)).sync q = .error fault := hSync
        refine .inl ⟨("Failed to sync: ", fault), c, ?_⟩
        rw [writeOut, hCreate]
        dsimp only
        rw [hFill, put_put]
        dsimp only
        rw [hSynced]
        rfl

/-- All directories are made, the draft may be written at `p` and moved to `q`. -/
structure Ready (path : Path) (f : Files) (p q : Place) : Prop where
  made : prepare path f = (.ok (), f)
  draft : f.Opens (SnippetFile.draft path) p
  target : f.Takes path q
  synced : f.sync p = .ok ()

def content (l : List Snippet) : Content := .text (Snippet.listToText l)

/-- What a save makes of the files once the directories are there. -/
def moved (f : Files) (p q : Place) (l : List Snippet) : Files :=
  (f.put p (.file (content l))).move p q (.file (content l))

theorem entryAt_moved (f : Files) (p q : Place) (l : List Snippet) {r : Place} (hr : r ≠ []) :
    (moved f p q l).entryAt r =
      if r = q then some (.file (content l)) else if r = p then none else f.entryAt r := by
  rw [moved, entryAt_move _ hr, entryAt_put hr]
  split
  · rfl
  · split <;> rfl

theorem isLocked_moved (f : Files) (p q : Place) (l : List Snippet) (r : Place) :
    (moved f p q l).isLocked r =
      if r = q then f.isLocked p else if r = p then false else f.isLocked r := by
  rw [moved, isLocked_move, isLocked_put, isLocked_put]

theorem entryAt_put_opened {c : Content} (h : f.Opens path p) :
    (f.put p (.file c)).entryAt p = some (.file c) := by
  rw [entryAt_put (ne_nil_of_entryAt h.entry), if_pos rfl]

theorem not_directory_put {c : Content} {r : Place} (hr : f.entryAt r ≠ some .directory) :
    (f.put p (.file c)).entryAt r ≠ some .directory := by
  rw [entryAt_put (ne_nil_of_entryAt hr)]
  split
  · simp
  · exact hr

namespace Ready

theorem changedWithin_moved (h : Ready path f p q) (l : List Snippet) :
    ChangedWithin [p, q] f (moved f p q l) := by
  have hPut := changedWithin_put h.draft.entry (content l)
  have hMove := changedWithin_move (c := content l)
    (not_directory_put (p := p) (c := content l) h.draft.entry)
    (not_directory_put (p := p) (c := content l) h.target.entry)
  exact (hPut.mono (by simp)).trans hMove

theorem subset_places (h : Ready path f p q) (hPlain : Plain path f) : [p, q] ⊆ places path f := by
  intro r hr
  rcases List.mem_pair.mp hr with rfl | rfl
  · exact draft_mem_places (hPlain.spot_of_opens h.draft).1
  · exact target_mem_places (stop_of_resolve h.target.leads)

theorem changedWithin_places (h : Ready path f p q) (hPlain : Plain path f) (l : List Snippet) :
    ChangedWithin (places path f) f (moved f p q l) :=
  (h.changedWithin_moved l).mono (h.subset_places hPlain)

theorem plain_moved (h : Ready path f p q) (hPlain : Plain path f) (l : List Snippet) :
    Plain path (moved f p q l) := by
  apply hPlain.changed (h.changedWithin_places hPlain l)
  intro r hr
  obtain ⟨hSpot, _⟩ := hPlain.spot_of_opens h.draft
  obtain rfl : p = r := Option.some.inj (hSpot.symm.trans hr)
  rw [isLocked_moved, (hPlain.draft p hr).2]
  simp

theorem moved (h : Ready path f p q) (hPlain : Plain path f) (l : List Snippet) :
    Ready path (moved f p q l) p q := by
  have hChanged := h.changedWithin_places hPlain l
  have hSpot := (hPlain.spot_of_opens h.draft).1
  refine ⟨prepare_again (f := f) (by rw [h.made]) (by rwa [h.made]) hPlain.avoids, ?_, ?_, ?_⟩
  · apply h.draft.changed hChanged (hPlain.way_draft hSpot)
    rw [entryAt_moved f p q l (ne_nil_of_entryAt h.draft.entry)]
    split <;> simp
  · apply h.target.changed hChanged hPlain.avoids
    rw [entryAt_moved f p q l (ne_nil_of_entryAt h.target.entry), if_pos rfl]
    simp
  · rw [sync, hChanged.fixed]
    exact h.synced

end Ready

theorem takes_put_iff {c : Content} (hPlain : Plain path f) (hDraft : f.Opens (draft path) p) :
    (f.put p (.file c)).Takes path q ↔ f.Takes path q := by
  have hPut := changedWithin_put hDraft.entry c
  have hLinks : ∀ r ∈ (f.way false path).links, r ∉ [p] := by
    intro r hr hp
    rw [List.mem_singleton.mp hp] at hr
    exact hPlain.avoids p hr (draft_mem_places (hPlain.spot_of_opens hDraft).1)
  constructor
  · intro h
    have hEntry : f.entryAt q ≠ some .directory := fun hq => h.entry (hPut.directory q hq)
    obtain ⟨hPath, hSteps, hWay⟩ := resolve_eq_ok_iff.mp h.leads
    rw [hPut.way_eq hLinks] at hWay
    obtain ⟨hStop, hMoves⟩ := arrive_eq_ok_iff.mp hWay
    refine ⟨resolve_eq_ok_iff.mpr ⟨hPath, hSteps, arrive_eq_ok_iff.mpr ⟨hStop, ?_⟩⟩,
      h.namesFile, hEntry, (hPut.isFrozen_eq q).symm.trans h.thawed⟩
    -- The draft is a file, so no step goes through it.
    rintro ⟨r, s⟩ hm
    obtain ⟨hDirectory, hOpen, hStep⟩ := ofMove?_eq_none_iff.mp (hMoves ⟨r, s⟩ hm)
    have hr : r ≠ p := by
      rintro rfl
      rw [entryAt_put_opened hDraft] at hDirectory
      cases hDirectory
    rw [f.entryAt_put_of_ne _ hr] at hDirectory
    exact ofMove?_eq_none_iff.mpr ⟨hDirectory, hOpen, hStep⟩
  · intro h
    exact h.changed hPut hLinks (not_directory_put h.entry)

theorem rename_draft {c : Content} (hPlain : Plain path f) (hDraft : f.Opens (draft path) p)
    (hTarget : f.Takes path q) :
    (f.put p (.file c)).rename (draft path) path =
      (.ok (), (f.put p (.file c)).move p q (.file c)) := by
  have hPut := changedWithin_put hDraft.entry c
  obtain ⟨hSpot, hLeads⟩ := hPlain.spot_of_opens hDraft
  have hLeads' : (f.put p (.file c)).locateEntry (draft path) = .ok p := by
    refine hPut.resolve ?_ hLeads
    intro r hr hp
    rw [List.mem_singleton.mp hp] at hr
    exact hPlain.avoids_draft p hr (draft_mem_places hSpot)
  exact Takes.rename hLeads' (entryAt_put_opened hDraft) hDraft.namesFile
    ((hPut.isFrozen_eq p).trans hDraft.thawed) ((takes_put_iff hPlain hDraft).mpr hTarget)

theorem removeFile_draft (hPlain : Plain path f) (hDraft : f.Opens (draft path) p) (c : Content) :
    (f.put p (.file c)).removeFile (draft path) = (f.put p (.file c)).remove p := by
  have hPut := changedWithin_put hDraft.entry c
  obtain ⟨hSpot, hLeads⟩ := hPlain.spot_of_opens hDraft
  have hLeads' : (f.put p (.file c)).locateEntry (draft path) = .ok p := by
    refine hPut.resolve ?_ hLeads
    intro r hr hp
    rw [List.mem_singleton.mp hp] at hr
    exact hPlain.avoids_draft p hr (draft_mem_places hSpot)
  rw [removeFile, hLeads']
  simp [hDraft.namesFile, entryAt_put_opened hDraft, hPut.isFrozen_eq, hDraft.thawed]

theorem Ready.save (h : Ready path f p q) (hPlain : Plain path f) (hFits : f.Fits p (content l)) :
    save l ⟨path, f⟩ = (.ok (), ⟨path, SnippetFile.moved f p q l⟩) := by
  have hWrite := writeOut_of_opens h.draft hFits h.synced
  have hRename := rename_draft (c := content l) hPlain h.draft h.target
  rw [content] at hWrite hRename
  rw [SnippetFile.save]
  simp only [h.made, hWrite, hRename]
  rfl

theorem save_prepared (h : (prepare path f).1 = .ok ()) :
    save l ⟨path, f⟩ = save l ⟨path, (prepare path f).2⟩ := by
  have hPrepared := prepare_again h (.refl [] _) fun _ _ => List.not_mem_nil
  have hMade : prepare path f = (.ok (), (prepare path f).2) := Prod.ext h rfl
  rw [save, save]
  dsimp only
  rw [hPrepared, hMade]

/-- A save is refused before it opens its draft, or it leaves the draft behind, or it takes it back
as it cannot be moved, or it moves it into place. -/
theorem save_outcomes (hPlain : Plain path f) (l : List Snippet) :
    let g := (prepare path f).2
    (∃ detail, save l ⟨path, f⟩ = (.error (.unsaved detail), ⟨path, g⟩)) ∨
    (∃ p detail left, g.Opens (draft path) p ∧
      save l ⟨path, f⟩ = (.error (.unsaved detail), ⟨path, g.put p (.file left)⟩)) ∨
    (∃ p detail, g.Opens (draft path) p ∧ (∀ q, ¬ g.Takes path q) ∧
      save l ⟨path, f⟩ =
        (.error (.unsaved detail), ⟨path, (g.put p (.file (content l))).remove p⟩)) ∨
    ∃ p q, Ready path g p q ∧ g.Fits p (content l) ∧
      save l ⟨path, f⟩ = (.ok (), ⟨path, moved g p q l⟩) := by
  intro g
  have hPlain' : Plain path g := hPlain.of_nil (changedWithin_prepare path f)
  cases hMade : prepare path f with
  | mk made g' =>
    obtain rfl : g = g' := congrArg Prod.snd hMade
    cases made with
    | error fault =>
      rw [save, hMade]
      exact .inl ⟨_, rfl⟩
    | ok _ =>
      have hPrepared : prepare path g = (.ok (), g) :=
        prepare_again (congrArg Prod.fst hMade) (.refl [] _) fun _ _ => List.not_mem_nil
      rw [save_prepared (congrArg Prod.fst hMade), hMade]
      rcases writeOut_cases (draft path) (content l) g with
        ⟨failure, hWrite⟩ | ⟨p, hDraft, ⟨failure, left, hWrite⟩ | ⟨hFits, hSync, hWrite⟩⟩
      · rw [content] at hWrite
        simp only [save, hPrepared, hWrite]
        exact .inl ⟨_, rfl⟩
      · rw [content] at hWrite
        simp only [save, hPrepared, hWrite]
        exact .inr (.inl ⟨p, _, left, hDraft, rfl⟩)
      · by_cases hTarget : ∃ q, g.Takes path q
        · obtain ⟨q, hTarget⟩ := hTarget
          have hReady : Ready path g p q := ⟨hPrepared, hDraft, hTarget, hSync⟩
          exact .inr (.inr (.inr ⟨p, q, hReady, hFits, hReady.save hPlain' hFits⟩))
        · have hNone : ∀ q, ¬ g.Takes path q := not_exists.mp hTarget
          rcases rename_cases (g.put p (.file (content l))) (draft path) path with
            ⟨fault, hRename⟩ | hRename
          · refine .inr (.inr (.inl ⟨p, "Failed to rename: " ++ fault.message, hDraft, hNone, ?_⟩))
            rw [← removeFile_draft hPlain' hDraft]
            rw [content] at hWrite hRename ⊢
            simp only [save, hPrepared, hWrite, hRename]
            rfl
          · obtain ⟨q, hTakes⟩ := takes_of_rename hRename
            exact absurd ((takes_put_iff hPlain' hDraft).mp hTakes) (hNone q)

theorem save_cases (l : List Snippet) (f : SnippetFile) :
    (save l f).2.path = f.path ∧
      ((save l f).1 = .ok () ∨ ∃ detail, (save l f).1 = .error (.unsaved detail)) := by
  rw [save]
  split
  · exact ⟨rfl, .inr ⟨_, rfl⟩⟩
  · split
    · exact ⟨rfl, .inr ⟨_, rfl⟩⟩
    · split
      · exact ⟨rfl, .inr ⟨_, rfl⟩⟩
      · exact ⟨rfl, .inl rfl⟩

theorem save_eq_of_ok (hPlain : Plain path f) (h : (save l ⟨path, f⟩).1 = .ok ()) :
    ∃ p q, let g := (prepare path f).2
      Ready path g p q ∧ g.Fits p (content l) ∧
        save l ⟨path, f⟩ = (.ok (), ⟨path, moved g p q l⟩) := by
  rcases save_outcomes hPlain l with
    ⟨_, hSave⟩ | ⟨_, _, _, _, hSave⟩ | ⟨_, _, _, _, hSave⟩ | ⟨p, q, hSaved⟩
  · rw [hSave] at h
    cases h
  · rw [hSave] at h
    cases h
  · rw [hSave] at h
    cases h
  · exact ⟨p, q, hSaved⟩

/-- Where any file fits, every list can be saved if one can. -/
theorem save_of_save (hPlain : Plain path f) (hRoom : ∀ r, f.room.get? r = none)
    (h : (save l ⟨path, f⟩).1 = .ok ()) (l' : List Snippet) : (save l' ⟨path, f⟩).1 = .ok () := by
  obtain ⟨p, q, hReady, _, _⟩ := save_eq_of_ok hPlain h
  have hMade := changedWithin_prepare path f
  have hFits : (prepare path f).2.Fits p (content l') := by
    intro n hn
    rw [hMade.fixed] at hn
    exact absurd ((hRoom p).symm.trans hn) (by simp)
  have hOk : (prepare path f).1 = .ok () := by
    rw [save] at h
    split at h
    · cases h
    next hPrepared => rw [hPrepared]
  rw [save_prepared hOk, hReady.save (hPlain.of_nil hMade) hFits]

theorem load_save {f : SnippetFile} (hPlain : Plain f.path f.files) (h : (save l f).1 = .ok ()) :
    load (save l f).2 = .ok l := by
  obtain ⟨path, f⟩ := f
  obtain ⟨p, q, hReady, _, hSave⟩ := save_eq_of_ok hPlain h
  have hPlain' := hPlain.of_nil (changedWithin_prepare path f)
  have hEntry := entryAt_moved (prepare path f).2 p q l (ne_nil_of_entryAt hReady.target.entry)
  rw [if_pos rfl] at hEntry
  have hTarget := (hReady.moved hPlain' l).target
  have hLeads : (moved (prepare path f).2 p q l).locate path = .ok q :=
    locate_of_locateEntry hTarget.leads (by simp [linkAt?, hEntry])
  have hOpen : (moved (prepare path f).2 p q l).isLocked q = false := by
    rw [isLocked_moved, if_pos rfl]
    exact (hPlain'.draft p (hPlain'.spot_of_opens hReady.draft).1).2
  have hRead := readText_eq_ok_iff.mpr ⟨q, hLeads, hEntry, hOpen, hTarget.namesFile⟩
  rw [hSave, load]
  simp only [holds_of_readText hRead, hRead, if_true]
  exact ofText_listToText l

/-- A draft that is a link to the file ends as a link to itself in place of the file. -/
example :
    let f := (Files.startingAt []).put ["s.tmp".toList] (.link (.ofString "s.json"))
    let saved := save [⟨"x", "log", "a", "js", true, true, "1"⟩] ⟨.ofString "/s.json", f⟩
    saved.1 = .ok () ∧ load saved.2 = .ok [] := by
  decide +kernel

/-- Where every list can be saved, every list can be saved after that as well. Nothing else is
changed but the snippet file and its draft, apart from directories that are made. -/
theorem save_again {f : SnippetFile} (hPlain : Plain f.path f.files)
    (h : ∀ l, (save l f).1 = .ok ()) (l : List Snippet) :
    let after := (save l f).2
    after.path = f.path ∧ Plain f.path after.files ∧ (∀ l', (save l' after).1 = .ok ()) ∧
      ChangedWithin (places f.path f.files) f.files after.files := by
  obtain ⟨path, f⟩ := f
  obtain ⟨p, q, hReady, _, hSave⟩ := save_eq_of_ok hPlain (h l)
  have hMade := changedWithin_prepare path f
  have hPlain' := hPlain.of_nil hMade
  rw [hSave]
  refine ⟨rfl, hReady.plain_moved hPlain' l, ?_, ?_⟩
  · intro l'
    obtain ⟨p', q', hReady', hFits, _⟩ := save_eq_of_ok hPlain (h l')
    have hSpot := (hPlain'.spot_of_opens hReady.draft).1
    obtain rfl : p = p' :=
      Option.some.inj (hSpot.symm.trans (hPlain'.spot_of_opens hReady'.draft).1)
    have hRoom : (moved (prepare path f).2 p q l).Fits p (content l') := by
      rw [Fits, (hReady.changedWithin_moved l).fixed]
      exact hFits
    exact congrArg Prod.fst ((hReady.moved hPlain' l).save (hReady.plain_moved hPlain' l) hRoom)
  · have hChanged := hReady.changedWithin_places hPlain' l
    rw [hPlain.places_eq (hMade.mono (List.nil_subset _))] at hChanged
    exact (hMade.mono (List.nil_subset _)).trans hChanged

end Shorthand.SnippetFile
