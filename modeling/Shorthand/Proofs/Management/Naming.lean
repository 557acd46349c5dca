import Shorthand.Proofs.Catalogue.WellKept
import Shorthand.Proofs.Management

/-! # Which snippet a change event names

An operation on one snippet is given its identifier, or it is an addition, which makes one. When an
addition cannot be saved its snippet stays in the list, but the event does not name it. Every other
change event of a request on one snippet names the snippet; those of an import name none.
-/
namespace Shorthand.Management

open Catalogue

/-- The operation turns the list `l` into `l'`, and the snippet that it adds, amends or removes is
`s`: the new last one, or the first one with the identifier that the operation gives. -/
inductive Concerns : Operation → List Snippet → List Snippet → Snippet → Prop
  | added {trigger template language : String} {l : List Snippet} {s : Snippet} :
      Concerns (.add trigger template language) l (l ++ [s]) s
  | updated {id : String} {p : Snippet.Patch} {front back : List Snippet} {s : Snippet}
      (hId : s.id = id) (hFront : ∀ t ∈ front, t.id ≠ id) :
      Concerns (.update id p) (front ++ s :: back) (front ++ updated s p :: back) s
  | removed {id : String} {front back : List Snippet} {s : Snippet}
      (hId : s.id = id) (hFront : ∀ t ∈ front, t.id ≠ id) :
      Concerns (.delete id) (front ++ s :: back) (front ++ back) s
  | toggled {id : String} {front back : List Snippet} {s : Snippet}
      (hId : s.id = id) (hFront : ∀ t ∈ front, t.id ≠ id) :
      Concerns (.toggle id) (front ++ s :: back)
        (front ++ { s with isEnabled := !s.isEnabled } :: back) s

def givenId? : Operation → Option String
  | .update id _ | .delete id | .toggle id => some id
  | .add .. | .importText _ | .load => none

theorem Concerns.givenId? {op : Operation} {l l' : List Snippet} {s : Snippet}
    (h : Concerns op l l' s) :
    givenId? op = some s.id ∨
      givenId? op = none ∧ ∃ trigger template language, op = .add trigger template language := by
  cases h with
  | added => exact .inr ⟨rfl, _, _, _, rfl⟩
  | updated hId _ => exact .inl (congrArg some hId.symm)
  | removed hId _ => exact .inl (congrArg some hId.symm)
  | toggled hId _ => exact .inl (congrArg some hId.symm)

variable {α β : Type} [Archive α]

/-- The operation is refused, or it saves a list with one snippet added, amended or removed. -/
inductive Acts (c : Catalogue α) (op : Operation) :
    Except CatalogueError Snippet × Catalogue α → Prop
  | refused {e : CatalogueError} (he : ∀ detail, e ≠ .unsaved detail) : Acts c op (.error e, c)
  | saves {s t : Snippet} {l : List Snippet} {supply : Supply} (hs : Concerns op c.snippets l s)
      (hId : t.id = s.id) : Acts c op ({ c with snippets := l, supply }.saving t)

theorem acts_add (c : Catalogue α) (trigger template language : String) :
    Acts c (.add trigger template language) (c.add trigger template language) := by
  obtain ⟨_, hAdd⟩ | ⟨_, _, hAdd⟩ | ⟨_, _, hAdd⟩ := c.add_cases trigger template language
  · rw [hAdd]
    exact .refused (by simp)
  · rw [hAdd]
    exact .refused (by simp)
  · rw [hAdd]
    exact .saves .added rfl

theorem acts_update (c : Catalogue α) (id : String) (p : Snippet.Patch) :
    Acts c (.update id p) (c.update id p) := by
  obtain ⟨_, hUpdate⟩ | ⟨s, hGet, hUpdate⟩ := c.update_cases id p
  · rw [hUpdate]
    exact .refused (by simp)
  · obtain ⟨_, hUpdate⟩ | ⟨_, _, hUpdate⟩ | ⟨_, _, hUpdate⟩ := hUpdate
    · rw [hUpdate]
      exact .refused (by simp)
    · rw [hUpdate]
      exact .refused (by simp)
    · obtain ⟨front, back, hSplit, hId, hFront, hAmend⟩ :=
        amend_eq_of_get? hGet fun _ => updated s p
      rw [hUpdate]
      refine .saves (s := s) ?_ rfl
      rw [hAmend, hSplit]
      exact .updated hId hFront

theorem acts_delete (c : Catalogue α) (id : String) : Acts c (.delete id) (c.delete id) := by
  obtain ⟨_, hDelete⟩ | ⟨s, hGet, hDelete⟩ := c.delete_cases id
  · rw [hDelete]
    exact .refused (by simp)
  · obtain ⟨front, back, hSplit, hId, hFront, _⟩ := amend_eq_of_get? hGet fun _ => s
    have hErase : c.snippets.eraseP (·.id = id) = front ++ back := by
      rw [hSplit, List.eraseP_append_right _ (by simpa using hFront),
        List.eraseP_cons_of_pos (by simpa using hId)]
    rw [hDelete, hErase]
    refine .saves (s := s) ?_ rfl
    rw [hSplit]
    exact .removed hId hFront

theorem acts_toggle (c : Catalogue α) (id : String) : Acts c (.toggle id) (c.toggle id) := by
  obtain ⟨_, hToggle⟩ | ⟨s, hGet, hToggle⟩ := c.toggle_cases id
  · rw [hToggle]
    exact .refused (by simp)
  · obtain ⟨front, back, hSplit, hId, hFront, hAmend⟩ :=
      amend_eq_of_get? hGet fun _ => { s with isEnabled := !s.isEnabled }
    rw [hToggle]
    refine .saves (s := s) ?_ rfl
    rw [hAmend, hSplit]
    exact .toggled hId hFront

def actionName : Operation → String
  | .add .. => "add"
  | .update .. => "update"
  | .delete _ => "delete"
  | .toggle _ => "toggle"
  | .importText _ => "import"
  | .load => "load"

/-- The change events of an operation on one snippet that the catalogue `c` gave this answer to. An
unsaved change is told with the identifier that was given, if any was. -/
inductive Told (c : Catalogue α) (op : Operation) (o : Outcome α β) : Prop
  | silent (hAnswer : ∀ detail, c.answer op ≠ .error (.unsaved detail))
      (hRefused : c.answer op ≠ .ok ()) (hChanges : changes o.events = [])
  | saved {s : Snippet} (hAnswer : c.answer op = .ok ())
      (hs : Concerns op c.snippets o.catalogue.snippets s)
      (hChanges : changes o.events = [⟨actionName op, some s.id⟩])
  | unsaved {s : Snippet} {detail : String} (hAnswer : c.answer op = .error (.unsaved detail))
      (hs : Concerns op c.snippets o.catalogue.snippets s)
      (hChanges : changes o.events = [⟨actionName op, givenId? op⟩])

theorem Told.void {c : Catalogue α} {op : Operation} {o : Outcome α β} (h : Told c op o) :
    Told c op (Management.void o) := by
  cases h with
  | silent hAnswer hRefused hChanges => exact .silent hAnswer hRefused hChanges
  | saved hAnswer hs hChanges => exact .saved hAnswer hs hChanges
  | unsaved hAnswer hs hChanges => exact .unsaved hAnswer hs hChanges

theorem told_failed {c d : Catalogue α} {op : Operation} {e : CatalogueError}
    (hAnswer : c.answer op = .error e)
    (h : ∀ detail, e = .unsaved detail → ∃ s, Concerns op c.snippets d.snippets s) :
    Told c op (failed d e (actionName op) (givenId? op) : Outcome α β) := by
  have hChanges : changes (failed d e (actionName op) (givenId? op) : Outcome α β).events = _ :=
    changes_failed
  cases e with
  | unsaved detail =>
    obtain ⟨s, hs⟩ := h detail rfl
    exact .unsaved hAnswer hs hChanges
  | _ => exact .silent (by simp [hAnswer]) (by simp [hAnswer]) hChanges

/-- The record may be refused for any reason; only a list that was not written is told about. -/
theorem told_reported {c : Catalogue α} {op : Operation} {level : Notice.Level}
    {message : Snippet → String} {r : Except CatalogueError Snippet × Catalogue α}
    (h : Acts c op r) (hAnswer : c.answer op = r.1.map fun _ => ()) :
    Told c op (reported (actionName op) (givenId? op) level message r) := by
  cases h with
  | refused he => exact told_failed hAnswer fun detail hUnsaved => absurd hUnsaved (he detail)
  | @saves s t l supply hs hId =>
    have hSaving : ({ c with snippets := l, supply } : Catalogue α).saving t =
        ((Archive.save l c.archive).1.map fun _ => t,
          ⟨l, (Archive.save l c.archive).2, supply⟩) := rfl
    rw [hSaving] at hAnswer ⊢
    cases hSaved : (Archive.save l c.archive).1 with
    | error e =>
      rw [hSaved] at hAnswer
      exact told_failed hAnswer fun _ _ => ⟨s, hs⟩
    | ok u =>
      rw [hSaved] at hAnswer
      refine .saved hAnswer hs ?_
      show [Change.mk (actionName op) (some ((givenId? op).getD t.id))] = _
      obtain hGiven | ⟨hGiven, _⟩ := hs.givenId?
      · rw [hGiven]
        rfl
      · rw [hGiven, hId]
        rfl

theorem told_submit (c : Catalogue α) (f : Snippet.Form) :
    Told c (Request.submit f).operation (Management.submit c f) := by
  rw [Request.operation, submit]
  cases f.id.filter (· ≠ "") with
  | none => exact told_reported (acts_add c f.trigger f.template f.language) rfl
  | some id => exact told_reported (acts_update c id _) rfl

theorem told_respond (c : Catalogue α) {r : Request} (hSingle : ∀ raw, r ≠ .importText raw) :
    Told c r.operation (respond c r) := by
  cases r with
  | add trigger template language =>
    exact (told_reported (acts_add c trigger template language) rfl).void
  | update id p => exact (told_reported (acts_update c id p) rfl).void
  | submit f => exact (told_submit c f).void
  | delete id => exact (told_reported (acts_delete c id) rfl).void
  | toggle id => exact (told_reported (acts_toggle c id) rfl).void
  | importText raw => exact absurd rfl (hSingle raw)

theorem snippetId_of_importText {c : Catalogue α} {raw : String} {change : Change}
    (h : change ∈ changes (respond c (.importText raw)).events) : change.snippetId = none := by
  replace h : change ∈ changes (Management.importText c raw).events := h
  obtain ⟨detail, hImport⟩ | ⟨tally, hImport⟩ := c.importText_cases raw
  · have hOutcome :
        Management.importText c raw = failed c (.notImportable detail) "import" none := by
      simp only [Management.importText, hImport]
    rw [hOutcome, changes_failed] at h
    exact absurd h List.not_mem_nil
  · rw [changes_importText (Prod.ext hImport rfl)] at h
    split at h
    · exact absurd h List.not_mem_nil
    · rw [List.mem_singleton.mp h]

/-- Whether a change event tells which snippet the request added, amended or removed. Only that of
an import may leave it open. -/
def Names (c : Catalogue α) (r : Request) (change : Change) : Prop :=
  match change.snippetId with
  | none => ∃ raw, r = .importText raw
  | some id =>
    ∃ s, Concerns r.operation c.snippets (respond c r).catalogue.snippets s ∧ s.id = id

/-- The request is to add a snippet, which comes into the list but not into the archive. -/
def AddsUnsaved (c : Catalogue α) (r : Request) : Prop :=
  (∃ trigger template language, r.operation = .add trigger template language) ∧
    ∃ detail, c.answer r.operation = .error (.unsaved detail)

theorem names_of_given {c : Catalogue α} {r : Request} {s : Snippet} {action : String}
    (hs : Concerns r.operation c.snippets (respond c r).catalogue.snippets s) {change : Change}
    (h : change ∈ [Change.mk action (some s.id)]) : Names c r change := by
  rw [List.mem_singleton.mp h]
  exact ⟨s, hs, rfl⟩

theorem AddsUnsaved.not_importText {c : Catalogue α} {r : Request} (h : AddsUnsaved c r)
    (raw : String) : r ≠ .importText raw := by
  rintro rfl
  obtain ⟨⟨_, _, _, hAdd⟩, _⟩ := h
  cases hAdd

theorem AddsUnsaved.changes_respond {c : Catalogue α} {r : Request} (h : AddsUnsaved c r) :
    changes (respond c r).events = [⟨"add", none⟩] ∧
      ∃ s, Concerns r.operation c.snippets (respond c r).catalogue.snippets s := by
  have hTold := told_respond c h.not_importText
  obtain ⟨⟨trigger, template, language, hAdd⟩, detail, hUnsaved⟩ := h
  cases hTold with
  | silent hAnswer _ _ => exact absurd hUnsaved (hAnswer detail)
  | saved hAnswer _ _ =>
    rw [hAnswer] at hUnsaved
    cases hUnsaved
  | @unsaved s _ _ hs hChanges =>
    refine ⟨?_, s, hs⟩
    rw [hChanges, hAdd]
    rfl

theorem names_of_not_addsUnsaved {c : Catalogue α} {r : Request} (h : ¬ AddsUnsaved c r) :
    ∀ change ∈ changes (respond c r).events, Names c r change := by
  intro change hChange
  by_cases hImport : ∃ raw, r = .importText raw
  · obtain ⟨raw, rfl⟩ := hImport
    rw [Names, snippetId_of_importText hChange]
    exact ⟨raw, rfl⟩
  · cases told_respond c (not_exists.mp hImport) with
    | silent _ _ hChanges =>
      rw [hChanges] at hChange
      exact absurd hChange List.not_mem_nil
    | saved _ hs hChanges =>
      rw [hChanges] at hChange
      exact names_of_given hs hChange
    | @unsaved s detail hAnswer hs hChanges =>
      obtain hGiven | ⟨_, hAdd⟩ := hs.givenId?
      · rw [hChanges, hGiven] at hChange
        exact names_of_given hs hChange
      · exact absurd ⟨hAdd, detail, hAnswer⟩ h

theorem changes_respond_of_saved {c : Catalogue α} {r : Request}
    (hSingle : ∀ raw, r ≠ .importText raw) (hSaved : c.answer r.operation = .ok ()) :
    ∃ s, Concerns r.operation c.snippets (respond c r).catalogue.snippets s ∧
      changes (respond c r).events = [⟨actionName r.operation, some s.id⟩] := by
  cases told_respond c hSingle with
  | silent _ hRefused _ => exact absurd hSaved hRefused
  | @saved s _ hs hChanges => exact ⟨s, hs, hChanges⟩
  | unsaved hAnswer _ _ =>
    rw [hAnswer] at hSaved
    cases hSaved

/-- Whatever the archive does, all change events of a request name the snippet that was added,
amended or removed, or come from an import, unless the request adds a snippet that cannot be saved:
that is told once, without the identifier of the new last snippet of the list. What a request on
one snippet has saved is told once, with its identifier. -/
theorem respond_names_iff (c : Catalogue α) (r : Request) :
    ((∀ change ∈ changes (respond c r).events, Names c r change) ↔ ¬ AddsUnsaved c r) ∧
    (AddsUnsaved c r → changes (respond c r).events = [⟨"add", none⟩] ∧
      ∃ s, Concerns r.operation c.snippets (respond c r).catalogue.snippets s) ∧
    ((∀ raw, r ≠ .importText raw) → c.answer r.operation = .ok () →
      ∃ s, Concerns r.operation c.snippets (respond c r).catalogue.snippets s ∧
        changes (respond c r).events = [⟨actionName r.operation, some s.id⟩]) := by
  refine ⟨⟨?_, names_of_not_addsUnsaved⟩, AddsUnsaved.changes_respond, changes_respond_of_saved⟩
  intro hNames hAdds
  obtain ⟨hEvent, _⟩ := hAdds.changes_respond
  rw [hEvent] at hNames
  obtain ⟨raw, hImport⟩ := hNames _ (List.mem_singleton_self _)
  exact hAdds.not_importText raw hImport

/-- The store is full. The snippet is in the list as `1`, but the event does not say so. -/
theorem add_leaves_unnamed :
    let c : Catalogue Memory := ⟨[], ⟨[], [some "quota exceeded"], none, 0⟩, ⟨fun _ => "1", 0, ""⟩⟩
    let r : Request := .add "fn" "f()" "javascript"
    (respond c r).catalogue.snippets.map Snippet.id = ["1"] ∧
      changes (respond c r).events = [⟨"add", none⟩] ∧
      ¬ ∀ change ∈ changes (respond c r).events, change.snippetId = some "1" := by
  decide

end Shorthand.Management
