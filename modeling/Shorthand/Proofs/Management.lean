import Shorthand.Management
import Shorthand.Proofs.Catalogue.Tally

/-! # What management tells

A change of the list is told once, whether or not it could be saved. A request that is refused
leaves the catalogue as it was and says so in one notice.
-/
namespace Shorthand

namespace Event

def change? : Event → Option Change
  | changed c => some c
  | notice _ => none

def notice? : Event → Option Notice
  | notice n => some n
  | changed _ => none

end Event

namespace Management

open Catalogue

variable {α β : Type}

def changes (events : List Event) : List Change := events.filterMap Event.change?

def notices (events : List Event) : List Notice := events.filterMap Event.notice?

/-- Whether `o` tells what became of a request that the catalogue `c` gave this answer to. A change
of the list is told once, a refusal by one notice, and an error ends with the notice of it. -/
structure Informs (c : Catalogue α) (answer : Except CatalogueError Unit) (o : Outcome α β) :
    Prop where
  changed : o.catalogue.snippets ≠ c.snippets → ∃ change, changes o.events = [change]
  refused : ∀ e, answer = .error e → (∀ detail, e ≠ .unsaved detail) →
    o.catalogue = c ∧ changes o.events = [] ∧ ∃ n, notices o.events = [n] ∧ n.level = .error
  failed : ∀ message, o.answer = .error message →
    ∃ n, (notices o.events).getLast? = some n ∧ n.message = message ∧
      (n.level = .warn ↔ ∃ detail, answer = .error (.unsaved detail))

/-- The outcome of an operation whose result is of no interest. -/
def void (o : Outcome α β) : Outcome α Unit := ⟨o.answer.map fun _ => (), o.events, o.catalogue⟩

theorem Informs.void {c : Catalogue α} {answer : Except CatalogueError Unit} {o : Outcome α β}
    (h : Informs c answer o) : Informs c answer (Management.void o) where
  changed := h.changed
  refused := h.refused
  failed message hMessage := by
    apply h.failed
    have hVoid : (Management.void o).answer = o.answer.map fun _ => () := rfl
    rw [hVoid] at hMessage
    cases hAnswer : o.answer with
    | error m =>
      rw [hAnswer] at hMessage
      exact congrArg Except.error (Except.error.inj hMessage)
    | ok b =>
      rw [hAnswer] at hMessage
      cases hMessage

section Failed

variable {c d : Catalogue α} {e : CatalogueError} {action : String} {id : Option String}

theorem level_eq_warn_iff : e.level = .warn ↔ ∃ detail, e = .unsaved detail := by
  cases e <;> simp [CatalogueError.level]

theorem changes_failed : changes (failed d e action id : Outcome α β).events =
    if e.keepsChange then [⟨action, id⟩] else [] := by
  cases e <;> rfl

theorem notices_failed : notices (failed d e action id : Outcome α β).events =
    [⟨e.level, e.userMessage, d.supply.now⟩] := by
  cases e <;> rfl

theorem informs_failed (h : (∀ detail, e ≠ .unsaved detail) → d = c) :
    Informs c (.error e) (failed d e action id : Outcome α β) where
  changed hChanged := by
    rw [changes_failed]
    cases e with
    | unsaved detail => exact ⟨_, rfl⟩
    | _ => exact absurd (congrArg Catalogue.snippets (h (by simp))) hChanged
  refused e' he' hOther := by
    cases he'
    refine ⟨h hOther, ?_, _, notices_failed, ?_⟩
    · rw [changes_failed]
      cases e with
      | unsaved detail => exact absurd rfl (hOther detail)
      | _ => rfl
    · cases e with
      | unsaved detail => exact absurd rfl (hOther detail)
      | _ => rfl
  failed message hMessage := by
    refine ⟨_, congrArg List.getLast? notices_failed, Except.error.inj hMessage, ?_⟩
    simp only [Except.error.injEq]
    exact level_eq_warn_iff

end Failed

theorem informs_reported {c : Catalogue α} {action : String} {id : Option String}
    {level : Notice.Level} {message : Snippet → String}
    {r : Except CatalogueError Snippet × Catalogue α}
    (h : ∀ e, r.1 = .error e → (∀ detail, e ≠ .unsaved detail) → r.2 = c) :
    Informs c (r.1.map fun _ => ()) (reported action id level message r) := by
  obtain ⟨e | s, d⟩ := r
  · exact informs_failed (h e rfl)
  · refine ⟨fun _ => ⟨_, rfl⟩, ?_, ?_⟩
    · intro e he
      cases he
    · intro m hm
      cases hm

theorem changes_map_told (c : Catalogue α) (level : Notice.Level) {γ : Type} (f : γ → String)
    (l : List γ) : changes (l.map fun e => told c level (f e)) = [] := by
  apply List.filterMap_eq_nil_iff.mpr
  intro event hEvent
  obtain ⟨e, _, rfl⟩ := List.mem_map.mp hEvent
  rfl

section Requests

variable [Archive α]

theorem informs_operation (hArchive : Archive.RefusesAsUnsaved α) {c : Catalogue α} {op : Operation}
    (hLoad : op ≠ .load) {action : String} {id : Option String} {level : Notice.Level}
    {message : Snippet → String} {r : Except CatalogueError Snippet × Catalogue α}
    (hAnswer : c.answer op = r.1.map fun _ => ()) (hPerform : c.perform op = r.2) :
    Informs c (c.answer op) (reported action id level message r) := by
  rw [hAnswer]
  apply informs_reported
  intro e he hOther
  rw [← hPerform]
  apply perform_of_refused hArchive c hLoad _ hOther
  rw [hAnswer, he]
  rfl

theorem changes_importText {c d : Catalogue α} {raw : String} {tally : ImportTally}
    (h : c.importText raw = (.ok tally, d)) :
    changes (importText c raw).events = if tally.imported = 0 then [] else [⟨"import", none⟩] := by
  have hReasons := changes_map_told d .warn skipWarning tally.reasons
  have hRefusal := changes_map_told d .warn CatalogueError.userMessage tally.refusal.toList
  rw [changes] at hReasons hRefusal ⊢
  simp only [importText, h, List.filterMap_append, hReasons, hRefusal, List.append_nil]
  split
  · rfl
  · rfl

theorem catalogue_importText {c d : Catalogue α} {raw : String} {tally : ImportTally}
    (h : c.importText raw = (.ok tally, d)) : (importText c raw).catalogue = d := by
  simp only [importText, h]

theorem informs_importText (hArchive : Archive.RefusesAsUnsaved α) (c : Catalogue α)
    (raw : String) : Informs c (c.answer (.importText raw)) (importText c raw) := by
  cases hImport : c.importText raw with
  | mk result d =>
    cases result with
    | error e =>
      have hAnswer : c.answer (.importText raw) = .error e := by rw [answer, hImport]; rfl
      have hOutcome : importText c raw = failed d e "import" none := by
        simp only [importText, hImport]
      rw [hAnswer, hOutcome]
      apply informs_failed
      intro he
      have hSame := perform_of_refused hArchive c (by simp) hAnswer he
      rwa [perform, hImport] at hSame
    | ok tally =>
      have hAnswer : c.answer (.importText raw) = .ok () := by rw [answer, hImport]; rfl
      obtain ⟨added, hSnippets, hCount⟩ := importText_counts hArchive hImport
      rw [hAnswer]
      refine ⟨?_, ?_, ?_⟩
      · intro hChanged
        rw [changes_importText hImport, if_neg]
        · exact ⟨_, rfl⟩
        · intro hNone
          apply hChanged
          rw [hCount, List.length_eq_zero_iff] at hNone
          rw [catalogue_importText hImport, hSnippets, hNone, List.append_nil]
      · intro e he
        cases he
      · intro m hm
        simp only [importText, hImport] at hm
        cases hm

/-- What can be asked of management; a submitted form is an addition or an update. -/
inductive Request where
  | add (trigger template language : String)
  | update (id : String) (p : Snippet.Patch)
  | submit (f : Snippet.Form)
  | delete (id : String)
  | toggle (id : String)
  | importText (raw : String)

def Request.operation : Request → Operation
  | .add trigger template language => .add trigger template language
  | .update id p => .update id p
  | .submit f =>
    match f.id.filter (· ≠ "") with
    | some id => .update id ⟨some f.trigger, some f.template, some f.language, none⟩
    | none => .add f.trigger f.template f.language
  | .delete id => .delete id
  | .toggle id => .toggle id
  | .importText raw => .importText raw

def respond (c : Catalogue α) : Request → Outcome α Unit
  | .add trigger template language => void (Management.add c trigger template language)
  | .update id p => void (Management.update c id p)
  | .submit f => void (Management.submit c f)
  | .delete id => Management.delete c id
  | .toggle id => void (Management.toggle c id)
  | .importText raw => void (Management.importText c raw)

/-- Every request is told about: by exactly one change event when the list is another, saved or
not, by one notice of an error when it was refused, and always by a last notice of what failed. -/
theorem respond_informs (hArchive : Archive.RefusesAsUnsaved α) (c : Catalogue α) (r : Request) :
    Informs c (c.answer r.operation) (respond c r) := by
  have hAdd (trigger template language : String) :
      Informs c (c.answer (.add trigger template language))
        (Management.add c trigger template language) :=
    informs_operation hArchive (by simp) rfl rfl
  have hUpdate (id : String) (p : Snippet.Patch) :
      Informs c (c.answer (.update id p)) (Management.update c id p) :=
    informs_operation hArchive (by simp) rfl rfl
  cases r with
  | add trigger template language => exact (hAdd trigger template language).void
  | update id p => exact (hUpdate id p).void
  | submit f =>
    rw [Request.operation, respond, submit]
    cases f.id.filter (· ≠ "") with
    | none => exact (hAdd _ _ _).void
    | some id => exact (hUpdate id _).void
  | delete id =>
    have hLoad : Operation.delete id ≠ .load := by simp
    exact (informs_operation hArchive hLoad rfl rfl).void
  | toggle id =>
    have hLoad : Operation.toggle id ≠ .load := by simp
    exact (informs_operation hArchive hLoad rfl rfl).void
  | importText raw => exact (informs_importText hArchive c raw).void

/-- A store that is full keeps the snippet in memory only. -/
theorem respond_informs_unsaved :
    let c : Catalogue Memory := ⟨[], ⟨[], [some "quota exceeded"], none, 0⟩, ⟨fun _ => "1", 0, ""⟩⟩
    let r : Request := .add "fn" "f()" "javascript"
    Archive.RefusesAsUnsaved Memory ∧
      c.answer r.operation = .error (.unsaved "quota exceeded") ∧
      (∃ change, changes (respond c r).events = [change]) ∧
      ∃ n, (notices (respond c r).events).getLast? = some n ∧ n.level = .warn := by
  intro c r
  have hArchive := LawfulArchive.refusesAsUnsaved Memory
  have hAnswer : c.answer r.operation = .error (.unsaved "quota exceeded") := by decide
  obtain ⟨hChanged, _, hFailed⟩ := respond_informs hArchive c r
  have hMessage : (respond c r).answer =
      .error "Error saving snippets. Storage might be full. (quota exceeded)" := by decide
  obtain ⟨n, hLast, _, hLevel⟩ := hFailed _ hMessage
  exact ⟨hArchive, hAnswer, hChanged (by decide), n, hLast, hLevel.mpr ⟨_, hAnswer⟩⟩

end Requests

end Management

end Shorthand
