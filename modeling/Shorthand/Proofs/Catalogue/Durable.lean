import Mathlib.Control.Monad.Basic
import Shorthand.Proofs.Catalogue.Run

/-! # The list and its record

A single operation refuses and changes nothing, or it makes a list and saves it; which of the two it
does, and what list it makes, does not depend on the archive. An import is the additions of its
elements. So the record is always the list as it was when it was last saved.
-/
namespace Shorthand.Catalogue

open Text

section Operations

variable {α β : Type}

def on (c : Catalogue α) (b : β) : Catalogue β := ⟨c.snippets, b, c.supply⟩

/-- The operations that save the list once if they succeed. -/
def Operation.savesOnce : Operation → Bool
  | .add .. | .update .. | .delete _ | .toggle _ => true
  | .importText _ | .load => false

variable [Archive α]

theorem saving_map {γ : Type} (c : Catalogue α) (result : γ) :
    ((c.saving result).1.map fun _ => ()) = (c.saving ()).1 ∧
      (c.saving result).2 = (c.saving ()).2 := by
  refine ⟨?_, rfl⟩
  rw [saving, saving]
  rcases Archive.save c.snippets c.archive with ⟨_ | _, archive⟩ <;> rfl

omit [Archive α] in
theorem on_archive (c : Catalogue α) : c.on c.archive = c := rfl

omit [Archive α] in
theorem get?_on (c : Catalogue α) (b : β) : (c.on b).get? = c.get? := rfl

omit [Archive α] in
theorem isTaken_on (c : Catalogue α) (b : β) : (c.on b).isTaken = c.isTaken := rfl

theorem answer_cases (c : Catalogue α) {op : Operation} (h : op.savesOnce = true) :
    (∃ e, (∀ detail, e ≠ .unsaved detail) ∧ ∀ (β : Type) [Archive β] (b : β),
      (c.on b).answer op = .error e ∧ (c.on b).perform op = c.on b) ∨
    ∃ l supply, ∀ (β : Type) [Archive β] (b : β),
      (c.on b).answer op = (saving ⟨l, b, supply⟩ ()).1 ∧
        (c.on b).perform op = (saving ⟨l, b, supply⟩ ()).2 := by
  cases op with
  | add trigger template language =>
    rcases c.add_cases trigger template language with
      ⟨hEmpty, _⟩ | ⟨hFilled, hTaken, _⟩ | ⟨hFilled, hTaken, _⟩
    · refine .inl ⟨.incomplete "trigger, template and language are required", by simp,
        fun β _ b => ?_⟩
      simp only [answer, perform, add, if_pos hEmpty]
      exact ⟨rfl, trivial⟩
    · refine .inl ⟨.taken (trimmed trigger) language, by simp, fun β _ b => ?_⟩
      simp only [answer, perform, add, if_neg hFilled, isTaken_on, hTaken, if_true]
      exact ⟨rfl, trivial⟩
    · refine .inr ⟨c.snippets ++ [c.newSnippet trigger template language], c.supply.next,
        fun β _ b => ?_⟩
      simp only [answer, perform, add, if_neg hFilled, isTaken_on, hTaken, Bool.false_eq_true,
        if_false]
      exact saving_map _ _
  | update id p =>
    rcases c.update_cases id p with
      ⟨hGet, _⟩ | ⟨s, hGet, ⟨hEmpty, _⟩ | ⟨hFilled, hTaken, _⟩ | ⟨hFilled, hTaken, _⟩⟩
    · refine .inl ⟨.unknown id, by simp, fun β _ b => ?_⟩
      simp only [answer, perform, update, get?_on, hGet]
      exact ⟨rfl, trivial⟩
    · rw [Empties] at hEmpty
      refine .inl ⟨.incomplete "trigger, template and language cannot be empty", by simp,
        fun β _ b => ?_⟩
      simp only [answer, perform, update, get?_on, hGet, if_pos hEmpty]
      exact ⟨rfl, trivial⟩
    · rw [Empties] at hFilled
      rw [updated] at hTaken
      refine .inl ⟨.taken (updated s p).trigger (updated s p).language, by simp, fun β _ b => ?_⟩
      simp only [answer, perform, update, get?_on, hGet, if_neg hFilled, isTaken_on, hTaken,
        if_true]
      exact ⟨rfl, trivial⟩
    · rw [Empties] at hFilled
      rw [updated] at hTaken
      refine .inr ⟨amend id (fun _ => updated s p) c.snippets, c.supply, fun β _ b => ?_⟩
      simp only [answer, perform, update, get?_on, hGet, if_neg hFilled, isTaken_on, hTaken,
        Bool.false_eq_true, if_false]
      exact saving_map _ _
  | delete id =>
    rcases c.delete_cases id with ⟨hGet, _⟩ | ⟨s, hGet, _⟩
    · refine .inl ⟨.unknown id, by simp, fun β _ b => ?_⟩
      simp only [answer, perform, delete, get?_on, hGet]
      exact ⟨rfl, trivial⟩
    · refine .inr ⟨c.snippets.eraseP (·.id = id), c.supply, fun β _ b => ?_⟩
      simp only [answer, perform, delete, get?_on, hGet]
      exact saving_map _ _
  | toggle id =>
    rcases c.toggle_cases id with ⟨hGet, _⟩ | ⟨s, hGet, _⟩
    · refine .inl ⟨.unknown id, by simp, fun β _ b => ?_⟩
      simp only [answer, perform, toggle, get?_on, hGet]
      exact ⟨rfl, trivial⟩
    · refine .inr ⟨amend id (fun _ => { s with isEnabled := !s.isEnabled }) c.snippets, c.supply,
        fun β _ b => ?_⟩
      simp only [answer, perform, toggle, get?_on, hGet]
      exact saving_map _ _
  | importText raw => cases h
  | load => cases h

theorem perform_of_refused (hArchive : Archive.RefusesAsUnsaved α) (c : Catalogue α)
    {op : Operation} (hLoad : op ≠ .load) {e : CatalogueError} (h : c.answer op = .error e)
    (he : ∀ detail, e ≠ .unsaved detail) : c.perform op = c := by
  have hSingle (hOnce : op.savesOnce = true) : c.perform op = c := by
    obtain ⟨_, _, hRefused⟩ | ⟨l, supply, hSaved⟩ := c.answer_cases hOnce
    · exact (hRefused α c.archive).2
    · have hAnswer := (hSaved α c.archive).1
      rw [on_archive, h] at hAnswer
      obtain hOk | ⟨detail, hUnsaved⟩ := answer_saving hArchive ⟨l, c.archive, supply⟩ ()
      · rw [hOk] at hAnswer
        cases hAnswer
      · rw [hUnsaved] at hAnswer
        exact absurd (Except.error.inj hAnswer) (he detail)
  cases op with
  | load => exact absurd rfl hLoad
  | importText raw =>
    obtain ⟨_, hImport⟩ | ⟨_, hImport⟩ := c.importText_cases raw
    · rw [perform, hImport]
    · rw [answer, hImport] at h
      cases h
  | _ => exact hSingle rfl

end Operations

section Lawful

variable {α : Type} [LawfulArchive α]

/-- The catalogue as it would be on a memory with the same record that refuses no save. -/
def reliable (c : Catalogue α) : Catalogue Memory := c.on ⟨c.record, [], none, 0⟩

/-- A single operation changes nothing, or it makes a list that becomes the record unless the save
is refused. -/
theorem single_cases (c : Catalogue α) {op : Operation} (h : op.savesOnce = true) :
    (∃ e, (∀ detail, e ≠ .unsaved detail) ∧ c.answer op = .error e ∧ c.perform op = c) ∨
    (c.reliable.answer op = .ok () ∧
      (c.answer op = .ok () ∧ (c.perform op).record = (c.perform op).snippets ∨
        ∃ detail, c.answer op = .error (.unsaved detail) ∧ (c.perform op).record = c.record)) := by
  rcases c.answer_cases h with ⟨e, he, hRefused⟩ | ⟨l, supply, hSaved⟩
  · obtain ⟨hAnswer, hPerform⟩ := hRefused α c.archive
    exact .inl ⟨e, he, hAnswer, hPerform⟩
  · obtain ⟨hAnswer, hPerform⟩ := hSaved α c.archive
    obtain ⟨hReliable, _⟩ := hSaved Memory ⟨c.record, [], none, 0⟩
    obtain ⟨hSnippets, _, hSave⟩ := saving_cases (⟨l, c.archive, supply⟩ : Catalogue α) ()
    rw [on_archive] at hAnswer hPerform
    rw [← hAnswer, ← hPerform] at hSave
    rw [← hPerform] at hSnippets
    refine .inr ⟨hReliable, ?_⟩
    rw [hSnippets]
    exact hSave

theorem perform_of_error (c : Catalogue α) {op : Operation} {e : CatalogueError}
    (h : c.answer op = .error e) (he : ∀ detail, e ≠ .unsaved detail) : c.perform op = c := by
  by_cases hLoad : op = .load
  · subst hLoad
    obtain hLoaded | ⟨detail, hUnread⟩ := c.load_cases
    · rw [answer, hLoaded] at h
      cases h
    · rw [perform, hUnread]
  · exact perform_of_refused (LawfulArchive.refusesAsUnsaved α) c hLoad h he

theorem savesOnce_of_unsaved (c : Catalogue α) {op : Operation} {detail : String}
    (h : c.answer op = .error (.unsaved detail)) : op.savesOnce = true := by
  cases op with
  | importText raw =>
    rcases c.importText_cases raw with ⟨_, hImport⟩ | ⟨_, hImport⟩
    · rw [answer, hImport] at h
      cases h
    · rw [answer, hImport] at h
      cases h
  | load =>
    rcases c.load_cases with hLoad | ⟨_, hLoad⟩
    · rw [answer, hLoad] at h
      cases h
    · rw [answer, hLoad] at h
      cases h
  | _ => rfl

end Lawful

section Parts

variable {α β : Type}

/-- An import as the additions that it makes, any other operation as it is. -/
def Operation.parts : Operation → List Operation
  | .importText raw => (additions raw).map fun p => .add p.trigger p.template p.language
  | op => [op]

theorem Operation.ne_import_of_mem_parts {op part : Operation} (h : part ∈ op.parts)
    (raw : String) : part ≠ .importText raw := by
  cases op with
  | importText raw' =>
    obtain ⟨p, _, rfl⟩ := List.mem_map.mp h
    simp
  | _ =>
    rw [List.mem_singleton.mp h]
    simp

variable [Archive α]

theorem foldl_perform_parts (c : Catalogue α) (op : Operation) :
    op.parts.foldl perform c = c.perform op := by
  cases op with
  | importText raw =>
    rw [perform, importText_eq_addAll, Operation.parts, List.foldl_map]
    rfl
  | _ => rfl

theorem perform_on (c : Catalogue α) {op : Operation} (h : op ≠ .load) [Archive β] (b : β) :
    ∃ b', (c.on b).perform op = (c.perform op).on b' := by
  have hSingle (c : Catalogue α) (b : β) {op : Operation} (hOnce : op.savesOnce = true) :
      ∃ b', (c.on b).perform op = (c.perform op).on b' := by
    rcases c.answer_cases hOnce with ⟨_, _, hRefused⟩ | ⟨l, supply, hSaved⟩
    · rw [(hRefused β b).2]
      have hSame := (hRefused α c.archive).2
      rw [on_archive] at hSame
      exact ⟨b, hSame.symm ▸ rfl⟩
    · have hSame := (hSaved α c.archive).2
      rw [on_archive] at hSame
      rw [(hSaved β b).2, hSame]
      exact ⟨_, rfl⟩
  have hAdd (ps : List Snippet.Portable) (c : Catalogue α) (b : β) :
      ∃ b', (c.on b).addAll ps = (c.addAll ps).on b' := by
    induction ps generalizing c b with
    | nil => exact ⟨b, rfl⟩
    | cons p ps ih =>
      have hOnce : (Operation.add p.trigger p.template p.language).savesOnce = true := rfl
      obtain ⟨b', hFirst⟩ := hSingle c b hOnce
      obtain ⟨b'', hRest⟩ := ih (c.add p.trigger p.template p.language).2 b'
      refine ⟨b'', ?_⟩
      rw [perform, perform] at hFirst
      rw [addAll, List.foldl_cons, hFirst]
      exact hRest
  cases op with
  | load => exact absurd rfl h
  | importText raw =>
    rw [perform, perform, importText_eq_addAll, importText_eq_addAll]
    exact hAdd (additions raw) c b
  | _ => exact hSingle c b rfl

/-- The list that a single operation saves, if it saves one. -/
def saved? (c : Catalogue α) (op : Operation) : Option (List Snippet) :=
  match op.savesOnce, c.answer op with
  | true, .ok () => some (c.perform op).snippets
  | _, _ => none

def savedByParts (c : Catalogue α) : List Operation → List (List Snippet)
  | [] => []
  | op :: ops => (c.saved? op).toList ++ (c.perform op).savedByParts ops

/-- The lists that were saved in a run, in order. -/
def savedLists (c : Catalogue α) : List Call → List (List Snippet)
  | [] => []
  | call :: calls =>
    (c.atTime call.now).savedByParts call.operation.parts ++
      ((c.atTime call.now).perform call.operation).savedLists calls

end Parts

section Lawful

variable {α : Type} [LawfulArchive α]

theorem getD_getLast?_append {β : Type} (xs ys : List β) (b : β) :
    ys.getLast?.getD (xs.getLast?.getD b) = (xs ++ ys).getLast?.getD b := by
  rw [List.getLast?_append, Option.getD_or]

theorem record_perform (c : Catalogue α) {op : Operation} (h : ∀ raw, op ≠ .importText raw) :
    (c.perform op).record = (c.saved? op).getD c.record := by
  have hSingle (hOnce : op.savesOnce = true) :
      (c.perform op).record = (c.saved? op).getD c.record := by
    rw [saved?, hOnce]
    rcases c.single_cases hOnce with
      ⟨e, _, hAnswer, hSame⟩ | ⟨_, ⟨hAnswer, hRecord⟩ | ⟨_, hAnswer, hRecord⟩⟩
    · rw [hAnswer, hSame]
      rfl
    · rw [hAnswer, hRecord]
      rfl
    · rw [hAnswer, hRecord]
      rfl
  cases op with
  | importText raw => exact absurd rfl (h raw)
  | load =>
    rcases c.load_cases with hLoad | ⟨_, hLoad⟩
    · rw [perform, hLoad]
      rfl
    · rw [perform, hLoad]
      rfl
  | _ => exact hSingle rfl

theorem record_foldl_perform (c : Catalogue α) {ops : List Operation}
    (h : ∀ op ∈ ops, ∀ raw, op ≠ .importText raw) :
    (ops.foldl perform c).record = (c.savedByParts ops).getLast?.getD c.record := by
  induction ops generalizing c with
  | nil => rfl
  | cons op ops ih =>
    have hFirst := c.record_perform (h op List.mem_cons_self)
    have hRest := ih (c.perform op) fun part hPart => h part (List.mem_cons_of_mem _ hPart)
    have hLast : (c.saved? op).toList.getLast? = c.saved? op := by
      cases c.saved? op <;> rfl
    rw [List.foldl_cons, hRest, hFirst, savedByParts, ← getD_getLast?_append, hLast]

theorem record_run (c : Catalogue α) (calls : List Call) :
    (c.run calls).record = (c.savedLists calls).getLast?.getD c.record := by
  induction calls generalizing c with
  | nil => rfl
  | cons call calls ih =>
    have hParts : ∀ part ∈ call.operation.parts, ∀ raw, part ≠ .importText raw :=
      fun _ hPart => Operation.ne_import_of_mem_parts hPart
    have hCall := (c.atTime call.now).record_foldl_perform hParts
    rw [foldl_perform_parts] at hCall
    rw [run_cons, ih, hCall, savedLists, ← getD_getLast?_append]
    rfl

/-- Whatever is refused changes nothing; what succeeds is on record; what could not be saved is in
the list all the same, and the list that an operation makes never depends on its saves. So the
record of a run is the list as it was at the last save that succeeded. -/
theorem record_tracks_list (c : Catalogue α) :
    (∀ op : Operation,
      (∀ e, c.answer op = .error e → (∀ detail, e ≠ .unsaved detail) → c.perform op = c) ∧
      (op.savesOnce = true → c.answer op = .ok () →
        (c.perform op).record = (c.perform op).snippets) ∧
      (∀ detail, c.answer op = .error (.unsaved detail) →
        c.reliable.answer op = .ok () ∧ (c.perform op).record = c.record) ∧
      (op ≠ .load → (c.perform op).snippets = (c.reliable.perform op).snippets)) ∧
    ∀ calls : List Call, (c.run calls).record = (c.savedLists calls).getLast?.getD c.record := by
  refine ⟨fun op => ⟨?_, ?_, ?_, ?_⟩, c.record_run⟩
  · intro e h he
    exact c.perform_of_error h he
  · intro hOnce h
    rcases c.single_cases hOnce with ⟨_, _, hAnswer, _⟩ | ⟨_, ⟨_, hRecord⟩ | ⟨_, hAnswer, _⟩⟩
    · rw [h] at hAnswer
      cases hAnswer
    · exact hRecord
    · rw [h] at hAnswer
      cases hAnswer
  · intro detail h
    rcases c.single_cases (c.savesOnce_of_unsaved h) with
      ⟨_, he, hAnswer, _⟩ | ⟨hReliable, ⟨hAnswer, _⟩ | ⟨_, _, hRecord⟩⟩
    · rw [h] at hAnswer
      cases hAnswer
      exact absurd rfl (he detail)
    · rw [h] at hAnswer
      cases hAnswer
    · exact ⟨hReliable, hRecord⟩
  · intro h
    obtain ⟨b, hOn⟩ := c.perform_on h (⟨c.record, [], none, 0⟩ : Memory)
    rw [reliable, hOn]
    rfl

/-- The first save is refused, the second call collides with what is only in memory, and the third
call saves both. -/
theorem record_tracks_list_full :
    let supply : Supply := ⟨fun n => String.ofList (List.replicate n 'x'), 0, "now"⟩
    let c : Catalogue Memory := new ⟨[], [some "full"], none, 0⟩ supply
    let unsaved := c.perform (.add "log" "a" "js")
    c.answer (.add "log" "a" "js") = .error (.unsaved "full") ∧
      c.reliable.answer (.add "log" "a" "js") = .ok () ∧ unsaved.record = [] ∧
      unsaved.snippets = (c.reliable.perform (.add "log" "a" "js")).snippets ∧
      unsaved.answer (.add "LOG" "b" "js") = .error (.taken "LOG" "js") ∧
      unsaved.perform (.add "LOG" "b" "js") = unsaved ∧
      unsaved.answer (.toggle "") = .ok () ∧
      (unsaved.perform (.toggle "")).record = (unsaved.perform (.toggle "")).snippets := by
  intro supply c unsaved
  obtain ⟨_, _, hUnsaved, hList⟩ := (record_tracks_list c).1 (.add "log" "a" "js")
  obtain ⟨hRefused, _⟩ := (record_tracks_list unsaved).1 (.add "LOG" "b" "js")
  obtain ⟨_, hSaved, _⟩ := (record_tracks_list unsaved).1 (.toggle "")
  have hFull : c.answer (.add "log" "a" "js") = .error (.unsaved "full") := rfl
  have hTaken : unsaved.answer (.add "LOG" "b" "js") = .error (.taken "LOG" "js") := by decide
  have hToggled : unsaved.answer (.toggle "") = .ok () := rfl
  obtain ⟨hReliable, hRecord⟩ := hUnsaved "full" hFull
  exact ⟨hFull, hReliable, hRecord, hList (by simp), hTaken, hRefused _ hTaken (by simp), hToggled,
    hSaved rfl hToggled⟩

end Lawful

end Shorthand.Catalogue
