import Shorthand.Catalogue.Exchange

/-! # Runs of a catalogue

What each operation can do: it refuses, and then the catalogue is as it was, or it changes the list
and saves. An import is a run of additions. Every call of a run is made at a moment of its own.
-/
namespace Shorthand

/-- No identifier is issued twice. -/
def Supply.Distinct (supply : Supply) : Prop := ∀ m n, supply.id m = supply.id n → m = n

theorem Supply.Distinct.congr {a b : Supply} (h : a.Distinct) (hId : b.id = a.id) : b.Distinct := by
  rw [Distinct, hId]
  exact h

theorem Supply.distinct_replicate (c : Char) (issued : Nat) (now : String) :
    Supply.Distinct ⟨fun n => String.ofList (List.replicate n c), issued, now⟩ := by
  intro i j h
  have hLength := congrArg List.length (String.ofList_injective h)
  rwa [List.length_replicate, List.length_replicate] at hLength

/-- A save of the archive can only fail in that the list is not written. -/
def Archive.RefusesAsUnsaved (α : Type) [Archive α] : Prop :=
  ∀ (l : List Snippet) (a : α), (Archive.save l a).1 = .ok () ∨
    ∃ detail, (Archive.save l a).1 = .error (.unsaved detail)

theorem LawfulArchive.refusesAsUnsaved (α : Type) [LawfulArchive α] :
    Archive.RefusesAsUnsaved α := by
  intro l a
  obtain ⟨hSaved, _⟩ | ⟨detail, hSaved, _⟩ := LawfulArchive.save_eq l a
  · exact .inl hSaved
  · exact .inr ⟨detail, hSaved⟩

namespace Catalogue

open Text

inductive Operation where
  | add (trigger template language : String)
  | update (id : String) (p : Snippet.Patch)
  | delete (id : String)
  | toggle (id : String)
  | importText (raw : String)
  | load

structure Call where
  operation : Operation
  now : String

section Operations

variable {α : Type} [Archive α]

def perform (c : Catalogue α) : Operation → Catalogue α
  | .add trigger template language => (c.add trigger template language).2
  | .update id p => (c.update id p).2
  | .delete id => (c.delete id).2
  | .toggle id => (c.toggle id).2
  | .importText raw => (c.importText raw).2
  | .load => c.load.2

/-- What an operation answers, its result aside. -/
def answer (c : Catalogue α) : Operation → Except CatalogueError Unit
  | .add trigger template language => (c.add trigger template language).1.map fun _ => ()
  | .update id p => (c.update id p).1.map fun _ => ()
  | .delete id => (c.delete id).1.map fun _ => ()
  | .toggle id => (c.toggle id).1.map fun _ => ()
  | .importText raw => (c.importText raw).1.map fun _ => ()
  | .load => c.load.1

def atTime (c : Catalogue α) (now : String) : Catalogue α :=
  { c with supply := { c.supply with now } }

def run (c : Catalogue α) (calls : List Call) : Catalogue α :=
  calls.foldl (fun c call => (c.atTime call.now).perform call.operation) c

theorem run_cons (c : Catalogue α) (call : Call) (calls : List Call) :
    c.run (call :: calls) = ((c.atTime call.now).perform call.operation).run calls := rfl

def newSnippet (c : Catalogue α) (trigger template language : String) : Snippet where
  id := c.supply.id c.supply.issued
  trigger := trimmed trigger
  template
  language
  isUserDefined := true
  isEnabled := true
  createdAt := c.supply.now

theorem add_cases (c : Catalogue α) (trigger template language : String) :
    ((trimmed trigger = "" ∨ template = "" ∨ language = "") ∧
      c.add trigger template language =
        (.error (.incomplete "trigger, template and language are required"), c)) ∨
    (¬ (trimmed trigger = "" ∨ template = "" ∨ language = "") ∧
      c.isTaken (trimmed trigger) language none = true ∧
      c.add trigger template language = (.error (.taken (trimmed trigger) language), c)) ∨
    (¬ (trimmed trigger = "" ∨ template = "" ∨ language = "") ∧
      c.isTaken (trimmed trigger) language none = false ∧
      c.add trigger template language =
        { c with
          snippets := c.snippets ++ [c.newSnippet trigger template language]
          supply := c.supply.next }.saving (c.newSnippet trigger template language)) := by
  by_cases hEmpty : trimmed trigger = "" ∨ template = "" ∨ language = ""
  · refine .inl ⟨hEmpty, ?_⟩
    simp only [add, if_pos hEmpty]
  · refine .inr ?_
    cases hTaken : c.isTaken (trimmed trigger) language none with
    | true =>
      refine .inl ⟨hEmpty, rfl, ?_⟩
      simp only [add, if_neg hEmpty, hTaken, if_true]
    | false =>
      refine .inr ⟨hEmpty, rfl, ?_⟩
      simp only [add, if_neg hEmpty, hTaken, Bool.false_eq_true, if_false]
      rfl

/-- The snippet that an update makes of `s`. -/
def updated (s : Snippet) (p : Snippet.Patch) : Snippet :=
  { s with
    trigger := (p.trigger.map trimmed).getD s.trigger
    template := p.template.getD s.template
    language := p.language.getD s.language
    isEnabled := p.isEnabled.getD s.isEnabled }

def Empties (p : Snippet.Patch) : Prop :=
  p.trigger.map trimmed = some "" ∨ p.template = some "" ∨ p.language = some ""

theorem update_cases (c : Catalogue α) (id : String) (p : Snippet.Patch) :
    (c.get? id = none ∧ c.update id p = (.error (.unknown id), c)) ∨
    ∃ s, c.get? id = some s ∧
      ((Empties p ∧ c.update id p =
        (.error (.incomplete "trigger, template and language cannot be empty"), c)) ∨
      (¬ Empties p ∧ c.isTaken (updated s p).trigger (updated s p).language (some id) = true ∧
        c.update id p = (.error (.taken (updated s p).trigger (updated s p).language), c)) ∨
      (¬ Empties p ∧ c.isTaken (updated s p).trigger (updated s p).language (some id) = false ∧
        c.update id p =
          { c with snippets := amend id (fun _ => updated s p) c.snippets }.saving
            (updated s p))) := by
  cases hGet : c.get? id with
  | none =>
    refine .inl ⟨rfl, ?_⟩
    simp only [update, hGet]
  | some s =>
    refine .inr ⟨s, rfl, ?_⟩
    by_cases hEmpty : Empties p
    · refine .inl ⟨hEmpty, ?_⟩
      rw [Empties] at hEmpty
      simp only [update, hGet, if_pos hEmpty]
    · refine .inr ?_
      have hFilled := hEmpty
      rw [Empties] at hFilled
      cases hTaken : c.isTaken ((p.trigger.map trimmed).getD s.trigger)
        (p.language.getD s.language) (some id) with
      | true =>
        refine .inl ⟨hEmpty, hTaken, ?_⟩
        simp only [update, hGet, if_neg hFilled, hTaken, if_true]
        rfl
      | false =>
        refine .inr ⟨hEmpty, hTaken, ?_⟩
        simp only [update, hGet, if_neg hFilled, hTaken, Bool.false_eq_true, if_false]
        rfl

theorem delete_cases (c : Catalogue α) (id : String) :
    (c.get? id = none ∧ c.delete id = (.error (.unknown id), c)) ∨
    ∃ s, c.get? id = some s ∧
      c.delete id = { c with snippets := c.snippets.eraseP (·.id = id) }.saving s := by
  rw [delete]
  cases hGet : c.get? id with
  | none => exact .inl ⟨rfl, rfl⟩
  | some s => exact .inr ⟨s, rfl, rfl⟩

theorem toggle_cases (c : Catalogue α) (id : String) :
    (c.get? id = none ∧ c.toggle id = (.error (.unknown id), c)) ∨
    ∃ s, c.get? id = some s ∧
      c.toggle id =
        { c with
          snippets := amend id (fun _ => { s with isEnabled := !s.isEnabled }) c.snippets }.saving
          { s with isEnabled := !s.isEnabled } := by
  rw [toggle]
  cases hGet : c.get? id with
  | none => exact .inl ⟨rfl, rfl⟩
  | some s => exact .inr ⟨s, rfl, rfl⟩

theorem load_new {archive : α} {l : List Snippet} (h : Archive.load archive = .ok l)
    (supply : Supply) : (new archive supply).load = (.ok (), ⟨l, archive, supply⟩) := by
  simp only [load, new, h]

theorem load_new_error {archive : α} {e : CatalogueError} (h : Archive.load archive = .error e)
    (supply : Supply) : (new archive supply).load = (.error e, new archive supply) := by
  simp only [load, new, h]

/-- What the elements of a text ask to be added; those that are no snippets ask for nothing. -/
def additions (raw : String) : List Snippet.Portable :=
  (((Json.Tree.parseValue? raw.toList).bind Json.Tree.items?).getD []).filterMap candidate?

def addAll (c : Catalogue α) (ps : List Snippet.Portable) : Catalogue α :=
  ps.foldl (fun c p => (c.add p.trigger p.template p.language).2) c

theorem importItem_none (summary : ImportTally) (c : Catalogue α) {item : Json.Tree}
    (h : candidate? item = none) : (importItem (summary, c) item).2 = c := by
  simp only [importItem, h]

theorem importItem_some (summary : ImportTally) (c : Catalogue α) {item : Json.Tree}
    {p : Snippet.Portable} (h : candidate? item = some p) :
    (importItem (summary, c) item).2 = (c.add p.trigger p.template p.language).2 := by
  simp only [importItem, h]
  split
  next h => rw [h]
  next h => rw [h]
  next h => rw [h]

theorem importText_eq_addAll (c : Catalogue α) (raw : String) :
    (c.importText raw).2 = c.addAll (additions raw) := by
  have hItems (items : List Json.Tree) (state : ImportTally × Catalogue α) :
      (items.foldl importItem state).2 = state.2.addAll (items.filterMap candidate?) := by
    induction items generalizing state with
    | nil => rfl
    | cons item items ih =>
      obtain ⟨summary, c⟩ := state
      rw [List.foldl_cons, ih]
      cases hItem : candidate? item with
      | none => rw [importItem_none summary c hItem, List.filterMap_cons_none hItem]
      | some p =>
        rw [importItem_some summary c hItem, List.filterMap_cons_some hItem]
        rfl
  rw [importText, additions]
  split
  next h =>
    rw [h]
    rfl
  next t h =>
    rw [h, Option.bind_some]
    cases t.items? with
    | none => rfl
    | some items => exact hItems items (.start, c)

theorem importText_cases (c : Catalogue α) (raw : String) :
    (∃ detail, c.importText raw = (.error (.notImportable detail), c)) ∨
      ∃ tally, (c.importText raw).1 = .ok tally := by
  rw [importText]
  split
  next => exact .inl ⟨_, rfl⟩
  next t _ =>
    cases t.items? with
    | none => exact .inl ⟨_, rfl⟩
    | some items => exact .inr ⟨_, rfl⟩

theorem importText_keeps {P : Catalogue α → Prop}
    (hAdd : ∀ c trigger template language, P c → P (c.add trigger template language).2)
    {c : Catalogue α} (h : P c) (raw : String) : P (c.importText raw).2 := by
  rw [importText_eq_addAll]
  generalize additions raw = ps
  induction ps generalizing c with
  | nil => exact h
  | cons p ps ih => exact ih (hAdd c _ _ _ h)

end Operations

theorem answer_saving {α β : Type} [Archive α] (hArchive : Archive.RefusesAsUnsaved α)
    (c : Catalogue α) (result : β) :
    (c.saving result).1 = .ok result ∨
      ∃ detail, (c.saving result).1 = .error (.unsaved detail) := by
  have hAnswer : (c.saving result).1 = (Archive.save c.snippets c.archive).1.map fun _ => result :=
    rfl
  rw [hAnswer]
  obtain hSaved | ⟨detail, hSaved⟩ := hArchive c.snippets c.archive
  · rw [hSaved]
    exact .inl rfl
  · rw [hSaved]
    exact .inr ⟨detail, rfl⟩

section Lawful

variable {α β : Type} [LawfulArchive α]

def record (c : Catalogue α) : List Snippet := LawfulArchive.record c.archive

theorem saving_cases (c : Catalogue α) (result : β) :
    (c.saving result).2.snippets = c.snippets ∧ (c.saving result).2.supply = c.supply ∧
      ((c.saving result).1 = .ok result ∧ (c.saving result).2.record = c.snippets ∨
        ∃ detail, (c.saving result).1 = .error (.unsaved detail) ∧
          (c.saving result).2.record = c.record) := by
  refine ⟨rfl, rfl, ?_⟩
  rcases LawfulArchive.save_eq c.snippets c.archive with
    ⟨hSaved, hRecord⟩ | ⟨detail, hSaved, hRecord⟩
  · exact .inl ⟨congrArg (Except.map fun (_ : Unit) => result) hSaved, hRecord⟩
  · exact .inr ⟨detail, congrArg (Except.map fun (_ : Unit) => result) hSaved, hRecord⟩

theorem saving_eq (c : Catalogue α) (result : β) :
    ∃ archive, c.saving result = (.ok result, { c with archive }) ∨
      ∃ detail, c.saving result = (.error (.unsaved detail), { c with archive }) := by
  obtain ⟨_, _, ⟨hOk, _⟩ | ⟨detail, hUnsaved, _⟩⟩ := c.saving_cases result
  · exact ⟨(c.saving result).2.archive, .inl (Prod.ext hOk rfl)⟩
  · exact ⟨(c.saving result).2.archive, .inr ⟨detail, Prod.ext hUnsaved rfl⟩⟩

theorem load_cases (c : Catalogue α) :
    c.load = (.ok (), { c with snippets := c.record }) ∨
      ∃ detail, c.load = (.error (.unreadable detail), c) := by
  rw [load]
  rcases LawfulArchive.load_eq c.archive with hLoad | ⟨detail, hLoad⟩
  · rw [hLoad]
    exact .inl rfl
  · rw [hLoad]
    exact .inr ⟨detail, rfl⟩

end Lawful

end Catalogue

end Shorthand
