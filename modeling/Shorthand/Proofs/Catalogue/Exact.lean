import Shorthand.Proofs.Catalogue.WellKept

/-! # What an operation changes

In a catalogue that began empty, every refusal has its own reason and leaves the catalogue as it
was. What is not refused adds, amends or removes one snippet, and the answer is that snippet; all
others stay as they are and where they are.
-/
namespace Shorthand

open Text

theorem Memory.save_of_no_refusals {m : Memory} (h : m.refusals = []) (l : List Snippet) :
    (save l m).1 = .ok () := by
  rw [save, h]

namespace Catalogue

def Lacks (trigger template language : String) : Prop :=
  trimmed trigger = "" ∨ template = "" ∨ language = ""

/-- The error that an addition to the list `l` must fail with. -/
inductive AddDue (l : List Snippet) (trigger template language : String) : CatalogueError → Prop
  | incomplete (h : Lacks trigger template language) :
      AddDue l trigger template language
        (.incomplete "trigger, template and language are required")
  | taken (h : ¬ Lacks trigger template language) {s : Snippet} (hs : s ∈ l)
      (hLanguage : s.language = language)
      (hTrigger : lowered s.trigger = lowered (trimmed trigger)) :
      AddDue l trigger template language (.taken (trimmed trigger) language)

/-- The error that an update in the list `l` must fail with. Only snippets with other identifiers
stand in the way of what the patch makes of its own. -/
inductive UpdateDue (l : List Snippet) (id : String) (p : Snippet.Patch) : CatalogueError → Prop
  | unknown (h : ∀ s ∈ l, s.id ≠ id) : UpdateDue l id p (.unknown id)
  | incomplete {s : Snippet} (hs : s ∈ l) (hId : s.id = id) (h : Empties p) :
      UpdateDue l id p (.incomplete "trigger, template and language cannot be empty")
  | taken {s t : Snippet} (hs : s ∈ l) (hId : s.id = id) (h : ¬ Empties p) (ht : t ∈ l)
      (hOther : t.id ≠ id) (hClash : t.Clashes (updated s p)) :
      UpdateDue l id p (.taken (updated s p).trigger (updated s p).language)

/-- The error that any other operation on one snippet of the list `l` must fail with. -/
inductive FindDue (l : List Snippet) (id : String) : CatalogueError → Prop
  | unknown (h : ∀ s ∈ l, s.id ≠ id) : FindDue l id (.unknown id)

/-- In `l'` stand `ts` where `s` stood in `l`, the only snippet there with the identifier. -/
def Swaps (id : String) (s : Snippet) (ts l l' : List Snippet) : Prop :=
  ∃ front back, l = front ++ s :: back ∧ l' = front ++ ts ++ back ∧ s.id = id ∧
    ∀ u ∈ front ++ back, u.id ≠ id

section Looking

variable {α : Type} {c : Catalogue α} {id : String}

theorem get?_eq_none_iff : c.get? id = none ↔ ∀ s ∈ c.snippets, s.id ≠ id := by
  simp [get?, List.find?_eq_none]

theorem get?_eq_some_iff (h : WellKept c.snippets) {s : Snippet} :
    c.get? id = some s ↔ s ∈ c.snippets ∧ s.id = id := by
  constructor
  · intro hGet
    obtain ⟨front, back, hSplit, hId, _⟩ := amend_eq_of_get? hGet fun _ => s
    exact ⟨by simp [hSplit], hId⟩
  · rintro ⟨hs, rfl⟩
    obtain ⟨front, back, hSplit⟩ := List.append_of_mem hs
    rw [hSplit] at h
    refine List.find?_eq_some_iff_append.mpr ⟨by simp, front, back, hSplit, ?_⟩
    intro t ht
    simpa using h.id_ne t (List.mem_append_left _ ht)

theorem findDue_eq {l : List Snippet} {e : CatalogueError} (h : FindDue l id e) :
    e = .unknown id := by
  cases h
  rfl

theorem not_findDue {s : Snippet} (hGet : c.get? id = some s) (e : CatalogueError) :
    ¬ FindDue c.snippets id e := by
  rintro ⟨hUnknown⟩
  rw [get?_eq_none_iff.mpr hUnknown] at hGet
  cases hGet

theorem swaps_amend (h : WellKept c.snippets) {s : Snippet} (hGet : c.get? id = some s)
    (t : Snippet) : Swaps id s [t] c.snippets (amend id (fun _ => t) c.snippets) := by
  obtain ⟨front, back, hSplit, hId, _, hAmend⟩ := amend_eq_of_get? hGet fun _ => t
  rw [hSplit] at h
  refine ⟨front, back, hSplit, ?_, hId, hId ▸ h.id_ne⟩
  rw [hAmend, List.append_assoc, List.singleton_append]

theorem swaps_erase (h : WellKept c.snippets) {s : Snippet} (hGet : c.get? id = some s) :
    Swaps id s [] c.snippets (c.snippets.eraseP (·.id = id)) := by
  obtain ⟨front, back, hSplit, hId, hFront, _⟩ := amend_eq_of_get? hGet fun _ => s
  rw [hSplit] at h
  refine ⟨front, back, hSplit, ?_, hId, hId ▸ h.id_ne⟩
  rw [hSplit, List.eraseP_append_right _ (by simpa using hFront),
    List.eraseP_cons_of_pos (by simpa using hId), List.append_nil]

end Looking

section Governed

variable {α : Type} {c : Catalogue α}

/-- An operation fails with an error exactly if that error is due, and then leaves the catalogue as
it was. If none is due it answers with a snippet, and `change` holds of it and the list. -/
structure Governed (c : Catalogue α) (result : Except CatalogueError Snippet × Catalogue α)
    (due : CatalogueError → Prop) (change : Snippet → List Snippet → Prop) : Prop where
  error_iff : ∀ e, result.1 = .error e ↔ due e
  unchanged : ∀ e, due e → result.2 = c
  answered : (∀ e, ¬ due e) → ∃ s, result.1 = .ok s ∧ change s result.2.snippets

variable {result : Except CatalogueError Snippet × Catalogue α} {due : CatalogueError → Prop}
  {change : Snippet → List Snippet → Prop}

theorem governed_of_error {e : CatalogueError} (h : result = (.error e, c)) (hDue : due e)
    (hOnly : ∀ e', due e' → e' = e) : Governed c result due change where
  error_iff e' := by
    rw [h]
    constructor
    · rintro ⟨⟩
      exact hDue
    · intro hDue'
      rw [hOnly e' hDue']
  unchanged _ _ := by rw [h]
  answered hNone := absurd hDue (hNone e)

theorem governed_of_ok {s : Snippet} (h : result.1 = .ok s) (hNone : ∀ e, ¬ due e)
    (hChange : change s result.2.snippets) : Governed c result due change where
  error_iff e := by
    rw [h]
    constructor
    · rintro ⟨⟩
    · exact fun hDue => absurd hDue (hNone e)
  unchanged e hDue := absurd hDue (hNone e)
  answered _ := ⟨s, h, hChange⟩

variable [LawfulArchive α] (hKept : c.Kept) (hSaves : ∀ l, (Archive.save l c.archive).1 = .ok ())

include hSaves

theorem governed_of_saving {l : List Snippet} {supply : Supply} {s : Snippet}
    (h : result = { c with snippets := l, supply }.saving s) (hNone : ∀ e, ¬ due e)
    (hChange : change s l) : Governed c result due change := by
  subst h
  exact governed_of_ok (congrArg (Except.map fun (_ : Unit) => s) (hSaves l)) hNone hChange

include hKept

theorem governed_add (trigger template language : String) :
    Governed c (c.add trigger template language) (AddDue c.snippets trigger template language)
      fun s l => s = c.newSnippet trigger template language ∧ l = c.snippets ++ [s] ∧
        ∀ t ∈ c.snippets, t.id ≠ s.id := by
  have hTrimmed : trimmed (trimmed trigger) = trimmed trigger :=
    (isTrimmed_trimmed trigger).trimmed_eq
  obtain ⟨hLacks, hAdd⟩ | ⟨hFilled, hTaken, hAdd⟩ | ⟨hFilled, hFree, hAdd⟩ :=
    c.add_cases trigger template language
  · refine governed_of_error hAdd (.incomplete hLacks) ?_
    intro e hDue
    cases hDue with
    | incomplete _ => rfl
    | taken hFilled => exact absurd hLacks hFilled
  · obtain ⟨s, hs, hLanguage, hTrigger, _⟩ := isTaken_iff.mp hTaken
    rw [hTrimmed] at hTrigger
    refine governed_of_error hAdd (.taken hFilled hs hLanguage hTrigger) ?_
    intro e hDue
    cases hDue with
    | incomplete hLacks => exact absurd hLacks hFilled
    | taken _ _ _ _ => rfl
  · refine governed_of_saving hSaves hAdd ?_ ⟨rfl, rfl, ?_⟩
    · intro e hDue
      cases hDue with
      | incomplete hLacks => exact hFilled hLacks
      | taken _ hs hLanguage hTrigger =>
        have hId := isTaken_eq_false_iff.mp hFree _ hs hLanguage (by rwa [hTrimmed])
        exact Option.some_ne_none _ hId
    · intro t ht
      obtain ⟨n, hn, hId⟩ := hKept.issued t (List.mem_append_left _ ht)
      rw [hId]
      exact fun hSame => Nat.ne_of_lt hn (hKept.distinct n c.supply.issued hSame)

/-- The trigger that an update ends up with has no blanks around it, given or kept. -/
theorem governed_update (id : String) (p : Snippet.Patch) :
    Governed c (c.update id p) (UpdateDue c.snippets id p)
      fun t l => ∃ s, t = updated s p ∧ Swaps id s [t] c.snippets l := by
  obtain ⟨hNone, hUpdate⟩ | ⟨s, hGet, hUpdate⟩ := c.update_cases id p
  · have hUnknown := get?_eq_none_iff.mp hNone
    refine governed_of_error hUpdate (.unknown hUnknown) ?_
    intro e hDue
    cases hDue with
    | unknown _ => rfl
    | incomplete hs hId => exact absurd hId (hUnknown _ hs)
    | taken hs hId => exact absurd hId (hUnknown _ hs)
  · obtain ⟨hs, hId⟩ := (get?_eq_some_iff hKept.listed).mp hGet
    have hSame {t : Snippet} (ht : t ∈ c.snippets) (htId : t.id = id) : t = s := by
      have htGet := (get?_eq_some_iff hKept.listed).mpr ⟨ht, htId⟩
      rw [hGet] at htGet
      exact (Option.some.inj htGet).symm
    obtain ⟨hEmpties, hUpdate⟩ | ⟨hFilled, hTaken, hUpdate⟩ | ⟨hFilled, hFree, hUpdate⟩ := hUpdate
    · refine governed_of_error hUpdate (.incomplete hs hId hEmpties) ?_
      intro e hDue
      cases hDue with
      | unknown hUnknown => exact absurd hId (hUnknown s hs)
      | incomplete _ _ _ => rfl
      | taken _ _ hFilled => exact absurd hEmpties hFilled
    · have hTidy : (updated s p).Tidy := tidy_updated (hKept.listed.tidy s hs) hFilled
      obtain ⟨t, ht, hLanguage, hTrigger, hOther⟩ := isTaken_iff.mp hTaken
      rw [hTidy.isTrimmed.trimmed_eq] at hTrigger
      have hOther : t.id ≠ id := fun htId => hOther (congrArg some htId)
      refine governed_of_error hUpdate (.taken hs hId hFilled ht hOther ⟨hLanguage, hTrigger⟩) ?_
      intro e hDue
      cases hDue with
      | unknown hUnknown => exact absurd hId (hUnknown s hs)
      | incomplete _ _ hEmpties => exact absurd hEmpties hFilled
      | taken hs' hId' => rw [hSame hs' hId']
    · have hTidy : (updated s p).Tidy := tidy_updated (hKept.listed.tidy s hs) hFilled
      refine governed_of_saving hSaves hUpdate ?_
        ⟨s, rfl, swaps_amend hKept.listed hGet (updated s p)⟩
      intro e hDue
      cases hDue with
      | unknown hUnknown => exact hUnknown s hs hId
      | incomplete _ _ hEmpties => exact hFilled hEmpties
      | taken hs' hId' _ ht hOther hClash =>
        rw [hSame hs' hId'] at hClash
        exact not_clashes_of_isTaken hTidy.isTrimmed hFree ht
          (fun htId => hOther (Option.some.inj htId)) hClash

theorem governed_delete (id : String) :
    Governed c (c.delete id) (FindDue c.snippets id) fun s l => Swaps id s [] c.snippets l := by
  obtain ⟨hNone, hDelete⟩ | ⟨s, hGet, hDelete⟩ := c.delete_cases id
  · exact governed_of_error hDelete (.unknown (get?_eq_none_iff.mp hNone)) fun _ => findDue_eq
  · exact governed_of_saving hSaves hDelete (not_findDue hGet) (swaps_erase hKept.listed hGet)

theorem governed_toggle (id : String) :
    Governed c (c.toggle id) (FindDue c.snippets id)
      fun t l => ∃ s, t = { s with isEnabled := !s.isEnabled } ∧ Swaps id s [t] c.snippets l := by
  obtain ⟨hNone, hToggle⟩ | ⟨s, hGet, hToggle⟩ := c.toggle_cases id
  · exact governed_of_error hToggle (.unknown (get?_eq_none_iff.mp hNone)) fun _ => findDue_eq
  · exact governed_of_saving hSaves hToggle (not_findDue hGet)
      ⟨s, rfl, swaps_amend hKept.listed hGet _⟩

end Governed

/-- Whatever was called before and whatever saves failed then, an operation of a catalogue that
began empty changes one snippet and nothing else as soon as saves succeed, unless it is refused for
the first of its reasons that holds. -/
theorem run_changes_one {α : Type} [LawfulArchive α] (archive : α) (supply : Supply)
    (hEmpty : LawfulArchive.record archive = []) (hIds : supply.Distinct) (calls : List Call)
    (now : String)
    (hSaves : ∀ l, (Archive.save l ((new archive supply).run calls).archive).1 = .ok ()) :
    let c := ((new archive supply).run calls).atTime now
    (∀ trigger template language,
      Governed c (c.add trigger template language) (AddDue c.snippets trigger template language)
        fun s l => s = c.newSnippet trigger template language ∧ l = c.snippets ++ [s] ∧
          ∀ t ∈ c.snippets, t.id ≠ s.id) ∧
    (∀ id p,
      Governed c (c.update id p) (UpdateDue c.snippets id p)
        fun t l => ∃ s, t = updated s p ∧ Swaps id s [t] c.snippets l) ∧
    (∀ id,
      Governed c (c.delete id) (FindDue c.snippets id) fun s l => Swaps id s [] c.snippets l) ∧
    ∀ id,
      Governed c (c.toggle id) (FindDue c.snippets id)
        fun t l => ∃ s, t = { s with isEnabled := !s.isEnabled } ∧
          Swaps id s [t] c.snippets l := by
  intro c
  have hKept : c.Kept := ((Kept.new hEmpty hIds).run calls).atTime now
  have hSaves : ∀ l, (Archive.save l c.archive).1 = .ok () := hSaves
  exact ⟨governed_add hKept hSaves, governed_update hKept hSaves, governed_delete hKept hSaves,
    governed_toggle hKept hSaves⟩

/-- The first save is refused and the second one saves both snippets. A trigger in other letters is
taken for the second snippet then, until the first one is removed. -/
theorem run_changes_one_after_refusal :
    let m : Memory := ⟨[], [some "full"], none, 0⟩
    let supply : Supply := ⟨fun n => String.ofList (List.replicate n 'x'), 0, ""⟩
    let calls : List Call := [⟨.add " log " "a" "js", "1"⟩, ⟨.add "fn" "b" "js", "2"⟩]
    let c := ((new m supply).run calls).atTime "3"
    let p : Snippet.Patch := ⟨some " Log ", none, none, none⟩
    LawfulArchive.record m = [] ∧ supply.Distinct ∧
      (∀ l, (Archive.save l ((new m supply).run calls).archive).1 = .ok ()) ∧
      (c.update "x" p).1 = .error (.taken "Log" "js") ∧ (c.update "x" p).2 = c ∧
      ∃ s, (c.delete "").1 = .ok s ∧ Swaps "" s [] c.snippets (c.delete "").2.snippets := by
  intro m supply calls c p
  have hIds : supply.Distinct := Supply.distinct_replicate 'x' 0 ""
  have hRefusals : ((new m supply).run calls).archive.refusals = [] := by decide
  have hSaves (l : List Snippet) :
      (Archive.save l ((new m supply).run calls).archive).1 = .ok () :=
    Memory.save_of_no_refusals hRefusals l
  obtain ⟨_, hUpdate, hDelete, _⟩ := run_changes_one m supply rfl hIds calls "3" hSaves
  let log : Snippet := ⟨"", "log", "a", "js", true, true, "1"⟩
  let fn : Snippet := ⟨"x", "fn", "b", "js", true, true, "2"⟩
  have hSnippets : c.snippets = [log, fn] := by decide
  have hLog : log ∈ c.snippets := by simp [hSnippets]
  have hFn : fn ∈ c.snippets := by simp [hSnippets]
  have hFilled : ¬ Empties p := by
    rw [Empties]
    decide
  have hTaken : UpdateDue c.snippets "x" p (.taken "Log" "js") :=
    .taken (s := fn) hFn rfl hFilled hLog (by decide) ⟨rfl, by decide⟩
  have hFound : ∀ e, ¬ FindDue c.snippets "" e := by
    rintro e ⟨hUnknown⟩
    exact hUnknown log hLog rfl
  exact ⟨rfl, hIds, hSaves, ((hUpdate "x" p).error_iff _).mpr hTaken,
    (hUpdate "x" p).unchanged _ hTaken, (hDelete "").answered hFound⟩

end Catalogue

end Shorthand
