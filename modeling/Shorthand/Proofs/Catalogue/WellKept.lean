import Shorthand.Proofs.Catalogue.Run
import Shorthand.Proofs.Text.Blank

/-! # Well-kept catalogues

However saves and loads fail, a catalogue that began empty keeps its list in order: identifiers are
distinct, so are the lowered triggers of a language, and no field is left empty. A load may go back
to an older list, so the durable list is kept the same way.
-/
namespace Shorthand

open Text

/-- A snippet of the user as a catalogue stores it. -/
structure Snippet.Tidy (s : Snippet) : Prop where
  trigger_ne : s.trigger ≠ ""
  isTrimmed : IsTrimmed s.trigger.toList
  template_ne : s.template ≠ ""
  language_ne : s.language ≠ ""
  isUserDefined : s.isUserDefined = true

def Snippet.Clashes (s t : Snippet) : Prop :=
  s.language = t.language ∧ lowered s.trigger = lowered t.trigger

theorem Snippet.Clashes.symm {s t : Snippet} (h : s.Clashes t) : t.Clashes s :=
  ⟨h.1.symm, h.2.symm⟩

structure WellKept (l : List Snippet) : Prop where
  ids : (l.map Snippet.id).Nodup
  triggers : l.Pairwise fun s t => ¬ s.Clashes t
  tidy : ∀ s ∈ l, s.Tidy

namespace WellKept

variable {l : List Snippet}

theorem nil : WellKept [] := ⟨List.nodup_nil, .nil, by simp⟩

theorem sublist (h : WellKept l) {l' : List Snippet} (hSub : l'.Sublist l) : WellKept l' :=
  ⟨h.ids.sublist (hSub.map _), h.triggers.sublist hSub, fun s hs => h.tidy s (hSub.subset hs)⟩

theorem concat (h : WellKept l) {s : Snippet} (hId : ∀ t ∈ l, t.id ≠ s.id)
    (hTrigger : ∀ t ∈ l, ¬ t.Clashes s) (hTidy : s.Tidy) : WellKept (l ++ [s]) where
  ids := by
    rw [List.map_append, List.nodup_append]
    refine ⟨h.ids, by simp, ?_⟩
    intro a ha b hb
    obtain ⟨t, ht, rfl⟩ := List.mem_map.mp ha
    rw [List.mem_singleton.mp hb]
    exact hId t ht
  triggers := by
    rw [List.pairwise_append]
    refine ⟨h.triggers, by simp, ?_⟩
    intro t ht u hu
    rw [List.mem_singleton.mp hu]
    exact hTrigger t ht
  tidy t ht := by
    rcases List.mem_append.mp ht with ht | ht
    · exact h.tidy t ht
    · rw [List.mem_singleton.mp ht]
      exact hTidy

theorem replace {before after : List Snippet} {s t : Snippet}
    (h : WellKept (before ++ s :: after)) (hId : t.id = s.id)
    (hTrigger : ∀ u ∈ before ++ after, ¬ u.Clashes t) (hTidy : t.Tidy) :
    WellKept (before ++ t :: after) where
  ids := by
    have hIds := h.ids
    rw [List.map_append, List.map_cons] at hIds ⊢
    rwa [hId]
  triggers := by
    have hTriggers := h.triggers
    rw [List.pairwise_append, List.pairwise_cons] at hTriggers ⊢
    obtain ⟨hBefore, ⟨_, hAfter⟩, hAcross⟩ := hTriggers
    refine ⟨hBefore, ⟨?_, hAfter⟩, ?_⟩
    · intro u hu hClash
      exact hTrigger u (List.mem_append_right _ hu) hClash.symm
    · intro u hu v hv
      rcases List.mem_cons.mp hv with rfl | hv
      · exact hTrigger u (List.mem_append_left _ hu)
      · exact hAcross u hu v (List.mem_cons_of_mem _ hv)
  tidy u hu := by
    rcases List.mem_append.mp hu with hu | hu
    · exact h.tidy u (List.mem_append_left _ hu)
    · rcases List.mem_cons.mp hu with rfl | hu
      · exact hTidy
      · exact h.tidy u (List.mem_append_right _ (List.mem_cons_of_mem _ hu))

theorem id_ne {before after : List Snippet} {s : Snippet} (h : WellKept (before ++ s :: after)) :
    ∀ u ∈ before ++ after, u.id ≠ s.id := by
  have hIds := h.ids
  rw [List.map_append, List.map_cons, List.nodup_append, List.nodup_cons] at hIds
  obtain ⟨_, ⟨hAfter, _⟩, hAcross⟩ := hIds
  intro u hu
  rcases List.mem_append.mp hu with hu | hu
  · exact hAcross u.id (List.mem_map_of_mem hu) s.id List.mem_cons_self
  · intro hId
    exact hAfter (hId ▸ List.mem_map_of_mem hu)

theorem not_clashes {before after : List Snippet} {s : Snippet}
    (h : WellKept (before ++ s :: after)) : ∀ u ∈ before ++ after, ¬ u.Clashes s := by
  have hTriggers := h.triggers
  rw [List.pairwise_append, List.pairwise_cons] at hTriggers
  obtain ⟨_, ⟨hAfter, _⟩, hAcross⟩ := hTriggers
  intro u hu
  rcases List.mem_append.mp hu with hu | hu
  · exact hAcross u hu s List.mem_cons_self
  · exact fun hClash => hAfter u hu hClash.symm

theorem eq_of_clashes (h : WellKept l) {s u : Snippet} (hs : s ∈ l) (hu : u ∈ l)
    (hClash : u.Clashes s) : u = s := by
  obtain ⟨before, after, rfl⟩ := List.append_of_mem hs
  rw [List.perm_middle.mem_iff, List.mem_cons] at hu
  obtain hSame | hOther := hu
  · exact hSame
  · exact absurd hClash (h.not_clashes u hOther)

end WellKept

namespace Catalogue

variable {α : Type}

theorem amend_eq_of_get? {c : Catalogue α} {id : String} {s : Snippet} (h : c.get? id = some s)
    (f : Snippet → Snippet) :
    ∃ before after, c.snippets = before ++ s :: after ∧ s.id = id ∧ (∀ t ∈ before, t.id ≠ id) ∧
      amend id f c.snippets = before ++ f s :: after := by
  obtain ⟨hId, before, after, hSplit, hBefore⟩ := List.find?_eq_some_iff_append.mp h
  replace hId : s.id = id := of_decide_eq_true hId
  replace hBefore : ∀ t ∈ before, t.id ≠ id := by
    intro t ht
    simpa using hBefore t ht
  refine ⟨before, after, hSplit, hId, hBefore, ?_⟩
  rw [hSplit]
  clear hSplit h
  induction before with
  | nil => rw [List.nil_append, amend, if_pos hId, List.nil_append]
  | cons t before ih =>
    rw [List.cons_append, amend, if_neg (hBefore t List.mem_cons_self),
      ih (fun u hu => hBefore u (List.mem_cons_of_mem _ hu)), List.cons_append]

theorem isTaken_eq_false_iff {c : Catalogue α} {trigger language : String}
    {except : Option String} :
    c.isTaken trigger language except = false ↔
      ∀ s ∈ c.snippets, s.language = language → lowered s.trigger = lowered (trimmed trigger) →
        some s.id = except := by
  simp [isTaken, List.any_eq_false]

theorem isTaken_iff {c : Catalogue α} {trigger language : String} {except : Option String} :
    c.isTaken trigger language except = true ↔
      ∃ s ∈ c.snippets, s.language = language ∧ lowered s.trigger = lowered (trimmed trigger) ∧
        some s.id ≠ except := by
  simp [isTaken, and_assoc]

theorem not_clashes_of_isTaken {c : Catalogue α} {t : Snippet} {except : Option String}
    (hTrimmed : IsTrimmed t.trigger.toList)
    (h : c.isTaken t.trigger t.language except = false) {s : Snippet} (hs : s ∈ c.snippets)
    (hId : some s.id ≠ except) : ¬ s.Clashes t := by
  rintro ⟨hLanguage, hTrigger⟩
  apply hId
  apply isTaken_eq_false_iff.mp h s hs hLanguage
  rw [hTrimmed.trimmed_eq, hTrigger]

variable [LawfulArchive α]

/-- The list and the durable list are well kept, and their identifiers will not be issued again. -/
structure Kept (c : Catalogue α) : Prop where
  listed : WellKept c.snippets
  recorded : WellKept c.record
  distinct : c.supply.Distinct
  issued : ∀ s ∈ c.snippets ++ c.record, ∃ n < c.supply.issued, s.id = c.supply.id n

theorem Kept.atTime {c : Catalogue α} (h : c.Kept) (now : String) : (c.atTime now).Kept :=
  ⟨h.listed, h.recorded, h.distinct.congr rfl, h.issued⟩

theorem Kept.saving {β : Type} {c : Catalogue α} (h : c.Kept) (l : List Snippet)
    (supply : Supply) (hSupply : supply.id = c.supply.id)
    (hMore : c.supply.issued ≤ supply.issued)
    (hIssued : ∀ s ∈ l, ∃ n < supply.issued, s.id = c.supply.id n) (hList : WellKept l)
    (result : β) :
    ({ c with snippets := l, supply }.saving result).2.Kept := by
  obtain ⟨hSnippets, hSup, hSave⟩ := saving_cases { c with snippets := l, supply } result
  generalize ({ c with snippets := l, supply }.saving result).2 = c' at hSnippets hSup hSave ⊢
  have hRecord : c'.record = l ∨ c'.record = c.record :=
    hSave.imp (fun h => h.2) (fun ⟨_, _, h⟩ => h)
  refine ⟨hSnippets ▸ hList, ?_, hSup ▸ h.distinct.congr hSupply, ?_⟩
  · rcases hRecord with hRecord | hRecord
    · exact hRecord ▸ hList
    · exact hRecord ▸ h.recorded
  · rw [hSnippets, hSup]
    show ∀ s ∈ l ++ c'.record, ∃ n < supply.issued, s.id = supply.id n
    rw [hSupply]
    intro s hs
    -- After a refused save the record is older than the list, but its identifiers were issued too.
    have hMem : s ∈ l ∨ s ∈ c.record := by
      rcases hRecord with hRecord | hRecord
      · rw [hRecord, List.mem_append, or_self] at hs
        exact .inl hs
      · rwa [hRecord, List.mem_append] at hs
    rcases hMem with hs | hs
    · exact hIssued s hs
    · obtain ⟨n, hn, hId⟩ := h.issued s (List.mem_append_right _ hs)
      exact ⟨n, Nat.lt_of_lt_of_le hn hMore, hId⟩

theorem Kept.add {c : Catalogue α} (h : c.Kept) (trigger template language : String) :
    (c.add trigger template language).2.Kept := by
  rcases c.add_cases trigger template language with
    ⟨_, hAdd⟩ | ⟨_, _, hAdd⟩ | ⟨hFilled, hTaken, hAdd⟩
  · rw [hAdd]
    exact h
  · rw [hAdd]
    exact h
  · rw [not_or, not_or] at hFilled
    have hTrimmed := isTrimmed_trimmed trigger
    rw [hAdd]
    refine h.saving _ c.supply.next rfl (Nat.le_succ _) ?_ ?_ _
    · intro s hs
      rcases List.mem_append.mp hs with hs | hs
      · obtain ⟨n, hn, hId⟩ := h.issued s (List.mem_append_left _ hs)
        exact ⟨n, Nat.lt_succ_of_lt hn, hId⟩
      · rw [List.mem_singleton.mp hs]
        exact ⟨c.supply.issued, Nat.lt_succ_self _, rfl⟩
    · apply h.listed.concat
      · intro t ht hId
        obtain ⟨n, hn, hIssued⟩ := h.issued t (List.mem_append_left _ ht)
        exact Nat.ne_of_lt hn (h.distinct n c.supply.issued (hIssued.symm.trans hId))
      · intro t ht
        exact not_clashes_of_isTaken (t := c.newSnippet trigger template language) hTrimmed hTaken
          ht (Option.some_ne_none _)
      · exact ⟨hFilled.1, hTrimmed, hFilled.2.1, hFilled.2.2, rfl⟩

theorem Kept.amend {c : Catalogue α} (h : c.Kept) {id : String} {s : Snippet}
    (hGet : c.get? id = some s) (t : Snippet) (hId : t.id = s.id) (hTidy : s.Tidy → t.Tidy)
    (hTrigger : ∀ u ∈ c.snippets, u.id ≠ id → ¬ u.Clashes s → ¬ u.Clashes t)
    {β : Type} (result : β) :
    ({ c with snippets := amend id (fun _ => t) c.snippets }.saving result).2.Kept := by
  obtain ⟨before, after, hSplit, hs, _, hAmend⟩ := amend_eq_of_get? hGet (fun _ => t)
  have hListed := h.listed
  have hIssued := h.issued
  rw [hSplit] at hListed hTrigger hIssued
  rw [hAmend]
  refine h.saving _ c.supply rfl (Nat.le_refl _) ?_ ?_ result
  · intro u hu
    rcases List.mem_append.mp hu with hu | hu
    · exact hIssued u (List.mem_append_left _ (List.mem_append_left _ hu))
    · rcases List.mem_cons.mp hu with rfl | hu
      · rw [hId]
        exact hIssued s (by simp)
      · exact hIssued u (by simp [hu])
  · apply hListed.replace hId _ (hTidy (hListed.tidy s (by simp)))
    intro u hu
    have hMem : u ∈ before ++ s :: after := by
      rcases List.mem_append.mp hu with hu | hu
      · exact List.mem_append_left _ hu
      · exact List.mem_append_right _ (List.mem_cons_of_mem _ hu)
    exact hTrigger u hMem (hs ▸ hListed.id_ne u hu) (hListed.not_clashes u hu)

theorem tidy_updated {s : Snippet} {p : Snippet.Patch} (hs : s.Tidy) (hFilled : ¬ Empties p) :
    (updated s p).Tidy := by
  obtain ⟨trigger, template, language, isEnabled⟩ := p
  simp only [Empties, not_or] at hFilled
  obtain ⟨hTrigger, hTemplate, hLanguage⟩ := hFilled
  refine ⟨?_, ?_, ?_, ?_, hs.isUserDefined⟩
  · cases trigger with
    | none => exact hs.trigger_ne
    | some trigger => exact fun h => hTrigger (congrArg some h)
  · cases trigger with
    | none => exact hs.isTrimmed
    | some trigger => exact isTrimmed_trimmed trigger
  · cases template with
    | none => exact hs.template_ne
    | some template => exact fun h => hTemplate (congrArg some h)
  · cases language with
    | none => exact hs.language_ne
    | some language => exact fun h => hLanguage (congrArg some h)

theorem Kept.update {c : Catalogue α} (h : c.Kept) (id : String) (p : Snippet.Patch) :
    (c.update id p).2.Kept := by
  rcases c.update_cases id p with
    ⟨_, hUpdate⟩ | ⟨s, hGet, ⟨_, hUpdate⟩ | ⟨_, _, hUpdate⟩ | ⟨hFilled, hTaken, hUpdate⟩⟩
  · rw [hUpdate]
    exact h
  · rw [hUpdate]
    exact h
  · rw [hUpdate]
    exact h
  · have hTidy : (updated s p).Tidy :=
      tidy_updated (h.listed.tidy s (List.mem_of_find?_eq_some hGet)) hFilled
    rw [hUpdate]
    refine h.amend hGet (updated s p) rfl (fun _ => hTidy) ?_ _
    intro u hu hId _
    exact not_clashes_of_isTaken hTidy.isTrimmed hTaken hu (fun he => hId (Option.some.inj he))

theorem Kept.delete {c : Catalogue α} (h : c.Kept) (id : String) : (c.delete id).2.Kept := by
  rcases c.delete_cases id with ⟨_, hDelete⟩ | ⟨s, _, hDelete⟩
  · rw [hDelete]
    exact h
  · rw [hDelete]
    refine h.saving _ c.supply rfl (Nat.le_refl _) ?_ (h.listed.sublist List.eraseP_sublist) s
    intro t ht
    exact h.issued t (List.mem_append_left _ (List.eraseP_subset ht))

theorem Kept.toggle {c : Catalogue α} (h : c.Kept) (id : String) : (c.toggle id).2.Kept := by
  rcases c.toggle_cases id with ⟨_, hToggle⟩ | ⟨s, hGet, hToggle⟩
  · rw [hToggle]
    exact h
  · rw [hToggle]
    exact h.amend hGet { s with isEnabled := !s.isEnabled } rfl
      (fun hs => ⟨hs.trigger_ne, hs.isTrimmed, hs.template_ne, hs.language_ne, hs.isUserDefined⟩)
      (fun _ _ _ hClash => hClash) _

theorem Kept.load {c : Catalogue α} (h : c.Kept) : c.load.2.Kept := by
  rcases c.load_cases with hLoad | ⟨_, hLoad⟩
  · rw [hLoad]
    refine ⟨h.recorded, h.recorded, h.distinct, ?_⟩
    intro s hs
    apply h.issued s
    rcases List.mem_append.mp hs with hs | hs
    · exact List.mem_append_right _ hs
    · exact List.mem_append_right _ hs
  · rw [hLoad]
    exact h

theorem Kept.perform {c : Catalogue α} (h : c.Kept) (op : Operation) : (c.perform op).Kept := by
  cases op with
  | add trigger template language => exact h.add trigger template language
  | update id p => exact h.update id p
  | delete id => exact h.delete id
  | toggle id => exact h.toggle id
  | importText raw => exact importText_keeps (fun _ _ _ _ h => h.add _ _ _) h raw
  | load => exact h.load

theorem Kept.run {c : Catalogue α} (h : c.Kept) (calls : List Call) : (c.run calls).Kept := by
  induction calls generalizing c with
  | nil => exact h
  | cons call calls ih => exact ih ((h.atTime call.now).perform call.operation)

theorem Kept.new {archive : α} {supply : Supply} (hEmpty : LawfulArchive.record archive = [])
    (hIds : supply.Distinct) : (Catalogue.new archive supply).Kept := by
  refine ⟨.nil, ?_, hIds, ?_⟩
  · rw [record, Catalogue.new, hEmpty]
    exact .nil
  · rw [record, Catalogue.new, hEmpty]
    exact fun s hs => absurd hs List.not_mem_nil

/-- Whatever is called and however saves and loads fail, a catalogue that began empty on an empty
archive is well kept, and so is what its archive holds. -/
theorem wellKept_run (archive : α) (supply : Supply)
    (hEmpty : LawfulArchive.record archive = []) (hIds : supply.Distinct) (calls : List Call) :
    WellKept ((new archive supply).run calls).snippets ∧
      WellKept ((new archive supply).run calls).record := by
  have h := (Kept.new hEmpty hIds).run calls
  exact ⟨h.listed, h.recorded⟩

/-- The second save is refused, and the load behind it forgets what was not saved. -/
theorem wellKept_run_refused :
    let m : Memory := ⟨[], [none, some "full"], none, 0⟩
    let supply : Supply := ⟨fun n => String.ofList (List.replicate n 'x'), 0, ""⟩
    let calls : List Call := [⟨.add " log " "a" "js", "1"⟩, ⟨.add "fn" "b" "js", "2"⟩,
      ⟨.load, "3"⟩, ⟨.add "LOG" "c" "js", "4"⟩, ⟨.add "Fn" "d" "js", "5"⟩]
    LawfulArchive.record m = [] ∧ supply.Distinct ∧
      ((new m supply).run calls).snippets.map Snippet.trigger = ["log", "Fn"] ∧
      WellKept ((new m supply).run calls).snippets ∧
      WellKept ((new m supply).run calls).record := by
  intro m supply calls
  have hIds : supply.Distinct := Supply.distinct_replicate 'x' 0 ""
  exact ⟨rfl, hIds, by decide, wellKept_run m supply rfl hIds calls⟩

end Catalogue

end Shorthand
