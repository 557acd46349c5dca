import Mathlib.Data.List.Nodup
import Shorthand.Proofs.Catalogue.File
import Shorthand.Proofs.Catalogue.WellKept

/-! # When an update makes a clash

A file may hold triggers with blanks around them. An update looks for its trigger without such
blanks, but a patch that gives no trigger leaves them there. So a snippet may come to a language in
which another one has the same trigger, blanks and all. No other update makes a clash.
-/
namespace Shorthand

open Text

instance (s t : Snippet) : Decidable (s.Clashes t) :=
  inferInstanceAs (Decidable (s.language = t.language ∧ lowered s.trigger = lowered t.trigger))

/-- No two snippets of a language have the same trigger, letter case aside. -/
def Unambiguous (l : List Snippet) : Prop := l.Pairwise fun s t => ¬ s.Clashes t

instance (l : List Snippet) : Decidable (Unambiguous l) :=
  inferInstanceAs (Decidable (l.Pairwise fun s t => ¬ s.Clashes t))

theorem unambiguous_middle {before after : List Snippet} {s : Snippet} :
    Unambiguous (before ++ s :: after) ↔
      (∀ t ∈ before ++ after, ¬ t.Clashes s) ∧ Unambiguous (before ++ after) := by
  rw [Unambiguous, List.pairwise_middle fun h hClash => h hClash.symm, List.pairwise_cons]
  refine and_congr_left fun _ => forall₂_congr fun t _ => ?_
  exact not_congr ⟨Snippet.Clashes.symm, Snippet.Clashes.symm⟩

theorem id_ne_of_nodup {before after : List Snippet} {s : Snippet}
    (h : ((before ++ s :: after).map Snippet.id).Nodup) : ∀ t ∈ before ++ after, t.id ≠ s.id := by
  rw [List.map_append, List.map_cons, List.nodup_middle, List.nodup_cons, ← List.map_append] at h
  intro t ht hId
  exact h.1 (hId ▸ List.mem_map_of_mem ht)

namespace Catalogue

/-- An update of the list `l` overlooks that `t` has the trigger of `s`. The patch gives no trigger
and moves `s` to the language of `t`, where nobody has the trigger without the blanks around it. -/
structure Overlooks (l : List Snippet) (id : String) (p : Snippet.Patch) (s t : Snippet) :
    Prop where
  mem : s ∈ l
  id_eq : s.id = id
  trigger : p.trigger = none
  filled : ¬ Empties p
  moved : (updated s p).language ≠ s.language
  other : t ∈ l
  id_ne : t.id ≠ id
  clashes : t.Clashes (updated s p)
  free : ∀ u ∈ l, u.id ≠ id → u.language = (updated s p).language →
    lowered u.trigger ≠ lowered (trimmed s.trigger)

variable {s t : Snippet} {p : Snippet.Patch}

theorem updated_trigger_of_none (h : p.trigger = none) : (updated s p).trigger = s.trigger := by
  rw [updated, h]
  rfl

theorem updated_trigger_of_some {trigger : String} (h : p.trigger = some trigger) :
    (updated s p).trigger = trimmed trigger := by
  rw [updated, h]
  rfl

theorem updated_language_of_none (h : p.language = none) : (updated s p).language = s.language := by
  rw [updated, h]
  rfl

theorem Overlooks.not_isTrimmed {l : List Snippet} {id : String} (h : Overlooks l id p s t) :
    ¬ IsTrimmed s.trigger.toList := by
  intro hTrimmed
  apply h.free t h.other h.id_ne h.clashes.1
  rw [hTrimmed.trimmed_eq, h.clashes.2, updated_trigger_of_none h.trigger]

section Update

variable {α : Type} {c : Catalogue α} {before after : List Snippet}

theorem overlooks_of_clashes (hSplit : c.snippets = before ++ s :: after)
    (hIds : (c.snippets.map Snippet.id).Nodup) (hApart : Unambiguous c.snippets)
    (hFilled : ¬ Empties p)
    (hFree : c.isTaken (updated s p).trigger (updated s p).language (some s.id) = false)
    (ht : t ∈ before ++ after) (hClash : t.Clashes (updated s p)) :
    Overlooks c.snippets s.id p s t := by
  have hMem {u : Snippet} : u ∈ c.snippets ↔ u = s ∨ u ∈ before ++ after := by
    rw [hSplit, List.perm_middle.mem_iff, List.mem_cons]
  have hOther : t ∈ c.snippets := hMem.mpr (.inr ht)
  have hId : t.id ≠ s.id := id_ne_of_nodup (hSplit ▸ hIds) t ht
  have hUntaken := isTaken_eq_false_iff.mp hFree
  cases hTrigger : p.trigger with
  | some trigger =>
    -- A trigger that is given is compared as it will be stored.
    have hStored := updated_trigger_of_some (s := s) hTrigger
    have hSame := hUntaken t hOther hClash.1
    rw [hClash.2, hStored, (isTrimmed_trimmed trigger).trimmed_eq] at hSame
    exact absurd (Option.some.inj (hSame rfl)) hId
  | none =>
    have hKept := updated_trigger_of_none (s := s) hTrigger
    refine ⟨hMem.mpr (.inl rfl), rfl, hTrigger, hFilled, ?_, hOther, hId, hClash, ?_⟩
    · intro hLanguage
      have hBefore : t.Clashes s := ⟨hClash.1.trans hLanguage, hKept ▸ hClash.2⟩
      exact (unambiguous_middle.mp (hSplit ▸ hApart)).1 t ht hBefore
    · intro u hu huId huLanguage huTrigger
      rw [← hKept] at huTrigger
      exact huId (Option.some.inj (hUntaken u hu huLanguage huTrigger))

theorem unambiguous_updated_iff (hSplit : c.snippets = before ++ s :: after)
    (hIds : (c.snippets.map Snippet.id).Nodup) (hApart : Unambiguous c.snippets)
    (hFilled : ¬ Empties p)
    (hFree : c.isTaken (updated s p).trigger (updated s p).language (some s.id) = false) :
    Unambiguous (before ++ updated s p :: after) ↔
      ∀ t, ¬ Overlooks c.snippets s.id p s t := by
  have hRest := (unambiguous_middle.mp (hSplit ▸ hApart)).2
  rw [unambiguous_middle]
  constructor
  · rintro ⟨hClash, _⟩ t h
    have hMem := h.other
    rw [hSplit, List.perm_middle.mem_iff, List.mem_cons] at hMem
    have hNe : t ≠ s := fun hSame => h.id_ne (congrArg Snippet.id hSame)
    exact hClash t (hMem.resolve_left hNe) h.clashes
  · intro hNone
    refine ⟨?_, hRest⟩
    intro t ht hClash
    exact hNone t (overlooks_of_clashes hSplit hIds hApart hFilled hFree ht hClash)

variable [Archive α]

theorem unambiguous_update_iff (hIds : (c.snippets.map Snippet.id).Nodup)
    (hApart : Unambiguous c.snippets) (id : String) :
    Unambiguous (c.update id p).2.snippets ↔ ∀ s t, ¬ Overlooks c.snippets id p s t := by
  obtain ⟨hNone, hUpdate⟩ | ⟨s, hGet, hUpdate⟩ := c.update_cases id p
  · rw [hUpdate]
    refine iff_of_true hApart ?_
    intro s t h
    exact List.find?_eq_none.mp hNone s h.mem (decide_eq_true h.id_eq)
  · obtain ⟨before, after, hSplit, rfl, _, hAmend⟩ := amend_eq_of_get? hGet fun _ => updated s p
    have hs : s ∈ c.snippets := by simp [hSplit]
    have hFound {s' t : Snippet} (h : Overlooks c.snippets s.id p s' t) : s' = s :=
      List.inj_on_of_nodup_map hIds h.mem hs h.id_eq
    obtain ⟨hEmpties, hUpdate⟩ | ⟨_, hTaken, hUpdate⟩ | ⟨hFilled, hFree, hUpdate⟩ := hUpdate
    · rw [hUpdate]
      exact iff_of_true hApart fun _ _ h => h.filled hEmpties
    · rw [hUpdate]
      refine iff_of_true hApart ?_
      intro s' t h
      obtain rfl := hFound h
      rw [updated_trigger_of_none h.trigger] at hTaken
      obtain ⟨u, hu, hLanguage, hTrigger, hId⟩ := isTaken_iff.mp hTaken
      exact h.free u hu (fun huId => hId (congrArg some huId)) hLanguage hTrigger
    · have hAfter : (c.update s.id p).2.snippets = before ++ updated s p :: after := by
        rw [hUpdate, ← hAmend]
        rfl
      rw [hAfter, unambiguous_updated_iff hSplit hIds hApart hFilled hFree]
      constructor
      · rintro hNone s' t h
        obtain rfl := hFound h
        exact hNone t h
      · exact fun hNone => hNone s

/-- Whatever list was loaded, as long as it is unambiguous and has no identifier twice, an update
leaves it unambiguous exactly if it overlooks no snippet. It overlooks none if its patch gives a
trigger or leaves the language, or if the trigger of the snippet has no blanks around it. -/
theorem update_unambiguous_iff (c : Catalogue α) (hIds : (c.snippets.map Snippet.id).Nodup)
    (hApart : Unambiguous c.snippets) (id : String) (p : Snippet.Patch) :
    (Unambiguous (c.update id p).2.snippets ↔ ∀ s t, ¬ Overlooks c.snippets id p s t) ∧
    (p.trigger ≠ none ∨ p.language = none ∨
        (∀ s ∈ c.snippets, s.id = id → IsTrimmed s.trigger.toList) →
      Unambiguous (c.update id p).2.snippets) := by
  have hExact := unambiguous_update_iff (p := p) hIds hApart id
  refine ⟨hExact, ?_⟩
  intro hSafe
  rw [hExact]
  intro s t h
  obtain hGiven | hStays | hTrimmed := hSafe
  · exact hGiven h.trigger
  · exact h.moved (updated_language_of_none hStays)
  · exact h.not_isTrimmed (hTrimmed s h.mem h.id_eq)

end Update

/-- Of two triggers that differ in a blank only, one is moved beside the other. -/
theorem update_unambiguous_iff_blank :
    let l : List Snippet :=
      [⟨"1", " log", "a", "js", true, true, ""⟩, ⟨"2", "LOG", "b", "ts", true, true, ""⟩]
    let c := (new (⟨l, [some "full"], none, 0⟩ : Memory) ⟨fun _ => "", 0, ""⟩).load.2
    let p : Snippet.Patch := ⟨some " fn ", none, some "ts", none⟩
    c.snippets = l ∧ (l.map Snippet.id).Nodup ∧ Unambiguous l ∧
      Unambiguous (c.update "1" ⟨none, none, some "ts", none⟩).2.snippets ∧
      Unambiguous (c.update "1" p).2.snippets ∧
      (c.update "1" p).2.snippets.map Snippet.trigger = ["fn", "LOG"] := by
  intro l c p
  have hIds : (l.map Snippet.id).Nodup := by decide
  have hApart : Unambiguous l := by decide
  have hSnippets : c.snippets = l := rfl
  obtain ⟨hMoved, _⟩ :=
    update_unambiguous_iff c hIds hApart "1" ⟨none, none, some "ts", none⟩
  obtain ⟨_, hGiven⟩ := update_unambiguous_iff c hIds hApart "1" p
  refine ⟨rfl, hIds, hApart, hMoved.mpr ?_, hGiven (.inl (Option.some_ne_none _)), by decide⟩
  intro s t h
  have hs : s = ⟨"1", " log", "a", "js", true, true, ""⟩ :=
    List.inj_on_of_nodup_map hIds h.mem (by simp [l]) h.id_eq
  exact h.free ⟨"2", "LOG", "b", "ts", true, true, ""⟩ (by simp [hSnippets, l]) (by decide)
    (by rw [hs]; rfl) (by rw [hs]; decide)

/-- A snippet is moved to a language where another one has its trigger, with the blank that stands
before it in the file. -/
theorem update_makes_clash :
    let l : List Snippet :=
      [⟨"1", " log", "a", "js", true, true, ""⟩, ⟨"2", " log", "b", "ts", true, true, ""⟩]
    let files := (Files.startingAt []).put ["s".toList] (.file (.text (Snippet.listToText l)))
    let c := (new (⟨.ofString "/s", files⟩ : SnippetFile) ⟨fun _ => "", 0, ""⟩).load.2
    c.snippets = l ∧ (l.map Snippet.id).Nodup ∧ Unambiguous l ∧
      ¬ Unambiguous (c.update "1" ⟨none, none, some "ts", none⟩).2.snippets := by
  intro l files c
  have hRead : files.readText (.ofString "/s") = .ok (Snippet.listToText l) := rfl
  have hLoad : Archive.load (⟨.ofString "/s", files⟩ : SnippetFile) = .ok l := by
    show SnippetFile.load _ = _
    rw [SnippetFile.load]
    simp only [Files.holds_of_readText hRead, hRead, if_true]
    exact SnippetFile.ofText_listToText l
  have hCatalogue : c = ⟨l, ⟨.ofString "/s", files⟩, ⟨fun _ => "", 0, ""⟩⟩ :=
    congrArg Prod.snd (load_new hLoad _)
  have hUpdate (archive : SnippetFile) :
      ((⟨l, archive, ⟨fun _ => "", 0, ""⟩⟩ : Catalogue SnippetFile).update "1"
        ⟨none, none, some "ts", none⟩).2.snippets =
      [⟨"1", " log", "a", "ts", true, true, ""⟩, ⟨"2", " log", "b", "ts", true, true, ""⟩] := rfl
  rw [hCatalogue, hUpdate]
  exact ⟨rfl, by decide, by decide, by decide⟩

end Catalogue

end Shorthand
