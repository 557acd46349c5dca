import Shorthand.Proofs.Catalogue.WellKept
import Shorthand.Proofs.Dictionary

/-! # Dictionaries and catalogues

What a dictionary finds is settled by the last active snippet for a trigger and, if there is none,
by the last stock template that serves for it. In a catalogue that began empty every active snippet
is found by its own trigger.
-/
namespace Shorthand

theorem WellKept.lastTemplate?_eq {l : List Snippet} (h : WellKept l) {language : String}
    {s : Snippet} (hs : s ∈ Snippet.activeIn language l) :
    Snippet.lastTemplate? l language s.trigger = some s.template := by
  obtain ⟨hMem, hActive⟩ := List.mem_filter.mp hs
  simp only [Bool.and_eq_true, decide_eq_true_eq] at hActive
  obtain ⟨⟨hLanguage, hUser⟩, hEnabled⟩ := hActive
  rw [Snippet.lastTemplate?]
  cases hLast : lastWhere? (fun u : Snippet => u.language = language ∧ u.isUserDefined = true ∧
      u.isEnabled = true ∧ u.trigger = s.trigger) l with
  | none => exact absurd ⟨hLanguage, hUser, hEnabled, rfl⟩ (lastWhere?_eq_none_iff.mp hLast s hMem)
  | some u =>
    obtain ⟨hu, huLanguage, _, _, hTrigger⟩ := mem_of_lastWhere? hLast
    have hClash : u.Clashes s :=
      ⟨huLanguage.trans hLanguage.symm, congrArg Text.lowered hTrigger⟩
    rw [h.eq_of_clashes hMem hu hClash]
    rfl

namespace Stock

/-- A dictionary is one map. It gives the template of the last active snippet for a trigger, else
the last one that the stock has for the language, and a language without stock of its own takes
that of its scripting language. The merged table has exactly the looked-up pairs, once each, and
membership, size and emptiness are those of that table. In a catalogue that began empty, every
active snippet is what its trigger finds. -/
theorem dictionary_consistent (entries : List (String × String × String)) :
    shipped = ofList Shipped.entries ∧
    (∀ snippets language,
      let d := (ofList entries).dictionary snippets language
      (∀ k, d.get? k = (Snippet.lastTemplate? snippets language k).or
        (if ∃ e ∈ entries, e.1 = language then lastTemplate? entries language k
         else if language = "jsx" then lastTemplate? entries "typescript" k
         else none)) ∧
      (∀ k v, (k, v) ∈ d.toTable.entries ↔ d.get? k = some v) ∧
      (∀ k, d.contains k = true ↔ ∃ v, d.get? k = some v) ∧
      d.size = d.toTable.keys.length ∧ d.toTable.keys.Nodup ∧
      (d.isEmpty = true ↔ d.size = 0)) ∧
    ∀ {α : Type} [LawfulArchive α] (archive : α) (supply : Supply),
      LawfulArchive.record archive = [] → supply.Distinct → ∀ (calls : List Catalogue.Call)
        (language : String),
        let snippets := ((Catalogue.new archive supply).run calls).snippets
        ∀ s ∈ Snippet.activeIn language snippets,
          ((ofList entries).dictionary snippets language).get? s.trigger = some s.template := by
  refine ⟨shipped_eq_ofList, ?_, ?_⟩
  · intro snippets language d
    refine ⟨?_, ?_, fun _ => Dictionary.contains_iff, ?_, d.toTable.distinct, d.isEmpty_iff_size⟩
    · intro k
      rw [Dictionary.get?, own_dictionary_get?, ← serving?_ofList_bind]
      rfl
    · intro k v
      rw [Table.mem_entries_iff, Dictionary.get?_toTable]
    · rw [Table.length_keys, Dictionary.size_eq]
  · intro α _ archive supply hEmpty hIds calls language snippets s hs
    have hKept := (Catalogue.Kept.new hEmpty hIds).run calls
    rw [Dictionary.get?, own_dictionary_get?, hKept.listed.lastTemplate?_eq hs]
    rfl

/-- A template that is added twice, a language that falls back on it, and a snippet over it. -/
theorem dictionary_consistent_jsx :
    let entries := [("typescript", "type", "T"), ("typescript", "type", "U"), ("css", "bg", "B")]
    let supply : Supply := ⟨fun n => String.ofList (List.replicate n 'x'), 0, ""⟩
    let calls : List Catalogue.Call := [⟨.add "log" "a" "jsx", "1"⟩, ⟨.add "fn" "b" "jsx", "2"⟩,
      ⟨.toggle "", "3"⟩]
    let snippets := ((Catalogue.new Memory.empty supply).run calls).snippets
    let d := (ofList entries).dictionary snippets "jsx"
    supply.Distinct ∧ d.get? "fn" = some "b" ∧ d.get? "type" = some "U" ∧ d.get? "log" = none ∧
      ("type", "U") ∈ d.toTable.entries ∧ d.toTable.keys.length = 2 ∧ d.isEmpty = false := by
  intro entries supply calls snippets d
  have hIds : supply.Distinct := Supply.distinct_replicate 'x' 0 ""
  obtain ⟨_, hMap, hFound⟩ := dictionary_consistent entries
  obtain ⟨hGet, hEntries, _, hSize, _, hEmpty⟩ := hMap snippets "jsx"
  let fn : Snippet := ⟨"x", "fn", "b", "jsx", true, true, "2"⟩
  have hType : d.get? "type" = some "U" := (hGet "type").trans (by decide)
  have hLength : d.size = 2 := by decide
  refine ⟨hIds, hFound Memory.empty supply rfl hIds calls "jsx" fn (by decide), hType,
    (hGet "log").trans (by decide), (hEntries "type" "U").mpr hType, hSize.symm.trans hLength, ?_⟩
  rw [Bool.eq_false_iff, Ne, hEmpty, hLength]
  decide

end Stock

end Shorthand
