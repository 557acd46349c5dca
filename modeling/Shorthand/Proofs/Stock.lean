import Shorthand.Proofs.Table
import Shorthand.Stock

/-! # What a stock holds

Of several templates added for a trigger of a language the last one counts. The templates that serve
for a language are its own, if it has any, and else those of its scripting language.
-/
namespace Shorthand.Stock

/-- The template of the last entry for a trigger of the language. -/
def lastTemplate? (entries : List (String × String × String)) (language trigger : String) :
    Option String :=
  (lastWhere? (fun e => e.1 = language ∧ e.2.1 = trigger) entries).map (·.2.2)

def Shipped.entries : List (String × String × String) :=
  [("html", htmlEntries), ("css", cssEntries), ("javascript", javascriptEntries),
    ("typescript", typescriptEntries), ("jsx", jsxEntries), ("python", pythonEntries)].flatMap
      fun (language, l) => l.map fun (trigger, template) => (language, trigger, template)

theorem shipped_eq_ofList : shipped = ofList Shipped.entries := rfl

def template? (st : Stock) (language trigger : String) : Option String :=
  (st.tables.get? language).bind (·.get? trigger)

theorem template?_add (st : Stock) (language trigger template language' trigger' : String) :
    (st.add language trigger template).template? language' trigger' =
      if language' = language ∧ trigger' = trigger then some template
      else st.template? language' trigger' := by
  rw [template?, add, Table.get?_insert]
  by_cases hLanguage : language' = language
  · rw [if_pos hLanguage, Option.bind_some, Table.get?_insert]
    by_cases hTrigger : trigger' = trigger
    · rw [if_pos hTrigger, if_pos ⟨hLanguage, hTrigger⟩]
    · rw [if_neg hTrigger, if_neg fun h => hTrigger h.2, hLanguage, template?]
      cases st.tables.get? language <;> rfl
  · rw [if_neg hLanguage, if_neg fun h => hLanguage h.1]
    rfl

theorem template?_ofList (entries : List (String × String × String)) (language trigger : String) :
    (ofList entries).template? language trigger = lastTemplate? entries language trigger := by
  induction entries using List.reverseRecOn with
  | nil => rfl
  | append_singleton entries e ih =>
    have hAdd : ofList (entries ++ [e]) = (ofList entries).add e.1 e.2.1 e.2.2 :=
      List.foldl_concat ..
    rw [hAdd, template?_add, lastTemplate?]
    by_cases hEntry : language = e.1 ∧ trigger = e.2.1
    · rw [if_pos hEntry, lastWhere?_concat_of_pos ⟨hEntry.1.symm, hEntry.2.symm⟩]
      rfl
    · rw [if_neg hEntry, lastWhere?_concat_of_neg fun h => hEntry ⟨h.1.symm, h.2.symm⟩, ih]
      rfl

theorem own?_bind (st : Stock) (language trigger : String) :
    (st.own? language).bind (·.get? trigger) = st.template? language trigger := by
  rw [own?, template?]
  cases st.tables.get? language with
  | none => rfl
  | some t =>
    rw [Option.filter_some]
    cases hEmpty : t.isEmpty with
    | false => rfl
    | true => exact (Table.isEmpty_iff.mp hEmpty trigger).symm

theorem own?_eq_none_iff {st : Stock} {language : String} :
    st.own? language = none ↔ ∀ trigger, st.template? language trigger = none := by
  constructor
  · intro hNone trigger
    rw [← own?_bind, hNone]
    rfl
  · intro hNone
    rw [own?]
    cases hTable : st.tables.get? language with
    | none => rfl
    | some t =>
      have hEmpty : t.isEmpty = true := by
        rw [Table.isEmpty_iff]
        intro trigger
        have hTrigger := hNone trigger
        rwa [template?, hTable] at hTrigger
      rw [Option.filter_some, hEmpty]
      rfl

theorem own?_ofList_eq_none_iff {entries : List (String × String × String)} {language : String} :
    (ofList entries).own? language = none ↔ ¬ ∃ e ∈ entries, e.1 = language := by
  simp only [own?_eq_none_iff, template?_ofList, lastTemplate?, Option.map_eq_none_iff,
    lastWhere?_eq_none_iff]
  constructor
  · rintro hNone ⟨e, hEntry, hLanguage⟩
    exact hNone e.2.1 e hEntry ⟨hLanguage, rfl⟩
  · rintro hNone trigger e hEntry ⟨hLanguage, _⟩
    exact hNone ⟨e, hEntry, hLanguage⟩

theorem serving?_ofList_bind (entries : List (String × String × String))
    (language trigger : String) :
    ((ofList entries).serving? language).bind (·.get? trigger) =
      if ∃ e ∈ entries, e.1 = language then lastTemplate? entries language trigger
      else if language = "jsx" then lastTemplate? entries "typescript" trigger
      else none := by
  have hOwn := own?_bind (ofList entries) language trigger
  rw [serving?]
  split
  next t hSome =>
    have hAny : ∃ e ∈ entries, e.1 = language := by
      by_contra hNone
      rw [own?_ofList_eq_none_iff.mpr hNone] at hSome
      cases hSome
    rw [if_pos hAny, ← template?_ofList, ← hOwn, hSome]
  next hNone =>
    rw [if_neg (own?_ofList_eq_none_iff.mp hNone), fallback?]
    split
    · rw [Option.bind_some, own?_bind, template?_ofList]
    · rfl

end Shorthand.Stock
