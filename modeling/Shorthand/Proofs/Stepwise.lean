import Mathlib.Data.List.Induction

/-! # Logs that grow entry by entry

What each entry of a log may rest on is what stands before it. Of two entries the later one was
added to a log that held the earlier one.
-/
namespace Shorthand

variable {ε : Type} {fits : List ε → ε → Prop} {log : List ε} {e e' : ε}

/-- Each entry fits the log before it. -/
inductive Stepwise (fits : List ε → ε → Prop) : List ε → Prop
  | nil : Stepwise fits []
  | concat {log : List ε} {e : ε} :
      Stepwise fits log → fits log e → Stepwise fits (log ++ [e])

theorem stepwise_concat : Stepwise fits (log ++ [e]) ↔ Stepwise fits log ∧ fits log e := by
  constructor
  · intro h
    generalize hLog : log ++ [e] = l at h
    cases h with
    | nil => simp at hLog
    | concat h hFits =>
      obtain ⟨rfl, hEntry⟩ := List.append_inj' hLog rfl
      cases hEntry
      exact ⟨h, hFits⟩
  · rintro ⟨h, hFits⟩
    exact .concat h hFits

namespace Stepwise

theorem of_append {rest : List ε} (h : Stepwise fits (log ++ rest)) : Stepwise fits log := by
  induction rest using List.reverseRecOn with
  | nil => rwa [List.append_nil] at h
  | append_singleton rest e ih =>
    rw [← List.append_assoc] at h
    exact ih (stepwise_concat.mp h).1

theorem fits_of_split {before after : List ε} (h : Stepwise fits (before ++ e :: after)) :
    Stepwise fits before ∧ fits before e := by
  rw [List.append_cons] at h
  exact stepwise_concat.mp h.of_append

theorem order (h : Stepwise fits log) (he : e ∈ log) (he' : e' ∈ log) :
    e = e' ∨
    (∃ before, before <+: log ∧ Stepwise fits before ∧ e ∈ before ∧ fits before e') ∨
    ∃ before, before <+: log ∧ Stepwise fits before ∧ e' ∈ before ∧ fits before e := by
  induction h with
  | nil => cases he
  | @concat log last h hFits ih =>
    have hPrefix : log <+: log ++ [last] := List.prefix_append _ _
    rcases List.mem_append.mp he with hOld | hNew <;>
      rcases List.mem_append.mp he' with hOld' | hNew'
    · rcases ih hOld hOld' with hEq | ⟨before, hBefore, hRest⟩ | ⟨before, hBefore, hRest⟩
      · exact .inl hEq
      · exact .inr (.inl ⟨before, hBefore.trans hPrefix, hRest⟩)
      · exact .inr (.inr ⟨before, hBefore.trans hPrefix, hRest⟩)
    · rw [List.mem_singleton.mp hNew']
      exact .inr (.inl ⟨log, hPrefix, h, hOld, hFits⟩)
    · rw [List.mem_singleton.mp hNew]
      exact .inr (.inr ⟨log, hPrefix, h, hOld', hFits⟩)
    · left
      rw [List.mem_singleton.mp hNew, List.mem_singleton.mp hNew']

end Stepwise

end Shorthand
