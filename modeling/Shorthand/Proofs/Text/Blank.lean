import Mathlib.Data.List.TakeWhile
import Shorthand.Text.Blank

/-! # Laws of blank characters

A trimmed text has no blank character at either end, and a text without one there is its own
trimming. The last word of a text is what was put there last, up to a blank in front of it.
-/
namespace Shorthand.Text

/-- No blank character at either end. -/
structure IsTrimmed (cs : List Char) : Prop where
  head : ∀ c, cs.head? = some c → isBlank c = false
  last : ∀ c, cs.getLast? = some c → isBlank c = false

theorem isBlank_head?_dropWhile {cs : List Char} {c : Char}
    (h : (cs.dropWhile isBlank).head? = some c) : isBlank c = false := by
  have hNot := List.head?_dropWhile_not isBlank cs
  rw [h] at hNot
  exact hNot

theorem dropWhile_eq_self {cs : List Char} (h : ∀ c, cs.head? = some c → isBlank c = false) :
    cs.dropWhile isBlank = cs := by
  cases cs with
  | nil => rfl
  | cons c rest => rw [List.dropWhile_cons_of_neg (by simp [h c rfl])]

theorem trimEnd_prefix (cs : List Char) : trimEnd cs <+: cs := by
  rw [trimEnd, ← List.reverse_suffix, List.reverse_reverse]
  exact List.dropWhile_suffix isBlank

theorem trimEnd_eq_nil_iff {cs : List Char} : trimEnd cs = [] ↔ ∀ c ∈ cs, isBlank c = true := by
  rw [trimEnd, List.reverse_eq_nil_iff, List.dropWhile_eq_nil_iff]
  simp only [List.mem_reverse]

theorem trim_eq_nil_iff {cs : List Char} : trim cs = [] ↔ ∀ c ∈ cs, isBlank c = true := by
  rw [trim, trimEnd_eq_nil_iff]
  constructor
  · intro h
    rw [← List.dropWhile_eq_nil_iff]
    cases hDrop : cs.dropWhile isBlank with
    | nil => rfl
    | cons c rest =>
      have hHead : isBlank c = false := isBlank_head?_dropWhile (by rw [hDrop]; rfl)
      have hBlank : isBlank c = true := h c (hDrop ▸ List.mem_cons_self)
      exact absurd hBlank (by simp [hHead])
  · intro h c hc
    exact h c ((List.dropWhile_suffix isBlank).subset hc)

theorem isTrimmed_trim (cs : List Char) : IsTrimmed (trim cs) where
  head c h := by
    obtain ⟨rest, hRest⟩ := trimEnd_prefix (cs.dropWhile isBlank)
    have hHead : (cs.dropWhile isBlank).head? = some c := by
      rw [← hRest, List.head?_append]
      exact (congrArg (·.or rest.head?) h).trans rfl
    exact isBlank_head?_dropWhile hHead
  last c h := by
    rw [trim, trimEnd, List.getLast?_reverse] at h
    exact isBlank_head?_dropWhile h

theorem IsTrimmed.trim_eq {cs : List Char} (h : IsTrimmed cs) : trim cs = cs := by
  rw [trim, dropWhile_eq_self h.head, trimEnd, dropWhile_eq_self, List.reverse_reverse]
  intro c hc
  exact h.last c (List.head?_reverse.symm.trans hc)

theorem isTrimmed_trimmed (s : String) : IsTrimmed (trimmed s).toList := by
  rw [trimmed, String.toList_ofList]
  exact isTrimmed_trim s.toList

theorem IsTrimmed.trimmed_eq {s : String} (h : IsTrimmed s.toList) : trimmed s = s := by
  rw [trimmed, h.trim_eq, String.ofList_toList]

theorem lastWord_append {before word : List Char} (hWord : ∀ c ∈ word, isBlank c = false)
    (hBefore : ∀ c, before.getLast? = some c → isBlank c = true) :
    lastWord (before ++ word) = word := by
  have hNone : before.reverse.takeWhile (!isBlank ·) = [] := by
    cases hRev : before.reverse with
    | nil => rfl
    | cons c rest =>
      rw [List.takeWhile_cons_of_neg]
      simp [hBefore c (by rw [← List.head?_reverse, hRev]; rfl)]
  rw [lastWord, List.reverse_append, List.takeWhile_append_of_pos, hNone, List.append_nil,
    List.reverse_reverse]
  intro c hc
  simp [hWord c (List.mem_reverse.mp hc)]

theorem exists_append_lastWord (cs : List Char) :
    ∃ before, cs = before ++ lastWord cs ∧ (∀ c ∈ lastWord cs, isBlank c = false) ∧
      ∀ c, before.getLast? = some c → isBlank c = true := by
  refine ⟨(cs.reverse.dropWhile (!isBlank ·)).reverse, ?_, ?_, ?_⟩
  · rw [lastWord, ← List.reverse_append, List.takeWhile_append_dropWhile, List.reverse_reverse]
  · intro c hc
    have hSolid := List.mem_takeWhile_imp (List.mem_reverse.mp hc)
    simpa using hSolid
  · intro c hc
    have hNot := List.head?_dropWhile_not (!isBlank ·) cs.reverse
    rw [← List.getLast?_reverse, hc] at hNot
    simpa using hNot

end Shorthand.Text
