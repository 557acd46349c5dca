import Shorthand.Position
import Shorthand.Proofs.Text.Lines

/-! # Laws of positions

To move behind a text is to move behind its parts one after the other. From the origin, the
positions behind the texts are the ends of their last lines.
-/
namespace Shorthand.Position

open Text

theorem le_max_right (p q : Position) : q ≤ max p q := by
  show q ≤ if p ≤ q then q else p
  split
  · exact .inr ⟨rfl, Nat.le_refl _⟩
  next h =>
    rw [le_iff] at h ⊢
    omega

theorem le_antisymm {p q : Position} (hpq : p ≤ q) (hqp : q ≤ p) : p = q := by
  rw [le_iff] at hpq hqp
  have hLine : p.line = q.line := by omega
  have hColumn : p.column = q.column := by omega
  exact congr (congrArg Position.mk hLine) hColumn

theorem max_eq_left {p q : Position} (h : q ≤ p) : max p q = p := by
  show (if p ≤ q then q else p) = p
  split
  next hpq => exact le_antisymm h hpq
  next => rfl

theorem max_eq_right {p q : Position} (h : p ≤ q) : max p q = q := if_pos h

theorem max_eq_or (p q : Position) : max p q = p ∨ max p q = q := by
  by_cases h : p ≤ q
  · exact .inr (if_pos h)
  · exact .inl (if_neg h)

theorem after_of_not_mem {text : List Char} (h : '\n' ∉ text) (p : Position) :
    p.after text = ⟨p.line, p.column + text.length⟩ := by
  rw [after, List.count_eq_zero.mpr h]
  rfl

theorem after_of_mem {text : List Char} (h : '\n' ∈ text) (p : Position) :
    p.after text = ⟨p.line + text.count '\n', (lastLine text).length⟩ := by
  obtain ⟨n, hn⟩ := Nat.exists_eq_succ_of_ne_zero (Nat.ne_of_gt (List.count_pos_iff.mpr h))
  rw [after, hn]
  rfl

theorem after_append (p : Position) (a b : List Char) :
    p.after (a ++ b) = (p.after a).after b := by
  by_cases hb : '\n' ∈ b
  · rw [after_of_mem hb, after_of_mem (List.mem_append_right a hb), lastLine_append_of_mem hb,
      List.count_append]
    by_cases ha : '\n' ∈ a
    · rw [after_of_mem ha, Nat.add_assoc]
    · rw [after_of_not_mem ha, List.count_eq_zero.mpr ha, Nat.zero_add]
  · rw [after_of_not_mem hb]
    by_cases ha : '\n' ∈ a
    · rw [after_of_mem ha, after_of_mem (List.mem_append_left b ha),
        lastLine_append_of_not_mem hb, List.count_append, List.count_eq_zero.mpr hb,
        List.length_append, Nat.add_zero]
    · rw [after_of_not_mem ha, after_of_not_mem (by simp [ha, hb]), List.length_append,
        Nat.add_assoc]

/-- One character on: a newline leads to the start of the next line. -/
def advance (p : Position) (c : Char) : Position :=
  if c = '\n' then ⟨p.line + 1, 0⟩ else ⟨p.line, p.column + 1⟩

theorem after_singleton (p : Position) (c : Char) : p.after [c] = p.advance c := by
  rw [advance]
  split
  next hc =>
    subst hc
    rfl
  next hc =>
    rw [after_of_not_mem (by simpa using Ne.symm hc)]
    rfl

/-- The lines need not be known: the text may be walked through one character at a time. -/
theorem after_eq_foldl (p : Position) (text : List Char) : p.after text = text.foldl advance p := by
  induction text generalizing p with
  | nil => rfl
  | cons c rest ih =>
    have hSplit := after_append p [c] rest
    rw [List.singleton_append, after_singleton] at hSplit
    rw [hSplit, List.foldl_cons]
    exact ih (p.advance c)

theorem le_after (p : Position) (text : List Char) : p ≤ p.after text := by
  rw [le_iff]
  by_cases h : '\n' ∈ text
  · rw [after_of_mem h]
    exact .inl (Nat.lt_add_of_pos_right (List.count_pos_iff.mpr h))
  · rw [after_of_not_mem h]
    exact .inr ⟨rfl, Nat.le_add_right _ _⟩

theorem after_eq_self_iff {p : Position} {text : List Char} : p.after text = p ↔ text = [] := by
  constructor
  · intro h
    by_cases hNewline : '\n' ∈ text
    · rw [after_of_mem hNewline] at h
      have hLine := congrArg line h
      have hCount := List.count_pos_iff.mpr hNewline
      dsimp only at hLine
      omega
    · rw [after_of_not_mem hNewline] at h
      have hColumn := congrArg column h
      dsimp only at hColumn
      exact List.length_eq_zero_iff.mp (by omega)
  · rintro rfl
    rfl

theorem origin_after (text : List Char) :
    origin.after text = ⟨text.count '\n', (lastLine text).length⟩ := by
  by_cases h : '\n' ∈ text
  · rw [after_of_mem h, origin, Nat.zero_add]
  · rw [after_of_not_mem h, List.count_eq_zero.mpr h, lastLine_of_not_mem h, origin, Nat.zero_add]

theorem origin_after_joinLines {before : List (List Char)} {u : List Char}
    (h : ∀ l ∈ before ++ [u], '\n' ∉ l) :
    origin.after (joinLines (before ++ [u])) = ⟨before.length, u.length⟩ := by
  rw [origin_after, count_joinLines_concat h, lastLine_joinLines_concat (h u (by simp))]

end Shorthand.Position
