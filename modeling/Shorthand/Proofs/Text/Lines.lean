import Mathlib.Algebra.Ring.Nat
import Shorthand.Text.Lines
import Shorthand.Proofs.Text.Split

/-! # Laws of lines

A text and its lines determine each other. Of a text in two parts, the last line is that of the
second part, with that of the first in front of it when the second has no newline.
-/
namespace Shorthand.Text

theorem splitLines_joinLines {lines : List (List Char)} (hne : lines ≠ [])
    (h : ∀ l ∈ lines, '\n' ∉ l) : splitLines (joinLines lines) = lines := split_join hne h

theorem joinLines_cut (before after : List (List Char)) (u v : List Char) :
    joinLines (before ++ (u ++ v) :: after) = joinLines (before ++ [u]) ++ joinLines (v :: after) :=
  join_cut before after u v

theorem joinLines_middle_splitLines (before after : List (List Char)) (cs : List Char) :
    joinLines (before ++ splitLines cs ++ after) = joinLines (before ++ cs :: after) :=
  join_middle_split before after cs

theorem length_joinLines_concat (before : List (List Char)) (u : List Char) :
    (joinLines (before ++ [u])).length = (before.map (·.length + 1)).sum + u.length := by
  induction before with
  | nil => simp [joinLines, join]
  | cons b bs ih =>
    rw [joinLines, List.cons_append, join_cons (by simp), ← joinLines]
    simp only [List.length_append, List.length_cons, ih, List.map_cons, List.sum_cons]
    omega

theorem count_joinLines_concat {before : List (List Char)} {u : List Char}
    (h : ∀ l ∈ before ++ [u], '\n' ∉ l) :
    (joinLines (before ++ [u])).count '\n' = before.length := by
  induction before with
  | nil => exact List.count_eq_zero.mpr (h u (by simp))
  | cons b bs ih =>
    have hb : b.count '\n' = 0 := List.count_eq_zero.mpr (h b (by simp))
    rw [joinLines, List.cons_append, join_cons (by simp), ← joinLines, List.count_append,
      List.count_cons_self, hb, ih (fun l hl => h l (List.mem_cons_of_mem _ hl)), List.length_cons]
    omega

theorem lastLine_append_of_not_mem {cs : List Char} (h : '\n' ∉ cs) (before : List Char) :
    lastLine (before ++ cs) = lastLine before ++ cs := by
  rw [lastLine, List.reverse_append, List.takeWhile_append_of_pos, List.reverse_append,
    List.reverse_reverse, lastLine]
  intro c hc
  exact decide_eq_true (fun he => h (he ▸ List.mem_reverse.mp hc))

theorem lastLine_of_not_mem {cs : List Char} (h : '\n' ∉ cs) : lastLine cs = cs :=
  lastLine_append_of_not_mem h []

theorem lastLine_append_newline (before cs : List Char) :
    lastLine (before ++ '\n' :: cs) = lastLine cs := by
  rw [lastLine, List.reverse_append, List.reverse_cons, List.append_assoc, List.takeWhile_append]
  split
  next hAll =>
    rw [lastLine, List.singleton_append, List.takeWhile_cons_of_neg (by simp), List.append_nil,
      (List.takeWhile_sublist _).eq_of_length hAll]
  next => rfl

theorem lastLine_append_of_mem {cs : List Char} (h : '\n' ∈ cs) (before : List Char) :
    lastLine (before ++ cs) = lastLine cs := by
  obtain ⟨u, v, rfl⟩ := List.append_of_mem h
  rw [← List.append_assoc, lastLine_append_newline, lastLine_append_newline]

theorem lastLine_joinLines_concat {before : List (List Char)} {u : List Char} (h : '\n' ∉ u) :
    lastLine (joinLines (before ++ [u])) = u := by
  cases before with
  | nil => exact lastLine_of_not_mem h
  | cons b bs =>
    rw [joinLines, join_append (List.cons_ne_nil b bs) (by simp), lastLine_append_newline]
    exact lastLine_of_not_mem h

end Shorthand.Text
