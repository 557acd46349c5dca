/-! # Splitting at a mark

A text is split at every mark, so a text with `n` marks has `n + 1` pieces.
Main statement: joining the pieces of a text gives the text back.
-/
namespace Shorthand.Text

def split (mark : Char) : List Char → List (List Char)
  | [] => [[]]
  | c :: rest =>
    if c = mark then [] :: split mark rest else (split mark rest).modifyHead (c :: ·)

def join (mark : Char) : List (List Char) → List Char
  | [] => []
  | [piece] => piece
  | piece :: rest => piece ++ mark :: join mark rest

theorem split_ne_nil (mark : Char) (cs : List Char) : split mark cs ≠ [] := by
  induction cs with
  | nil => simp [split]
  | cons c rest ih => by_cases h : c = mark <;> simp [split, h, ih]

theorem join_split (mark : Char) (cs : List Char) : join mark (split mark cs) = cs := by
  induction cs with
  | nil => rfl
  | cons c rest ih =>
    obtain ⟨l, ls, hl⟩ := List.exists_cons_of_ne_nil (split_ne_nil mark rest)
    by_cases h : c = mark
    · rw [split, if_pos h, hl, join, ← hl, ih, h]
      · rfl
      · simp
    · rw [split, if_neg h, hl, List.modifyHead_cons]
      rw [hl] at ih
      cases ls with
      | nil => simpa [join] using ih
      | cons m ms => simpa [join] using ih

end Shorthand.Text
