import Shorthand.Text.Split

/-! # Laws of splitting and joining

Pieces without a mark are the same thing as one text with marks between them, and a text that is
cut in two cuts exactly one of its pieces.
-/
namespace Shorthand.Text

variable {mark : Char}

theorem split_of_not_mem {cs : List Char} (h : mark ∉ cs) : split mark cs = [cs] := by
  induction cs with
  | nil => rfl
  | cons c rest ih =>
    have hc : c ≠ mark := fun hc => h (hc ▸ List.mem_cons_self)
    rw [split, if_neg hc, ih (fun hr => h (List.mem_cons_of_mem _ hr)), List.modifyHead_cons]

theorem split_append_mark {cs : List Char} (h : mark ∉ cs) (rest : List Char) :
    split mark (cs ++ mark :: rest) = cs :: split mark rest := by
  induction cs with
  | nil => rw [List.nil_append, split, if_pos rfl]
  | cons c cs ih =>
    have hc : c ≠ mark := fun hc => h (hc ▸ List.mem_cons_self)
    rw [List.cons_append, split, if_neg hc, ih (fun hr => h (List.mem_cons_of_mem _ hr)),
      List.modifyHead_cons]

theorem not_mem_of_mem_split {cs piece : List Char} (h : piece ∈ split mark cs) :
    mark ∉ piece := by
  induction cs generalizing piece with
  | nil =>
    rw [List.mem_singleton.mp h]
    exact List.not_mem_nil
  | cons c rest ih =>
    rw [split] at h
    split at h
    · rcases List.mem_cons.mp h with rfl | h
      · exact List.not_mem_nil
      · exact ih h
    next hc =>
      obtain ⟨l, ls, hl⟩ := List.exists_cons_of_ne_nil (split_ne_nil mark rest)
      rw [hl, List.modifyHead_cons] at h
      rw [hl] at ih
      rcases List.mem_cons.mp h with rfl | h
      · intro hm
        rcases List.mem_cons.mp hm with hm | hm
        · exact hc hm.symm
        · exact ih List.mem_cons_self hm
      · exact ih (List.mem_cons_of_mem _ h)

theorem join_cons {pieces : List (List Char)} (hne : pieces ≠ []) (piece : List Char) :
    join mark (piece :: pieces) = piece ++ mark :: join mark pieces := by
  cases pieces with
  | nil => exact absurd rfl hne
  | cons p ps => rfl

theorem split_join {pieces : List (List Char)} (hne : pieces ≠ [])
    (h : ∀ piece ∈ pieces, mark ∉ piece) : split mark (join mark pieces) = pieces := by
  induction pieces with
  | nil => exact absurd rfl hne
  | cons piece rest ih =>
    have hPiece := h piece List.mem_cons_self
    cases rest with
    | nil => exact split_of_not_mem hPiece
    | cons p ps =>
      have hRest := List.cons_ne_nil p ps
      rw [join_cons hRest, split_append_mark hPiece,
        ih hRest (fun q hq => h q (List.mem_cons_of_mem _ hq))]

theorem join_cut (before after : List (List Char)) (u v : List Char) :
    join mark (before ++ (u ++ v) :: after) =
      join mark (before ++ [u]) ++ join mark (v :: after) := by
  induction before with
  | nil =>
    cases after with
    | nil => rfl
    | cons a as => simp [join]
  | cons b bs ih =>
    rw [List.cons_append, List.cons_append, join_cons (by simp), join_cons (by simp), ih]
    simp

theorem join_append {xs ys : List (List Char)} (hx : xs ≠ []) (hy : ys ≠ []) :
    join mark (xs ++ ys) = join mark xs ++ mark :: join mark ys := by
  induction xs with
  | nil => exact absurd rfl hx
  | cons x xs ih =>
    cases xs with
    | nil => exact join_cons hy x
    | cons p ps =>
      have hxs := List.cons_ne_nil p ps
      rw [List.cons_append, join_cons (by simp), ih hxs, join_cons hxs]
      simp

theorem join_middle {pieces : List (List Char)} (hne : pieces ≠ [])
    (before after : List (List Char)) :
    join mark (before ++ pieces ++ after) = join mark (before ++ join mark pieces :: after) := by
  have hAfter : join mark (pieces ++ after) = join mark (join mark pieces :: after) := by
    cases after with
    | nil =>
      rw [List.append_nil]
      rfl
    | cons a as =>
      have ha := List.cons_ne_nil a as
      rw [join_append hne ha, join_cons ha]
  cases before with
  | nil => exact hAfter
  | cons b bs =>
    have hb := List.cons_ne_nil b bs
    rw [List.append_assoc, join_append hb (by simp [hne]), hAfter, join_append hb (by simp)]

theorem join_middle_split (before after : List (List Char)) (cs : List Char) :
    join mark (before ++ split mark cs ++ after) = join mark (before ++ cs :: after) := by
  rw [join_middle (split_ne_nil mark cs), join_split]

theorem split_append (mark : Char) (cs ds : List Char) :
    ∃ before u v after, split mark cs = before ++ [u] ∧ split mark ds = v :: after ∧
      split mark (cs ++ ds) = before ++ (u ++ v) :: after := by
  obtain ⟨before, u, hu⟩ : ∃ before u, split mark cs = before ++ [u] :=
    ⟨_, _, (List.dropLast_concat_getLast (split_ne_nil mark cs)).symm⟩
  obtain ⟨v, after, hv⟩ := List.exists_cons_of_ne_nil (split_ne_nil mark ds)
  refine ⟨before, u, v, after, hu, hv, ?_⟩
  have hJoin : join mark (before ++ (u ++ v) :: after) = cs ++ ds := by
    rw [join_cut, ← hu, ← hv, join_split, join_split]
  rw [← hJoin]
  apply split_join (by simp)
  intro piece hPiece
  have hLeft {p : List Char} (hp : p ∈ before ++ [u]) : mark ∉ p :=
    not_mem_of_mem_split (hu ▸ hp)
  have hRight {p : List Char} (hp : p ∈ v :: after) : mark ∉ p :=
    not_mem_of_mem_split (hv ▸ hp)
  rcases List.mem_append.mp hPiece with hp | hp
  · exact hLeft (List.mem_append_left _ hp)
  · rcases List.mem_cons.mp hp with rfl | hp
    · intro hm
      rcases List.mem_append.mp hm with hm | hm
      · exact hLeft (by simp) hm
      · exact hRight List.mem_cons_self hm
    · exact hRight (List.mem_cons_of_mem _ hp)

end Shorthand.Text
