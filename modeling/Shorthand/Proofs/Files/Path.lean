import Mathlib.Data.List.Induction
import Shorthand.Files.Path

/-! # The steps of neighbouring paths

A path takes the steps to the directory that holds it, and one more. Another extension changes the
last step only.
-/
namespace Shorthand.Path

variable {p d : Path} {absolute : Bool} {pieces : List (List Char)} {piece : List Char}

theorem steps_mk (absolute : Bool) (pieces : List (List Char)) :
    steps ⟨absolute, pieces⟩ =
      (if !absolute && pieces.head? = some ['.'] then [.here] else []) ++
        pieces.filterMap step? := rfl

theorem step?_of_idle (h : isIdle piece = true) : step? piece = none := by
  rw [step?, if_pos h]

theorem exists_step (h : isIdle piece = false) : ∃ s, step? piece = some s := by
  rw [step?, h]
  by_cases hUp : piece = ['.', '.']
  · exact ⟨.up, by simp [hUp]⟩
  · exact ⟨.name piece, by simp [hUp]⟩

theorem dropIdle_concat_of_idle (h : isIdle piece = true) :
    dropIdle (pieces ++ [piece]) = dropIdle pieces := by
  simp [dropIdle, h]

theorem dropIdle_concat (h : isIdle piece = false) :
    dropIdle (pieces ++ [piece]) = pieces ++ [piece] := by
  simp [dropIdle, h]

theorem filterMap_dropIdle (pieces : List (List Char)) :
    (dropIdle pieces).filterMap step? = pieces.filterMap step? := by
  induction pieces using List.reverseRecOn with
  | nil => rfl
  | append_singleton pieces piece ih =>
    cases h : isIdle piece with
    | true =>
      rw [dropIdle_concat_of_idle h, ih, List.filterMap_append]
      simp [step?_of_idle h]
    | false => rw [dropIdle_concat h]

theorem dropIdle_prefix (pieces : List (List Char)) : dropIdle pieces <+: pieces := by
  have hSuffix := List.dropWhile_suffix isIdle (l := pieces.reverse)
  simpa [dropIdle] using List.reverse_prefix.mpr hSuffix

theorem dropIdle_cases (pieces : List (List Char)) :
    dropIdle pieces = [] ∨ ∃ front piece, dropIdle pieces = front ++ [piece] ∧
      isIdle piece = false := by
  induction pieces using List.reverseRecOn with
  | nil => exact .inl rfl
  | append_singleton pieces piece ih =>
    cases h : isIdle piece with
    | true =>
      rw [dropIdle_concat_of_idle h]
      exact ih
    | false => exact .inr ⟨pieces, piece, dropIdle_concat h, h⟩

theorem steps_body (absolute : Bool) (pieces : List (List Char)) :
    steps ⟨absolute, body ⟨absolute, pieces⟩⟩ = steps ⟨absolute, pieces⟩ := by
  rw [body]
  split
  next rest hAbsolute hPieces =>
    dsimp only at hAbsolute hPieces
    rw [hAbsolute, hPieces, steps_mk, steps_mk, List.filterMap_cons, List.filterMap_cons,
      filterMap_dropIdle]
    rfl
  next hOther =>
    have hHead : (!absolute && (dropIdle pieces).head? = some ['.']) =
        (!absolute && pieces.head? = some ['.']) := by
      cases absolute with
      | true => rfl
      | false =>
        have hPieces : pieces.head? ≠ some ['.'] := by
          intro hHead
          obtain ⟨rest, rfl⟩ := List.head?_eq_some_iff.mp hHead
          exact hOther rest rfl rfl
        have hBody : (dropIdle pieces).head? ≠ some ['.'] := by
          intro hHead
          obtain ⟨rest, hRest⟩ := List.head?_eq_some_iff.mp hHead
          obtain ⟨tail, hTail⟩ := dropIdle_prefix pieces
          rw [hRest] at hTail
          rw [← hTail] at hPieces
          exact hPieces rfl
        simp [hPieces, hBody]
    rw [steps_mk, steps_mk, hHead, filterMap_dropIdle]

theorem steps_concat (absolute : Bool) (pieces : List (List Char)) (h : isIdle piece = false) :
    steps ⟨absolute, pieces ++ [piece]⟩ = steps ⟨absolute, pieces⟩ ++ (step? piece).toList := by
  have hLast : [piece].filterMap step? = (step? piece).toList := by
    cases hStep : step? piece <;> simp [hStep]
  rw [steps_mk, steps_mk, List.filterMap_append, hLast, List.append_assoc]
  cases pieces with
  | nil =>
    have hDot : piece ≠ ['.'] := by
      rintro rfl
      cases h
    simp [hDot]
  | cons first rest => rfl

/-- A path has no steps, or its first step is all it takes and leads nowhere, or its last piece
takes its last step. -/
theorem body_cases (p : Path) :
    p.body = [] ∨ p.absolute = false ∧ p.body = [['.']] ∨
      ∃ front piece, p.body = front ++ [piece] ∧ isIdle piece = false := by
  obtain ⟨absolute, pieces⟩ := p
  rw [body]
  split
  next rest hAbsolute hPieces =>
    rcases dropIdle_cases rest with hNil | ⟨front, piece, hFront, hPiece⟩
    · exact .inr (.inl ⟨hAbsolute, by rw [hNil]⟩)
    · exact .inr (.inr ⟨['.'] :: front, piece, by rw [hFront, List.cons_append], hPiece⟩)
  next =>
    rcases dropIdle_cases pieces with hNil | hFront
    · exact .inl hNil
    · exact .inr (.inr hFront)

theorem isIdle_extended (name : List Char) {extension : List Char} (h : extension ≠ []) :
    isIdle (if name = ['.', '.'] then name else stem name ++ '.' :: extension) = false := by
  split
  next hUp =>
    rw [hUp]
    rfl
  next =>
    obtain ⟨c, rest, rfl⟩ := List.exists_cons_of_ne_nil h
    cases stem name with
    | nil => simp [isIdle]
    | cons c name => simp [isIdle]

/-- A path takes the steps to its directory and one more, and so it does with another extension.
Only a name makes a difference there. -/
theorem steps_of_parent {extension : List Char} (hExtension : extension ≠ [])
    (h : p.parent? = some d) :
    let draft := p.withExtension extension
    d.absolute = p.absolute ∧ draft.absolute = p.absolute ∧
      ∃ s t, p.steps = d.steps ++ [s] ∧ draft.steps = d.steps ++ [t] ∧
        (t = s ∨ ∃ name, s = .name name) := by
  intro draft
  have hBody : p.steps = steps ⟨p.absolute, p.body⟩ := (steps_body p.absolute p.pieces).symm
  rw [parent?] at h
  split at h
  · cases h
  next hSteps =>
    obtain rfl : _ = d := Option.some.inj h
    rw [steps_body]
    refine ⟨rfl, ?_⟩
    rcases p.body_cases with hNil | ⟨hRelative, hDot⟩ | ⟨front, piece, hFront, hPiece⟩
    · exact absurd hNil hSteps
    · have hDraft : draft = p := by
        show p.withExtension extension = p
        rw [withExtension, hDot]
        rfl
      rw [hDraft, hBody, hDot, hRelative]
      exact ⟨rfl, .here, .here, rfl, rfl, .inl rfl⟩
    · obtain ⟨s, hs⟩ := exists_step hPiece
      have hPath : p.steps = steps ⟨p.absolute, front⟩ ++ [s] := by
        rw [hBody, hFront, steps_concat p.absolute front hPiece, hs]
        rfl
      rw [hFront, List.dropLast_concat]
      cases s with
      | name name =>
        have hDraft : ∃ last, isIdle last = false ∧ draft = ⟨p.absolute, front ++ [last]⟩ := by
          show ∃ last, _ ∧ p.withExtension extension = _
          rw [withExtension, hFront, List.getLast?_concat, Option.bind_some, hs,
            List.dropLast_concat]
          exact ⟨_, isIdle_extended _ hExtension, rfl⟩
        obtain ⟨last, hLast, hDraft⟩ := hDraft
        obtain ⟨t, ht⟩ := exists_step hLast
        rw [hDraft]
        refine ⟨rfl, _, t, hPath, ?_, .inr ⟨name, rfl⟩⟩
        rw [steps_concat p.absolute front hLast, ht]
        rfl
      | _ =>
        have hDraft : draft = p := by
          show p.withExtension extension = p
          rw [withExtension, hFront, List.getLast?_concat, Option.bind_some, hs]
        rw [hDraft]
        exact ⟨rfl, _, _, hPath, hPath, .inl rfl⟩

/-- A path that is in no directory is its own draft and takes no steps. -/
theorem steps_of_parent_none {extension : List Char} (h : p.parent? = none) :
    p.withExtension extension = p ∧ p.steps = [] := by
  rw [parent?] at h
  split at h
  next hBody =>
    constructor
    · rw [withExtension, hBody]
      rfl
    · have hSteps := steps_body p.absolute p.pieces
      rw [show body ⟨p.absolute, p.pieces⟩ = [] from hBody] at hSteps
      exact hSteps.symm.trans (by simp [steps_mk])
  next => cases h

end Shorthand.Path
