import Shorthand.Template
import Shorthand.Proofs.Position

/-! # Laws of templates

A template is its text with a marker put back in the place of the caret, and the caret's place is
where an insertion of the text before the marker would end.
-/
namespace Shorthand

theorem length_le_of_cutAt {mark text before after u v : List Char}
    (h : cutAt mark text = some (before, after)) (huv : text = u ++ mark ++ v) :
    before.length ≤ u.length := by
  induction text generalizing before u with
  | nil =>
    rw [cutAt] at h
    split at h
    · cases h
      exact Nat.zero_le _
    · cases h
  | cons c rest ih =>
    rw [cutAt] at h
    split at h
    · cases h
      exact Nat.zero_le _
    next hPrefix =>
      obtain ⟨⟨b, a⟩, hRest, he⟩ := Option.map_eq_some_iff.mp h
      cases he
      cases u with
      | nil => exact absurd (List.isPrefixOf_iff_prefix.mpr ⟨v, huv.symm⟩) hPrefix
      | cons d u =>
        rw [List.cons_append, List.cons_append] at huv
        exact Nat.succ_le_succ (ih hRest (List.cons.inj huv).2)

theorem not_infix_of_cutAt {mark text : List Char} (h : cutAt mark text = none) :
    ¬ mark <:+: text := by
  induction text with
  | nil =>
    rw [cutAt] at h
    split at h
    · cases h
    next hMark => exact fun hi => hMark (List.infix_nil.mp hi)
  | cons c rest ih =>
    rw [cutAt] at h
    split at h
    · cases h
    next hPrefix =>
      intro hi
      rcases List.infix_cons_iff.mp hi with hi | hi
      · exact hPrefix (List.isPrefixOf_iff_prefix.mpr hi)
      · exact ih (Option.map_eq_none_iff.mp h) hi

namespace Template

/-- What stands before and after the first marker; without a marker all of it stands before. -/
def Parts (template before after : List Char) : Prop :=
  (template = before ++ placeholder ++ after ∧
    ∀ u v, template = u ++ placeholder ++ v → before.length ≤ u.length) ∨
  (¬ placeholder <:+: template ∧ before = template ∧ after = [])

theorem Parts.unique {template before after before' after' : List Char}
    (h : Parts template before after) (h' : Parts template before' after') :
    before = before' ∧ after = after' := by
  obtain ⟨hText, hFirst⟩ | ⟨hNone, rfl, rfl⟩ := h
  · obtain ⟨hText', hFirst'⟩ | ⟨hNone', _, _⟩ := h'
    · have hLe := hFirst _ _ hText'
      have hGe := hFirst' _ _ hText
      have hSame := hText.symm.trans hText'
      rw [List.append_assoc, List.append_assoc] at hSame
      obtain ⟨hBefore, hBehind⟩ := List.append_inj hSame (by omega)
      exact ⟨hBefore, List.append_cancel_left hBehind⟩
    · exact absurd ⟨before, after, hText.symm⟩ hNone'
  · obtain ⟨hText', _⟩ | ⟨_, rfl, rfl⟩ := h'
    · exact absurd ⟨before', after', hText'.symm⟩ hNone
    · exact ⟨rfl, rfl⟩

theorem caretFrom_ofParts (before after : List Char) (start : Position) :
    caretFrom ⟨before ++ after, some ⟨before.count '\n', (Text.lastLine before).length⟩⟩ start =
      start.after before := by
  by_cases h : '\n' ∈ before
  · obtain ⟨n, hn⟩ := Nat.exists_eq_succ_of_ne_zero (Nat.ne_of_gt (List.count_pos_iff.mpr h))
    rw [Position.after_of_mem h, hn]
    rfl
  · rw [Position.after_of_not_mem h, List.count_eq_zero.mpr h, Text.lastLine_of_not_mem h]
    rfl

theorem parts_parse (template : List Char) :
    ∃ before after, Parts template before after ∧ (parse template).text = before ++ after ∧
      ∀ start, (parse template).caretFrom start = start.after before := by
  rw [parse]
  cases hCut : cutAt placeholder template with
  | none =>
    exact ⟨template, [], .inr ⟨not_infix_of_cutAt hCut, rfl, rfl⟩, (List.append_nil _).symm,
      fun _ => rfl⟩
  | some parts =>
    obtain ⟨before, after⟩ := parts
    exact ⟨before, after,
      .inl ⟨eq_append_of_cutAt hCut, fun _ _ huv => length_le_of_cutAt hCut huv⟩, rfl,
      caretFrom_ofParts before after⟩

/-- To move behind a text is to walk through it character by character, so it may be done in
parts. The caret of a template goes where the text before its first marker would end. -/
theorem positions_compose :
    (∀ (p : Position) (a b : List Char), p.after (a ++ b) = (p.after a).after b) ∧
    (∀ p : Position, p.after [] = p) ∧
    (∀ (p : Position) (text : List Char), p.after text = text.foldl Position.advance p) ∧
    ∀ template, ∃ before after,
      (∀ u v, Parts template u v ↔ u = before ∧ v = after) ∧
        ∀ start, (parse template).caretFrom start = start.after before := by
  refine ⟨Position.after_append, fun _ => rfl, Position.after_eq_foldl, ?_⟩
  intro template
  obtain ⟨before, after, hParts, _, hCaret⟩ := parts_parse template
  refine ⟨before, after, ?_, hCaret⟩
  intro u v
  constructor
  · intro h
    exact h.unique hParts
  · rintro ⟨rfl, rfl⟩
    exact hParts

end Template

end Shorthand
