import Shorthand.Proofs.Document.Run

/-! # The order of clamped positions

Behind the last line a position is moved up to the last line and keeps its column. So it may come to
lie before positions that it was behind, and a range that stops there may leave the end of the text
out. Everywhere else the order of positions is kept.
-/
namespace Shorthand.Document

open Text

def endPlace (d : Document) : Position := ⟨d.numLines - 1, (d.lineAt (d.numLines - 1)).length⟩

variable {d : Document} {p q : Position}

theorem WellFormed.holds_endPlace (hd : d.WellFormed) : d.Holds d.endPlace :=
  ⟨Nat.sub_lt hd.numLines_pos Nat.one_pos, Nat.le_refl _⟩

theorem Holds.le_endPlace (h : d.Holds p) : p ≤ d.endPlace := by
  obtain ⟨hLine, hColumn⟩ := h
  obtain hLess | hLast : p.line < d.numLines - 1 ∨ p.line = d.numLines - 1 := by omega
  · exact .inl hLess
  · refine .inr ⟨hLast, ?_⟩
    rw [hLast] at hColumn
    exact hColumn

theorem WellFormed.beyond_endPlace (hd : d.WellFormed) : d.beyond d.endPlace = [] := by
  have hLast : d.numLines - 1 + 1 = d.lines.length := Nat.sub_add_cancel hd.numLines_pos
  rw [beyond, endPlace, List.drop_length, hLast, List.drop_length]
  rfl

theorem WellFormed.beyond_eq_nil_iff (hd : d.WellFormed) (h : d.Holds p) :
    d.beyond p = [] ↔ p = d.endPlace := by
  constructor
  · intro hNone
    have hText := upTo_append_beyond h
    have hEnd := upTo_append_beyond hd.holds_endPlace
    rw [hNone, List.append_nil] at hText
    rw [hd.beyond_endPlace, List.append_nil] at hEnd
    rw [← hd.origin_after_upTo h, ← hd.origin_after_upTo hd.holds_endPlace, hText, hEnd]
  · rintro rfl
    exact hd.beyond_endPlace

theorem clamp_of_line_lt (h : p.line < d.numLines) :
    d.clamp p = ⟨p.line, min p.column (d.lineAt p.line).length⟩ := by
  rw [clamp, Nat.min_eq_left (Nat.le_sub_one_of_lt h)]

theorem clamp_of_le_line (h : d.numLines ≤ p.line + 1) :
    d.clamp p = ⟨d.endPlace.line, min p.column d.endPlace.column⟩ := by
  rw [clamp, Nat.min_eq_right (Nat.sub_le_of_le_add h)]
  rfl

/-- Two positions change their order only if both come to lie in the last line, the second one from
behind it. -/
theorem clamp_le_clamp_iff (h : p ≤ q) :
    d.clamp p ≤ d.clamp q ↔
      q.line < d.numLines ∨ p.line + 1 < d.numLines ∨
        min p.column d.endPlace.column ≤ q.column := by
  have hLines : p.line ≤ q.line := by
    rw [Position.le_iff] at h
    omega
  by_cases hq : q.line < d.numLines
  · refine iff_of_true ?_ (.inl hq)
    rw [clamp_of_line_lt hq, clamp_of_line_lt (Nat.lt_of_le_of_lt hLines hq)]
    obtain hLess | ⟨hLine, hColumn⟩ := h
    · exact .inl hLess
    · refine .inr ⟨hLine, ?_⟩
      rw [hLine]
      show min p.column _ ≤ min q.column _
      omega
  · have hBehind : d.numLines ≤ q.line + 1 := by omega
    rw [clamp_of_le_line hBehind]
    by_cases hp : p.line + 1 < d.numLines
    · refine iff_of_true (.inl ?_) (.inr (.inl hp))
      rw [clamp_of_line_lt (Nat.lt_of_succ_lt hp)]
      exact Nat.lt_sub_of_add_lt hp
    · rw [clamp_of_le_line (Nat.le_of_not_lt hp), Position.le_iff]
      simp only [Nat.lt_irrefl, true_and, false_or, Nat.le_min, Nat.min_le_right, and_true, hq, hp]

variable {r : Range}

theorem WellFormed.stop_eq_endPlace_iff (hd : d.WellFormed) (hStart : d.Holds r.start)
    (hBehind : d.numLines ≤ r.stop.line) :
    (d.clampRange r).stop = d.endPlace ↔
      d.endPlace.column ≤ r.stop.column ∨ r.start = d.endPlace := by
  have hStop : d.clamp r.stop = ⟨d.endPlace.line, min r.stop.column d.endPlace.column⟩ :=
    clamp_of_le_line (Nat.le_succ_of_le hBehind)
  rw [clampRange_stop, clamp_of_holds hStart]
  by_cases hColumn : d.endPlace.column ≤ r.stop.column
  · rw [Nat.min_eq_right hColumn] at hStop
    refine iff_of_true ?_ (.inl hColumn)
    rw [hStop]
    exact Position.max_eq_left hStart.le_endPlace
  · have hShort : d.clamp r.stop ≠ d.endPlace := by
      intro h
      have hMin := congrArg Position.column (hStop.symm.trans h)
      exact hColumn (hMin ▸ Nat.min_le_left _ _)
    constructor
    · intro h
      obtain hMax | hMax := Position.max_eq_or (d.clamp r.stop) r.start
      · exact absurd (hMax.symm.trans h) hShort
      · exact .inr (hMax.symm.trans h)
    · rintro (hLong | hEnd)
      · exact absurd hLong hColumn
      · rw [hEnd]
        exact Position.max_eq_right (hd.holds_clamp r.stop).le_endPlace

theorem WellFormed.slice_eq_drop_iff (hd : d.WellFormed) (hStart : d.Holds r.start) :
    d.slice r = d.text.drop (d.offset r.start) ↔ (d.clampRange r).stop = d.endPlace := by
  have hText := hd.text_eq_slice r
  rw [clampRange_start, clamp_of_holds hStart] at hText
  have hDrop : d.text.drop (d.offset r.start) = d.slice r ++ d.beyond (d.clampRange r).stop := by
    rw [hText, ← length_upTo hStart, List.append_assoc, List.drop_left]
  rw [hDrop, List.self_eq_append_right, hd.beyond_eq_nil_iff (hd.holds_stop r)]

theorem WellFormed.text_replace_eq_iff (hd : d.WellFormed) (hStart : d.Holds r.start)
    (text : List Char) :
    (d.replace r text).text = d.text.take (d.offset r.start) ++ text ↔
      (d.clampRange r).stop = d.endPlace := by
  have hText : (d.replace r text).text =
      d.upTo r.start ++ text ++ d.beyond (d.clampRange r).stop := by
    rw [← clamp_of_holds hStart]
    exact d.text_splice r text
  rw [hText, upTo_eq_take hStart, List.append_right_eq_self, hd.beyond_eq_nil_iff (hd.holds_stop r)]

/-- Clamping keeps the order of two positions, unless both come to lie in the last line, the second
one from behind it with too small a column. So a range that starts in the text and stops behind the
last line covers the rest of the text exactly if its last column is not inside the last line, or
there is nothing left to cover; and exactly then its replacement replaces the rest. -/
theorem run_clamp_le_clamp_iff (content : List Char) (ops : List Operation) :
    let d := (ofText content).run ops
    let last := d.lineAt (d.numLines - 1)
    (∀ p q, p ≤ q →
      (d.clamp p ≤ d.clamp q ↔
        q.line < d.numLines ∨ p.line + 1 < d.numLines ∨ min p.column last.length ≤ q.column)) ∧
    ∀ r : Range, d.Holds r.start → d.numLines ≤ r.stop.line →
      (d.slice r = d.text.drop (d.offset r.start) ↔
        last.length ≤ r.stop.column ∨ r.start = ⟨d.numLines - 1, last.length⟩) ∧
      ∀ text, ((d.replace r text).text = d.text.take (d.offset r.start) ++ text ↔
        last.length ≤ r.stop.column ∨ r.start = ⟨d.numLines - 1, last.length⟩) := by
  intro d last
  have hd : d.WellFormed := (wellFormed_ofText content).run ops
  refine ⟨fun p q h => clamp_le_clamp_iff h, ?_⟩
  intro r hStart hBehind
  have hStop := hd.stop_eq_endPlace_iff hStart hBehind
  refine ⟨(hd.slice_eq_drop_iff hStart).trans hStop, ?_⟩
  intro text
  exact (hd.text_replace_eq_iff hStart text).trans hStop

/-- Behind a second line of two characters, columns 2 and 1. -/
theorem run_clamp_le_clamp_iff_two_lines :
    let d := (ofText "ab\nd".toList).run [.moveCaret ⟨1, 0⟩, .type 'c']
    let r : Range := ⟨⟨0, 1⟩, ⟨2, 2⟩⟩
    d.text = "ab\ncd".toList ∧ d.clamp ⟨1, 1⟩ ≤ d.clamp ⟨2, 1⟩ ∧ ¬ d.clamp ⟨1, 2⟩ ≤ d.clamp ⟨2, 1⟩ ∧
      d.slice r = "b\ncd".toList ∧ (d.replace r ['x']).text = "ax".toList ∧
      d.slice { r with stop := ⟨2, 1⟩ } ≠ "b\ncd".toList := by
  intro d r
  obtain ⟨hOrder, hRange⟩ :=
    run_clamp_le_clamp_iff "ab\nd".toList [.moveCaret ⟨1, 0⟩, .type 'c']
  have hStart : d.Holds ⟨0, 1⟩ := by decide
  have hLong := hRange r hStart (by decide)
  have hShort := hRange { r with stop := ⟨2, 1⟩ } hStart (by decide)
  refine ⟨by decide, (hOrder ⟨1, 1⟩ ⟨2, 1⟩ (by decide)).mpr (by decide), ?_,
    hLong.1.mpr (by decide), (hLong.2 ['x']).mpr (by decide), ?_⟩
  · rw [hOrder ⟨1, 2⟩ ⟨2, 1⟩ (by decide)]
    decide
  · exact fun h => absurd (hShort.1.mp h) (by decide)

/-- The position behind both lines comes to lie before the end of the second one. -/
theorem clamp_breaks_order :
    let d := ofText "ab\ncd".toList
    let r : Range := ⟨⟨0, 1⟩, ⟨2, 0⟩⟩
    (⟨1, 2⟩ : Position) ≤ ⟨2, 0⟩ ∧ ¬ d.clamp ⟨1, 2⟩ ≤ d.clamp ⟨2, 0⟩ ∧
      d.Holds r.start ∧ d.numLines ≤ r.stop.line ∧
      d.text.drop (d.offset r.start) = "b\ncd".toList ∧ d.slice r = "b\n".toList ∧
      (d.replace r ['x']).text = "axcd".toList := by
  decide

end Shorthand.Document
