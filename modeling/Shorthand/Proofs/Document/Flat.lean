import Shorthand.Document
import Shorthand.Proofs.Template

/-! # Documents as flat text

A place in a document is a cut of its text: the text up to the place and the text beyond it. Reading
and replacing a range are stated by the cuts at its two ends, and a cut of the text is at one place
only, so columns and lines need not be looked at again.
-/
namespace Shorthand.Document

open Text

/-- A document has a line, and no line of it holds a newline. -/
structure WellFormed (d : Document) : Prop where
  lines_ne_nil : d.lines ≠ []
  newline_not_mem : ∀ l ∈ d.lines, '\n' ∉ l

/-- Whether `p` is a place in the text. -/
def Holds (d : Document) (p : Position) : Prop :=
  p.line < d.numLines ∧ p.column ≤ (d.lineAt p.line).length

instance (d : Document) (p : Position) : Decidable (d.Holds p) :=
  inferInstanceAs (Decidable (p.line < d.numLines ∧ p.column ≤ (d.lineAt p.line).length))

/-- The number of characters of the text before `p`, newlines among them. -/
def offset (d : Document) (p : Position) : Nat :=
  ((d.lines.take p.line).map (·.length + 1)).sum + p.column

def upTo (d : Document) (p : Position) : List Char :=
  joinLines (d.lines.take p.line ++ [(d.lineAt p.line).take p.column])

def beyond (d : Document) (p : Position) : List Char :=
  joinLines ((d.lineAt p.line).drop p.column :: d.lines.drop (p.line + 1))

theorem wellFormed_ofText (content : List Char) : (ofText content).WellFormed where
  lines_ne_nil := splitLines_ne_nil content
  newline_not_mem _ hl := not_mem_of_mem_split hl

theorem WellFormed.lines_eq {d : Document} (hd : d.WellFormed) : d.lines = splitLines d.text :=
  (splitLines_joinLines hd.lines_ne_nil hd.newline_not_mem).symm

theorem WellFormed.numLines_pos {d : Document} (hd : d.WellFormed) : 0 < d.numLines :=
  List.length_pos_iff.mpr hd.lines_ne_nil

theorem lineAt_cons_drop {d : Document} {n : Nat} (h : n < d.numLines) :
    d.lineAt n :: d.lines.drop (n + 1) = d.lines.drop n := by
  rw [lineAt, List.getElem?_eq_getElem h, Option.getD_some, ← List.drop_eq_getElem_cons h]

theorem take_append_lineAt {d : Document} {n : Nat} (h : n < d.numLines) :
    d.lines.take n ++ d.lineAt n :: d.lines.drop (n + 1) = d.lines := by
  rw [lineAt_cons_drop h, List.take_append_drop]

theorem WellFormed.newline_not_mem_lineAt {d : Document} (hd : d.WellFormed) (n : Nat) :
    '\n' ∉ d.lineAt n := by
  rw [lineAt]
  cases hl : d.lines[n]? with
  | none => exact List.not_mem_nil
  | some l => exact hd.newline_not_mem l (List.mem_of_getElem? hl)

theorem upTo_append_beyond {d : Document} {p : Position} (h : d.Holds p) :
    d.upTo p ++ d.beyond p = d.text := by
  rw [upTo, beyond, ← joinLines_cut, List.take_append_drop, take_append_lineAt h.1, text]

theorem length_upTo {d : Document} {p : Position} (h : d.Holds p) :
    (d.upTo p).length = d.offset p := by
  rw [upTo, length_joinLines_concat, offset, List.length_take_of_le h.2]

theorem upTo_eq_take {d : Document} {p : Position} (h : d.Holds p) :
    d.upTo p = d.text.take (d.offset p) := by
  rw [← upTo_append_beyond h, ← length_upTo h, List.take_left]

theorem beyond_eq_drop {d : Document} {p : Position} (h : d.Holds p) :
    d.beyond p = d.text.drop (d.offset p) := by
  rw [← upTo_append_beyond h, ← length_upTo h, List.drop_left]

theorem WellFormed.newline_not_mem_cut {d : Document} (hd : d.WellFormed) (p : Position) :
    ∀ l ∈ d.lines.take p.line ++ [(d.lineAt p.line).take p.column], '\n' ∉ l := by
  intro l hl
  rcases List.mem_append.mp hl with hl | hl
  · exact hd.newline_not_mem l (List.mem_of_mem_take hl)
  · rw [List.mem_singleton.mp hl]
    exact fun hm => hd.newline_not_mem_lineAt p.line (List.mem_of_mem_take hm)

theorem WellFormed.origin_after_upTo {d : Document} (hd : d.WellFormed) {p : Position}
    (h : d.Holds p) : Position.origin.after (d.upTo p) = p := by
  rw [upTo, Position.origin_after_joinLines (hd.newline_not_mem_cut p),
    List.length_take_of_le (Nat.le_of_lt h.1), List.length_take_of_le h.2]

theorem WellFormed.cut {d : Document} (hd : d.WellFormed) {u v : List Char}
    (h : d.text = u ++ v) :
    d.Holds (Position.origin.after u) ∧ d.upTo (Position.origin.after u) = u ∧
      d.beyond (Position.origin.after u) = v := by
  obtain ⟨before, a, b, after, hu, hv, hSplit⟩ := split_append '\n' u v
  have hLines : d.lines = before ++ (a ++ b) :: after := by
    rw [hd.lines_eq, h]
    exact hSplit
  have hJoin : joinLines (before ++ [a]) = u := hu ▸ joinLines_splitLines u
  have hPlace : Position.origin.after u = ⟨before.length, a.length⟩ := by
    rw [← hJoin]
    apply Position.origin_after_joinLines
    intro l hl
    exact not_mem_of_mem_split (hu ▸ hl)
  have hLine : d.lineAt before.length = a ++ b := by
    rw [lineAt, hLines, List.getElem?_append_right (Nat.le_refl _), Nat.sub_self]
    rfl
  have hHolds : d.Holds ⟨before.length, a.length⟩ := by
    refine ⟨?_, ?_⟩
    · simp [numLines, hLines]
    · simp [hLine]
  have hUpTo : d.upTo ⟨before.length, a.length⟩ = u := by
    rw [upTo, hLine, List.take_left, hLines, List.take_left, hJoin]
  rw [hPlace]
  refine ⟨hHolds, hUpTo, ?_⟩
  have hText := upTo_append_beyond hHolds
  rw [hUpTo, h] at hText
  exact List.append_cancel_left hText

theorem WellFormed.offset_after {d : Document} (hd : d.WellFormed) {u v : List Char}
    (h : d.text = u ++ v) : d.offset (Position.origin.after u) = u.length := by
  obtain ⟨hHolds, hUpTo, _⟩ := hd.cut h
  rw [← length_upTo hHolds, hUpTo]

theorem WellFormed.holds_clamp {d : Document} (hd : d.WellFormed) (p : Position) :
    d.Holds (d.clamp p) := by
  have hLines := hd.numLines_pos
  refine ⟨?_, Nat.min_le_right _ _⟩
  show min p.line (d.numLines - 1) < d.numLines
  omega

theorem clamp_of_holds {d : Document} {p : Position} (h : d.Holds p) : d.clamp p = p := by
  have hLine : min p.line (d.numLines - 1) = p.line := by
    have := h.1
    omega
  rw [clamp, hLine, Nat.min_eq_left h.2]

theorem textBefore_eq_lastLine {d : Document} (hd : d.WellFormed) (p : Position) :
    d.textBefore p = lastLine (d.upTo (d.clamp p)) := by
  rw [upTo, lastLine_joinLines_concat (hd.newline_not_mem_cut (d.clamp p) _ (by simp))]
  rfl

theorem take_lines_of_lt {d : Document} {m n : Nat} (hmn : m < n) (hn : n < d.numLines) :
    d.lines.take n =
      d.lines.take m ++ d.lineAt m :: (d.lines.drop (m + 1)).take (n - (m + 1)) := by
  obtain ⟨k, rfl⟩ := Nat.exists_eq_add_of_lt hmn
  have hk : m + k + 1 - (m + 1) = k := by omega
  rw [hk, Nat.add_assoc, List.take_add, ← lineAt_cons_drop (by omega), List.take_succ_cons]

theorem clampRange_start (d : Document) (r : Range) :
    (d.clampRange r).start = d.clamp r.start := rfl

theorem clampRange_stop (d : Document) (r : Range) :
    (d.clampRange r).stop = max (d.clamp r.stop) (d.clamp r.start) := rfl

theorem WellFormed.holds_start {d : Document} (hd : d.WellFormed) (r : Range) :
    d.Holds (d.clampRange r).start := hd.holds_clamp r.start

theorem WellFormed.holds_stop {d : Document} (hd : d.WellFormed) (r : Range) :
    d.Holds (d.clampRange r).stop := by
  rw [clampRange_stop]
  show d.Holds (if d.clamp r.stop ≤ d.clamp r.start then d.clamp r.start else d.clamp r.stop)
  split
  · exact hd.holds_clamp r.start
  · exact hd.holds_clamp r.stop

theorem WellFormed.upTo_append_slice {d : Document} (hd : d.WellFormed) (r : Range) :
    d.upTo (d.clampRange r).start ++ d.slice r = d.upTo (d.clampRange r).stop := by
  have hLe : (d.clampRange r).start ≤ (d.clampRange r).stop := Position.le_max_right _ _
  have hStop := hd.holds_stop r
  rw [slice]
  generalize (d.clampRange r).start = s at hLe
  generalize (d.clampRange r).stop = t at hLe hStop
  rcases hLe with hLine | ⟨hLine, hColumn⟩
  · have hCut := joinLines_cut (d.lines.take s.line)
      ((d.lines.drop (s.line + 1)).take (t.line - (s.line + 1)) ++
        [(d.lineAt t.line).take t.column])
      ((d.lineAt s.line).take s.column) ((d.lineAt s.line).drop s.column)
    rw [if_neg (Nat.ne_of_lt hLine), upTo, upTo, take_lines_of_lt hLine hStop.1, List.append_assoc,
      List.cons_append, List.cons_append, ← hCut, List.take_append_drop]
  · have hTake : (d.lineAt s.line).take t.column =
        (d.lineAt s.line).take s.column ++
          ((d.lineAt s.line).drop s.column).take (t.column - s.column) := by
      rw [← List.take_add, Nat.add_sub_cancel' hColumn]
    rw [if_pos hLine, upTo, upTo, ← hLine, hTake, joinLines_cut]
    rfl

theorem WellFormed.text_eq_slice {d : Document} (hd : d.WellFormed) (r : Range) :
    d.text = d.upTo (d.clampRange r).start ++ d.slice r ++ d.beyond (d.clampRange r).stop := by
  rw [hd.upTo_append_slice, upTo_append_beyond (hd.holds_stop r)]

theorem text_splice (d : Document) (r : Range) (text : List Char) :
    (d.splice r text).text =
      d.upTo (d.clampRange r).start ++ text ++ d.beyond (d.clampRange r).stop := by
  generalize hs : (d.clampRange r).start = s
  generalize ht : (d.clampRange r).stop = t
  have hBehind :=
    joinLines_cut [] (d.lines.drop (t.line + 1)) text ((d.lineAt t.line).drop t.column)
  calc (d.splice r text).text
      = joinLines (d.lines.take s.line ++ ((d.lineAt s.line).take s.column ++ text ++
          (d.lineAt t.line).drop t.column) :: d.lines.drop (t.line + 1)) := by
        rw [← joinLines_middle_splitLines, ← hs, ← ht]
        rfl
    _ = d.upTo s ++ joinLines ((text ++ (d.lineAt t.line).drop t.column) ::
          d.lines.drop (t.line + 1)) := by
        rw [List.append_assoc, joinLines_cut]
        rfl
    _ = d.upTo s ++ text ++ d.beyond t := by
        rw [List.append_assoc]
        exact congrArg (d.upTo s ++ ·) hBehind

theorem WellFormed.splice {d : Document} (hd : d.WellFormed) (r : Range) (text : List Char) :
    (d.splice r text).WellFormed where
  lines_ne_nil := by
    intro h
    rcases List.append_eq_nil_iff.mp h with ⟨h, _⟩
    exact splitLines_ne_nil _ (List.append_eq_nil_iff.mp h).2
  newline_not_mem l hl := by
    rcases List.mem_append.mp hl with hl | hl
    · rcases List.mem_append.mp hl with hl | hl
      · exact hd.newline_not_mem l (List.mem_of_mem_take hl)
      · exact not_mem_of_mem_split hl
    · exact hd.newline_not_mem l (List.mem_of_mem_drop hl)

theorem WellFormed.cut_start {d : Document} (hd : d.WellFormed) (r : Range) (text : List Char) :
    (d.splice r text).Holds (d.clamp r.start) ∧
      (d.splice r text).upTo (d.clamp r.start) = d.upTo (d.clamp r.start) ∧
      (d.splice r text).beyond (d.clamp r.start) = text ++ d.beyond (d.clampRange r).stop := by
  have hText := d.text_splice r text
  rw [List.append_assoc] at hText
  have hCut := (hd.splice r text).cut hText
  rwa [clampRange_start, hd.origin_after_upTo (hd.holds_clamp r.start)] at hCut

theorem WellFormed.cut_after {d : Document} (hd : d.WellFormed) (r : Range) (text : List Char) :
    (d.splice r text).Holds ((d.clamp r.start).after text) ∧
      (d.splice r text).upTo ((d.clamp r.start).after text) = d.upTo (d.clamp r.start) ++ text ∧
      (d.splice r text).beyond ((d.clamp r.start).after text) =
        d.beyond (d.clampRange r).stop := by
  have hCut := (hd.splice r text).cut (d.text_splice r text)
  rwa [clampRange_start, Position.after_append,
    hd.origin_after_upTo (hd.holds_clamp r.start)] at hCut

theorem clampRange_of_holds {d : Document} {s t : Position} (hs : d.Holds s) (ht : d.Holds t)
    (hst : s ≤ t) : d.clampRange ⟨s, t⟩ = ⟨s, t⟩ := by
  rw [clampRange, clamp_of_holds hs, clamp_of_holds ht, Position.max_eq_left hst]

theorem slice_inLine {d : Document} {line first last : Nat} (hLine : line < d.numLines)
    (hOrder : first ≤ last) (hLast : last ≤ (d.lineAt line).length) :
    d.slice (.inLine line first last) = ((d.lineAt line).take last).drop first := by
  have hStart : d.Holds ⟨line, first⟩ := ⟨hLine, Nat.le_trans hOrder hLast⟩
  have hStop : d.Holds ⟨line, last⟩ := ⟨hLine, hLast⟩
  have hClamp : d.clampRange (.inLine line first last) = .inLine line first last :=
    clampRange_of_holds hStart hStop (.inr ⟨rfl, hOrder⟩)
  rw [slice, hClamp, List.drop_take]
  exact if_pos rfl

/-- A splice is taken back by putting what it removed in the place of what it inserted. -/
theorem WellFormed.lines_splice_splice {d : Document} (hd : d.WellFormed) (r : Range)
    (text : List Char) :
    ((d.splice r text).splice ⟨d.clamp r.start, (d.clamp r.start).after text⟩ (d.slice r)).lines =
      d.lines := by
  obtain ⟨hStart, hUpTo, _⟩ := hd.cut_start r text
  obtain ⟨hStop, _, hBeyond⟩ := hd.cut_after r text
  rw [((hd.splice r text).splice _ _).lines_eq, hd.lines_eq, text_splice,
    clampRange_of_holds hStart hStop (Position.le_after _ _), hUpTo, hBeyond, hd.text_eq_slice r,
    clampRange_start]

end Shorthand.Document
