import Shorthand.Template

/-! # Guarded access

Reading a line, taking lines out, cutting a text at a byte and taking one number from another, each
with the check that a machine makes: what is out of range is a fault. A text is cut at a byte only
between two characters, and the byte at which a column starts is such a place.
-/
namespace Shorthand.Guarded

inductive Fault where
  | noSuchLine
  /-- Lines are asked for from one line up to an earlier one, or up to one that is not there. -/
  | noSuchLines
  /-- A text is cut inside a character or beyond its end. -/
  | noBoundary
  | belowZero
deriving DecidableEq, Repr

variable {α β : Type}

theorem ok_bind (a : α) (f : α → Except Fault β) : (.ok a >>= f) = f a := rfl

def minus (a b : Nat) : Except Fault Nat :=
  if b ≤ a then .ok (a - b) else .error .belowZero

def lineAt (lines : List α) (n : Nat) : Except Fault α :=
  match lines[n]? with
  | some l => .ok l
  | none => .error .noSuchLine

/-- The lines from `first` up to, but without, `stop`. -/
def linesBetween (lines : List α) (first stop : Nat) : Except Fault (List α) :=
  if first ≤ stop ∧ stop ≤ lines.length then .ok ((lines.drop first).take (stop - first))
  else .error .noSuchLines

/-- Puts `new` in the place of the lines from `first` to `last`. -/
def replaceLines (lines : List α) (first last : Nat) (new : List α) : Except Fault (List α) :=
  if first ≤ last + 1 ∧ last < lines.length then
    .ok (lines.take first ++ new ++ lines.drop (last + 1))
  else .error .noSuchLines

theorem minus_of_le {a b : Nat} (h : b ≤ a) : minus a b = .ok (a - b) := if_pos h

theorem lineAt_of_lt {lines : List α} {n : Nat} (h : n < lines.length) (a : α) :
    lineAt lines n = .ok (lines[n]?.getD a) := by
  rw [lineAt, List.getElem?_eq_getElem h]
  rfl

theorem linesBetween_of_le {lines : List α} {first stop : Nat} (h : first ≤ stop)
    (hStop : stop ≤ lines.length) :
    linesBetween lines first stop = .ok ((lines.drop first).take (stop - first)) :=
  if_pos ⟨h, hStop⟩

theorem replaceLines_of_lt {lines : List α} {first last : Nat} (h : first ≤ last)
    (hLast : last < lines.length) (new : List α) :
    replaceLines lines first last new = .ok (lines.take first ++ new ++ lines.drop (last + 1)) :=
  if_pos ⟨Nat.le_succ_of_le h, hLast⟩

def numBytes : List Char → Nat
  | [] => 0
  | c :: rest => c.utf8Size + numBytes rest

def cutBytes : List Char → Nat → Except Fault (List Char × List Char)
  | text, 0 => .ok ([], text)
  | [], _ + 1 => .error .noBoundary
  | c :: rest, n + 1 =>
    if c.utf8Size ≤ n + 1 then
      (cutBytes rest (n + 1 - c.utf8Size)).map fun (before, behind) => (c :: before, behind)
    else .error .noBoundary

/-- The byte at which each character starts, if the text starts at the byte `start`. -/
def byteIndices (start : Nat) : List Char → List Nat
  | [] => []
  | c :: rest => start :: byteIndices (start + c.utf8Size) rest

/-- The byte at which a column starts, and the end of the line for columns behind it. -/
def byteOffset (line : List Char) (column : Nat) : Nat :=
  (byteIndices 0 line)[column]?.getD (numBytes line)

def findBytes? (mark : List Char) : List Char → Option Nat
  | [] => if mark = [] then some 0 else none
  | c :: rest =>
    if mark.isPrefixOf (c :: rest) then some 0
    else (findBytes? mark rest).map (c.utf8Size + ·)

theorem numBytes_append (a b : List Char) : numBytes (a ++ b) = numBytes a + numBytes b := by
  induction a with
  | nil => exact (Nat.zero_add _).symm
  | cons c rest ih => rw [List.cons_append, numBytes, numBytes, ih, Nat.add_assoc]

theorem cutBytes_append (before behind : List Char) :
    cutBytes (before ++ behind) (numBytes before) = .ok (before, behind) := by
  induction before with
  | nil => exact cutBytes.eq_1 behind
  | cons c rest ih =>
    obtain ⟨n, hn⟩ := Nat.exists_eq_add_one.mpr (Nat.add_pos_left c.utf8Size_pos (numBytes rest))
    have hRest : n + 1 - c.utf8Size = numBytes rest := by omega
    rw [numBytes, hn, List.cons_append, cutBytes, if_pos (by omega), hRest, ih]
    rfl

theorem cutBytes_eq_ok_iff {text before behind : List Char} {n : Nat} :
    cutBytes text n = .ok (before, behind) ↔ text = before ++ behind ∧ n = numBytes before := by
  constructor
  · intro h
    fun_induction cutBytes text n generalizing before with
    | case1 text =>
      cases h
      exact ⟨rfl, rfl⟩
    | case2 => cases h
    | case3 c rest n hFits ih =>
      cases hCut : cutBytes rest (n + 1 - c.utf8Size) with
      | error e =>
        rw [hCut] at h
        cases h
      | ok parts =>
        rw [hCut] at h
        cases h
        obtain ⟨hText, hBytes⟩ := ih hCut
        refine ⟨congrArg (c :: ·) hText, ?_⟩
        rw [numBytes]
        omega
    | case4 => cases h
  · rintro ⟨rfl, rfl⟩
    exact cutBytes_append before behind

/-- Two bytes for one character. -/
example : cutBytes "é".toList 1 = .error .noBoundary := rfl

theorem byteOffset_from (start : Nat) (line : List Char) (column : Nat) :
    (byteIndices start line)[column]?.getD (start + numBytes line) =
      start + numBytes (line.take column) := by
  induction line generalizing start column with
  | nil => rw [List.take_nil]; rfl
  | cons c rest ih =>
    cases column with
    | zero => rfl
    | succ column =>
      rw [byteIndices, List.getElem?_cons_succ, List.take_succ_cons, numBytes, numBytes,
        ← Nat.add_assoc, ← Nat.add_assoc]
      exact ih (start + c.utf8Size) column

theorem byteOffset_eq (line : List Char) (column : Nat) :
    byteOffset line column = numBytes (line.take column) := by
  have h := byteOffset_from 0 line column
  rwa [Nat.zero_add, Nat.zero_add] at h

theorem cutBytes_byteOffset (line : List Char) (column : Nat) :
    cutBytes line (byteOffset line column) = .ok (line.take column, line.drop column) := by
  rw [cutBytes_eq_ok_iff, List.take_append_drop]
  exact ⟨rfl, byteOffset_eq line column⟩

theorem findBytes?_eq (mark text : List Char) :
    findBytes? mark text = (cutAt mark text).map fun parts => numBytes parts.1 := by
  induction text with
  | nil =>
    rw [findBytes?, cutAt]
    split <;> rfl
  | cons c rest ih =>
    rw [findBytes?, cutAt]
    split
    · rfl
    · rw [ih, Option.map_map, Option.map_map]
      rfl

def parse (template : List Char) : Except Fault Template :=
  match findBytes? placeholder template with
  | none => .ok ⟨template, none⟩
  | some n => do
    let (before, _) ← cutBytes template n
    let (_, after) ← cutBytes template (n + numBytes placeholder)
    return ⟨before ++ after, some ⟨before.count '\n', (Text.lastLine before).length⟩⟩

theorem parse_eq (template : List Char) : parse template = .ok (Template.parse template) := by
  rw [parse, findBytes?_eq, Template.parse]
  cases hCut : cutAt placeholder template with
  | none => rfl
  | some parts =>
    obtain ⟨before, after⟩ := parts
    have hTemplate := eq_append_of_cutAt hCut
    -- The two cuts are in front of the marker and behind it.
    have hFront : cutBytes template (numBytes before) = .ok (before, placeholder ++ after) := by
      rw [hTemplate, List.append_assoc]
      exact cutBytes_append before _
    have hBack : cutBytes template (numBytes before + numBytes placeholder) =
        .ok (before ++ placeholder, after) := by
      rw [hTemplate, ← numBytes_append]
      exact cutBytes_append _ after
    simp only [Option.map_some, hFront, hBack, ok_bind]
    rfl

end Shorthand.Guarded
