import Mathlib.Order.Lattice
import Shorthand.Json.Value
import Shorthand.Proofs.Json.Spelling

/-! # Texts of trees

A text parses as a tree exactly if it spells the tokens of the tree, and as a plain value if the
numbers, the strings and the nesting of the tree stay within bounds besides.
-/
namespace Shorthand.Json

namespace Tree

/-- Items that were read, latest first, each with the comma behind it. -/
def itemsRead : List Tree → List Token
  | [] => []
  | t :: done => itemsRead done ++ t.tokens ++ [.comma]

/-- Members that were read, latest first, each with the comma behind it. -/
def membersRead : List (List StringUnit × Tree) → List Token
  | [] => []
  | (name, t) :: done => membersRead done ++ .string name :: .colon :: t.tokens ++ [.comma]

theorem tokens_array (done : List Tree) (t : Tree) (ts : List Tree) :
    tokens (.array (done.reverse ++ t :: ts)) =
      .openArray :: itemsRead done ++ t.tokens ++ itemTokens ts ++ [.closeArray] := by
  induction done generalizing t ts with
  | nil => simp [itemsRead, tokens]
  | cons u done ih => simp [itemsRead, ih, itemTokens]

theorem tokens_object (done : List (List StringUnit × Tree)) (name : List StringUnit) (t : Tree)
    (ms : List (List StringUnit × Tree)) :
    tokens (.object (done.reverse ++ (name, t) :: ms)) =
      .openObject :: membersRead done ++ .string name :: .colon :: t.tokens ++ memberTokens ms ++
        [.closeObject] := by
  induction done generalizing name t ms with
  | nil => simp [membersRead, tokens]
  | cons m done ih => simp [membersRead, ih, memberTokens]

def Frame.read : Frame → List Token
  | .array done => .openArray :: itemsRead done
  | .object done name => .openObject :: membersRead done ++ [.string name, .colon]

/-- The tokens in the containers that are still open. -/
def outerRead : List Frame → List Token
  | [] => []
  | frame :: outer => outerRead outer ++ frame.read

/-- The tokens that led to a reading. -/
def Reading.read : Reading → List Token
  | value outer => outerRead outer
  | item outer => outerRead outer ++ [.openArray]
  | member outer => outerRead outer ++ [.openObject]
  | key done outer => outerRead outer ++ .openObject :: membersRead done
  | colon done name outer => outerRead outer ++ .openObject :: membersRead done ++ [.string name]
  | ready t outer => outerRead outer ++ t.tokens

theorem Reading.read_begin? {outer : List Frame} {t : Token} {r : Reading}
    (h : begin? outer t = some r) : r.read = outerRead outer ++ [t] := by
  cases t <;> cases h <;> simp [Reading.read, tokens]

theorem Reading.read_step? {r r' : Reading} {t : Token} (h : r.step? t = some r') :
    r'.read = r.read ++ [t] := by
  rw [step?.eq_def] at h
  split at h
  next => exact read_begin? h
  next =>
    cases h
    simp [Reading.read, tokens]
  next =>
    rw [read_begin? h]
    rfl
  next =>
    cases h
    simp [Reading.read, tokens]
  next =>
    cases h
    simp [Reading.read, membersRead]
  next =>
    cases h
    simp [Reading.read]
  next =>
    cases h
    simp [Reading.read, outerRead, Frame.read]
  next =>
    cases h
    simp [Reading.read, outerRead, Frame.read, itemsRead]
  next done k =>
    cases h
    simp [Reading.read, outerRead, Frame.read, tokens_array done _ [], itemTokens]
  next =>
    cases h
    simp [Reading.read, outerRead, Frame.read, membersRead]
  next done name k =>
    cases h
    simp [Reading.read, outerRead, Frame.read, tokens_object done name _ [], memberTokens]
  next => cases h

theorem Reading.read_run {r r' : Reading} {ts : List Token}
    (h : ts.foldlM Reading.step? r = some r') : r'.read = r.read ++ ts := by
  induction ts generalizing r with
  | nil =>
    cases h
    exact (List.append_nil _).symm
  | cons t ts ih =>
    -- A reading is never undone, so each step adds its token behind those before.
    obtain ⟨next, hStep, hRest⟩ := Option.bind_eq_some_iff.mp h
    rw [ih hRest, Reading.read_step? hStep, List.append_assoc, List.singleton_append]

theorem ofTokens?_eq_some_iff {ts : List Token} {t : Tree} :
    ofTokens? ts = some t ↔ ts = t.tokens := by
  constructor
  · intro h
    rw [ofTokens?] at h
    split at h
    next u hRun =>
      cases h
      have hRead := Reading.read_run hRun
      exact hRead.symm
    next => cases h
  · rintro rfl
    exact ofTokens?_tokens t

theorem endsValue_itemTokens {ts : List Tree} {t : Token}
    (h : (itemTokens ts).head? = some t) : t.endsValue = true := by
  cases ts <;> cases h
  rfl

theorem endsValue_memberTokens {ms : List (List StringUnit × Tree)} {t : Token}
    (h : (memberTokens ms).head? = some t) : t.endsValue = true := by
  cases ms <;> cases h
  rfl

theorem numeralsEnd_close {t : Token} (h : t.endsValue = true) :
    NumeralsEnd [t] ∧ ∀ u, [t].head? = some u → u.endsValue = true := by
  refine ⟨.singleton t, ?_⟩
  rintro _ ⟨⟩
  exact h

mutual

theorem numeralsEnd_tokens (t : Tree) : NumeralsEnd t.tokens := by
  match t with
  | null | bool _ | number _ | string _ => exact .singleton _
  | array [] | object [] => exact (List.IsChain.singleton _).cons_cons (by simp [Token.isNumber])
  | array (t :: ts) =>
    have hItem := (numeralsEnd_tokens t).cons (t := .openArray) rfl
    have hItems := hItem.append (numeralsEnd_itemTokens ts) fun _ => endsValue_itemTokens
    obtain ⟨hClose, hEnds⟩ := numeralsEnd_close (t := .closeArray) rfl
    exact hItems.append hClose hEnds
  | object ((name, t) :: ms) =>
    have hMember := (((numeralsEnd_tokens t).cons (t := .colon) rfl).cons
      (t := .string name) rfl).cons (t := .openObject) rfl
    have hMembers := hMember.append (numeralsEnd_memberTokens ms) fun _ => endsValue_memberTokens
    obtain ⟨hClose, hEnds⟩ := numeralsEnd_close (t := .closeObject) rfl
    exact hMembers.append hClose hEnds

theorem numeralsEnd_itemTokens (ts : List Tree) : NumeralsEnd (itemTokens ts) := by
  match ts with
  | [] => exact .nil
  | t :: ts =>
    have hItem := (numeralsEnd_tokens t).cons (t := .comma) rfl
    exact hItem.append (numeralsEnd_itemTokens ts) fun _ => endsValue_itemTokens

theorem numeralsEnd_memberTokens (ms : List (List StringUnit × Tree)) :
    NumeralsEnd (memberTokens ms) := by
  match ms with
  | [] => exact .nil
  | (name, t) :: ms =>
    have hMember := (((numeralsEnd_tokens t).cons (t := .colon) rfl).cons
      (t := .string name) rfl).cons (t := .comma) rfl
    exact hMember.append (numeralsEnd_memberTokens ms) fun _ => endsValue_memberTokens

end

theorem lex_eq_tokens_iff {s : List Char} {t : Tree} :
    lex s = some t.tokens ↔ Spells t.tokens s :=
  ⟨spells_of_lex, fun h => h.lex_eq t.numeralsEnd_tokens⟩

/-- A text parses as a tree if it spells the tokens of the tree, and only then. -/
theorem parse?_eq_some_iff {s : List Char} {t : Tree} :
    parse? s = some t ↔ Spells t.tokens s := by
  rw [← lex_eq_tokens_iff, parse?, Option.bind_eq_some_iff]
  constructor
  · rintro ⟨ts, hLex, hTree⟩
    rw [hLex, ofTokens?_eq_some_iff.mp hTree]
  · intro h
    exact ⟨_, h, ofTokens?_tokens t⟩

mutual

def nesting : Tree → Nat
  | array items => itemNesting items + 1
  | object members => memberNesting members + 1
  | _ => 0

def itemNesting : List Tree → Nat
  | [] => 0
  | t :: ts => max (nesting t) (itemNesting ts)

def memberNesting : List (List StringUnit × Tree) → Nat
  | [] => 0
  | (_, t) :: ms => max (nesting t) (memberNesting ms)

end

mutual

theorem nestsWithin_tokens (t : Tree) (room : Nat) (rest : List Token) :
    nestsWithin room (t.tokens ++ rest) =
      (decide (t.nesting ≤ room) && nestsWithin room rest) := by
  match t with
  | null | bool _ | number _ | string _ => simp [tokens, nestsWithin, nesting]
  | array [] | object [] =>
    cases room <;> simp [tokens, nestsWithin, nesting, itemNesting, memberNesting]
  | array (t :: ts) =>
    cases room with
    | zero => simp [tokens, nestsWithin, nesting]
    | succ room =>
      have hItem := nestsWithin_tokens t room
      have hItems := nestsWithin_itemTokens ts room
      simp [tokens, nestsWithin, nesting, itemNesting, hItem, hItems, Bool.and_assoc]
  | object ((name, t) :: ms) =>
    cases room with
    | zero => simp [tokens, nestsWithin, nesting]
    | succ room =>
      have hItem := nestsWithin_tokens t room
      have hMembers := nestsWithin_memberTokens ms room
      simp [tokens, nestsWithin, nesting, memberNesting, hItem, hMembers, Bool.and_assoc]

theorem nestsWithin_itemTokens (ts : List Tree) (room : Nat) (rest : List Token) :
    nestsWithin room (itemTokens ts ++ rest) =
      (decide (itemNesting ts ≤ room) && nestsWithin room rest) := by
  match ts with
  | [] => simp [itemTokens, itemNesting]
  | t :: ts =>
    have hItem := nestsWithin_tokens t room
    have hItems := nestsWithin_itemTokens ts room
    simp [itemTokens, nestsWithin, itemNesting, hItem, hItems, Bool.and_assoc]

theorem nestsWithin_memberTokens (ms : List (List StringUnit × Tree)) (room : Nat)
    (rest : List Token) :
    nestsWithin room (memberTokens ms ++ rest) =
      (decide (memberNesting ms ≤ room) && nestsWithin room rest) := by
  match ms with
  | [] => simp [memberTokens, memberNesting]
  | (name, t) :: ms =>
    have hItem := nestsWithin_tokens t room
    have hMembers := nestsWithin_memberTokens ms room
    simp [memberTokens, nestsWithin, memberNesting, hItem, hMembers, Bool.and_assoc]

end

theorem itemNesting_le {ts : List Tree} {n : Nat} (h : ∀ t ∈ ts, t.nesting ≤ n) :
    itemNesting ts ≤ n := by
  induction ts with
  | nil => exact Nat.zero_le n
  | cons t ts ih =>
    have hItems := ih fun u hu => h u (List.mem_cons_of_mem _ hu)
    exact Nat.max_le.mpr ⟨h t List.mem_cons_self, hItems⟩

/-- The text of a plain value: its numbers fit doubles, its strings are text, and it is not nested
too deeply. -/
structure IsPlainText (t : Tree) (s : List Char) : Prop where
  spells : Spells t.tokens s
  plain : ∀ token ∈ t.tokens, token.isPlain = true
  nesting_le : t.nesting ≤ deepestNesting

theorem parseValue?_eq_some_iff {s : List Char} {t : Tree} :
    parseValue? s = some t ↔ t.IsPlainText s := by
  have hNesting : nestsWithin deepestNesting t.tokens = decide (t.nesting ≤ deepestNesting) := by
    have hTokens := t.nestsWithin_tokens deepestNesting []
    rwa [List.append_nil, nestsWithin, Bool.and_true] at hTokens
  constructor
  · intro h
    rw [parseValue?] at h
    split at h
    next => cases h
    next ts hLex =>
      split at h
      next hPlain =>
        obtain rfl := ofTokens?_eq_some_iff.mp h
        rw [Bool.and_eq_true, List.all_eq_true, hNesting, decide_eq_true_eq] at hPlain
        exact ⟨spells_of_lex hLex, hPlain.1, hPlain.2⟩
      next => cases h
  · rintro ⟨hSpells, hPlain, hDeep⟩
    have hAll : (t.tokens.all Token.isPlain && nestsWithin deepestNesting t.tokens) = true := by
      rw [Bool.and_eq_true, List.all_eq_true, hNesting, decide_eq_true_eq]
      exact ⟨hPlain, hDeep⟩
    rw [parseValue?, lex_eq_tokens_iff.mpr hSpells]
    dsimp only
    rw [if_pos hAll, ofTokens?_tokens]

end Tree

end Shorthand.Json
