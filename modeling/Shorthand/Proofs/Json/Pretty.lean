import Shorthand.Json.Pretty
import Shorthand.Json.Record
import Shorthand.Proofs.Json.Grammar

/-! # Reading indented text

The indented text of a record spells its tokens, with newlines and spaces between them.
Main statement: the text of a tree that a record is written as parses back into that tree.
-/
namespace Shorthand.Json

theorem hexDigit?_digitChar : ∀ n < 16, hexDigit? (Nat.digitChar n) = some n := by decide

theorem code?_hexDigits {n : Nat} (h : n < 0x10000) :
    ∃ a b c d, hexDigits 4 n = [a, b, c, d] ∧ code? a b c d = some n := by
  refine ⟨_, _, _, _, rfl, ?_⟩
  have hDigit (m : Nat) : hexDigit? (Nat.digitChar (m % 16)) = some (m % 16) :=
    hexDigit?_digitChar _ (Nat.mod_lt m (by decide))
  simp only [code?, hDigit, Option.bind_eq_bind, Option.bind_some]
  refine congrArg some ?_
  omega

theorem ofCode_toNat {c : Char} (h : c.toNat < 0x20) :
    StringUnit.ofCode c.toNat = .char c := by
  have hHalf : (StringUnit.isHigh c.toNat || StringUnit.isLow c.toNat) = false := by
    simp only [StringUnit.isHigh, StringUnit.isLow, Bool.or_eq_false_iff, Bool.and_eq_false_iff,
      decide_eq_false_iff_not]
    omega
  rw [StringUnit.ofCode, hHalf, if_neg Bool.false_ne_true, Char.ofNat_toNat]

theorem spelling_escape (c : Char) {units : List StringUnit} {s : List Char}
    (h : StringSpelling units s) : StringSpelling (.char c :: units) (escape c ++ s) := by
  have hLetter {e : Char} (he : escaped? e = some c) :
      StringSpelling (.char c :: units) (['\\', e] ++ s) := .letter he h
  rw [escape]
  split
  next hc => exact hLetter (by rw [hc]; rfl)
  next hQuote =>
    split
    next hc => exact hLetter (by rw [hc]; rfl)
    next hSlash =>
      repeat' split
      next hc => exact hLetter (by rw [hc]; rfl)
      next hc => exact hLetter (by rw [hc]; rfl)
      next hc => exact hLetter (by rw [hc]; rfl)
      next hc => exact hLetter (by rw [hc]; rfl)
      next hc => exact hLetter (by rw [hc]; rfl)
      next hControl =>
        obtain ⟨a, b, d, e, hDigits, hCode⟩ :=
          code?_hexDigits (Nat.lt_trans hControl (by decide))
        rw [hDigits, ← ofCode_toNat hControl]
        exact .code hCode h
      next hPlain => exact .plain hQuote hSlash (Nat.le_of_not_lt hPlain) h

theorem spelling_quote (text : List Char) :
    Token.Spelling (.string (StringUnit.ofText text)) (quote (StringUnit.ofText text)) := by
  have hText : StringSpelling (StringUnit.ofText text)
      ((StringUnit.ofText text).flatMap StringUnit.spell) := by
    induction text with
    | nil => exact .nil
    | cons c text ih => exact spelling_escape c ih
  exact .string hText

theorem head?_toDigits_ne_zero (n : Nat) (h : 0 < n) : (Nat.toDigits 10 n).head? ≠ some '0' := by
  induction n using Nat.strongRecOn with
  | ind n ih =>
    by_cases hSmall : n < 10
    · rw [Nat.toDigits_of_lt_base hSmall]
      have hDigit : ∀ d < 10, 0 < d → [Nat.digitChar d].head? ≠ some '0' := by decide
      exact hDigit n hSmall h
    · have hLarge : 10 ≤ n := Nat.le_of_not_lt hSmall
      rw [Nat.toDigits_of_base_le (by decide) hLarge,
        List.head?_append_of_ne_nil _ Nat.toDigits_ne_nil]
      exact ih (n / 10) (by omega) (by omega)

theorem spelling_ofNat (n : Nat) : Token.Spelling (.number (.ofNat n)) (Numeral.ofNat n).spell := by
  have hDigits : IsDigits (Nat.toDigits 10 n) :=
    ⟨Nat.toDigits_ne_nil, fun _ hc => Nat.isDigit_of_mem_toDigits (by decide) (by decide) hc⟩
  have hZero : (Nat.toDigits 10 n).head? = some '0' → Nat.toDigits 10 n = ['0'] := by
    intro hHead
    obtain rfl | hn := Nat.eq_zero_or_pos n
    · rfl
    · exact absurd hHead (head?_toDigits_ne_zero n hn)
  have hSpelling : (Numeral.ofNat n).Spelling (Nat.toDigits 10 n ++ ([] ++ [])) :=
    .mk false hDigits hZero (by simp) .none
  have hToken := Token.Spelling.number hSpelling
  simpa [Numeral.spell, Numeral.ofNat] using hToken

theorem Spells.append {ts us : List Token} {s u : List Char} (h : Spells ts s)
    (hMore : Spells us u) : Spells (ts ++ us) (s ++ u) := by
  induction h with
  | nil => exact hMore
  | space hSpace _ ih => exact .space hSpace ih
  | token ht _ ih =>
    rw [List.append_assoc]
    exact .token ht ih

theorem Spells.newline {ts : List Token} {s : List Char} (h : Spells ts s) (depth : Nat) :
    Spells ts (newline depth ++ s) := by
  have hSpaces (n : Nat) : Spells ts (List.replicate n ' ' ++ s) := by
    induction n with
    | zero => exact h
    | succ n ih => exact .space rfl ih
  exact .space rfl (hSpaces (2 * depth))

namespace Tree

/-- The trees that records are written as: all numerals are natural numbers, all strings text. -/
inductive Written : Tree → Prop
  | null : Written null
  | bool (b : Bool) : Written (bool b)
  | word (n : Nat) : Written (ofWord n)
  | string (s : String) : Written (ofString s)
  | array {items : List Tree} (h : ∀ t ∈ items, Written t) : Written (array items)
  | record {members : List (String × Tree)} (h : ∀ m ∈ members, Written m.2) :
    Written (record members)

theorem spells_prettyItems {ts : List Tree} {depth : Nat}
    (h : ∀ t ∈ ts, Spells t.tokens (prettyAt depth t)) :
    Spells (itemTokens ts) (prettyItems depth ts) := by
  induction ts with
  | nil => exact .nil
  | cons t ts ih =>
    have hItem := h t List.mem_cons_self
    have hItems := ih fun u hu => h u (List.mem_cons_of_mem _ hu)
    simpa [prettyItems, itemTokens] using
      Spells.token .comma ((hItem.append hItems).newline depth)

theorem spells_member {t : Tree} {depth : Nat} (h : Spells t.tokens (prettyAt depth t))
    (name : String) {ts : List Token} {s : List Char} (hMore : Spells ts s) :
    Spells (.string (StringUnit.ofText name.toList) :: .colon :: (t.tokens ++ ts))
      (quote (StringUnit.ofText name.toList) ++ ':' :: ' ' :: (prettyAt depth t ++ s)) :=
  .token (spelling_quote name.toList) (.token .colon (.space rfl (h.append hMore)))

theorem spells_prettyMembers {ms : List (String × Tree)} {depth : Nat}
    (h : ∀ m ∈ ms, Spells m.2.tokens (prettyAt depth m.2)) :
    let members := ms.map fun m => (StringUnit.ofText m.1.toList, m.2)
    Spells (memberTokens members) (prettyMembers depth members) := by
  induction ms with
  | nil => exact .nil
  | cons m ms ih =>
    have hMembers := ih fun u hu => h u (List.mem_cons_of_mem _ hu)
    have hMember := spells_member (h m List.mem_cons_self) m.1 hMembers
    simpa [prettyMembers, memberTokens] using Spells.token .comma (hMember.newline depth)

theorem Written.spells {t : Tree} (h : t.Written) (depth : Nat) :
    Spells t.tokens (prettyAt depth t) := by
  induction h generalizing depth with
  | null => exact .token .null .nil
  | bool b =>
    cases b with
    | true => exact .token (.bool true) .nil
    | false => exact .token (.bool false) .nil
  | word n => simpa [ofWord, tokens, prettyAt] using Spells.token (spelling_ofNat n) .nil
  | string s => simpa [ofString, tokens, prettyAt] using Spells.token (spelling_quote s.toList) .nil
  | @array items _ ih =>
    cases items with
    | nil => exact .token .openArray (.token .closeArray .nil)
    | cons t ts =>
      have hItem := ih t List.mem_cons_self (depth + 1)
      have hItems := spells_prettyItems fun u hu => ih u (List.mem_cons_of_mem _ hu) (depth + 1)
      have hClose := (Spells.token .closeArray .nil).newline depth
      simpa [prettyAt, tokens] using
        Spells.token .openArray ((hItem.append (hItems.append hClose)).newline (depth + 1))
  | @record members _ ih =>
    cases members with
    | nil => exact .token .openObject (.token .closeObject .nil)
    | cons m ms =>
      have hMembers := spells_prettyMembers fun u hu =>
        ih u (List.mem_cons_of_mem _ hu) (depth + 1)
      have hClose := (Spells.token .closeObject .nil).newline depth
      have hMember := spells_member (ih m List.mem_cons_self (depth + 1)) m.1
        (hMembers.append hClose)
      simpa [Tree.record, prettyAt, tokens] using
        Spells.token .openObject (hMember.newline (depth + 1))

theorem Written.spells_pretty {t : Tree} (h : t.Written) : Spells t.tokens t.pretty.toList := by
  rw [pretty, String.toList_ofList]
  exact h.spells 0

theorem parse?_pretty {t : Tree} (h : t.Written) : parse? t.pretty.toList = some t :=
  parse?_eq_some_iff.mpr h.spells_pretty

end Tree

end Shorthand.Json
