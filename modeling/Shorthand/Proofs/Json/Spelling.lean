import Mathlib.Data.List.Chain
import Shorthand.Json.Token

/-! # Spelling of tokens

How each token may be spelled, and what is read from a text in which tokens stand one after
another with any space between them. A numeral ends only where something stands that no numeral
goes on with, so two tokens may run together unless the first one is a numeral.
-/
namespace Shorthand.Json

structure IsDigits (s : List Char) : Prop where
  ne_nil : s ≠ []
  isDigit : ∀ c ∈ s, c.isDigit = true

namespace Numeral

inductive ExponentSpelling : Option Int → List Char → Prop
  | none : ExponentSpelling none []
  | some {mark : Char} {sign digits : List Char} (hMark : mark = 'e' ∨ mark = 'E')
      (hSign : sign = [] ∨ sign = ['+'] ∨ sign = ['-']) (hDigits : IsDigits digits) :
    ExponentSpelling
      (some (if sign = ['-'] then -Nat.ofDigitChars 10 digits 0 else Nat.ofDigitChars 10 digits 0))
      (mark :: (sign ++ digits))

/-- A numeral without its sign. Only a lone zero begins with one. -/
inductive Spelling : Numeral → List Char → Prop
  | mk (negative : Bool) {whole fraction tail : List Char} {exponent : Option Int}
      (hWhole : IsDigits whole) (hZero : whole.head? = some '0' → whole = ['0'])
      (hFraction : ∀ c ∈ fraction, c.isDigit = true) (hTail : ExponentSpelling exponent tail) :
    Spelling ⟨negative, whole, fraction, exponent⟩
      (whole ++ ((if fraction = [] then [] else '.' :: fraction) ++ tail))

end Numeral

/-- The text does not begin with anything that a numeral could go on with. -/
def EndsNumeral (rest : List Char) : Prop :=
  ∀ c, rest.head? = some c → c.isDigit = false ∧ c ≠ '.' ∧ c ≠ 'e' ∧ c ≠ 'E'

def EndsDigits (rest : List Char) : Prop := ∀ c, rest.head? = some c → c.isDigit = false

theorem EndsNumeral.endsDigits {rest : List Char} (h : EndsNumeral rest) : EndsDigits rest :=
  fun c hc => (h c hc).1

theorem lexDigits_append {digits rest : List Char} (hDigits : ∀ c ∈ digits, c.isDigit = true)
    (hRest : EndsDigits rest) : lexDigits (digits ++ rest) = (digits, rest) := by
  have hNone : rest.takeWhile Char.isDigit = [] ∧ rest.dropWhile Char.isDigit = rest := by
    cases rest with
    | nil => exact ⟨rfl, rfl⟩
    | cons c rest =>
      have hc : c.isDigit = false := hRest c rfl
      exact ⟨List.takeWhile_cons_of_neg (by simp [hc]), List.dropWhile_cons_of_neg (by simp [hc])⟩
  rw [lexDigits, List.takeWhile_append_of_pos hDigits, List.dropWhile_append_of_pos hDigits,
    hNone.1, hNone.2, List.append_nil]

theorem lexDigits_sound (s : List Char) :
    s = (lexDigits s).1 ++ (lexDigits s).2 ∧ ∀ c ∈ (lexDigits s).1, c.isDigit = true :=
  ⟨List.takeWhile_append_dropWhile.symm, List.all_eq_true.mp List.all_takeWhile⟩

theorem lexWhole_append {whole rest : List Char} (hWhole : IsDigits whole)
    (hZero : whole.head? = some '0' → whole = ['0']) (hRest : EndsDigits rest) :
    lexWhole (whole ++ rest) = some (whole, rest) := by
  by_cases hHead : whole.head? = some '0'
  · rw [hZero hHead]
    rfl
  · have hLex := lexDigits_append hWhole.isDigit hRest
    rw [lexWhole]
    · rw [hLex, if_neg hWhole.ne_nil]
    · intro more hMore
      apply hHead
      rw [← List.head?_append_of_ne_nil _ hWhole.ne_nil, hMore]
      rfl

theorem lexWhole_sound {s whole rest : List Char} (h : lexWhole s = some (whole, rest)) :
    s = whole ++ rest ∧ IsDigits whole ∧ (whole.head? = some '0' → whole = ['0']) := by
  rw [lexWhole.eq_def] at h
  split at h
  next rest =>
    cases h
    exact ⟨rfl, ⟨by simp, by simp⟩, fun _ => rfl⟩
  next hZero =>
    obtain ⟨hSplit, hDigits⟩ := lexDigits_sound s
    split at h
    next => cases h
    next hSome =>
      rw [Option.some.injEq] at h
      rw [h] at hSome hSplit hDigits
      refine ⟨hSplit, ⟨hSome, hDigits⟩, ?_⟩
      intro hHead
      obtain ⟨more, rfl⟩ := List.head?_eq_some_iff.mp hHead
      exact absurd hSplit (hZero _)

theorem lexFraction_append {fraction rest : List Char}
    (hFraction : ∀ c ∈ fraction, c.isDigit = true) (hDigits : EndsDigits rest)
    (hPoint : rest.head? ≠ some '.') :
    lexFraction ((if fraction = [] then [] else '.' :: fraction) ++ rest) =
      some (fraction, rest) := by
  by_cases hNil : fraction = []
  · rw [if_pos hNil, List.nil_append, hNil, lexFraction]
    intro more hMore
    rw [hMore] at hPoint
    exact hPoint rfl
  · rw [if_neg hNil, List.cons_append]
    simp only [lexFraction, lexDigits_append hFraction hDigits, if_neg hNil]

theorem lexFraction_sound {s fraction rest : List Char}
    (h : lexFraction s = some (fraction, rest)) :
    s = (if fraction = [] then [] else '.' :: fraction) ++ rest ∧
      ∀ c ∈ fraction, c.isDigit = true := by
  rw [lexFraction.eq_def] at h
  split at h
  next more =>
    obtain ⟨hSplit, hDigits⟩ := lexDigits_sound more
    split at h
    next => cases h
    next hSome =>
      rw [Option.some.injEq] at h
      rw [h] at hSome hSplit hDigits
      exact ⟨by rw [if_neg hSome, hSplit, List.cons_append], hDigits⟩
  next =>
    cases h
    exact ⟨rfl, by simp⟩

theorem lexSign_append {sign digits : List Char}
    (hSign : sign = [] ∨ sign = ['+'] ∨ sign = ['-']) (hDigits : IsDigits digits)
    (rest : List Char) :
    lexSign (sign ++ (digits ++ rest)) = (decide (sign = ['-']), digits ++ rest) := by
  obtain rfl | rfl | rfl := hSign
  · cases digits with
    | nil => exact absurd rfl hDigits.ne_nil
    | cons c digits =>
      have hc := hDigits.isDigit c List.mem_cons_self
      rw [List.nil_append, List.cons_append, lexSign]
      · rfl
      · intro _ hMore
        rw [(List.cons.inj hMore).1] at hc
        exact absurd hc (by decide)
      · intro _ hMore
        rw [(List.cons.inj hMore).1] at hc
        exact absurd hc (by decide)
  · rfl
  · rfl

theorem lexSign_sound (s : List Char) :
    ∃ sign, (sign = [] ∨ sign = ['+'] ∨ sign = ['-']) ∧ s = sign ++ (lexSign s).2 ∧
      (lexSign s).1 = decide (sign = ['-']) := by
  rw [lexSign.eq_def]
  split
  next => exact ⟨['+'], .inr (.inl rfl), rfl, rfl⟩
  next => exact ⟨['-'], .inr (.inr rfl), rfl, rfl⟩
  next => exact ⟨[], .inl rfl, rfl, rfl⟩

theorem lexExponent_append {exponent : Option Int} {tail rest : List Char}
    (hTail : Numeral.ExponentSpelling exponent tail) (hRest : EndsNumeral rest) :
    lexExponent (tail ++ rest) = some (exponent, rest) := by
  cases hTail with
  | none =>
    cases rest with
    | nil => rfl
    | cons c rest =>
      obtain ⟨_, _, hSmall, hLarge⟩ := hRest c rfl
      simp [lexExponent, hSmall, hLarge]
  | some hMark hSign hDigits =>
    rw [List.cons_append, List.append_assoc]
    simp only [lexExponent, if_pos hMark, lexSign_append hSign hDigits,
      lexDigits_append hDigits.isDigit hRest.endsDigits, if_neg hDigits.ne_nil, decide_eq_true_eq]

theorem lexExponent_sound {s rest : List Char} {exponent : Option Int}
    (h : lexExponent s = some (exponent, rest)) :
    ∃ tail, s = tail ++ rest ∧ Numeral.ExponentSpelling exponent tail := by
  rw [lexExponent.eq_def] at h
  split at h
  next mark more =>
    split at h
    next hMark =>
      obtain ⟨sign, hSign, hSplit, hNegative⟩ := lexSign_sound more
      obtain ⟨hDigitsSplit, hDigits⟩ := lexDigits_sound (lexSign more).2
      simp only at h
      split at h
      next => cases h
      next hSome =>
        cases h
        refine ⟨mark :: (sign ++ (lexDigits (lexSign more).2).1), ?_, ?_⟩
        · rw [List.cons_append, List.append_assoc, ← hDigitsSplit, ← hSplit]
        · have hExponent := Numeral.ExponentSpelling.some hMark hSign ⟨hSome, hDigits⟩
          simp only [hNegative, decide_eq_true_eq]
          exact hExponent
    next =>
      cases h
      exact ⟨[], rfl, .none⟩
  next =>
    cases h
    exact ⟨[], rfl, .none⟩

theorem lexNumeral_append {n : Numeral} {s rest : List Char} (h : n.Spelling s)
    (hRest : EndsNumeral rest) : lexNumeral n.negative (s ++ rest) = some (n, rest) := by
  cases h with
  | @mk negative whole fraction tail exponent hWhole hZero hFraction hTail =>
    -- What stands behind each part begins with a mark of the next part, or with what ends it all.
    have hEnd : EndsDigits (tail ++ rest) ∧ (tail ++ rest).head? ≠ some '.' := by
      cases hTail with
      | none =>
        refine ⟨hRest.endsDigits, ?_⟩
        intro hPoint
        exact (hRest '.' hPoint).2.1 rfl
      | some hMark _ _ =>
        rw [List.cons_append]
        obtain rfl | rfl := hMark
        · exact ⟨by rintro _ ⟨⟩; rfl, by simp⟩
        · exact ⟨by rintro _ ⟨⟩; rfl, by simp⟩
    have hPointed :
        EndsDigits ((if fraction = [] then [] else '.' :: fraction) ++ (tail ++ rest)) := by
      split
      · exact hEnd.1
      · rintro _ ⟨⟩
        rfl
    rw [List.append_assoc, List.append_assoc]
    simp only [lexNumeral, lexWhole_append hWhole hZero hPointed,
      lexFraction_append hFraction hEnd.1 hEnd.2, lexExponent_append hTail hRest]

theorem Numeral.Spelling.exists_cons {n : Numeral} {s : List Char} (h : n.Spelling s) :
    ∃ c more, s = c :: more ∧ c.isDigit = true := by
  obtain ⟨_, ⟨hNe, hDigits⟩, _, _, _⟩ := h
  obtain ⟨c, more, rfl⟩ := List.exists_cons_of_ne_nil hNe
  exact ⟨c, _, List.cons_append, hDigits c List.mem_cons_self⟩

theorem lexNumeral_sound {negative : Bool} {s rest : List Char} {n : Numeral}
    (h : lexNumeral negative s = some (n, rest)) :
    n.negative = negative ∧ ∃ w, s = w ++ rest ∧ n.Spelling w := by
  rw [lexNumeral] at h
  split at h
  next => cases h
  next whole s₁ hWholeLex =>
    split at h
    next => cases h
    next fraction s₂ hFractionLex =>
      split at h
      next => cases h
      next exponent s₃ hExponentLex =>
        cases h
        obtain ⟨rfl, hWhole, hZero⟩ := lexWhole_sound hWholeLex
        obtain ⟨rfl, hFraction⟩ := lexFraction_sound hFractionLex
        obtain ⟨tail, rfl, hTail⟩ := lexExponent_sound hExponentLex
        refine ⟨rfl, _, ?_, .mk negative hWhole hZero hFraction hTail⟩
        simp only [List.append_assoc]

/-- A string up to its closing quote. -/
inductive StringSpelling : List StringUnit → List Char → Prop
  | nil : StringSpelling [] []
  | plain {c : Char} {units : List StringUnit} {s : List Char} (hQuote : c ≠ '"')
      (hSlash : c ≠ '\\') (hControl : 0x20 ≤ c.toNat) (h : StringSpelling units s) :
    StringSpelling (.char c :: units) (c :: s)
  | letter {e c : Char} {units : List StringUnit} {s : List Char} (hLetter : escaped? e = some c)
      (h : StringSpelling units s) : StringSpelling (.char c :: units) ('\\' :: e :: s)
  | code {a b c d : Char} {code : Nat} {units : List StringUnit} {s : List Char}
      (hCode : code? a b c d = some code) (h : StringSpelling units s) :
    StringSpelling (.ofCode code :: units) ('\\' :: 'u' :: a :: b :: c :: d :: s)

theorem lexString_cons {c : Char} (hQuote : c ≠ '"') (hSlash : c ≠ '\\') (h : 0x20 ≤ c.toNat)
    (done : List StringUnit) (rest : List Char) :
    lexString done (c :: rest) = lexString (.char c :: done) rest := by
  rw [lexString]
  · exact if_neg (Nat.not_lt.mpr h)
  · exact hQuote
  · intro _ _ _ _ _ hc
    exact absurd hc hSlash
  · intro _ _ hc
    exact absurd hc hSlash
  · intro hc
    exact absurd hc hSlash

theorem lexString_append {units : List StringUnit} {s : List Char} (h : StringSpelling units s)
    (done : List StringUnit) (rest : List Char) :
    lexString done (s ++ '"' :: rest) = some (done.reverse ++ units, rest) := by
  induction h generalizing done with
  | nil => simp [lexString]
  | plain hQuote hSlash hControl _ ih =>
    rw [List.cons_append, lexString_cons hQuote hSlash hControl, ih]
    simp
  | letter hLetter _ ih =>
    rw [List.cons_append, List.cons_append, lexString]
    · rw [hLetter]
      simp [ih]
    · rintro _ _ _ _ _ rfl
      cases hLetter
  | code hCode _ ih =>
    simp [lexString, hCode, ih]

theorem lexString_sound {done units : List StringUnit} {s rest : List Char}
    (h : lexString done s = some (units, rest)) :
    ∃ w more, s = w ++ '"' :: rest ∧ units = done.reverse ++ more ∧ StringSpelling more w := by
  fun_induction lexString done s with
  | case1 => cases h
  | case2 =>
    cases h
    exact ⟨[], [], rfl, (List.append_nil _).symm, .nil⟩
  | case3 done a b c d s code hCode ih =>
    obtain ⟨w, more, rfl, rfl, hMore⟩ := ih h
    exact ⟨_, _, rfl, by simp, .code hCode hMore⟩
  | case4 => cases h
  | case5 done e s _ c hLetter ih =>
    obtain ⟨w, more, rfl, rfl, hMore⟩ := ih h
    exact ⟨_, _, rfl, by simp, .letter hLetter hMore⟩
  | case6 => cases h
  | case7 => cases h
  | case8 => cases h
  | case9 done c s hQuote _ hLetter hEnd hControl ih =>
    have hSlash : c ≠ '\\' := by
      intro hc
      cases s with
      | nil => exact hEnd hc rfl
      | cons e s => exact hLetter e s hc rfl
    obtain ⟨w, more, rfl, rfl, hMore⟩ := ih h
    refine ⟨_, _, rfl, by simp, .plain hQuote hSlash (Nat.le_of_not_lt hControl) hMore⟩

inductive Token.Spelling : Token → List Char → Prop
  | openArray : Spelling .openArray ['[']
  | closeArray : Spelling .closeArray [']']
  | openObject : Spelling .openObject ['\x7b']
  | closeObject : Spelling .closeObject ['\x7d']
  | comma : Spelling .comma [',']
  | colon : Spelling .colon [':']
  | null : Spelling .null ['n', 'u', 'l', 'l']
  | bool (b : Bool) :
    Spelling (.bool b) (if b then ['t', 'r', 'u', 'e'] else ['f', 'a', 'l', 's', 'e'])
  | number {n : Numeral} {s : List Char} (h : n.Spelling s) :
    Spelling (.number n) ((if n.negative then ['-'] else []) ++ s)
  | string {units : List StringUnit} {s : List Char} (h : StringSpelling units s) :
    Spelling (.string units) ('"' :: (s ++ ['"']))

def Token.isNumber : Token → Bool
  | .number _ => true
  | _ => false

theorem lexToken_of_isDigit {c : Char} (h : c.isDigit = true) (rest : List Char) :
    lexToken (c :: rest) =
      (lexNumeral false (c :: rest)).map fun (n, rest) => (.number n, rest) := by
  rw [lexToken.eq_def]
  split <;> simp_all

theorem lexToken_append {t : Token} {s rest : List Char} (h : t.Spelling s)
    (hRest : t.isNumber = true → EndsNumeral rest) :
    lexToken (s ++ rest) = some (t, rest) := by
  cases h with
  | bool b => cases b <;> rfl
  | @number n s h =>
    have hLex := lexNumeral_append h (hRest rfl)
    cases hNegative : n.negative with
    | true =>
      rw [hNegative] at hLex
      simp only [if_true, List.cons_append, List.nil_append, lexToken, hLex]
      rfl
    | false =>
      rw [hNegative] at hLex
      obtain ⟨c, more, rfl, hDigit⟩ := h.exists_cons
      rw [List.cons_append] at hLex
      simp only [Bool.false_eq_true, if_false, List.nil_append, List.cons_append,
        lexToken_of_isDigit hDigit, hLex]
      rfl
  | string h =>
    simp only [List.cons_append, List.append_assoc, List.nil_append, lexToken, lexString_append h]
    rfl
  | _ => rfl

theorem lexToken_sound {t : Token} {s rest : List Char} (h : lexToken s = some (t, rest)) :
    ∃ w, s = w ++ rest ∧ t.Spelling w := by
  have hNumeral (negative : Bool) (more : List Char)
      (h : (lexNumeral negative more).map (fun (n, rest) => (Token.number n, rest)) =
        some (t, rest)) :
      ∃ w, (if negative then ['-'] else []) ++ more = w ++ rest ∧ t.Spelling w := by
    obtain ⟨⟨n, rest'⟩, hLex, hToken⟩ := Option.map_eq_some_iff.mp h
    cases hToken
    obtain ⟨rfl, w, rfl, hSpelling⟩ := lexNumeral_sound hLex
    exact ⟨_, (List.append_assoc _ _ _).symm, .number hSpelling⟩
  rw [lexToken.eq_def] at h
  split at h
  next =>
    cases h
    exact ⟨_, rfl, .openArray⟩
  next =>
    cases h
    exact ⟨_, rfl, .closeArray⟩
  next =>
    cases h
    exact ⟨_, rfl, .openObject⟩
  next =>
    cases h
    exact ⟨_, rfl, .closeObject⟩
  next =>
    cases h
    exact ⟨_, rfl, .comma⟩
  next =>
    cases h
    exact ⟨_, rfl, .colon⟩
  next more =>
    obtain ⟨⟨units, rest'⟩, hLex, hToken⟩ := Option.map_eq_some_iff.mp h
    cases hToken
    obtain ⟨w, _, rfl, rfl, hSpelling⟩ := lexString_sound hLex
    exact ⟨_, by simp, .string hSpelling⟩
  next more => exact hNumeral true more h
  next =>
    cases h
    exact ⟨_, rfl, .null⟩
  next =>
    cases h
    exact ⟨_, rfl, .bool true⟩
  next =>
    cases h
    exact ⟨_, rfl, .bool false⟩
  next => exact hNumeral false s h

/-- The text is the tokens with any space between and around them. -/
inductive Spells : List Token → List Char → Prop
  | nil : Spells [] []
  | space {c : Char} {ts : List Token} {s : List Char} (hSpace : isSpace c = true)
      (h : Spells ts s) : Spells ts (c :: s)
  | token {t : Token} {w : List Char} {ts : List Token} {s : List Char} (ht : t.Spelling w)
      (h : Spells ts s) : Spells (t :: ts) (w ++ s)

/-- The tokens that may stand behind a value. -/
def Token.endsValue : Token → Bool
  | .comma | .closeArray | .closeObject => true
  | _ => false

/-- Whatever stands behind a numeral ends it. -/
def NumeralsEnd (ts : List Token) : Prop :=
  ts.IsChain fun t u => t.isNumber = true → u.endsValue = true

theorem NumeralsEnd.cons {t : Token} {ts : List Token} (h : NumeralsEnd ts)
    (ht : t.isNumber = false) : NumeralsEnd (t :: ts) := by
  refine List.isChain_cons.mpr ⟨?_, h⟩
  intro _ _ hNumber
  rw [ht] at hNumber
  cases hNumber

theorem NumeralsEnd.append {ts us : List Token} (h : NumeralsEnd ts) (hMore : NumeralsEnd us)
    (hHead : ∀ u, us.head? = some u → u.endsValue = true) : NumeralsEnd (ts ++ us) :=
  List.isChain_append.mpr ⟨h, hMore, fun _ _ u hu _ => hHead u hu⟩

theorem lexToken_space {c : Char} (h : isSpace c = true) (rest : List Char) :
    lexToken (c :: rest) = none := by
  simp only [isSpace, Bool.or_eq_true, decide_eq_true_eq] at h
  obtain ((rfl | rfl) | rfl) | rfl := h <;> rfl

theorem lexFrom_space (done : List Token) {c : Char} (h : isSpace c = true) (rest : List Char) :
    lexFrom done (c :: rest) = lexFrom done rest := by
  rw [lexFrom, if_pos h]

theorem lexFrom_token (done : List Token) {s after : List Char} {t : Token}
    (h : lexToken s = some (t, after)) : lexFrom done s = lexFrom (t :: done) after := by
  cases s with
  | nil => cases h
  | cons c rest =>
    have hSpace : isSpace c = false := by
      by_contra hSpace
      rw [lexToken_space ((Bool.not_eq_false _).mp hSpace)] at h
      cases h
    rw [lexFrom, if_neg (by simp [hSpace])]
    split
    next hNone =>
      rw [h] at hNone
      cases hNone
    next hSome =>
      rw [h] at hSome
      cases hSome
      rfl

theorem Spells.endsNumeral {ts : List Token} {s : List Char} (h : Spells ts s)
    (hHead : ∀ t, ts.head? = some t → t.endsValue = true) : EndsNumeral s := by
  rintro c hc
  cases h with
  | nil => cases hc
  | space hSpace _ =>
    cases hc
    simp only [isSpace, Bool.or_eq_true, decide_eq_true_eq] at hSpace
    obtain ((rfl | rfl) | rfl) | rfl := hSpace <;> decide
  | token ht _ =>
    have hEnds := hHead _ rfl
    cases ht with
    | closeArray | closeObject | comma =>
      cases hc
      decide
    | _ => cases hEnds

theorem Spells.lexFrom_eq {ts : List Token} {s : List Char} (h : Spells ts s)
    (hEnd : NumeralsEnd ts) (done : List Token) : lexFrom done s = some (done.reverse ++ ts) := by
  induction h generalizing done with
  | nil => rw [lexFrom, List.append_nil]
  | space hSpace _ ih => rw [lexFrom_space done hSpace, ih hEnd]
  | @token t w ts s ht h ih =>
    have hChain := List.isChain_cons.mp hEnd
    have hLex : lexToken (w ++ s) = some (t, s) := by
      apply lexToken_append ht
      intro hNumber
      apply h.endsNumeral
      intro u hu
      exact hChain.1 u hu hNumber
    rw [lexFrom_token done hLex, ih hChain.2]
    simp

theorem spells_of_lexFrom {done ts : List Token} {s : List Char} (h : lexFrom done s = some ts) :
    ∃ more, ts = done.reverse ++ more ∧ Spells more s := by
  fun_induction lexFrom done s with
  | case1 =>
    cases h
    exact ⟨[], (List.append_nil _).symm, .nil⟩
  | case2 done c rest hSpace ih =>
    obtain ⟨more, rfl, hSpells⟩ := ih h
    exact ⟨more, rfl, .space hSpace hSpells⟩
  | case3 => cases h
  | case4 done c rest _ t after hLex _ ih =>
    obtain ⟨w, hSplit, hSpelling⟩ := lexToken_sound hLex
    obtain ⟨more, rfl, hSpells⟩ := ih h
    rw [hSplit]
    exact ⟨t :: more, by simp, .token hSpelling hSpells⟩

theorem spells_of_lex {ts : List Token} {s : List Char} (h : lex s = some ts) : Spells ts s := by
  obtain ⟨more, rfl, hSpells⟩ := spells_of_lexFrom h
  exact hSpells

theorem Spells.lex_eq {ts : List Token} {s : List Char} (h : Spells ts s) (hEnd : NumeralsEnd ts) :
    lex s = some ts :=
  h.lexFrom_eq hEnd []

end Shorthand.Json
