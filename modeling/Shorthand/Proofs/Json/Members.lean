import Mathlib.Data.List.Forall2
import Mathlib.Data.List.Nodup
import Shorthand.Json.Record

/-! # Members of objects

What a record is read as depends on the values under each of its names and on nothing else: not on
the order of the members, and not on members with other names.
-/
namespace Shorthand.Json

theorem mapM_eq_some_iff {α β : Type} {read : α → Option β} {l : List α} {l' : List β} :
    l.mapM read = some l' ↔ List.Forall₂ (fun a b => read a = some b) l l' := by
  induction l generalizing l' with
  | nil => cases l' <;> simp
  | cons a l ih =>
    rw [List.mapM_cons]
    constructor
    · intro h
      obtain ⟨b, hb, h⟩ := Option.bind_eq_some_iff.mp h
      obtain ⟨bs, hbs, h⟩ := Option.bind_eq_some_iff.mp h
      cases h
      exact .cons hb (ih.mp hbs)
    · intro h
      cases h with
      | cons hb hbs =>
        rw [hb, ih.mpr hbs]
        rfl

theorem exists_mapM_iff {α β : Type} {read : α → Option β} {l : List α} :
    (∃ l', l.mapM read = some l') ↔ ∀ a ∈ l, ∃ b, read a = some b := by
  constructor
  · rintro ⟨l', h⟩ a ha
    rw [mapM_eq_some_iff] at h
    induction h with
    | nil => cases ha
    | cons hb _ ih =>
      rcases List.mem_cons.mp ha with rfl | ha
      · exact ⟨_, hb⟩
      · exact ih ha
  · intro h
    induction l with
    | nil => exact ⟨[], rfl⟩
    | cons a l ih =>
      obtain ⟨b, hb⟩ := h a List.mem_cons_self
      obtain ⟨bs, hbs⟩ := ih fun a ha => h a (List.mem_cons_of_mem _ ha)
      refine ⟨b :: bs, ?_⟩
      rw [List.mapM_cons, hb, hbs]
      rfl

theorem textOfName?_eq_some_iff {m : List StringUnit × Tree} {p : String × Tree} :
    textOfName? m = some p ↔ StringUnit.text? m.1 = some p.1.toList ∧ m.2 = p.2 := by
  rw [textOfName?, Option.map_eq_some_iff]
  constructor
  · rintro ⟨text, hText, rfl⟩
    rw [String.toList_ofList]
    exact ⟨hText, rfl⟩
  · rintro ⟨hText, hValue⟩
    exact ⟨p.1.toList, hText, by rw [String.ofList_toList, hValue]⟩

namespace Tree

/-- The values under a name, however the name is spelled. -/
def valuesOf (name : String) (members : List (List StringUnit × Tree)) : List Tree :=
  (members.filter fun m => StringUnit.text? m.1 = some name.toList).map Prod.snd

variable {α : Type} {read : Tree → Option α} {name : String} {a d : α} {names : List String}
  {members members' : List (List StringUnit × Tree)} {named : List (String × Tree)}

/-- One member has the name, and its value is read as `a`. -/
def Gives (read : Tree → Option α) (name : String) (a : α)
    (members : List (List StringUnit × Tree)) : Prop :=
  ∃ t, valuesOf name members = [t] ∧ read t = some a

/-- As `Gives`, or no member has the name and `a` is the default `d`. -/
def GivesOrOmits (read : Tree → Option α) (name : String) (d a : α)
    (members : List (List StringUnit × Tree)) : Prop :=
  Gives read name a members ∨ valuesOf name members = [] ∧ a = d

def Named (members : List (List StringUnit × Tree)) : Prop :=
  ∀ m ∈ members, ∃ text, StringUnit.text? m.1 = some text

theorem Gives.ne_nil (h : Gives read name a members) : valuesOf name members ≠ [] := by
  obtain ⟨t, hValue, _⟩ := h
  rw [hValue]
  exact List.cons_ne_nil t []

theorem Gives.length_le (h : Gives read name a members) : (valuesOf name members).length ≤ 1 := by
  obtain ⟨_, hValue, _⟩ := h
  rw [hValue]
  exact Nat.le_refl 1

theorem Gives.not_mem (h : Gives read name a members) {t : Tree} (ht : read t = none) :
    t ∉ valuesOf name members := by
  obtain ⟨u, hValue, hRead⟩ := h
  rw [hValue, List.mem_singleton]
  rintro rfl
  rw [ht] at hRead
  cases hRead

theorem GivesOrOmits.length_le (h : GivesOrOmits read name d a members) :
    (valuesOf name members).length ≤ 1 := by
  obtain h | ⟨hNone, _⟩ := h
  · exact h.length_le
  · rw [hNone]
    exact Nat.zero_le 1

theorem GivesOrOmits.not_mem (h : GivesOrOmits read name d a members) {t : Tree}
    (ht : read t = none) : t ∉ valuesOf name members := by
  obtain h | ⟨hNone, _⟩ := h
  · exact h.not_mem ht
  · rw [hNone]
    exact List.not_mem_nil

theorem Gives.congr (h : Gives read name a members)
    (hSame : (valuesOf name members').Perm (valuesOf name members)) :
    Gives read name a members' := by
  obtain ⟨t, hValue, hRead⟩ := h
  rw [hValue, List.perm_singleton] at hSame
  exact ⟨t, hSame, hRead⟩

theorem GivesOrOmits.congr (h : GivesOrOmits read name d a members)
    (hSame : (valuesOf name members').Perm (valuesOf name members)) :
    GivesOrOmits read name d a members' := by
  obtain h | ⟨hNone, hDefault⟩ := h
  · exact .inl (h.congr hSame)
  · rw [hNone, List.perm_nil] at hSame
    exact .inr ⟨hSame, hDefault⟩

theorem valuesOf_perm (h : members'.Perm members) (name : String) :
    (valuesOf name members').Perm (valuesOf name members) :=
  (h.filter _).map _

theorem valuesOf_insert {m : List StringUnit × Tree}
    (h : StringUnit.text? m.1 ≠ some name.toList) (before after : List (List StringUnit × Tree)) :
    valuesOf name (before ++ m :: after) = valuesOf name (before ++ after) := by
  rw [valuesOf, List.filter_append, List.filter_cons_of_neg (by simpa using h),
    ← List.filter_append, valuesOf]

theorem exists_mapM_textOfName? :
    (∃ named, members.mapM textOfName? = some named) ↔ Named members := by
  rw [exists_mapM_iff]
  simp only [textOfName?, Option.map_eq_some_iff]
  constructor
  · intro h m hm
    obtain ⟨_, text, hText, _⟩ := h m hm
    exact ⟨text, hText⟩
  · intro h m hm
    obtain ⟨text, hText⟩ := h m hm
    exact ⟨_, text, hText, rfl⟩

theorem valuesOf_eq_of_mapM (h : members.mapM textOfName? = some named) (name : String) :
    valuesOf name members = (named.filter (·.1 = name)).map Prod.snd := by
  rw [mapM_eq_some_iff] at h
  induction h with
  | nil => rfl
  | @cons m p members named hp _ ih =>
    obtain ⟨hText, hValue⟩ := textOfName?_eq_some_iff.mp hp
    by_cases hName : p.1 = name
    · have hSame : StringUnit.text? m.1 = some name.toList := by rw [hText, hName]
      rw [List.filter_cons_of_pos (by simpa using hName), List.map_cons, ← ih, ← hValue, valuesOf,
        List.filter_cons_of_pos (by simpa using hSame)]
      rfl
    · have hOther : StringUnit.text? m.1 ≠ some name.toList := by
        rw [hText]
        intro hSame
        exact hName (String.toList_injective (Option.some.inj hSame))
      rw [List.filter_cons_of_neg (by simpa using hName), ← ih, valuesOf,
        List.filter_cons_of_neg (by simpa using hOther)]
      rfl

def known (names : List String) (named : List (String × Tree)) : List (String × Tree) :=
  named.filter fun p => names.contains p.1

theorem count_known (names : List String) (named : List (String × Tree)) (name : String) :
    ((known names named).map Prod.fst).count name =
      if name ∈ names then (named.filter (·.1 = name)).length else 0 := by
  have hKeys : (known names named).map Prod.fst = (named.map Prod.fst).filter names.contains := by
    rw [known, List.filter_map]
    rfl
  rw [hKeys]
  split
  next hKnown =>
    rw [List.count_filter (List.contains_iff_mem.mpr hKnown), List.count, List.countP_map,
      List.countP_eq_length_filter]
    rfl
  next hUnknown =>
    rw [List.count_eq_zero]
    intro hMem
    exact hUnknown (List.contains_iff_mem.mp (List.mem_filter.mp hMem).2)

theorem nodup_known_iff :
    ((known names named).map Prod.fst).Nodup ↔
      ∀ name ∈ names, (named.filter (·.1 = name)).length ≤ 1 := by
  rw [List.nodup_iff_count_le_one]
  constructor
  · intro h name hKnown
    have hCount := h name
    rwa [count_known, if_pos hKnown] at hCount
  · intro h name
    rw [count_known]
    split
    next hKnown => exact h name hKnown
    next => exact Nat.zero_le 1

theorem lookup_known (hKnown : name ∈ names) :
    (known names named).lookup name = ((named.filter (·.1 = name)).map Prod.snd).head? := by
  induction named with
  | nil => rfl
  | cons p named ih =>
    rw [known] at ih ⊢
    by_cases hName : p.1 = name
    · subst hName
      have hListed : names.contains p.1 = true := List.contains_iff_mem.mpr hKnown
      rw [List.filter_cons, if_pos hListed, List.lookup_cons, beq_self_eq_true,
        List.filter_cons_of_pos (by simp)]
      rfl
    · have hOther : (name == p.1) = false := beq_eq_false_iff_ne.mpr (Ne.symm hName)
      have hSkip : (p :: named).filter (·.1 = name) = named.filter (·.1 = name) :=
        List.filter_cons_of_neg (by simpa using hName)
      rw [hSkip, ← ih, List.filter_cons]
      split
      · rw [List.lookup_cons, hOther]
      · rfl

theorem fields?_object (h : members.mapM textOfName? = some named) :
    (object members).fields? names =
      if ((known names named).map Prod.fst).Nodup then some ⟨known names named, false⟩
      else none := by
  rw [fields?, h]
  rfl

/-- The fields hold the value under each name, of which there is one at most. -/
structure Reads (names : List String) (members : List (List StringUnit × Tree)) (f : Fields) :
    Prop where
  get?_eq : ∀ name ∈ names, f.get? name = (valuesOf name members).head?
  once : ∀ name ∈ names, (valuesOf name members).length ≤ 1

theorem named_of_fields? {f : Fields} (h : (object members).fields? names = some f) :
    Named members := by
  rw [← exists_mapM_textOfName?]
  cases hNamed : members.mapM textOfName? with
  | none =>
    rw [fields?, hNamed] at h
    cases h
  | some named => exact ⟨named, rfl⟩

theorem reads_of_fields? {f : Fields} (h : (object members).fields? names = some f) :
    Reads names members f := by
  obtain ⟨named, hNamed⟩ := exists_mapM_textOfName?.mpr (named_of_fields? h)
  rw [fields?_object hNamed] at h
  split at h
  next hOnce =>
    cases h
    refine ⟨?_, ?_⟩
    · intro name hKnown
      rw [valuesOf_eq_of_mapM hNamed]
      exact lookup_known hKnown
    · intro name hKnown
      rw [valuesOf_eq_of_mapM hNamed, List.length_map]
      exact nodup_known_iff.mp hOnce name hKnown
  next => cases h

theorem exists_fields? (hNames : Named members)
    (hOnce : ∀ name ∈ names, (valuesOf name members).length ≤ 1) :
    ∃ f, (object members).fields? names = some f := by
  obtain ⟨named, hNamed⟩ := exists_mapM_textOfName?.mpr hNames
  have hNodup : ((known names named).map Prod.fst).Nodup := by
    rw [nodup_known_iff]
    intro name hKnown
    rw [← List.length_map Prod.snd, ← valuesOf_eq_of_mapM hNamed]
    exact hOnce name hKnown
  exact ⟨_, (fields?_object hNamed).trans (if_pos hNodup)⟩

namespace Reads

variable {f : Fields}

theorem required_eq_some_iff (h : Reads names members f) (hKnown : name ∈ names) :
    f.required name read = some a ↔ Gives read name a members := by
  have hOnce := h.once name hKnown
  rw [Fields.required, h.get?_eq name hKnown, Gives]
  generalize valuesOf name members = ts at hOnce
  rcases ts with _ | ⟨t, _ | ⟨u, ts⟩⟩
  · simp
  · simp
  · simp at hOnce

theorem withDefault_eq_some_iff (h : Reads names members f) (hKnown : name ∈ names) :
    f.withDefault name d read = some a ↔ GivesOrOmits read name d a members := by
  have hOnce := h.once name hKnown
  rw [Fields.withDefault, h.get?_eq name hKnown, GivesOrOmits, Gives]
  generalize valuesOf name members = ts at hOnce
  rcases ts with _ | ⟨t, _ | ⟨u, ts⟩⟩
  · simp [eq_comm]
  · simp
  · simp at hOnce

end Reads

end Tree

end Shorthand.Json
