import Mathlib.Data.List.Induction
import Mathlib.Data.List.Nodup
import Shorthand.Table

/-! # Laws of tables

A table is what it looks up: its entries, its keys and their number follow from the look-ups. When
entries are inserted one after another, the last one for a key counts.
-/
namespace Shorthand

def lastWhere? {α : Type} (p : α → Prop) [DecidablePred p] (l : List α) : Option α :=
  (l.filter p).getLast?

section LastWhere

variable {α γ : Type} {p : α → Prop} [DecidablePred p] {l : List α} {a : α}

theorem lastWhere?_concat_of_pos (h : p a) : lastWhere? p (l ++ [a]) = some a := by
  rw [lastWhere?, List.filter_append, List.filter_cons_of_pos (by simpa using h), List.filter_nil,
    List.getLast?_concat]

theorem lastWhere?_concat_of_neg (h : ¬ p a) : lastWhere? p (l ++ [a]) = lastWhere? p l := by
  rw [lastWhere?, List.filter_append, List.filter_cons_of_neg (by simpa using h), List.filter_nil,
    List.append_nil]
  rfl

theorem mem_of_lastWhere? (h : lastWhere? p l = some a) : a ∈ l ∧ p a := by
  have hMem := List.mem_filter.mp (List.mem_of_getLast? h)
  exact ⟨hMem.1, of_decide_eq_true hMem.2⟩

theorem lastWhere?_eq_none_iff : lastWhere? p l = none ↔ ∀ a ∈ l, ¬ p a := by
  simp [lastWhere?]

theorem lastWhere?_map (f : γ → α) (l : List γ) :
    lastWhere? p (l.map f) = (lastWhere? (fun c => p (f c)) l).map f := by
  rw [lastWhere?, List.filter_map, List.getLast?_map]
  rfl

theorem lastWhere?_filter (q : α → Bool) (l : List α) :
    lastWhere? p (l.filter q) = lastWhere? (fun a => q a = true ∧ p a) l := by
  rw [lastWhere?, List.filter_filter, lastWhere?]
  simp only [Bool.decide_and, Bool.decide_eq_true, Bool.and_comm]

end LastWhere

namespace Table

variable {κ β : Type} [DecidableEq κ] {t u : Table κ β} {k : κ} {v : β}

theorem mem_entries_iff : (k, v) ∈ t.entries ↔ t.get? k = some v := by
  have hDistinct := t.distinct
  rw [get?]
  generalize t.entries = es at hDistinct
  induction es with
  | nil => simp
  | cons e es ih =>
    obtain ⟨hNew, hRest⟩ := List.nodup_cons.mp hDistinct
    rw [List.mem_cons, List.lookup_cons]
    by_cases hKey : k = e.1
    · have hOther : (k, v) ∉ es := fun h => hNew (hKey ▸ List.mem_map_of_mem h)
      rw [or_iff_left hOther, hKey, beq_self_eq_true]
      simp [Prod.ext_iff, eq_comm]
    · have hEntry : (k, v) ≠ e := fun h => hKey (congrArg Prod.fst h)
      rw [or_iff_right hEntry, beq_eq_false_iff_ne.mpr hKey]
      exact ih hRest

theorem mem_keys_iff : k ∈ t.keys ↔ ∃ v, t.get? k = some v := by
  rw [keys, List.mem_map]
  constructor
  · rintro ⟨⟨k, v⟩, hEntry, rfl⟩
    exact ⟨v, mem_entries_iff.mp hEntry⟩
  · rintro ⟨v, hGet⟩
    exact ⟨(k, v), mem_entries_iff.mpr hGet, rfl⟩

theorem contains_iff : t.contains k = true ↔ k ∈ t.keys := by
  rw [mem_keys_iff, contains, Option.isSome_iff_exists]

omit [DecidableEq κ] in
theorem length_keys (t : Table κ β) : t.keys.length = t.size := List.length_map _

omit [DecidableEq κ] in
theorem size_eq_length {ks : List κ} (hDistinct : ks.Nodup) (h : ∀ k, k ∈ t.keys ↔ k ∈ ks) :
    t.size = ks.length := by
  rw [← length_keys]
  exact ((List.perm_ext_iff_of_nodup t.distinct hDistinct).mpr h).length_eq

omit [DecidableEq κ] in
theorem isEmpty_iff_size : t.isEmpty = true ↔ t.size = 0 := by
  rw [isEmpty, size, List.isEmpty_iff, List.length_eq_zero_iff]

theorem isEmpty_iff : t.isEmpty = true ↔ ∀ k, t.get? k = none := by
  rw [isEmpty, List.isEmpty_iff, List.eq_nil_iff_forall_not_mem]
  constructor
  · intro hNone k
    rw [Option.eq_none_iff_forall_ne_some]
    exact fun v hGet => hNone (k, v) (mem_entries_iff.mpr hGet)
  · rintro hNone ⟨k, v⟩ hEntry
    rw [mem_entries_iff, hNone k] at hEntry
    cases hEntry

theorem get?_insertAll (t : Table κ β) (es : List (κ × β)) (k : κ) :
    (es.foldl (fun t e => t.insert e.1 e.2) t).get? k =
      ((lastWhere? (·.1 = k) es).map Prod.snd).or (t.get? k) := by
  induction es using List.reverseRecOn with
  | nil => rfl
  | append_singleton es e ih =>
    rw [List.foldl_concat, get?_insert]
    by_cases hKey : k = e.1
    · have hLast : lastWhere? (·.1 = k) (es ++ [e]) = some e := lastWhere?_concat_of_pos hKey.symm
      rw [if_pos hKey, hLast]
      rfl
    · have hLast : lastWhere? (·.1 = k) (es ++ [e]) = lastWhere? (·.1 = k) es :=
        lastWhere?_concat_of_neg (Ne.symm hKey)
      rw [if_neg hKey, hLast, ih]

theorem get?_ofList (es : List (κ × β)) (k : κ) :
    (ofList es).get? k = (lastWhere? (·.1 = k) es).map Prod.snd := by
  rw [ofList, get?_insertAll]
  exact Option.or_none

theorem lastWhere?_entries (t : Table κ β) (k : κ) :
    (lastWhere? (·.1 = k) t.entries).map Prod.snd = t.get? k := by
  cases hLast : lastWhere? (·.1 = k) t.entries with
  | none =>
    rw [Option.map_none, eq_comm, Option.eq_none_iff_forall_ne_some]
    exact fun v hGet => lastWhere?_eq_none_iff.mp hLast (k, v) (mem_entries_iff.mpr hGet) rfl
  | some e =>
    obtain ⟨hEntry, rfl⟩ := mem_of_lastWhere? hLast
    exact (mem_entries_iff.mp hEntry).symm

end Table

end Shorthand
