import Shorthand.Dictionary
import Shorthand.Proofs.Stock

/-! # Laws of dictionaries

A dictionary is one map from triggers to templates. Its merged table looks up what it looks up, and
its size and emptiness are those of the merged table.
-/
namespace Shorthand

/-- The template of the last snippet of the user in the language that has the trigger and is
enabled. -/
def Snippet.lastTemplate? (snippets : List Snippet) (language trigger : String) : Option String :=
  (lastWhere? (fun s => s.language = language ∧ s.isUserDefined = true ∧ s.isEnabled = true ∧
    s.trigger = trigger) snippets).map Snippet.template

namespace Stock

theorem own_dictionary_get? (st : Stock) (snippets : List Snippet) (language trigger : String) :
    (st.dictionary snippets language).own.get? trigger =
      Snippet.lastTemplate? snippets language trigger := by
  rw [dictionary, Table.get?_ofList, lastWhere?_map, Snippet.activeIn, lastWhere?_filter,
    Snippet.lastTemplate?, Option.map_map]
  simp only [Bool.and_eq_true, decide_eq_true_eq, and_assoc]
  rfl

end Stock

namespace Dictionary

variable {d : Dictionary} {trigger : String}

theorem get?_toTable (d : Dictionary) (trigger : String) :
    d.toTable.get? trigger = d.get? trigger := by
  rw [toTable, Table.get?_insertAll, Table.lastWhere?_entries, get?]
  cases d.stock <;> rfl

theorem mem_keys_toTable_iff : trigger ∈ d.toTable.keys ↔ d.contains trigger = true := by
  rw [Table.mem_keys_iff, get?_toTable, contains_iff]

def triggers (d : Dictionary) : List String :=
  d.own.keys ++ (d.stock.elim [] Table.keys).filter (!d.own.contains ·)

theorem length_triggers (d : Dictionary) : d.triggers.length = d.size := by
  rw [triggers, List.length_append, Table.length_keys, size]
  cases d.stock with
  | none => rfl
  | some t => exact congrArg (d.own.size + ·) List.countP_eq_length_filter.symm

theorem nodup_triggers (d : Dictionary) : d.triggers.Nodup := by
  have hStock : (d.stock.elim [] Table.keys).Nodup := by
    cases d.stock with
    | none => exact List.nodup_nil
    | some t => exact t.distinct
  refine List.nodup_append.mpr ⟨d.own.distinct, hStock.filter _, ?_⟩
  rintro k hOwn _ hStock rfl
  rw [List.mem_filter, Table.contains_iff.mpr hOwn] at hStock
  cases hStock.2

theorem mem_triggers_iff : trigger ∈ d.triggers ↔ d.contains trigger = true := by
  have hStock : trigger ∈ d.stock.elim [] Table.keys ↔
      (d.stock.bind (·.get? trigger)).isSome = true := by
    cases d.stock with
    | none => simp
    | some t => exact Table.contains_iff.symm
  have hContains : d.contains trigger =
      (d.own.contains trigger || (d.stock.bind (·.get? trigger)).isSome) := Option.isSome_or
  rw [hContains, triggers, List.mem_append, List.mem_filter, ← Table.contains_iff, hStock]
  cases d.own.contains trigger <;> simp

theorem size_eq (d : Dictionary) : d.size = d.toTable.size := by
  rw [← length_triggers, eq_comm]
  apply Table.size_eq_length d.nodup_triggers
  intro k
  rw [mem_keys_toTable_iff, mem_triggers_iff]

theorem isEmpty_iff (d : Dictionary) : d.isEmpty = true ↔ ∀ k, d.get? k = none := by
  simp only [get?, Option.or_eq_none_iff, forall_and]
  rw [isEmpty, Bool.and_eq_true, Table.isEmpty_iff]
  cases d.stock with
  | none => simp
  | some t => simp [Table.isEmpty_iff]

theorem isEmpty_iff_size (d : Dictionary) : d.isEmpty = true ↔ d.size = 0 := by
  rw [size_eq, ← Table.isEmpty_iff_size, Table.isEmpty_iff, isEmpty_iff]
  simp only [get?_toTable]

end Dictionary

end Shorthand
