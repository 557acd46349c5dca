/-! # Tables

Finite maps as lists of entries with distinct keys, in the order in which the keys first came.
-/
namespace Shorthand

variable {κ β : Type} [DecidableEq κ]

def insertEntry (k : κ) (v : β) : List (κ × β) → List (κ × β)
  | [] => [(k, v)]
  | e :: rest => if e.1 = k then (k, v) :: rest else e :: insertEntry k v rest

theorem keys_insertEntry (k : κ) (v : β) (es : List (κ × β)) :
    (insertEntry k v es).map Prod.fst =
      if k ∈ es.map Prod.fst then es.map Prod.fst else es.map Prod.fst ++ [k] := by
  induction es with
  | nil => simp [insertEntry]
  | cons e rest ih =>
    by_cases h : e.1 = k
    · simp [insertEntry, h]
    · have h' : ¬ k = e.1 := fun hk => h hk.symm
      simp only [insertEntry, if_neg h, List.map_cons, ih, List.mem_cons, h', false_or]
      split <;> rfl

theorem lookup_insertEntry (k k' : κ) (v : β) (es : List (κ × β)) :
    (insertEntry k v es).lookup k' = if k' = k then some v else es.lookup k' := by
  have lookup_ne {a b : κ} {x : β} {es : List (κ × β)} (h : ¬ a = b) :
      ((b, x) :: es).lookup a = es.lookup a := by
    rw [List.lookup_cons, beq_eq_false_iff_ne.2 h]
  induction es with
  | nil =>
    by_cases h : k' = k
    · simp [insertEntry, h]
    · simp only [insertEntry, lookup_ne h, if_neg h]
  | cons e rest ih =>
    obtain ⟨a, b⟩ := e
    by_cases ha : a = k
    · by_cases h : k' = k
      · simp [insertEntry, ha, h]
      · simp only [insertEntry, ha, if_true, lookup_ne h, if_neg h]
    · by_cases h : k' = a
      · subst h
        simp [insertEntry, ha]
      · simp only [insertEntry, if_neg ha, lookup_ne h]
        exact ih

theorem nodup_insertEntry (k : κ) (v : β) {es : List (κ × β)} (h : (es.map Prod.fst).Nodup) :
    ((insertEntry k v es).map Prod.fst).Nodup := by
  rw [keys_insertEntry]
  split
  · exact h
  next hk =>
    refine List.nodup_append.2 ⟨h, by simp, ?_⟩
    rintro a ha b hb rfl
    exact hk (List.mem_singleton.1 hb ▸ ha)

theorem lookup_withoutKey (k k' : κ) (es : List (κ × β)) :
    (es.filter (·.1 ≠ k)).lookup k' = if k' = k then none else es.lookup k' := by
  induction es with
  | nil => simp
  | cons e es ih =>
    by_cases hErased : e.1 = k
    · rw [List.filter_cons_of_neg (by simpa using hErased), ih, List.lookup_cons]
      by_cases hk : k' = k
      · rw [if_pos hk, if_pos hk]
      · rw [if_neg hk, if_neg hk, beq_eq_false_iff_ne.2 (hErased ▸ hk)]
    · rw [List.filter_cons_of_pos (by simpa using hErased), List.lookup_cons, List.lookup_cons, ih]
      by_cases hk : k' = e.1
      · simp [hk, hErased]
      · rw [beq_eq_false_iff_ne.2 hk]

structure Table (κ β : Type) where
  entries : List (κ × β)
  distinct : (entries.map Prod.fst).Nodup

namespace Table

def empty : Table κ β := ⟨[], List.nodup_nil⟩

instance : Inhabited (Table κ β) := ⟨empty⟩

def get? (t : Table κ β) (k : κ) : Option β := t.entries.lookup k

def contains (t : Table κ β) (k : κ) : Bool := (t.get? k).isSome

def keys (t : Table κ β) : List κ := t.entries.map Prod.fst

def size (t : Table κ β) : Nat := t.entries.length

def isEmpty (t : Table κ β) : Bool := t.entries.isEmpty

/-- Sets the value of a key; a new key comes last. -/
def insert (t : Table κ β) (k : κ) (v : β) : Table κ β :=
  ⟨insertEntry k v t.entries, nodup_insertEntry k v t.distinct⟩

def erase (t : Table κ β) (k : κ) : Table κ β :=
  ⟨t.entries.filter (·.1 ≠ k), t.distinct.sublist (List.filter_sublist.map _)⟩

/-- Of several values for one key the last counts. -/
def ofList (es : List (κ × β)) : Table κ β := es.foldl (fun t e => t.insert e.1 e.2) empty

/-- Whether two tables map the same keys to the same values, in whatever order. -/
def sameAs [DecidableEq β] (t u : Table κ β) : Bool :=
  t.size = u.size && t.entries.all fun e => u.get? e.1 = some e.2

theorem get?_insert (t : Table κ β) (k k' : κ) (v : β) :
    (t.insert k v).get? k' = if k' = k then some v else t.get? k' :=
  lookup_insertEntry k k' v t.entries

theorem get?_erase (t : Table κ β) (k k' : κ) :
    (t.erase k).get? k' = if k' = k then none else t.get? k' :=
  lookup_withoutKey k k' t.entries

theorem insert_insert (t : Table κ β) (k : κ) (v w : β) :
    (t.insert k v).insert k w = t.insert k w := by
  have hEntries (es : List (κ × β)) :
      insertEntry k w (insertEntry k v es) = insertEntry k w es := by
    induction es with
    | nil => simp [insertEntry]
    | cons e rest ih => by_cases h : e.1 = k <;> simp [insertEntry, h, ih]
  simp only [insert, hEntries]

end Table

end Shorthand
