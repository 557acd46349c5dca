import Mathlib.Data.List.Induction
import Mathlib.Data.List.Nodup
import Shorthand.Catalogue

/-! # Groups of one language

Grouping parts a list by language: nothing is lost and nothing changes places. A snippet that comes
behind the others joins the group of its language, or founds one behind the other groups.
-/
namespace Shorthand.Snippet

/-- The languages that are seen earlier in the list come earlier. -/
def SeenInOrder (l : List Snippet) (languages : List String) : Prop :=
  languages.Pairwise fun a b => (l.map language).idxOf a < (l.map language).idxOf b

structure Grouped (l : List Snippet) (groups : List (String × List Snippet)) : Prop where
  seenInOrder : SeenInOrder l (groups.map Prod.fst)
  members_eq : ∀ g ∈ groups, g.2 = l.filter fun s => s.language = g.1
  members_ne_nil : ∀ g ∈ groups, g.2 ≠ []
  perm : (groups.flatMap Prod.snd).Perm l

theorem place_cases (s : Snippet) (groups : List (String × List Snippet)) :
    (∃ before members after, groups = before ++ (s.language, members) :: after ∧
      groupByLanguage.place s groups = before ++ (s.language, members ++ [s]) :: after) ∨
    ((∀ g ∈ groups, g.1 ≠ s.language) ∧
      groupByLanguage.place s groups = groups ++ [(s.language, [s])]) := by
  induction groups with
  | nil => exact .inr ⟨by simp, rfl⟩
  | cons g groups ih =>
    obtain ⟨name, members⟩ := g
    rw [groupByLanguage.place]
    split
    next hName =>
      refine .inl ⟨[], members, groups, ?_, ?_⟩
      · rw [← hName, List.nil_append]
      · rw [← hName, List.nil_append]
    next hName =>
      obtain ⟨before, found, after, hGroups, hPlace⟩ | ⟨hNone, hPlace⟩ := ih
      · refine .inl ⟨(name, members) :: before, found, after, ?_, ?_⟩
        · rw [hGroups, List.cons_append]
        · rw [hPlace, List.cons_append]
      · refine .inr ⟨?_, by rw [hPlace, List.cons_append]⟩
        intro h hMem
        rcases List.mem_cons.mp hMem with rfl | hMem
        · exact hName
        · exact hNone h hMem

theorem filter_language_concat_of_ne {l : List Snippet} {s : Snippet} {name : String}
    (hName : name ≠ s.language) :
    (l ++ [s]).filter (fun t => t.language = name) = l.filter fun t => t.language = name := by
  rw [List.filter_append, List.filter_cons_of_neg (by simpa using hName.symm), List.filter_nil,
    List.append_nil]

theorem filter_language_concat_self (l : List Snippet) (s : Snippet) :
    (l ++ [s]).filter (fun t => t.language = s.language) =
      (l.filter fun t => t.language = s.language) ++ [s] := by
  rw [List.filter_append, List.filter_cons_of_pos (by simp), List.filter_nil]

namespace SeenInOrder

variable {l : List Snippet} {languages : List String}

theorem nodup (h : SeenInOrder l languages) : languages.Nodup := by
  apply List.Pairwise.imp _ h
  rintro a _ hLt rfl
  exact Nat.lt_irrefl _ hLt

theorem concat (h : SeenInOrder l languages) (hSeen : ∀ a ∈ languages, a ∈ l.map language)
    (s : Snippet) : SeenInOrder (l ++ [s]) languages := by
  refine List.Pairwise.imp_of_mem ?_ h
  intro a b ha hb hLt
  rw [List.map_append, List.idxOf_append_of_mem (hSeen a ha),
    List.idxOf_append_of_mem (hSeen b hb)]
  exact hLt

theorem concat_new (h : SeenInOrder l languages) (hSeen : ∀ a ∈ languages, a ∈ l.map language)
    {s : Snippet} (hNew : s.language ∉ l.map language) :
    SeenInOrder (l ++ [s]) (languages ++ [s.language]) := by
  refine List.pairwise_append.mpr ⟨h.concat hSeen s, List.pairwise_singleton _ _, ?_⟩
  intro a ha b hb
  rw [List.mem_singleton.mp hb, List.map_append, List.idxOf_append_of_mem (hSeen a ha),
    List.idxOf_append_of_notMem hNew]
  exact Nat.lt_add_right _ (List.idxOf_lt_length_iff.mpr (hSeen a ha))

end SeenInOrder

namespace Grouped

variable {l : List Snippet} {groups : List (String × List Snippet)}

theorem nil : Grouped [] [] where
  seenInOrder := .nil
  members_eq := by simp
  members_ne_nil := by simp
  perm := .nil

theorem seen (h : Grouped l groups) : ∀ a ∈ groups.map Prod.fst, a ∈ l.map language := by
  intro a ha
  obtain ⟨g, hg, rfl⟩ := List.mem_map.mp ha
  obtain ⟨s, hs⟩ := List.exists_mem_of_ne_nil _ (h.members_ne_nil g hg)
  rw [h.members_eq g hg, List.mem_filter, decide_eq_true_eq] at hs
  exact List.mem_map.mpr ⟨s, hs⟩

theorem exists_group (h : Grouped l groups) {s : Snippet} (hs : s ∈ l) :
    ∃ g ∈ groups, s ∈ g.2 := List.mem_flatMap.mp (h.perm.mem_iff.mpr hs)

theorem language_eq (h : Grouped l groups) {g : String × List Snippet} (hg : g ∈ groups)
    {s : Snippet} (hs : s ∈ g.2) : s.language = g.1 := by
  rw [h.members_eq g hg, List.mem_filter, decide_eq_true_eq] at hs
  exact hs.2

theorem eq_of_fst_eq (h : Grouped l groups) {g g' : String × List Snippet} (hg : g ∈ groups)
    (hg' : g' ∈ groups) (hName : g.1 = g'.1) : g = g' := by
  apply Prod.ext hName
  rw [h.members_eq g hg, h.members_eq g' hg', hName]

theorem join {before after : List (String × List Snippet)} {s : Snippet} {members : List Snippet}
    (h : Grouped l (before ++ (s.language, members) :: after)) :
    Grouped (l ++ [s]) (before ++ (s.language, members ++ [s]) :: after) := by
  have hOwn : (s.language, members) ∈ before ++ (s.language, members) :: after :=
    List.mem_append_right _ List.mem_cons_self
  have hRest : ∀ g ∈ before ++ after, g ∈ before ++ (s.language, members) :: after := by
    intro g hg
    rw [List.perm_middle.mem_iff]
    exact List.mem_cons_of_mem _ hg
  -- The group of the language is the only one with its name.
  have hOther : ∀ g ∈ before ++ after, g.1 ≠ s.language := by
    have hNodup := h.seenInOrder.nodup
    rw [List.map_append, List.map_cons, List.nodup_middle, List.nodup_cons,
      ← List.map_append] at hNodup
    intro g hg hName
    exact hNodup.1 (List.mem_map.mpr ⟨g, hg, hName⟩)
  refine ⟨?_, ?_, ?_, ?_⟩
  · have hOrder := h.seenInOrder.concat h.seen s
    rw [List.map_append, List.map_cons] at hOrder ⊢
    exact hOrder
  · intro g hg
    rw [List.perm_middle.mem_iff, List.mem_cons] at hg
    rcases hg with rfl | hg
    · rw [filter_language_concat_self, ← h.members_eq _ hOwn]
    · rw [filter_language_concat_of_ne (hOther g hg)]
      exact h.members_eq g (hRest g hg)
  · intro g hg
    rw [List.perm_middle.mem_iff, List.mem_cons] at hg
    rcases hg with rfl | hg
    · simp
    · exact h.members_ne_nil g (hRest g hg)
  · have hPerm := h.perm.append_right [s]
    simp only [List.flatMap_append, List.flatMap_cons, List.append_assoc] at hPerm ⊢
    refine List.Perm.trans (List.Perm.append_left _ (List.Perm.append_left _ ?_)) hPerm
    exact List.perm_append_comm

theorem found (h : Grouped l groups) {s : Snippet} (hNew : ∀ g ∈ groups, g.1 ≠ s.language) :
    Grouped (l ++ [s]) (groups ++ [(s.language, [s])]) := by
  have hLanguage : s.language ∉ l.map language := by
    intro hMem
    obtain ⟨t, ht, hSame⟩ := List.mem_map.mp hMem
    obtain ⟨g, hg, htg⟩ := h.exists_group ht
    exact hNew g hg (by rw [← h.language_eq hg htg, hSame])
  refine ⟨?_, ?_, ?_, ?_⟩
  · rw [List.map_append]
    exact h.seenInOrder.concat_new h.seen hLanguage
  · intro g hg
    rcases List.mem_append.mp hg with hg | hg
    · rw [filter_language_concat_of_ne (hNew g hg)]
      exact h.members_eq g hg
    · rw [List.mem_singleton.mp hg, filter_language_concat_self]
      have hNone : (l.filter fun t => t.language = s.language) = [] := by
        rw [List.filter_eq_nil_iff]
        intro t ht hSame
        exact hLanguage (List.mem_map.mpr ⟨t, ht, of_decide_eq_true hSame⟩)
      rw [hNone, List.nil_append]
  · intro g hg
    rcases List.mem_append.mp hg with hg | hg
    · exact h.members_ne_nil g hg
    · rw [List.mem_singleton.mp hg]
      exact List.cons_ne_nil s []
  · rw [List.flatMap_append]
    exact h.perm.append_right [s]

theorem place (h : Grouped l groups) (s : Snippet) :
    Grouped (l ++ [s]) (groupByLanguage.place s groups) := by
  obtain ⟨before, members, after, hGroups, hPlace⟩ | ⟨hNew, hPlace⟩ := place_cases s groups
  · rw [hPlace]
    rw [hGroups] at h
    exact h.join
  · rw [hPlace]
    exact h.found hNew

end Grouped

theorem grouped_groupByLanguage (l : List Snippet) : Grouped l (groupByLanguage l) := by
  induction l using List.reverseRecOn with
  | nil => exact .nil
  | append_singleton l s ih =>
    rw [groupByLanguage, List.foldl_concat]
    exact ih.place s

/-- The groups have different languages, in the order in which the list first shows them. None is
empty, each holds what the list has of its language, in the order of the list, and so every snippet
is in one group only, as often as it is in the list. -/
theorem groupByLanguage_parts (l : List Snippet) :
    let groups := groupByLanguage l
    (groups.map Prod.fst).Nodup ∧ SeenInOrder l (groups.map Prod.fst) ∧
      (∀ g ∈ groups, g.2 ≠ [] ∧ g.2 = l.filter fun s => s.language = g.1) ∧
      (∀ s ∈ l, ∃! g, g ∈ groups ∧ s ∈ g.2) ∧ (groups.flatMap Prod.snd).Perm l := by
  intro groups
  have h := grouped_groupByLanguage l
  refine ⟨h.seenInOrder.nodup, h.seenInOrder, ?_, ?_, h.perm⟩
  · intro g hg
    exact ⟨h.members_ne_nil g hg, h.members_eq g hg⟩
  · intro s hs
    obtain ⟨g, hg, hsg⟩ := h.exists_group hs
    refine ⟨g, ⟨hg, hsg⟩, ?_⟩
    rintro g' ⟨hg', hsg'⟩
    apply h.eq_of_fst_eq hg' hg
    rw [← h.language_eq hg' hsg', h.language_eq hg hsg]

end Shorthand.Snippet
