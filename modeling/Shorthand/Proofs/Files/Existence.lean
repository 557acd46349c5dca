import Shorthand.Proofs.Files

/-! # What is there and what is found

A path may lead to something that is not found: a directory on its way may not be searched, a name
or the path itself may be too long, there may be too many links. What is not found for such a reason
is there all the same.
-/
namespace Shorthand.Files

variable {f : Files} {whole : Bool} {n m : Nat} {p : Place} {q r : Place}
  {steps : List Path.Step} {path : Path}

/-- With too few links to follow a way breaks off, and otherwise it does not depend on how many may
be followed. -/
theorem route_of_stop (h : (f.route whole m p steps).stop = some q) :
    (f.route whole n p steps).moves ⊆ (f.route whole m p steps).moves ∧
      ((f.route whole n p steps).stop = none ∨
        f.route whole n p steps = f.route whole m p steps) := by
  induction n, p, steps using route_induction f whole generalizing m with
  | nil n p =>
    rw [route_nil, route_nil]
    exact ⟨List.Subset.refl _, .inr rfl⟩
  | last hWhole n p s =>
    rw [hWhole, route_last, route_last]
    exact ⟨List.Subset.refl _, .inr rfl⟩
  | plain n p s rest hOn hLink ih =>
    rw [route_cons_of_none hLink] at h ⊢
    obtain ⟨hMoves, hStop⟩ := ih h
    rw [route_cons_of_none hLink]
    exact ⟨List.cons_subset_cons _ hMoves, hStop.imp_right fun hSame => by rw [hSame]⟩
  | stuck p s rest target hOn hLink =>
    rw [route_zero_of_some hLink hOn]
    refine ⟨?_, .inl rfl⟩
    cases m with
    | zero =>
      rw [route_zero_of_some hLink hOn] at h
      cases h
    | succ m =>
      rw [route_succ_of_some hLink hOn]
      exact List.cons_subset_cons _ (List.nil_subset _)
  | jump n p s rest target hOn hLink ih =>
    cases m with
    | zero =>
      rw [route_zero_of_some hLink hOn] at h
      cases h
    | succ m =>
      rw [route_succ_of_some hLink hOn] at h ⊢
      obtain ⟨hMoves, hStop⟩ := ih h
      rw [route_succ_of_some hLink hOn]
      exact ⟨List.cons_subset_cons _ hMoves, hStop.imp_right fun hSame => by rw [hSame]⟩

/-- There is something at `q` that the path leads to over `n` links at most, whether or not it can
be reached. -/
structure Present (f : Files) (path : Path) (n : Nat) (q : Place) : Prop where
  filled : ¬ (path.steps = [] ∧ ¬ path.absolute)
  stop : (f.route true n (f.origin path) path.steps).stop = some q
  moves : ∀ move ∈ (f.route true n (f.origin path) path.steps).moves,
    f.entryAt move.1 = some .directory
  entry : ∃ e, f.entryAt q = some e ∧ (path.directoryOnly = true → e = .directory)

theorem Present.mem_moves (h : f.Present path n q) {move : Place × Path.Step}
    (hMove : move ∈ (f.way true path).moves) : f.entryAt move.1 = some .directory :=
  h.moves move ((route_of_stop h.stop).1 hMove)

theorem Present.ofMove?_ne_notFound (h : f.Present path n q) {move : Place × Path.Step}
    (hMove : move ∈ (f.way true path).moves) : Fault.ofMove? f move ≠ some .notFound := by
  rw [Fault.ofMove?, h.mem_moves hMove]
  dsimp only
  split
  · simp
  · cases move.2 with
    | name s =>
      rw [Fault.ofStep?]
      split <;> simp
    | _ => simp [Fault.ofStep?]

theorem Present.locate_ne_notFound (h : f.Present path n q) : f.locate path ≠ .error .notFound := by
  rw [locate, resolve]
  split
  next fault hPath =>
    rw [Fault.ofPath?] at hPath
    split at hPath
    · cases hPath
      simp
    · split at hPath <;> cases hPath
      simp
  next =>
    rw [if_neg h.filled, Route.arrive]
    split
    next fault _ hFault =>
      obtain ⟨move, hMove, hFault⟩ := List.exists_of_findSome?_eq_some hFault
      intro hNotFound
      cases hNotFound
      exact h.ofMove?_ne_notFound hMove hFault
    · simp
    · simp

theorem Present.eq_of_locate (h : f.Present path n q) (hLocate : f.locate path = .ok r) :
    r = q := by
  have hStop : (f.way true path).stop = some r := stop_of_resolve hLocate
  rcases (route_of_stop (n := mostLinks) h.stop).2 with hNone | hSame
  · exact absurd (hNone.symm.trans hStop) (by simp)
  · rw [way, hSame, h.stop] at hStop
    exact (Option.some.inj hStop).symm

theorem Present.readText_ne_notFound (h : f.Present path n q) :
    f.readText path ≠ .error .notFound := by
  have hFind : f.find path ≠ .error .notFound := by
    rw [find]
    split
    next fault hLocate =>
      intro hNotFound
      cases hNotFound
      exact h.locate_ne_notFound hLocate
    next r hLocate =>
      obtain rfl := h.eq_of_locate hLocate
      obtain ⟨e, hEntry, _⟩ := h.entry
      rw [hEntry]
      dsimp only
      split <;> simp
  rw [readText]
  split
  next fault hFault =>
    intro hNotFound
    cases hNotFound
    exact hFind hFault
  · simp
  · simp
  · split
    · split <;> simp
    · simp

/-- The way of a path can be taken to its end. -/
def Passable (f : Files) (path : Path) : Prop :=
  Fault.ofPath? path = none ∧ (f.way true path).stop ≠ none ∧
    ∀ move ∈ (f.way true path).moves,
      f.isLocked move.1 = false ∧ Fault.ofStep? move.2 = none

/-- Something is found exactly if it is there and its way can be taken. -/
theorem holds_iff : f.holds path = true ↔ (∃ n q, f.Present path n q) ∧ f.Passable path := by
  have hHolds : f.holds path = true ↔ ∃ q e, f.locate path = .ok q ∧ f.entryAt q = some e ∧
      (path.directoryOnly = true → e = .directory) := by
    rw [holds, find]
    cases f.locate path with
    | error fault => simp
    | ok q =>
      cases hEntry : f.entryAt q with
      | none => simp [hEntry]
      | some e =>
        by_cases hOnly : path.directoryOnly = true ∧ e ≠ .directory
        · simp [hEntry, hOnly.1, hOnly.2]
        · simp only [hEntry, if_neg hOnly, Except.ok.injEq, true_iff]
          refine ⟨q, e, rfl, hEntry, ?_⟩
          intro hDirectory
          exact Decidable.byContradiction fun hOther => hOnly ⟨hDirectory, hOther⟩
  rw [hHolds]
  constructor
  · rintro ⟨q, e, hLocate, hEntry⟩
    obtain ⟨hPath, hSteps, hWay⟩ := resolve_eq_ok_iff.mp hLocate
    obtain ⟨hStop, hMoves⟩ := arrive_eq_ok_iff.mp hWay
    refine ⟨⟨mostLinks, q, hSteps, hStop, ?_, e, hEntry⟩, hPath, by simp [hStop], ?_⟩
    · intro move hMove
      exact (ofMove?_eq_none_iff.mp (hMoves move hMove)).1
    · intro move hMove
      exact (ofMove?_eq_none_iff.mp (hMoves move hMove)).2
  · rintro ⟨⟨n, q, h⟩, hPath, hStop, hMoves⟩
    obtain ⟨r, hStop⟩ := Option.ne_none_iff_exists'.mp hStop
    have hLocate : f.locate path = .ok r := by
      refine resolve_eq_ok_iff.mpr ⟨hPath, h.filled, arrive_eq_ok_iff.mpr ⟨hStop, ?_⟩⟩
      intro move hMove
      exact ofMove?_eq_none_iff.mpr ⟨h.mem_moves hMove, hMoves move hMove⟩
    obtain rfl := h.eq_of_locate hLocate
    obtain ⟨e, hEntry⟩ := h.entry
    exact ⟨r, e, hLocate, hEntry⟩

end Shorthand.Files
