import Shorthand.Files

/-! # Ways through the tree

A way depends on nothing but the links of the tree. A way in two parts is the way of the first, and
then that of the second with as many links as are left.
-/
namespace Shorthand.Files

variable {f g : Files} {whole : Bool} {n : Nat} {p q : Place} {s : Path.Step}
  {steps rest : List Path.Step} {target : Path}

theorem linkAt?_eq_some_iff : f.linkAt? p = some target ↔ f.entryAt p = some (.link target) := by
  rw [linkAt?]
  split
  next target' h => simp [h]
  next h =>
    constructor
    · simp
    · intro hLink
      exact absurd hLink (h target)

theorem route_nil (f : Files) (whole : Bool) (n : Nat) (p : Place) :
    f.route whole n p [] = ⟨[], [], some p⟩ := by
  cases n <;> rfl

theorem route_cons_of_none (h : f.linkAt? (p.after s) = none) :
    f.route whole n p (s :: rest) = (f.route whole n (p.after s) rest).behind p s := by
  cases n with
  | zero => rw [route, stretch, h]
  | succ n => rw [route, stretch, h]

theorem whole_or_of (h : whole = true ∨ rest ≠ []) : (whole || !rest.isEmpty) = true := by
  simpa using h

theorem route_zero_of_some (h : f.linkAt? (p.after s) = some target)
    (hOn : whole = true ∨ rest ≠ []) :
    f.route whole 0 p (s :: rest) = ⟨[(p, s)], [p.after s], none⟩ := by
  rw [route, stretch, h]
  dsimp only
  rw [if_pos (whole_or_of hOn)]
  rfl

theorem route_succ_of_some (h : f.linkAt? (p.after s) = some target)
    (hOn : whole = true ∨ rest ≠ []) :
    f.route whole (n + 1) p (s :: rest) =
      ((f.route whole n ((p.after s).beside target) (target.steps ++ rest)).through
        (p.after s)).behind p s := by
  rw [route, stretch, h]
  dsimp only
  rw [if_pos (whole_or_of hOn)]

theorem route_last (f : Files) (n : Nat) (p : Place) (s : Path.Step) :
    f.route false n p [s] = ⟨[(p, s)], [], some (p.after s)⟩ := by
  cases h : f.linkAt? (p.after s) with
  | none =>
    rw [route_cons_of_none h, route_nil]
    rfl
  | some target =>
    cases n with
    | zero =>
      rw [route, stretch, h]
      rfl
    | succ n =>
      rw [route, stretch, h]
      rfl

/-- The cases of a way: it is over, its last step is taken whatever is there, no link stands where
the first step leads, or one does, which cannot be followed any more or is. -/
@[elab_as_elim]
theorem route_induction {motive : Nat → Place → List Path.Step → Prop} (f : Files) (whole : Bool)
    (nil : ∀ n p, motive n p [])
    (last : whole = false → ∀ n p s, motive n p [s])
    (plain : ∀ n p s rest, whole = true ∨ rest ≠ [] → f.linkAt? (p.after s) = none →
      motive n (p.after s) rest → motive n p (s :: rest))
    (stuck : ∀ p s rest target, whole = true ∨ rest ≠ [] → f.linkAt? (p.after s) = some target →
      motive 0 p (s :: rest))
    (jump : ∀ n p s rest target, whole = true ∨ rest ≠ [] →
      f.linkAt? (p.after s) = some target →
      motive n ((p.after s).beside target) (target.steps ++ rest) → motive (n + 1) p (s :: rest))
    (n : Nat) (p : Place) (steps : List Path.Step) : motive n p steps := by
  have hSteps (n : Nat) (hLink : ∀ p s rest target, whole = true ∨ rest ≠ [] →
      f.linkAt? (p.after s) = some target → motive n p (s :: rest)) (p : Place)
      (steps : List Path.Step) : motive n p steps := by
    induction steps generalizing p with
    | nil => exact nil n p
    | cons s rest ih =>
      by_cases hOn : whole = true ∨ rest ≠ []
      · cases h : f.linkAt? (p.after s) with
        | none => exact plain n p s rest hOn h (ih (p.after s))
        | some target => exact hLink p s rest target hOn h
      · obtain ⟨hWhole, hRest⟩ := not_or.mp hOn
        rw [Decidable.not_not.mp hRest]
        exact last (Bool.not_eq_true _ ▸ hWhole) n p s
  induction n generalizing p steps with
  | zero => exact hSteps 0 stuck p steps
  | succ n ih =>
    apply hSteps
    intro p s rest target hOn h
    exact jump n p s rest target hOn h (ih _ _)

theorem linkAt?_of_mem_links (f : Files) (whole : Bool) (n : Nat) (p : Place)
    (steps : List Path.Step) :
    ∀ r ∈ (f.route whole n p steps).links, ∃ target, f.linkAt? r = some target := by
  induction n, p, steps using route_induction f whole with
  | nil n p =>
    rw [route_nil]
    simp
  | last hWhole n p s =>
    rw [hWhole, route_last]
    simp
  | plain n p s rest hOn h ih =>
    rw [route_cons_of_none h]
    exact ih
  | stuck p s rest target hOn h =>
    rw [route_zero_of_some h hOn]
    simp [h]
  | jump n p s rest target hOn h ih =>
    rw [route_succ_of_some h hOn]
    intro r hr
    rcases List.mem_cons.mp hr with rfl | hr
    · exact ⟨target, h⟩
    · exact ih r hr

/-- A way stays the same if no link is new and those on it are still there. -/
theorem route_congr (hNew : ∀ r target, g.linkAt? r = some target → f.linkAt? r = some target)
    (hKept : ∀ r ∈ (f.route whole n p steps).links, g.linkAt? r = f.linkAt? r) :
    g.route whole n p steps = f.route whole n p steps := by
  have hNone {r : Place} (h : f.linkAt? r = none) : g.linkAt? r = none := by
    cases hg : g.linkAt? r with
    | none => rfl
    | some target =>
      rw [hNew r target hg] at h
      cases h
  induction n, p, steps using route_induction f whole with
  | nil n p => rw [route_nil, route_nil]
  | last hWhole n p s => rw [hWhole, route_last, route_last]
  | plain n p s rest hOn h ih =>
    rw [route_cons_of_none h] at hKept ⊢
    rw [route_cons_of_none (hNone h), ih hKept]
  | stuck p s rest target hOn h =>
    rw [route_zero_of_some h hOn] at hKept ⊢
    rw [route_zero_of_some ((hKept _ (List.mem_singleton_self _)).trans h) hOn]
  | jump n p s rest target hOn h ih =>
    rw [route_succ_of_some h hOn] at hKept ⊢
    have hHere := (hKept _ List.mem_cons_self).trans h
    rw [route_succ_of_some hHere hOn, ih fun r hr => hKept r (List.mem_cons_of_mem _ hr)]

/-- A way and then another one from where it ends. -/
def Route.andThen (r : Route) (next : Place → Route) : Route :=
  match r.stop with
  | none => r
  | some q => ⟨r.moves ++ (next q).moves, r.links ++ (next q).links, (next q).stop⟩

theorem Route.andThen_behind (r : Route) (p : Place) (s : Path.Step) (next : Place → Route) :
    (r.behind p s).andThen next = (r.andThen next).behind p s := by
  obtain ⟨moves, links, _ | q⟩ := r
  · rfl
  · rfl

theorem Route.andThen_through (r : Route) (link : Place) (next : Place → Route) :
    (r.through link).andThen next = (r.andThen next).through link := by
  obtain ⟨moves, links, _ | q⟩ := r
  · rfl
  · rfl

theorem route_append (f : Files) {whole : Bool} {tail : List Path.Step}
    (hTail : whole = true ∨ tail ≠ []) (n : Nat) (p : Place) (steps : List Path.Step) :
    f.route whole n p (steps ++ tail) =
      (f.route true n p steps).andThen fun q =>
        f.route whole (n - (f.route true n p steps).links.length) q tail := by
  have hOn (rest : List Path.Step) : whole = true ∨ rest ++ tail ≠ [] := by
    apply hTail.imp_right
    intro hTail hNil
    exact hTail (List.append_eq_nil_iff.mp hNil).2
  induction n, p, steps using route_induction f true with
  | nil n p =>
    rw [route_nil]
    rfl
  | last hWhole => cases hWhole
  | plain n p s rest _ h ih =>
    rw [List.cons_append, route_cons_of_none h, route_cons_of_none h, ih, Route.andThen_behind]
    rfl
  | stuck p s rest target _ h =>
    rw [List.cons_append, route_zero_of_some h (hOn rest), route_zero_of_some h (.inl rfl)]
    rfl
  | jump n p s rest target _ h ih =>
    rw [List.cons_append, route_succ_of_some h (hOn rest), route_succ_of_some h (.inl rfl),
      ← List.append_assoc, ih, Route.andThen_behind, Route.andThen_through]
    simp only [Route.behind, Route.through, List.length_cons, Nat.add_sub_add_right]

theorem route_whole_of_stop (h : (f.route false n p steps).stop = some q)
    (hPlain : f.linkAt? q = none) : f.route true n p steps = f.route false n p steps := by
  rcases List.eq_nil_or_concat steps with rfl | ⟨steps, s, rfl⟩
  · rw [route_nil, route_nil]
  · rw [List.concat_eq_append] at h ⊢
    rw [route_append f (.inl rfl), route_append f (.inr (List.cons_ne_nil _ _))]
    rw [route_append f (.inr (List.cons_ne_nil _ _))] at h
    simp only [route_last] at h ⊢
    cases hStop : (f.route true n p steps).stop with
    | none => simp only [Route.andThen, hStop]
    | some r =>
      simp only [Route.andThen, hStop, Option.some.injEq] at h ⊢
      rw [route_cons_of_none (h ▸ hPlain), route_nil]
      rfl

end Shorthand.Files
