import Shorthand.Proofs.Files

/-! # How far changes to files reach

Directories are made on the way of a path only. A path that leads to a file leads to the same file
after changes elsewhere.
-/
namespace Shorthand.Files

variable {f g h : Files}

/-- The directories on a way, with the place where it ends. -/
def Route.places (r : Route) : List Place := r.moves.map Prod.fst ++ r.stop.toList

theorem start_mem_places (f : Files) (whole : Bool) (n : Nat) (p : Place)
    (steps : List Path.Step) : p ∈ (f.route whole n p steps).places := by
  have hFirst (r : Route) (s : Path.Step) : p ∈ (r.behind p s).places := List.mem_cons_self
  cases steps with
  | nil =>
    rw [route_nil]
    exact List.mem_singleton_self p
  | cons s rest =>
    by_cases hOn : whole = true ∨ rest ≠ []
    · cases hLink : f.linkAt? (p.after s) with
      | none =>
        rw [route_cons_of_none hLink]
        exact hFirst _ s
      | some target =>
        cases n with
        | zero =>
          rw [route_zero_of_some hLink hOn]
          exact List.mem_singleton_self p
        | succ n =>
          rw [route_succ_of_some hLink hOn]
          exact hFirst _ s
    · obtain ⟨hWhole, hRest⟩ := not_or.mp hOn
      obtain rfl := Bool.eq_false_iff.mpr hWhole
      rw [Decidable.not_not.mp hRest, route_last]
      exact List.mem_cons_self

/-- New directories are at places of `ds` only. -/
def MadeWithin (ds : List Place) (f g : Files) : Prop :=
  ∀ r, g.entryAt r = some .directory → f.entryAt r = some .directory ∨ r ∈ ds

theorem MadeWithin.refl (ds : List Place) (f : Files) : MadeWithin ds f f := fun _ hr => .inl hr

theorem MadeWithin.trans {ds : List Place} (hfg : MadeWithin ds f g) (hgh : MadeWithin ds g h) :
    MadeWithin ds f h := by
  intro r hr
  obtain hr | hr := hgh r hr
  · exact hfg r hr
  · exact .inr hr

theorem MadeWithin.mono {ds es : List Place} (hg : MadeWithin ds f g) (hSub : ds ⊆ es) :
    MadeWithin es f g := fun r hr => (hg r hr).imp_right fun hd => hSub hd

theorem madeWithin_put (f : Files) (p : Place) (e : Entry) : MadeWithin [p] f (f.put p e) := by
  intro r hr
  by_cases hp : r = p
  · exact .inr (List.mem_singleton.mpr hp)
  · rw [f.entryAt_put_of_ne e hp] at hr
    exact .inl hr

theorem madeWithin_put_file (f : Files) {p : Place} (hp : p ≠ []) (c : Content) :
    MadeWithin [] f (f.put p (.file c)) := by
  intro r hr
  by_cases h : r = p
  · rw [h, entryAt_put hp, if_pos rfl] at hr
    cases hr
  · rw [f.entryAt_put_of_ne _ h] at hr
    exact .inl hr

theorem madeWithin_remove (f : Files) (p : Place) : MadeWithin [] f (f.remove p) := by
  intro r hr
  by_cases hRoot : r = []
  · rw [hRoot, entryAt_nil]
    exact .inl rfl
  · rw [entryAt_remove hRoot] at hr
    split at hr
    · cases hr
    · exact .inl hr

theorem madeWithin_move (f : Files) (p q : Place) (c : Content) :
    MadeWithin [] f (f.move p q (.file c)) := by
  intro r hr
  by_cases hRoot : r = []
  · rw [hRoot, entryAt_nil]
    exact .inl rfl
  · rw [entryAt_move _ hRoot] at hr
    split at hr
    · cases hr
    · split at hr
      · cases hr
      · exact .inl hr

theorem madeWithin_makeWay (f : Files) (n : Nat) (p : Place) (steps : List Path.Step) :
    MadeWithin (f.route true n p steps).places f (f.makeWay n p steps).2 := by
  induction steps generalizing f n p with
  | nil => exact .refl _ f
  | cons s rest ih =>
    have hSub {q : Place} (hStop : (f.route true n p [s]).stop = some q) :
        (f.route true (n - (f.route true n p [s]).links.length) q rest).places ⊆
          (f.route true n p (s :: rest)).places := by
      have hPlaces := congrArg Route.places (route_cons_of_stop hStop rest)
      rw [hPlaces, Route.places, Route.places, List.map_append, List.append_assoc]
      exact List.subset_append_right _ _
    obtain ⟨_, hWay⟩ | ⟨q, hArrive, _, hWay⟩ | ⟨q, hArrive, hNone, hLinks, hWay⟩ :=
      makeWay_cons_cases f n p s rest
    · rw [hWay]
      exact .refl _ f
    · rw [hWay]
      exact (ih f _ q).mono (hSub (arrive_eq_ok_iff.mp hArrive).1)
    · have hRest := ih (f.put q .directory) n q
      have hSub := hSub (arrive_eq_ok_iff.mp hArrive).1
      rw [hLinks, List.length_nil, Nat.sub_zero] at hSub
      rw [(changedWithin_put_directory hNone).route_eq fun _ _ => List.not_mem_nil] at hRest
      rw [hWay]
      refine MadeWithin.trans ((f.madeWithin_put q .directory).mono ?_) (hRest.mono hSub)
      intro r hr
      rw [List.mem_singleton.mp hr]
      exact hSub (f.start_mem_places true n q rest)

theorem madeWithin_makeDirectories (f : Files) (p : Path) :
    MadeWithin (f.way true p).places f (f.makeDirectories p).2 := by
  rw [makeDirectories]
  split
  · exact .refl _ f
  · exact f.madeWithin_makeWay _ _ _

theorem ChangedWithin.goal?_eq {ps : List Place} {p : Path} (hg : ChangedWithin ps f g)
    (hAvoids : ∀ r ∈ (f.way true p).links, r ∉ ps) : g.goal? p = f.goal? p := by
  rw [goal?, goal?, hg.way_eq hAvoids]

/-- The file that `p` leads to is still there, and no other one has come to its place. -/
structure KeepsFile (p : Path) (f g : Files) : Prop where
  found : ∀ c, f.find p = .ok (.file c) → g.find p = .ok (.file c)
  held : ∀ q c, f.goal? p = some q → g.entryAt q = some (.file c) → f.entryAt q = some (.file c)

theorem KeepsFile.refl (p : Path) (f : Files) : KeepsFile p f f := ⟨fun _ h => h, fun _ _ _ h => h⟩

theorem KeepsFile.trans {p : Path} (hfg : KeepsFile p f g) (hGoal : g.goal? p = f.goal? p)
    (hgh : KeepsFile p g h) : KeepsFile p f h where
  found c hc := hgh.found c (hfg.found c hc)
  held q c hq hc := hfg.held q c hq (hgh.held q c (hGoal.trans hq) hc)

theorem ChangedWithin.keepsFile {ps : List Place} {p : Path} (hg : ChangedWithin ps f g)
    (hp : ∀ r ∈ f.reach p, r ∉ ps) : KeepsFile p f g where
  found c hc := by
    obtain ⟨q, hLocate, hEntry, hOnly⟩ := find_eq_file_iff.mp hc
    have hLocate' : g.locate p = .ok q :=
      hg.resolve (fun r hr => hp r (mem_reach_of_links hr)) hLocate
    refine find_eq_file_iff.mpr ⟨q, hLocate', ?_, hOnly⟩
    obtain hSame | ⟨hNone, _⟩ := hg.entry q (hp q (mem_reach_of_stop (stop_of_resolve hLocate)))
    · rw [hSame, hEntry]
    · rw [hEntry] at hNone
      cases hNone
  held q c hq hc := by
    obtain hSame | ⟨_, hMade⟩ := hg.entry q (hp q (mem_reach_of_stop hq))
    · rw [← hSame, hc]
    · rw [hc] at hMade
      cases hMade

end Shorthand.Files
