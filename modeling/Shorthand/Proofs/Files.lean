import Shorthand.Proofs.Files.Route

/-! # What changes to files leave alone

A path that leads to a place still leads there when directories are added or other entries are
changed, as long as the links on its way are left alone. Making directories a second time changes
nothing.
-/
namespace Shorthand.Files

/-- Every directory is still there and as it was, no link is new, and what is no part of the tree
is the same. -/
structure Extends (f g : Files) : Prop where
  fixed : g = { f with entries := g.entries, locked := g.locked }
  directory : ∀ r, f.entryAt r = some .directory → g.entryAt r = some .directory
  open_of_open : ∀ r, f.entryAt r = some .directory → f.isLocked r = false → g.isLocked r = false
  link : ∀ r target, g.entryAt r = some (.link target) → f.entryAt r = some (.link target)

/-- Besides, nothing but the places of `ps` is changed, and nowhere else anything but a directory
added. -/
structure ChangedWithin (ps : List Place) (f g : Files) : Prop extends Extends f g where
  entry : ∀ r, r ∉ ps →
    g.entryAt r = f.entryAt r ∨ f.entryAt r = none ∧ g.entryAt r = some .directory
  locked : ∀ r, r ∉ ps → g.isLocked r = f.isLocked r

theorem Extends.refl (f : Files) : f.Extends f :=
  ⟨rfl, fun _ h => h, fun _ _ h => h, fun _ _ h => h⟩

theorem Extends.trans {f g h : Files} (hfg : f.Extends g) (hgh : g.Extends h) : f.Extends h where
  fixed := by
    rw [hgh.fixed, hfg.fixed]
  directory r hr := hgh.directory r (hfg.directory r hr)
  open_of_open r hr hOpen := hgh.open_of_open r (hfg.directory r hr) (hfg.open_of_open r hr hOpen)
  link r target hr := hfg.link r target (hgh.link r target hr)

theorem ChangedWithin.refl (ps : List Place) (f : Files) : ChangedWithin ps f f :=
  ⟨.refl f, fun _ _ => .inl rfl, fun _ _ => rfl⟩

theorem ChangedWithin.trans {ps : List Place} {f g h : Files} (hfg : ChangedWithin ps f g)
    (hgh : ChangedWithin ps g h) : ChangedWithin ps f h where
  toExtends := hfg.toExtends.trans hgh.toExtends
  entry r hr := by
    rcases hfg.entry r hr with hSame | ⟨hNone, hMade⟩
    · rw [← hSame]
      exact hgh.entry r hr
    · exact .inr ⟨hNone, hgh.directory r hMade⟩
  locked r hr := (hgh.locked r hr).trans (hfg.locked r hr)

theorem ChangedWithin.mono {ps qs : List Place} {f g : Files} (h : ChangedWithin ps f g)
    (hSub : ps ⊆ qs) : ChangedWithin qs f g :=
  ⟨h.toExtends, fun r hr => h.entry r fun hp => hr (hSub hp),
    fun r hr => h.locked r fun hp => hr (hSub hp)⟩

theorem entryAt_nil (f : Files) : f.entryAt [] = some .directory := rfl

theorem ne_nil_of_entryAt {f : Files} {p : Place} (h : f.entryAt p ≠ some .directory) : p ≠ [] := by
  rintro rfl
  exact h f.entryAt_nil

theorem entryAt_remove {f : Files} {p q : Place} (hq : q ≠ []) :
    (f.remove p).entryAt q = if q = p then none else f.entryAt q := by
  simp [entryAt, remove, hq, Table.get?_erase]

theorem entryAt_put_of_ne (f : Files) {p r : Place} (e : Entry) (hr : r ≠ p) :
    (f.put p e).entryAt r = f.entryAt r := by
  by_cases hRoot : r = []
  · rw [hRoot, entryAt_nil, entryAt_nil]
  · rw [entryAt_put hRoot, if_neg hr]

theorem entryAt_remove_of_ne (f : Files) {p r : Place} (hr : r ≠ p) :
    (f.remove p).entryAt r = f.entryAt r := by
  by_cases hRoot : r = []
  · rw [hRoot, entryAt_nil, entryAt_nil]
  · rw [entryAt_remove hRoot, if_neg hr]

theorem entryAt_move {f : Files} {p q r : Place} (e : Entry) (hr : r ≠ []) :
    (f.move p q e).entryAt r = if r = q then some e else if r = p then none else f.entryAt r := by
  have hMoved : (f.move p q e).entryAt r = (((f.remove q).remove p).put q e).entryAt r := by
    rw [move]
    split <;> rfl
  rw [hMoved, entryAt_put hr, entryAt_remove hr, entryAt_remove hr]
  split
  · rfl
  · split <;> rfl

theorem isLocked_remove (f : Files) (p r : Place) :
    (f.remove p).isLocked r = (f.isLocked r && r ≠ p) := by
  rw [Bool.eq_iff_iff]
  simp [isLocked, remove]

theorem isLocked_put (f : Files) (p r : Place) (e : Entry) :
    (f.put p e).isLocked r = f.isLocked r := rfl

theorem isLocked_move {f : Files} {p q r : Place} (e : Entry) :
    (f.move p q e).isLocked r =
      if r = q then f.isLocked p else if r = p then false else f.isLocked r := by
  have hOthers : ((f.remove q).remove p).isLocked r = (f.isLocked r && r ≠ q && r ≠ p) := by
    rw [isLocked_remove, isLocked_remove]
  have hMoved : (f.move p q e).isLocked r =
      (f.isLocked p && r = q || ((f.remove q).remove p).isLocked r) := by
    rw [move]
    cases h : f.isLocked p with
    | true =>
      rw [Bool.eq_iff_iff]
      simp [isLocked, put]
    | false => simp [isLocked_put]
  rw [hMoved, hOthers]
  by_cases hq : r = q
  · simp [hq]
  · by_cases hp : r = p <;> simp [hp, hq, Bool.and_comm]

theorem changedWithin_of_ne {ps : List Place} {f g : Files}
    (hFixed : g = { f with entries := g.entries, locked := g.locked })
    (hEntry : ∀ p ∈ ps, f.entryAt p ≠ some .directory)
    (hLink : ∀ p ∈ ps, ∀ target, g.entryAt p ≠ some (.link target))
    (hNe : ∀ r, r ∉ ps → g.entryAt r = f.entryAt r ∧ g.isLocked r = f.isLocked r) :
    ChangedWithin ps f g where
  fixed := hFixed
  directory r hr := by rw [(hNe r fun hp => hEntry r hp hr).1, hr]
  open_of_open r hr hOpen := by rw [(hNe r fun hp => hEntry r hp hr).2, hOpen]
  link r target hr := by
    rw [← (hNe r fun hp => hLink r hp target hr).1]
    exact hr
  entry r hr := .inl (hNe r hr).1
  locked r hr := (hNe r hr).2

theorem changedWithin_put {f : Files} {p : Place} (h : f.entryAt p ≠ some .directory)
    (c : Content) : ChangedWithin [p] f (f.put p (.file c)) := by
  have hPut : (f.put p (.file c)).entryAt p = some (.file c) := by
    rw [entryAt_put (ne_nil_of_entryAt h), if_pos rfl]
  refine changedWithin_of_ne rfl ?_ ?_ ?_
  · simpa using h
  · simp [hPut]
  · intro r hr
    exact ⟨f.entryAt_put_of_ne _ fun hp => hr (List.mem_singleton.mpr hp), rfl⟩

theorem changedWithin_remove {f : Files} {p : Place} (h : f.entryAt p ≠ some .directory) :
    ChangedWithin [p] f (f.remove p) := by
  have hRemove : (f.remove p).entryAt p = none := by
    rw [entryAt_remove (ne_nil_of_entryAt h), if_pos rfl]
  refine changedWithin_of_ne rfl ?_ ?_ ?_
  · simpa using h
  · simp [hRemove]
  · intro r hr
    have hNe : r ≠ p := fun hp => hr (List.mem_singleton.mpr hp)
    refine ⟨f.entryAt_remove_of_ne hNe, ?_⟩
    rw [isLocked_remove]
    simp [hNe]

theorem fixed_move (f : Files) (p q : Place) (e : Entry) :
    f.move p q e = { f with
      entries := (f.move p q e).entries, locked := (f.move p q e).locked } := by
  rw [move]
  split <;> rfl

theorem changedWithin_move {f : Files} {p q : Place} {c : Content}
    (hp : f.entryAt p ≠ some .directory) (hq : f.entryAt q ≠ some .directory) :
    ChangedWithin [p, q] f (f.move p q (.file c)) := by
  have hRoot := ne_nil_of_entryAt hp
  have hRoot' := ne_nil_of_entryAt hq
  refine changedWithin_of_ne (f.fixed_move p q _) ?_ ?_ ?_
  · simp [hp, hq]
  · intro r hr target
    rcases List.mem_cons.mp hr with rfl | hr
    · rw [entryAt_move _ hRoot]
      split <;> simp
    · rw [List.mem_singleton.mp hr, entryAt_move _ hRoot', if_pos rfl]
      simp
  · intro r hr
    rw [List.mem_cons, List.mem_singleton, not_or] at hr
    constructor
    · by_cases h : r = []
      · rw [h, entryAt_nil, entryAt_nil]
      · rw [entryAt_move _ h, if_neg hr.2, if_neg hr.1]
    · rw [isLocked_move, if_neg hr.2, if_neg hr.1]

theorem Extends.isFrozen_eq {f g : Files} (h : f.Extends g) (p : Place) :
    g.isFrozen p = f.isFrozen p := by
  rw [isFrozen, isFrozen, h.fixed]

theorem Extends.origin_eq {f g : Files} (h : f.Extends g) (p : Path) : g.origin p = f.origin p := by
  rw [origin, origin, h.fixed]

theorem Extends.linkAt? {f g : Files} (h : f.Extends g) {r : Place} {target : Path}
    (hr : g.linkAt? r = some target) : f.linkAt? r = some target :=
  linkAt?_eq_some_iff.mpr (h.link r target (linkAt?_eq_some_iff.mp hr))

theorem Extends.linkAt?_eq_none {f g : Files} (h : f.Extends g) {r : Place}
    (hr : f.linkAt? r = none) : g.linkAt? r = none := by
  cases hLink : g.linkAt? r with
  | none => rfl
  | some target =>
    rw [h.linkAt? hLink] at hr
    cases hr

theorem ChangedWithin.route_eq {ps : List Place} {f g : Files} (h : ChangedWithin ps f g)
    {whole : Bool} {n : Nat} {p : Place} {steps : List Path.Step}
    (hAvoids : ∀ r ∈ (f.route whole n p steps).links, r ∉ ps) :
    g.route whole n p steps = f.route whole n p steps := by
  refine route_congr (fun r target => h.toExtends.linkAt?) ?_
  intro r hr
  obtain ⟨target, hLink⟩ := f.linkAt?_of_mem_links whole n p steps r hr
  have hEntry := linkAt?_eq_some_iff.mp hLink
  rw [hLink]
  rcases h.entry r (hAvoids r hr) with hSame | ⟨hNone, _⟩
  · exact linkAt?_eq_some_iff.mpr (hSame.trans hEntry)
  · rw [hEntry] at hNone
    cases hNone

theorem ChangedWithin.way_eq {ps : List Place} {f g : Files} (h : ChangedWithin ps f g)
    {whole : Bool} {p : Path} (hAvoids : ∀ r ∈ (f.way whole p).links, r ∉ ps) :
    g.way whole p = f.way whole p := by
  rw [way, h.toExtends.origin_eq]
  exact h.route_eq hAvoids

/-- Where a path leads in the end, as long as whatever is missing is taken for a directory. -/
def goal? (f : Files) (p : Path) : Option Place := (f.way true p).stop

def spot? (f : Files) (p : Path) : Option Place := (f.way false p).stop

theorem ofMove?_eq_none_iff {f : Files} {p : Place} {s : Path.Step} :
    Fault.ofMove? f (p, s) = none ↔
      f.entryAt p = some .directory ∧ f.isLocked p = false ∧ Fault.ofStep? s = none := by
  rw [Fault.ofMove?]
  dsimp only
  split
  next h => simp [h]
  next h => cases hLocked : f.isLocked p <;> simp [h]
  next e hOther hEntry =>
    constructor
    · simp
    · intro h
      exact absurd (Option.some.inj (hEntry.symm.trans h.1)) hOther

theorem Extends.ofMove? {f g : Files} (h : f.Extends g) {m : Place × Path.Step}
    (hm : Fault.ofMove? f m = none) : Fault.ofMove? g m = none := by
  obtain ⟨p, s⟩ := m
  obtain ⟨hEntry, hOpen, hStep⟩ := ofMove?_eq_none_iff.mp hm
  exact ofMove?_eq_none_iff.mpr ⟨h.directory p hEntry, h.open_of_open p hEntry hOpen, hStep⟩

theorem arrive_eq_ok_iff {f : Files} {r : Route} {q : Place} :
    r.arrive f = .ok q ↔ r.stop = some q ∧ ∀ m ∈ r.moves, Fault.ofMove? f m = none := by
  rw [Route.arrive, ← List.findSome?_eq_none_iff]
  cases r.moves.findSome? (Fault.ofMove? f) with
  | some fault => simp
  | none => cases r.stop <;> simp

theorem Extends.arrive {f g : Files} (h : f.Extends g) {r : Route} {q : Place}
    (hr : r.arrive f = .ok q) : r.arrive g = .ok q := by
  obtain ⟨hStop, hMoves⟩ := arrive_eq_ok_iff.mp hr
  exact arrive_eq_ok_iff.mpr ⟨hStop, fun m hm => h.ofMove? (hMoves m hm)⟩

theorem resolve_eq_ok_iff {f : Files} {whole : Bool} {p : Path} {q : Place} :
    f.resolve whole p = .ok q ↔ Fault.ofPath? p = none ∧ ¬ (p.steps = [] ∧ ¬ p.absolute) ∧
      (f.way whole p).arrive f = .ok q := by
  rw [resolve]
  split
  · simp_all
  · split <;> simp_all

theorem stop_of_resolve {f : Files} {whole : Bool} {p : Path} {q : Place}
    (h : f.resolve whole p = .ok q) : (f.way whole p).stop = some q :=
  (arrive_eq_ok_iff.mp (resolve_eq_ok_iff.mp h).2.2).1

theorem ChangedWithin.resolve {ps : List Place} {f g : Files} (h : ChangedWithin ps f g)
    {whole : Bool} {p : Path} {q : Place} (hAvoids : ∀ r ∈ (f.way whole p).links, r ∉ ps)
    (hp : f.resolve whole p = .ok q) : g.resolve whole p = .ok q := by
  obtain ⟨hPath, hSteps, hWay⟩ := resolve_eq_ok_iff.mp hp
  refine resolve_eq_ok_iff.mpr ⟨hPath, hSteps, ?_⟩
  rw [h.way_eq hAvoids]
  exact h.toExtends.arrive hWay

theorem way_whole_of_spot {f : Files} {p : Path} {q : Place} (h : f.spot? p = some q)
    (hPlain : f.linkAt? q = none) : f.way true p = f.way false p :=
  route_whole_of_stop h hPlain

theorem locate_of_locateEntry {f : Files} {p : Path} {q : Place} (h : f.locateEntry p = .ok q)
    (hPlain : f.linkAt? q = none) : f.locate p = .ok q := by
  obtain ⟨hPath, hSteps, hWay⟩ := resolve_eq_ok_iff.mp h
  refine resolve_eq_ok_iff.mpr ⟨hPath, hSteps, ?_⟩
  rwa [way_whole_of_spot (stop_of_resolve h) hPlain]

theorem locateEntry_of_locate {f : Files} {p : Path} {q r : Place} (h : f.locate p = .ok q)
    (hSpot : f.spot? p = some r) (hPlain : f.linkAt? r = none) : f.locateEntry p = .ok q := by
  obtain ⟨hPath, hSteps, hWay⟩ := resolve_eq_ok_iff.mp h
  refine resolve_eq_ok_iff.mpr ⟨hPath, hSteps, ?_⟩
  rwa [← way_whole_of_spot hSpot hPlain]

theorem exists_spot_of_goal {f : Files} {p : Path} {q : Place} (h : f.goal? p = some q) :
    ∃ r, f.spot? p = some r := by
  rw [goal?, way] at h
  rw [spot?, way]
  rcases List.eq_nil_or_concat p.steps with hNil | ⟨steps, s, hSteps⟩
  · rw [hNil, route_nil]
    exact ⟨_, rfl⟩
  · rw [List.concat_eq_append] at hSteps
    rw [hSteps, route_append f (.inr (List.cons_ne_nil _ _))]
    rw [hSteps, route_append f (.inl rfl)] at h
    cases hStop : (f.route true mostLinks (f.origin p) steps).stop with
    | none =>
      rw [Route.andThen, hStop] at h
      exact absurd (hStop.symm.trans h) (by simp)
    | some r =>
      simp only [Route.andThen, hStop, route_last]
      exact ⟨_, rfl⟩

/-- The last step of a path is not followed over a link, so the links on its way are those on the
way of the other steps. -/
theorem links_of_steps {f : Files} {p d : Path} {s : Path.Step}
    (hAbsolute : d.absolute = p.absolute) (hSteps : p.steps = d.steps ++ [s]) : (f.way false p).links = (f.way true d).links := by
  have hOrigin : f.origin p = f.origin d := by rw [origin, origin, hAbsolute]
  rw [way, way, hOrigin, hSteps, route_append f (.inr (List.cons_ne_nil _ _)), Route.andThen]
  split
  · rfl
  · simp only [route_last, List.append_nil]

theorem find_eq_file_iff {f : Files} {p : Path} {c : Content} :
    f.find p = .ok (.file c) ↔
      ∃ q, f.locate p = .ok q ∧ f.entryAt q = some (.file c) ∧ p.directoryOnly = false := by
  rw [find]
  cases f.locate p with
  | error fault => simp
  | ok q =>
    cases hEntry : f.entryAt q with
    | none => simp [hEntry]
    | some e => cases hOnly : p.directoryOnly <;> cases e <;> simp [hEntry]

theorem readText_eq_ok_iff {f : Files} {p : Path} {s : String} :
    f.readText p = .ok s ↔ ∃ q, f.locate p = .ok q ∧
      f.entryAt q = some (.file (.text s)) ∧ f.isLocked q = false ∧ p.directoryOnly = false := by
  have hFile : (∃ q, f.locate p = .ok q ∧ f.entryAt q = some (.file (.text s)) ∧
      f.isLocked q = false ∧ p.directoryOnly = false) ↔
      f.find p = .ok (.file (.text s)) ∧ f.mayRead p = true := by
    rw [find_eq_file_iff, mayRead]
    cases f.locate p with
    | error fault => simp
    | ok q => simp [and_assoc, and_comm (a := f.isLocked q = false)]
  rw [hFile, readText]
  cases f.find p with
  | error fault => simp
  | ok e =>
    cases e with
    | directory => simp
    | link target => simp
    | file c => cases f.mayRead p <;> cases c <;> simp

theorem holds_of_readText {f : Files} {p : Path} {s : String} (h : f.readText p = .ok s) :
    f.holds p = true := by
  rw [readText] at h
  rw [holds]
  split at h <;> simp_all

/-- What a path needs on its way and at its end. -/
def reach (f : Files) (p : Path) : List Place :=
  (f.way true p).links ++ (f.way true p).stop.toList

theorem mem_reach_of_links {f : Files} {p : Path} {r : Place} (h : r ∈ (f.way true p).links) :
    r ∈ f.reach p := List.mem_append_left _ h

theorem mem_reach_of_stop {f : Files} {p : Path} {q : Place} (h : (f.way true p).stop = some q) :
    q ∈ f.reach p := by
  refine List.mem_append_right _ ?_
  rw [h]
  exact List.mem_singleton_self q

/-- A text that could be read, or that was not there at all, is read after a change elsewhere as it
was before. -/
theorem ChangedWithin.readText_eq_ok_iff {ps : List Place} {f g : Files} {p : Path}
    (h : ChangedWithin ps f g) (hp : ∀ r ∈ f.reach p, r ∉ ps)
    (hKept : (∃ s, f.readText p = .ok s) ∨ ∀ q, f.goal? p = some q → f.entryAt q = none)
    {s : String} : g.readText p = .ok s ↔ f.readText p = .ok s := by
  have hLinks : ∀ r ∈ (f.way true p).links, r ∉ ps := fun r hr => hp r (mem_reach_of_links hr)
  constructor
  · intro hRead
    obtain ⟨q, hLocate, hEntry, _⟩ := Files.readText_eq_ok_iff.mp hRead
    have hStop : f.goal? p = some q := by
      rw [goal?, ← h.way_eq hLinks]
      exact stop_of_resolve hLocate
    have hBefore : f.entryAt q = some (.file (.text s)) := by
      rcases h.entry q (hp q (mem_reach_of_stop hStop)) with hSame | ⟨_, hMade⟩
      · rw [← hSame, hEntry]
      · rw [hEntry] at hMade
        cases hMade
    rcases hKept with ⟨t, ht⟩ | hVacant
    · obtain ⟨q', hLocate', hEntry', _⟩ := Files.readText_eq_ok_iff.mp ht
      obtain rfl : q' = q := Option.some.inj ((stop_of_resolve hLocate').symm.trans hStop)
      rw [hBefore] at hEntry'
      cases hEntry'
      exact ht
    · rw [hVacant q hStop] at hBefore
      cases hBefore
  · intro hRead
    obtain ⟨q, hLocate, hEntry, hOpen, hOnly⟩ := Files.readText_eq_ok_iff.mp hRead
    have hq : q ∉ ps := hp q (mem_reach_of_stop (stop_of_resolve hLocate))
    refine Files.readText_eq_ok_iff.mpr ⟨q, h.resolve hLinks hLocate, ?_, ?_, hOnly⟩
    · rcases h.entry q hq with hSame | ⟨hNone, _⟩
      · rw [hSame, hEntry]
      · rw [hEntry] at hNone
        cases hNone
    · rw [h.locked q hq, hOpen]

/-- A file may be opened at the path, which leads to `q`. -/
structure Opens (f : Files) (p : Path) (q : Place) : Prop where
  leads : f.locate p = .ok q
  namesFile : p.directoryOnly = false
  entry : f.entryAt q ≠ some .directory
  plain : f.linkAt? q = none
  thawed : f.isFrozen q = false

theorem Opens.create {f : Files} {p : Path} {q : Place} (h : f.Opens p q) :
    f.create p = (.ok q, f.put q (.file .empty)) := by
  rw [Files.create, h.leads]
  dsimp only
  split
  next hDirectory => exact absurd hDirectory h.entry
  next hLink =>
    have hPlain := h.plain
    rw [linkAt?_eq_some_iff.mpr hLink] at hPlain
    cases hPlain
  next => rw [h.namesFile, h.thawed]; rfl
  next => rw [h.namesFile, h.thawed]; rfl

theorem Opens.changed {ps : List Place} {f g : Files} {p : Path} {q : Place} (h : f.Opens p q)
    (hg : ChangedWithin ps f g) (hAvoids : ∀ r ∈ (f.way true p).links, r ∉ ps)
    (hEntry : g.entryAt q ≠ some .directory) : g.Opens p q where
  leads := hg.resolve hAvoids h.leads
  namesFile := h.namesFile
  entry := hEntry
  plain := hg.toExtends.linkAt?_eq_none h.plain
  thawed := (hg.toExtends.isFrozen_eq q).trans h.thawed

theorem create_cases (f : Files) (p : Path) :
    (∃ fault, f.create p = (.error fault, f)) ∨
      ∃ q, f.Opens p q ∧ f.create p = (.ok q, f.put q (.file .empty)) := by
  cases hLocate : f.locate p with
  | error fault =>
    rw [Files.create, hLocate]
    exact .inl ⟨fault, rfl⟩
  | ok q =>
    by_cases hOpens : f.Opens p q
    · exact .inr ⟨q, hOpens, hOpens.create⟩
    · left
      rw [Files.create, hLocate]
      dsimp only
      have hEnd (hEntry : f.entryAt q ≠ some .directory) (hPlain : f.linkAt? q = none) :
          ∃ fault, (if p.directoryOnly = true then (.error .isDirectory, f)
            else if f.isFrozen q = true then (.error .readOnly, f)
            else (.ok q, f.put q (.file .empty)) : Except Fault Place × Files) =
              (.error fault, f) := by
        split
        · exact ⟨_, rfl⟩
        next hOnly =>
          split
          · exact ⟨_, rfl⟩
          next hFrozen =>
            exact absurd ⟨hLocate, Bool.not_eq_true _ ▸ hOnly, hEntry, hPlain,
              Bool.not_eq_true _ ▸ hFrozen⟩ hOpens
      split
      · exact ⟨_, rfl⟩
      · exact ⟨_, rfl⟩
      next hFile => exact hEnd (by simp [hFile]) (by simp [linkAt?, hFile])
      next hNone => exact hEnd (by simp [hNone]) (by simp [linkAt?, hNone])

/-- All of a content fits into the file at a place. -/
def Fits (f : Files) (q : Place) (c : Content) : Prop := ∀ n, f.room.get? q = some n → c.size ≤ n

theorem fill_of_fits {f : Files} {q : Place} {c : Content} (h : f.Fits q c) :
    f.fill q c = (.ok (), f.put q (.file c)) := by
  rw [fill]
  split
  · rfl
  next n hRoom => rw [if_pos (h n hRoom)]

theorem fill_cases (f : Files) (q : Place) (c : Content) :
    (∃ fault left, f.fill q c = (.error fault, f.put q (.file left))) ∨
      f.Fits q c ∧ f.fill q c = (.ok (), f.put q (.file c)) := by
  by_cases h : f.Fits q c
  · exact .inr ⟨h, fill_of_fits h⟩
  · left
    rw [fill]
    split
    next hRoom => exact absurd (by simp [Fits, hRoom]) h
    next n hRoom =>
      have hSize : ¬ c.size ≤ n := by
        intro hSize
        apply h
        intro m hm
        rw [hRoom] at hm
        cases hm
        exact hSize
      rw [if_neg hSize]
      exact ⟨_, _, rfl⟩

theorem put_put (f : Files) (p : Place) (e e' : Entry) : (f.put p e).put p e' = f.put p e' := by
  rw [put, put, put, Table.insert_insert]

/-- A file or a link may be moved to the path, which names the place `q`. -/
structure Takes (f : Files) (p : Path) (q : Place) : Prop where
  leads : f.locateEntry p = .ok q
  namesFile : p.directoryOnly = false
  entry : f.entryAt q ≠ some .directory
  thawed : f.isFrozen q = false

theorem Takes.changed {ps : List Place} {f g : Files} {p : Path} {q : Place} (h : f.Takes p q)
    (hg : ChangedWithin ps f g) (hAvoids : ∀ r ∈ (f.way false p).links, r ∉ ps)
    (hEntry : g.entryAt q ≠ some .directory) : g.Takes p q where
  leads := hg.resolve hAvoids h.leads
  namesFile := h.namesFile
  entry := hEntry
  thawed := (hg.toExtends.isFrozen_eq q).trans h.thawed

theorem Takes.rename {f : Files} {source target : Path} {p q : Place} {c : Content}
    (hSource : f.locateEntry source = .ok p) (hEntry : f.entryAt p = some (.file c))
    (hOnly : source.directoryOnly = false) (hFrozen : f.isFrozen p = false)
    (h : f.Takes target q) :
    f.rename source target = (.ok (), f.move p q (.file c)) := by
  simp [Files.rename, hSource, h.leads, hEntry, hOnly, h.namesFile, h.entry, hFrozen, h.thawed]

theorem rename_cases (f : Files) (source target : Path) :
    (∃ fault, f.rename source target = (.error fault, f)) ∨
      (f.rename source target).1 = .ok () := by
  rw [Files.rename]
  split
  · exact .inl ⟨_, rfl⟩
  · exact .inl ⟨_, rfl⟩
  · split
    · exact .inl ⟨_, rfl⟩
    · exact .inl ⟨_, rfl⟩
    · split
      · exact .inl ⟨_, rfl⟩
      · split
        · exact .inl ⟨_, rfl⟩
        · split
          · exact .inl ⟨_, rfl⟩
          · exact .inr rfl

theorem takes_of_rename {f : Files} {source target : Path}
    (h : (f.rename source target).1 = .ok ()) : ∃ q, f.Takes target q := by
  rw [Files.rename] at h
  split at h
  · cases h
  · cases h
  next p q _ hTarget =>
    split at h
    · cases h
    · cases h
    · split at h
      · cases h
      next hOnly =>
        split at h
        · cases h
        next hEntry =>
          split at h
          · cases h
          next hFrozen =>
            rw [Bool.or_eq_true, not_or, Bool.not_eq_true, Bool.not_eq_true] at hOnly hFrozen
            exact ⟨q, hTarget, hOnly.2, hEntry, hFrozen.2⟩

theorem changedWithin_put_directory {f : Files} {p : Place} (h : f.entryAt p = none) :
    ChangedWithin [] f (f.put p .directory) := by
  have hRoot : p ≠ [] := ne_nil_of_entryAt (f := f) (by simp [h])
  have hPut : (f.put p .directory).entryAt p = some .directory := by
    rw [entryAt_put hRoot, if_pos rfl]
  constructor
  · constructor
    · rfl
    · intro r hr
      by_cases hp : r = p
      · rw [hp, hPut]
      · rw [f.entryAt_put_of_ne _ hp, hr]
    · exact fun _ _ hOpen => hOpen
    · intro r target hr
      by_cases hp : r = p
      · rw [hp, hPut] at hr
        cases hr
      · rwa [f.entryAt_put_of_ne _ hp] at hr
  · intro r _
    by_cases hp : r = p
    · rw [hp]
      exact .inr ⟨h, hPut⟩
    · exact .inl (f.entryAt_put_of_ne _ hp)
  · exact fun _ _ => rfl

theorem makeWay_cons_cases (f : Files) (n : Nat) (p : Place) (s : Path.Step)
    (rest : List Path.Step) :
    let next := f.route true n p [s]
    (∃ fault, f.makeWay n p (s :: rest) = (.error fault, f)) ∨
    (∃ q, next.arrive f = .ok q ∧ f.entryAt q = some .directory ∧
      f.makeWay n p (s :: rest) = f.makeWay (n - next.links.length) q rest) ∨
    (∃ q, next.arrive f = .ok q ∧ f.entryAt q = none ∧ next.links = [] ∧
      f.makeWay n p (s :: rest) = (f.put q .directory).makeWay n q rest) := by
  intro next
  rw [makeWay]
  split
  next fault _ => exact .inl ⟨fault, rfl⟩
  next q hArrive =>
    split
    next hEntry => exact .inr (.inl ⟨q, hArrive, hEntry, rfl⟩)
    next => exact .inl ⟨_, rfl⟩
    next hEntry =>
      split
      · exact .inl ⟨_, rfl⟩
      next hLinks =>
        split
        · exact .inl ⟨_, rfl⟩
        · exact .inr (.inr ⟨q, hArrive, hEntry, Decidable.not_not.mp hLinks, rfl⟩)

theorem changedWithin_makeWay (f : Files) (n : Nat) (p : Place) (steps : List Path.Step) :
    ChangedWithin [] f (f.makeWay n p steps).2 := by
  induction steps generalizing f n p with
  | nil => exact .refl [] f
  | cons s rest ih =>
    rcases makeWay_cons_cases f n p s rest with ⟨_, h⟩ | ⟨q, _, _, h⟩ | ⟨q, _, hNone, _, h⟩
    · rw [h]
      exact .refl [] f
    · rw [h]
      exact ih f _ q
    · rw [h]
      exact (changedWithin_put_directory hNone).trans (ih _ n q)

theorem route_cons_of_stop {f : Files} {n : Nat} {p q : Place} {s : Path.Step}
    (h : (f.route true n p [s]).stop = some q) (rest : List Path.Step) :
    f.route true n p (s :: rest) =
      let next := f.route true n p [s]
      let others := f.route true (n - next.links.length) q rest
      ⟨next.moves ++ others.moves, next.links ++ others.links, others.stop⟩ := by
  have hAppend : f.route true n p ([s] ++ rest) = _ := route_append f (.inl rfl) n p [s]
  rw [Route.andThen, h] at hAppend
  exact hAppend

/-- Where all directories were made, they need not be made again, as long as the links on the way
are there. -/
theorem makeWay_again {ps : List Place} {f g : Files} {n : Nat} {p : Place}
    {steps : List Path.Step} (h : (f.makeWay n p steps).1 = .ok ())
    (hg : ChangedWithin ps (f.makeWay n p steps).2 g)
    (hAvoids : ∀ r ∈ (f.route true n p steps).links, r ∉ ps) :
    g.makeWay n p steps = (.ok (), g) := by
  induction steps generalizing f n p with
  | nil => rfl
  | cons s rest ih =>
    have hChanged := ((changedWithin_makeWay f n p (s :: rest)).mono (List.nil_subset ps)).trans hg
    rcases makeWay_cons_cases f n p s rest with
      ⟨_, hWay⟩ | ⟨q, hArrive, hEntry, hWay⟩ | ⟨q, hArrive, hNone, hLinks, hWay⟩
    · rw [hWay] at h
      cases h
    · rw [hWay] at h hg
      rw [route_cons_of_stop (arrive_eq_ok_iff.mp hArrive).1] at hAvoids
      have hNext := hChanged.route_eq fun r hr => hAvoids r (List.mem_append_left _ hr)
      rw [makeWay]
      simp only [hNext, hChanged.toExtends.arrive hArrive, hChanged.directory q hEntry]
      exact ih h hg fun r hr => hAvoids r (List.mem_append_right _ hr)
    · rw [hWay] at h hg
      rw [route_cons_of_stop (arrive_eq_ok_iff.mp hArrive).1] at hAvoids
      have hNext := hChanged.route_eq fun r hr => hAvoids r (List.mem_append_left _ hr)
      have hMade := changedWithin_put_directory hNone
      have hPut : (f.put q .directory).entryAt q = some .directory := by
        rw [entryAt_put (ne_nil_of_entryAt (f := f) (by simp [hNone])), if_pos rfl]
      have hEntry := hg.directory q ((changedWithin_makeWay _ n q rest).directory q hPut)
      rw [makeWay]
      simp only [hNext, hChanged.toExtends.arrive hArrive, hEntry, hLinks, List.length_nil,
        Nat.sub_zero] at hAvoids ⊢
      refine ih h hg fun r hr => hAvoids r ?_
      rwa [hMade.route_eq fun _ _ => List.not_mem_nil] at hr

theorem changedWithin_makeDirectories (f : Files) (p : Path) :
    ChangedWithin [] f (f.makeDirectories p).2 := by
  rw [makeDirectories]
  split
  · exact .refl [] f
  · exact changedWithin_makeWay f _ _ _

theorem makeDirectories_again {ps : List Place} {f g : Files} {p : Path}
    (h : (f.makeDirectories p).1 = .ok ()) (hg : ChangedWithin ps (f.makeDirectories p).2 g)
    (hAvoids : ∀ r ∈ (f.way true p).links, r ∉ ps) : g.makeDirectories p = (.ok (), g) := by
  have hMade := (changedWithin_makeDirectories f p).toExtends.trans hg.toExtends
  rw [makeDirectories] at h hg ⊢
  split at h
  · cases h
  next hPath =>
    rw [hPath] at hg
    rw [hMade.origin_eq]
    exact makeWay_again h hg hAvoids

end Shorthand.Files
