import Shorthand.Proofs.Library.Log

/-! # Fetches under way

Callers come and fetches end in any order. Whatever the order is, the fetches under way are those
that the log says have started and not finished, and the libraries that are there are those that a
fetch brought.
-/
namespace Shorthand.Shelf

open Library

inductive Step where
  | call (name : String)
  | finish (number : Nat)

def take (s : Shelf) : Step → Shelf
  | .call name => s.call name
  | .finish number => s.finish number

def follow (s : Shelf) (steps : List Step) : Shelf := steps.foldl take s

theorem follow_append (s : Shelf) (steps more : List Step) :
    s.follow (steps ++ more) = (s.follow steps).follow more := List.foldl_append

def heard (s : Shelf) (name : String) : Shelf := { s with asked := s.asked ++ [name] }

theorem isFetching_iff {s : Shelf} {name : String} :
    s.isFetching name = true ↔ ∃ f ∈ s.running, f.name = name := by
  simp [isFetching]

theorem call_of_unknown {s : Shelf} {name : String} (h : s.urls.get? name = none) :
    s.call name = (s.heard name).tell name (.error (.unknown name)) [s.asked.length] := by
  simp only [call, h, heard]

theorem call_of_absent {s : Shelf} {name url : String} (h : s.urls.get? name = some url)
    (hLoaded : s.loaded.get? name = none) (hFetching : s.isFetching name = false) :
    s.call name = (s.heard name).start name url s.asked.length [] := by
  simp only [call, h, hLoaded, hFetching, heard, Bool.false_eq_true, if_false]

theorem call_cases (s : Shelf) (name : String) :
    (s.urls.get? name = none ∧
      s.call name = (s.heard name).tell name (.error (.unknown name)) [s.asked.length]) ∨
    ∃ url, s.urls.get? name = some url ∧
      ((∃ library, s.loaded.get? name = some library ∧
          s.call name = (s.heard name).tell name (.ok library) [s.asked.length]) ∨
        (∃ f ∈ s.running, f.name = name ∧
          s.call name =
            { s.heard name with running := s.running.map (·.queue name s.asked.length) }) ∨
        (s.loaded.get? name = none ∧ s.isFetching name = false ∧
          s.call name = (s.heard name).start name url s.asked.length [])) := by
  cases hUrl : s.urls.get? name with
  | none => exact .inl ⟨rfl, call_of_unknown hUrl⟩
  | some url =>
    refine .inr ⟨url, rfl, ?_⟩
    cases hLoaded : s.loaded.get? name with
    | some library => exact .inl ⟨library, rfl, by simp only [call, hUrl, hLoaded, heard]⟩
    | none =>
      right
      cases hFetching : s.isFetching name with
      | true =>
        obtain ⟨f, hf, hName⟩ := isFetching_iff.mp hFetching
        exact .inl ⟨f, hf, hName, by simp only [call, hUrl, hLoaded, hFetching, heard, if_true]⟩
      | false => exact .inr ⟨rfl, rfl, call_of_absent hUrl hLoaded hFetching⟩

theorem finish_cases (s : Shelf) (number : Nat) :
    s.finish number = s ∨
    ∃ f ∈ s.running,
      (∃ library, s.source f.number f.name f.url = .ok library ∧
        s.finish number =
          { s.ended f (.ok library) with loaded := s.loaded.insert f.name library }.tell f.name
            (.ok library) f.callers) ∨
      ∃ e, s.source f.number f.name f.url = .error e ∧
        let told := (s.ended f (.error e)).tell f.name (.error e) [f.caller]
        (f.waiting = [] ∧ s.finish number = told) ∨
          ∃ caller waiting, f.waiting = caller :: waiting ∧
            s.finish number = told.start f.name f.url caller waiting := by
  rw [finish]
  split
  · exact .inl rfl
  next f hFind =>
    refine .inr ⟨f, List.mem_of_find?_eq_some hFind, ?_⟩
    cases hResult : s.source f.number f.name f.url with
    | ok library => exact .inl ⟨library, rfl, rfl⟩
    | error e =>
      refine .inr ⟨e, rfl, ?_⟩
      rw [settle]
      cases hWaiting : f.waiting with
      | nil => exact .inl ⟨rfl, rfl⟩
      | cons caller waiting => exact .inr ⟨caller, waiting, rfl, rfl⟩

def underWay (fs : List Fetch) : List FetchEvent := fs.map fun f => .started f.number f.name f.url

structure Fetching (s : Shelf) : Prop where
  legal : Legal s.urls s.source s.log
  fetches_eq : s.fetches = numStarted s.log
  underWay_iff : ∀ n name url, .started n name url ∈ underWay s.running ↔
    .started n name url ∈ s.log ∧ ¬ Finished n s.log
  apart : (s.running.map (·.number)).Nodup
  loaded_iff : ∀ name library, s.loaded.get? name = some library ↔ Loaded name library s.log

theorem mem_underWay {fs : List Fetch} {n : Nat} {name url : String} :
    .started n name url ∈ underWay fs ↔
      ∃ f ∈ fs, f.number = n ∧ f.name = name ∧ f.url = url := by
  simp [underWay]

theorem core_queue (name : String) (caller : Nat) (f : Fetch) :
    (f.queue name caller).number = f.number ∧ (f.queue name caller).name = f.name ∧
      (f.queue name caller).url = f.url := by
  rw [Fetch.queue]
  split <;> exact ⟨rfl, rfl, rfl⟩

theorem underWay_queue (name : String) (caller : Nat) (fs : List Fetch) :
    underWay (fs.map (·.queue name caller)) = underWay fs := by
  rw [underWay, List.map_map]
  refine List.map_congr_left ?_
  intro f _
  obtain ⟨hNumber, hName, hUrl⟩ := core_queue name caller f
  rw [Function.comp, hNumber, hName, hUrl]

namespace Fetching

variable {s : Shelf}

theorem congr {s' : Shelf} (h : s.Fetching) (hUrls : s'.urls = s.urls)
    (hSource : s'.source = s.source) (hLog : s'.log = s.log) (hFetches : s'.fetches = s.fetches)
    (hLoaded : s'.loaded = s.loaded)
    (hRunning : underWay s'.running = underWay s.running)
    (hApart : s'.running.map (·.number) = s.running.map (·.number)) : s'.Fetching where
  legal := by
    rw [hUrls, hSource, hLog]
    exact h.legal
  fetches_eq := by rw [hFetches, hLog, h.fetches_eq]
  underWay_iff := by
    rw [hRunning, hLog]
    exact h.underWay_iff
  apart := hApart ▸ h.apart
  loaded_iff := by
    rw [hLoaded, hLog]
    exact h.loaded_iff

theorem started_of_mem (h : s.Fetching) {f : Fetch} (hf : f ∈ s.running) :
    .started f.number f.name f.url ∈ s.log ∧ ¬ Finished f.number s.log :=
  (h.underWay_iff _ _ _).mp (mem_underWay.mpr ⟨f, hf, rfl, rfl, rfl⟩)

theorem finished_of_not_fetching (h : s.Fetching) {name : String}
    (hFetching : s.isFetching name = false) :
    ∀ m url, .started m name url ∈ s.log → Finished m s.log := by
  intro m url hStarted
  by_contra hRunning
  have hUnderWay := (h.underWay_iff m name url).mpr ⟨hStarted, hRunning⟩
  obtain ⟨f, hf, _, hName, _⟩ := mem_underWay.mp hUnderWay
  rw [isFetching_iff.mpr ⟨f, hf, hName⟩] at hFetching
  cases hFetching

theorem start (h : s.Fetching) {name url : String} (hUrl : s.urls.get? name = some url)
    (hAbsent : ∀ library, ¬ Loaded name library s.log)
    (hOver : ∀ m other, .started m name other ∈ s.log → Finished m s.log)
    (caller : Nat) (waiting : List Nat) : (s.start name url caller waiting).Fetching where
  legal := h.legal.concat ⟨h.fetches_eq, hUrl, hAbsent, hOver⟩
  fetches_eq := by
    show s.fetches + 1 = _
    rw [Shelf.start, numStarted_started, h.fetches_eq]
  underWay_iff n other url' := by
    have hFresh : ¬ Finished s.fetches s.log := by
      intro hFinished
      have := h.legal.finished_lt hFinished
      have := h.fetches_eq
      omega
    have hRunning : underWay (s.start name url caller waiting).running =
        underWay s.running ++ [.started s.fetches name url] := List.map_append
    rw [hRunning, Shelf.start, List.mem_append, List.mem_append, h.underWay_iff, finished_concat,
      List.mem_singleton]
    simp only [reduceCtorEq, exists_false, or_false]
    constructor
    · rintro (⟨hStarted, hNot⟩ | hNew)
      · exact ⟨.inl hStarted, hNot⟩
      · cases hNew
        exact ⟨.inr rfl, hFresh⟩
    · rintro ⟨hStarted | hNew, hNot⟩
      · exact .inl ⟨hStarted, hNot⟩
      · exact .inr hNew
  apart := by
    rw [Shelf.start, List.map_append, List.nodup_append]
    refine ⟨h.apart, by simp, ?_⟩
    intro n hn m hm
    obtain ⟨f, hf, rfl⟩ := List.mem_map.mp hn
    cases List.mem_singleton.mp hm
    show f.number ≠ s.fetches
    have := h.legal.started_lt (h.started_of_mem hf).1
    have := h.fetches_eq
    omega
  loaded_iff other library := by
    rw [Shelf.start, loaded_concat]
    simp only [reduceCtorEq, exists_false, or_false]
    exact h.loaded_iff other library

theorem ended (h : s.Fetching) {f : Fetch} (hf : f ∈ s.running) {result : Answer}
    (hResult : s.source f.number f.name f.url = result) {loaded : Table String Library}
    (hLoaded : ∀ name library, loaded.get? name = some library ↔
      Loaded name library (s.ended f result).log) :
    Fetching { s.ended f result with loaded } where
  legal := by
    obtain ⟨hStarted, hRunning⟩ := h.started_of_mem hf
    exact h.legal.concat ⟨hRunning, f.url, hStarted, hResult.symm⟩
  fetches_eq := h.fetches_eq.trans (numStarted_finished _ _ _ _).symm
  underWay_iff n name url := by
    have hRest : .started n name url ∈ underWay (s.ended f result).running ↔
        .started n name url ∈ underWay s.running ∧ n ≠ f.number := by
      simp only [mem_underWay, Shelf.ended, List.mem_filter, decide_eq_true_iff]
      constructor
      · rintro ⟨g, ⟨hg, hne⟩, rfl, rfl, rfl⟩
        exact ⟨⟨g, hg, rfl, rfl, rfl⟩, hne⟩
      · rintro ⟨⟨g, hg, rfl, rfl, rfl⟩, hne⟩
        exact ⟨g, ⟨hg, hne⟩, rfl, rfl, rfl⟩
    have hFinished : Finished n (s.ended f result).log ↔ Finished n s.log ∨ n = f.number := by
      rw [Shelf.ended, finished_concat]
      simp [eq_comm]
    show .started n name url ∈ underWay (s.ended f result).running ↔
      .started n name url ∈ s.log ++ [.finished f.number f.name result] ∧
        ¬ Finished n (s.ended f result).log
    rw [hRest, h.underWay_iff, hFinished, not_or, and_assoc, List.mem_append, List.mem_singleton]
    simp only [reduceCtorEq, or_false]
  apart := h.apart.sublist (List.filter_sublist.map _)
  loaded_iff := hLoaded

theorem call (h : s.Fetching) (name : String) : (s.call name).Fetching := by
  have hHeard : (s.heard name).Fetching := h.congr rfl rfl rfl rfl rfl rfl rfl
  rcases call_cases s name with ⟨_, hCall⟩ | ⟨url, hUrl, ⟨library, _, hCall⟩ | ⟨f, _, _, hCall⟩ |
    ⟨hLoaded, hFetching, hCall⟩⟩
  · rw [hCall]
    exact hHeard.congr rfl rfl rfl rfl rfl rfl rfl
  · rw [hCall]
    exact hHeard.congr rfl rfl rfl rfl rfl rfl rfl
  · rw [hCall]
    refine hHeard.congr rfl rfl rfl rfl rfl (underWay_queue name s.asked.length s.running) ?_
    rw [List.map_map]
    exact List.map_congr_left fun f _ => (core_queue name s.asked.length f).1
  · rw [hCall]
    refine hHeard.start hUrl ?_ (h.finished_of_not_fetching hFetching) _ _
    intro library hThere
    rw [(h.loaded_iff name library).mpr hThere] at hLoaded
    cases hLoaded

theorem not_loaded_of_mem (h : s.Fetching) {f : Fetch} (hf : f ∈ s.running) (library : Library) :
    ¬ Loaded f.name library s.log := by
  intro hLoaded
  obtain ⟨hStarted, hRunning⟩ := h.started_of_mem hf
  exact hRunning (h.legal.finished_of_loaded hLoaded hStarted)

theorem share (h : s.Fetching) {f : Fetch} (hf : f ∈ s.running) {library : Library}
    (hResult : s.source f.number f.name f.url = .ok library) :
    Fetching { s.ended f (.ok library) with loaded := s.loaded.insert f.name library } := by
  refine h.ended hf hResult ?_
  intro name other
  rw [Table.get?_insert, Shelf.ended, loaded_concat]
  split
  next hName =>
    cases hName
    constructor
    · rintro ⟨⟩
      exact .inr ⟨f.number, rfl⟩
    · rintro (hLoaded | ⟨n, hEvent⟩)
      · exact absurd hLoaded (h.not_loaded_of_mem hf other)
      · cases hEvent
        rfl
  next hName =>
    rw [h.loaded_iff]
    constructor
    · exact .inl
    · rintro (hLoaded | ⟨n, hEvent⟩)
      · exact hLoaded
      · cases hEvent
        exact absurd rfl hName

theorem fail (h : s.Fetching) {f : Fetch} (hf : f ∈ s.running) {e : LibraryError}
    (hResult : s.source f.number f.name f.url = .error e) : (s.ended f (.error e)).Fetching := by
  have hLoaded : ∀ name library, s.loaded.get? name = some library ↔
      Loaded name library (s.ended f (.error e)).log := by
    intro name library
    rw [Shelf.ended, loaded_concat, ← h.loaded_iff]
    simp only [FetchEvent.finished.injEq, reduceCtorEq, and_false, exists_false, or_false]
  exact h.ended hf hResult hLoaded

theorem restart (h : s.Fetching) {f : Fetch} (hf : f ∈ s.running) {e : LibraryError}
    (hResult : s.source f.number f.name f.url = .error e) (caller : Nat) (waiting : List Nat) :
    (((s.ended f (.error e)).tell f.name (.error e) [f.caller]).start f.name f.url caller
      waiting).Fetching := by
  obtain ⟨hStarted, hRunning⟩ := h.started_of_mem hf
  have hTold : ((s.ended f (.error e)).tell f.name (.error e) [f.caller]).Fetching :=
    (h.fail hf hResult).congr rfl rfl rfl rfl rfl rfl rfl
  refine hTold.start (h.legal.url_eq hStarted) ?_ ?_ caller waiting
  · intro library hLoaded
    rcases loaded_concat.mp hLoaded with hBefore | ⟨n, hEvent⟩
    · exact h.not_loaded_of_mem hf library hBefore
    · cases hEvent
  · intro m other hm
    refine finished_concat.mpr ?_
    rcases List.mem_append.mp hm with hOld | hNew
    · by_cases hFinished : Finished m s.log
      · exact .inl hFinished
      · cases h.legal.eq_of_not_finished hOld hStarted hFinished hRunning
        exact .inr ⟨_, _, rfl⟩
    · cases List.mem_singleton.mp hNew

theorem finish (h : s.Fetching) (number : Nat) : (s.finish number).Fetching := by
  rcases finish_cases s number with hSame | ⟨f, hf, ⟨library, hResult, hFinish⟩ |
    ⟨e, hResult, ⟨_, hFinish⟩ | ⟨caller, waiting, _, hFinish⟩⟩⟩
  · rwa [hSame]
  · rw [hFinish]
    exact (h.share hf hResult).congr rfl rfl rfl rfl rfl rfl rfl
  · rw [hFinish]
    exact (h.fail hf hResult).congr rfl rfl rfl rfl rfl rfl rfl
  · rw [hFinish]
    exact h.restart hf hResult caller waiting

end Fetching

end Shorthand.Shelf
