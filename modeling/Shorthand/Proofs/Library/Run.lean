import Shorthand.Proofs.Library.Callers

/-! # Runs of a shelf

Callers may come while others wait, and fetches may end in any order. Each library is loaded once
all the same, and asking for one or for several and waiting for the answers is such a run.
-/
namespace Shorthand.Shelf

open Library

/-- The log, the fetches under way, the callers and what they were told agree. -/
structure Kept (s : Shelf) : Prop where
  fetching : s.Fetching
  accounted : s.Accounted []
  truthful : s.Truthful

theorem kept_ofSource (urls : List (String × String)) (source : Nat → String → String → Answer) :
    (ofSource urls source).Kept where
  fetching := by
    refine ⟨.nil, rfl, ?_, List.nodup_nil, ?_⟩
    · intro n name url
      simp [ofSource, underWay]
    · intro name library
      simp [ofSource, Loaded, Table.empty, Table.get?]
  accounted := by
    refine ⟨.nil, ?_, ?_⟩
    · intro r hr
      cases hr
    · intro f hf
      cases hf
  truthful := by
    refine ⟨?_, rfl, ?_⟩
    · intro r hr
      cases hr
    · intro r hr
      cases hr

namespace Kept

variable {s : Shelf}

theorem call (h : s.Kept) (name : String) : (s.call name).Kept := by
  suffices hRest : (s.call name).Accounted [] ∧ (s.call name).Truthful from
    ⟨h.fetching.call name, hRest.1, hRest.2⟩
  have hHeard := h.accounted.heard name
  have hAsked : (s.heard name).asked[s.asked.length]? = some name := by simp [heard]
  have hTruthful : (s.heard name).Truthful :=
    h.truthful.congr rfl rfl (List.append_nil _).symm rfl
  rcases call_cases s name with ⟨hUrl, hCall⟩ | ⟨url, hUrl, ⟨library, hLoaded, hCall⟩ |
    ⟨f, hf, rfl, hCall⟩ | ⟨_, _, hCall⟩⟩ <;> rw [hCall]
  · exact ⟨hHeard.tell (List.forall_mem_singleton.mpr hAsked) _, hTruthful.tell_unknown hUrl _⟩
  · have hThere : Loaded name library s.log := (h.fetching.loaded_iff _ _).mp hLoaded
    exact ⟨hHeard.tell (List.forall_mem_singleton.mpr hAsked) _,
      hTruthful.tell_ok hUrl hThere _⟩
  · exact ⟨hHeard.queue hAsked h.fetching.nodup_names hf,
      hTruthful.congr rfl rfl (List.append_nil _).symm rfl⟩
  · exact ⟨hHeard.start (List.forall_mem_singleton.mpr hAsked) url,
      hTruthful.congr rfl rfl rfl rfl⟩

theorem finish (h : s.Kept) (number : Nat) : (s.finish number).Kept := by
  suffices hRest : (s.finish number).Accounted [] ∧ (s.finish number).Truthful from
    ⟨h.fetching.finish number, hRest.1, hRest.2⟩
  rcases finish_cases s number with hSame | ⟨f, hf, hRest⟩
  · rw [hSame]
    exact ⟨h.accounted, h.truthful⟩
  have hUrl := h.fetching.legal.url_eq (h.fetching.started_of_mem hf).1
  have hAsked := h.accounted.waiting f hf
  have hEnded := h.accounted.ended h.fetching.apart hf
  rcases hRest with ⟨library, _, hFinish⟩ | ⟨e, _, hRest⟩
  · have hAccounted := hEnded (.ok library) (s.loaded.insert f.name library)
    rw [← List.append_nil f.callers] at hAccounted
    have hTruthful : Truthful
        { s.ended f (.ok library) with loaded := s.loaded.insert f.name library } :=
      h.truthful.congr rfl rfl rfl rfl
    rw [hFinish]
    refine ⟨hAccounted.tell hAsked _, hTruthful.tell_ok hUrl ⟨f.number, ?_⟩ _⟩
    exact List.mem_append_right _ (List.mem_singleton_self _)
  · have hAccounted : (s.ended f (.error e)).Accounted ([f.caller] ++ f.waiting) :=
      hEnded (.error e) s.loaded
    have hFirst : ∀ c ∈ [f.caller], s.asked[c]? = some f.name :=
      List.forall_mem_singleton.mpr (hAsked f.caller List.mem_cons_self)
    have hTold := hAccounted.tell hFirst (.error e)
    have hTruthful := h.truthful.fail hUrl e
    rcases hRest with ⟨hWaiting, hFinish⟩ | ⟨caller, waiting, hWaiting, hFinish⟩ <;>
      rw [hFinish] <;> rw [hWaiting] at hTold
    · exact ⟨hTold, hTruthful⟩
    · refine ⟨hTold.start ?_ f.url, hTruthful.congr rfl rfl rfl rfl⟩
      intro c hc
      refine hAsked c (List.mem_cons_of_mem _ ?_)
      rwa [hWaiting]

theorem take (h : s.Kept) (step : Step) : (s.take step).Kept := by
  cases step with
  | call name => exact h.call name
  | finish number => exact h.finish number

theorem follow (h : s.Kept) (steps : List Step) : (s.follow steps).Kept := by
  induction steps generalizing s with
  | nil => exact h
  | cons step steps ih => exact ih (h.take step)

end Kept

variable {s : Shelf}

theorem frame_call (s : Shelf) (name : String) :
    (s.call name).urls = s.urls ∧ (s.call name).source = s.source ∧
      (s.call name).asked = s.asked ++ [name] := by
  rcases call_cases s name with ⟨_, hCall⟩ | ⟨_, _, ⟨_, _, hCall⟩ | ⟨_, _, _, hCall⟩ |
    ⟨_, _, hCall⟩⟩
  all_goals
    rw [hCall]
    exact ⟨rfl, rfl, rfl⟩

theorem frame_finish (s : Shelf) (number : Nat) :
    (s.finish number).urls = s.urls ∧ (s.finish number).source = s.source ∧
      (s.finish number).asked = s.asked := by
  rcases finish_cases s number with hSame | ⟨_, _, ⟨_, _, hFinish⟩ | ⟨_, _, ⟨_, hFinish⟩ |
    ⟨_, _, _, hFinish⟩⟩⟩
  · rw [hSame]
    exact ⟨rfl, rfl, rfl⟩
  all_goals
    rw [hFinish]
    exact ⟨rfl, rfl, rfl⟩

theorem frame_follow (s : Shelf) (steps : List Step) :
    (s.follow steps).urls = s.urls ∧ (s.follow steps).source = s.source := by
  induction steps generalizing s with
  | nil => exact ⟨rfl, rfl⟩
  | cons step steps ih =>
    have hTake : (s.take step).urls = s.urls ∧ (s.take step).source = s.source := by
      cases step with
      | call name => exact ⟨(frame_call s name).1, (frame_call s name).2.1⟩
      | finish number => exact ⟨(frame_finish s number).1, (frame_finish s number).2.1⟩
    rw [← hTake.1, ← hTake.2]
    exact ih (s.take step)

theorem asked_calls (s : Shelf) (names : List String) :
    (names.foldl call s).asked = s.asked ++ names := by
  induction names generalizing s with
  | nil => exact (List.append_nil _).symm
  | cons name names ih =>
    rw [List.foldl_cons, ih, (frame_call s name).2.2, List.append_assoc]
    rfl

theorem calls_eq_follow (s : Shelf) (names : List String) :
    names.foldl call s = s.follow (names.map .call) := by
  rw [follow, List.foldl_map]
  rfl

theorem drain_of_nil (h : s.running = []) : s.drain = s := by
  rw [drain]
  split
  · rfl
  next hSome =>
    rw [h] at hSome
    cases hSome

theorem drain_of_cons {f : Fetch} {rest : List Fetch} (h : s.running = f :: rest) :
    s.drain = (s.finish f.number).drain := by
  rw [drain]
  split
  next hNone =>
    rw [h] at hNone
    cases hNone
  next g _ hSome =>
    rw [h] at hSome
    cases hSome
    rfl

theorem drain_spec (s : Shelf) :
    (∃ steps, s.drain = s.follow steps) ∧ s.drain.running = [] ∧ s.drain.asked = s.asked := by
  induction s using drain.induct with
  | case1 s hNone =>
    rw [drain_of_nil hNone]
    exact ⟨⟨[], rfl⟩, hNone, rfl⟩
  | case2 s f rest hSome _ ih =>
    obtain ⟨⟨steps, hSteps⟩, hRunning, hAsked⟩ := ih
    rw [drain_of_cons hSome]
    exact ⟨⟨.finish f.number :: steps, hSteps⟩, hRunning,
      hAsked.trans (frame_finish s f.number).2.2⟩

theorem Kept.exists_reply (h : s.Kept) (hIdle : s.running = []) {c : Nat}
    (hc : c < s.asked.length) : ∃ r ∈ s.replies, r.caller = c := by
  have hPerm := h.accounted.perm
  rw [hIdle, List.flatMap_nil, List.append_nil, List.append_nil] at hPerm
  exact List.mem_map.mp (hPerm.mem_iff.mpr (List.mem_range.mpr hc))

theorem reply?_eq_some {c : Nat} (h : ∃ r ∈ s.replies, r.caller = c) :
    ∃ r ∈ s.replies, r.caller = c ∧ s.reply? c = some r.answer := by
  obtain ⟨r, hr, hCaller⟩ := h
  have hSome : (s.replies.find? (·.caller = c)).isSome := by
    rw [List.find?_isSome]
    exact ⟨r, hr, decide_eq_true hCaller⟩
  obtain ⟨q, hFind⟩ := Option.isSome_iff_exists.mp hSome
  have hq := List.find?_some hFind
  refine ⟨q, List.mem_of_find?_eq_some hFind, of_decide_eq_true hq, ?_⟩
  rw [reply?, hFind]
  rfl

theorem exists_replies {callers : List Nat} (h : ∀ c ∈ callers, ∃ r ∈ s.replies, r.caller = c) :
    ∃ rs : List Reply, (∀ r ∈ rs, r ∈ s.replies) ∧ rs.map (·.caller) = callers ∧
      callers.filterMap s.reply? = rs.map (·.answer) := by
  induction callers with
  | nil => exact ⟨[], by simp, rfl, rfl⟩
  | cons c callers ih =>
    obtain ⟨r, hr, hCaller, hReply⟩ := reply?_eq_some (h c List.mem_cons_self)
    obtain ⟨rs, hrs, hCallers, hReplies⟩ := ih fun c hc => h c (List.mem_cons_of_mem _ hc)
    refine ⟨r :: rs, List.forall_mem_cons.mpr ⟨hr, hrs⟩, ?_, ?_⟩
    · rw [List.map_cons, hCaller, hCallers]
    · rw [List.filterMap_cons_some hReply, hReplies, List.map_cons]

/-- New callers ask for the names, and the answers are what they are told, in their order. -/
def Answered (s last : Shelf) (names : List String) (answers : List Answer) : Prop :=
  (∃ steps, last = s.follow steps) ∧ last.running = [] ∧ last.asked = s.asked ++ names ∧
    ∃ rs : List Reply, (∀ r ∈ rs, r ∈ last.replies) ∧
      rs.map (·.caller) = List.range' s.asked.length names.length ∧
      rs.map (·.name) = names ∧ answers = rs.map (·.answer)

theorem follow_getAll (s : Shelf) (names : List String) :
    (∃ steps, (s.getAll names).1 = s.follow steps) ∧ (s.getAll names).1.running = [] ∧
      (s.getAll names).1.asked = s.asked ++ names := by
  obtain ⟨⟨steps, hSteps⟩, hIdle, hAsked⟩ := drain_spec (names.foldl Shelf.call s)
  rw [asked_calls] at hAsked
  refine ⟨⟨names.map .call ++ steps, ?_⟩, hIdle, hAsked⟩
  rw [follow_append, ← calls_eq_follow]
  exact hSteps

theorem map_getElem?_range' (old names : List String) :
    (List.range' old.length names.length).map (fun c => (old ++ names)[c]?) = names.map some := by
  refine List.ext_getElem (by simp) ?_
  intro i hi hi'
  rw [List.getElem_map, List.getElem_range', Nat.one_mul,
    List.getElem?_append_right (Nat.le_add_right _ _), Nat.add_sub_cancel_left, List.getElem_map]
  exact List.getElem?_eq_getElem _

theorem Kept.answered_getAll (h : s.Kept) (names : List String) :
    Answered s (s.getAll names).1 names (s.getAll names).2 := by
  obtain ⟨⟨steps, hSteps⟩, hIdle, hAsked⟩ := follow_getAll s names
  have hLast : (s.getAll names).1.Kept := hSteps ▸ h.follow steps
  have hTold : ∀ c ∈ List.range' s.asked.length names.length,
      ∃ r ∈ (s.getAll names).1.replies, r.caller = c := by
    intro c hc
    refine hLast.exists_reply hIdle ?_
    rw [hAsked, List.length_append]
    exact (List.mem_range'_1.mp hc).2
  obtain ⟨rs, hrs, hCallers, hAnswers⟩ := exists_replies hTold
  refine ⟨⟨steps, hSteps⟩, hIdle, hAsked, rs, hrs, hCallers, ?_, hAnswers⟩
  refine List.map_injective_iff.mpr (fun _ _ hSome => Option.some.inj hSome) ?_
  rw [← map_getElem?_range' s.asked names, ← hCallers, ← hAsked, List.map_map, List.map_map]
  exact List.map_congr_left fun r hr => (hLast.accounted.replied r (hrs r hr)).symm

theorem Kept.answered_get (h : s.Kept) (name : String) :
    Answered s (s.get name).1 [name] [(s.get name).2] := by
  have hAll := h.answered_getAll [name]
  have hAnswer : (s.getAll [name]).2 = [(s.get name).2] := by
    obtain ⟨_, _, _, rs, hrs, hCallers, _⟩ := hAll
    have hMem : s.asked.length ∈ rs.map (·.caller) := by
      rw [hCallers]
      exact List.mem_singleton_self _
    obtain ⟨r, hr, hCaller⟩ := List.mem_map.mp hMem
    obtain ⟨q, _, _, hReply⟩ := reply?_eq_some ⟨r, hrs r hr, hCaller⟩
    have hGet : (s.get name).2 = q.answer := by
      rw [get]
      exact congrArg (Option.getD · _) hReply
    rw [hGet]
    exact List.filterMap_cons_some hReply
  rw [hAnswer] at hAll
  exact hAll

/-- What holds of a shelf at any moment. -/
structure LoadsOnce (urls : Table String String) (source : Nat → String → String → Answer)
    (s : Shelf) : Prop where
  /-- Of the fetches of a library at most one succeeds. -/
  loads_le_one : ∀ name, numLoads name s.log ≤ 1
  /-- A fetch starts neither after a success nor while another fetch of the library runs. -/
  starts : ∀ before n name url after, s.log = before ++ .started n name url :: after →
    urls.get? name = some url ∧ (∀ library, ¬ Loaded name library before) ∧
      ∀ m other, .started m name other ∈ before → Finished m before
  /-- A fetch ends once, after its start, and as the source has it. -/
  ends : ∀ before n name result after, s.log = before ++ .finished n name result :: after →
    ¬ Finished n before ∧ ∃ url, .started n name url ∈ before ∧ result = source n name url
  /-- Every caller is told once of what it asked for, at the latest when no fetch runs. -/
  replies_nodup : (s.replies.map (·.caller)).Nodup
  replies_asked : ∀ r ∈ s.replies, s.asked[r.caller]? = some r.name
  replies_total : s.running = [] → ∀ c < s.asked.length, ∃ r ∈ s.replies, r.caller = c
  /-- A library that a caller is given came from the fetch that succeeded. -/
  shared : ∀ r ∈ s.replies, ∀ library, r.answer = .ok library → Loaded r.name library s.log
  /-- The errors told of known libraries are those of the failed fetches, one for one. -/
  failures_eq : loadErrors urls s.replies = failures s.log
  /-- An unknown name is answered at once, and nothing is fetched. -/
  unknown : ∀ name, urls.get? name = none →
    (s.call name).replies = s.replies ++ [⟨s.asked.length, name, .error (.unknown name)⟩] ∧
      (s.call name).log = s.log ∧ ∀ n url, .started n name url ∉ s.log
  /-- If all fetches of a library so far have failed, asking for it fetches again. -/
  retries : ∀ name url, urls.get? name = some url →
    (∀ n other, .started n name other ∈ s.log → ∃ e, .finished n name (.error e) ∈ s.log) →
      (s.call name).log = s.log ++ [.started s.fetches name url]
  /-- A library is there from its successful fetch on. -/
  holds_iff : ∀ name, s.holds name = true ↔ ∃ library, Loaded name library s.log

theorem Kept.loadsOnce (h : s.Kept) : s.LoadsOnce s.urls s.source where
  loads_le_one name := h.fetching.legal.numLoads_le_one name
  starts before n name url after hLog := by
    have hLegal := h.fetching.legal
    rw [hLog] at hLegal
    exact hLegal.fits_of_split.2.2
  ends before n name result after hLog := by
    have hLegal := h.fetching.legal
    rw [hLog] at hLegal
    exact hLegal.fits_of_split.2
  replies_nodup := by
    have hNodup := h.accounted.perm.nodup_iff.mpr List.nodup_range
    rw [List.append_nil] at hNodup
    exact (List.nodup_append.mp hNodup).1
  replies_asked := h.accounted.replied
  replies_total hIdle c hc := h.exists_reply hIdle hc
  shared := h.truthful.shared
  failures_eq := h.truthful.failures_eq
  unknown name hUrl := by
    rw [call_of_unknown hUrl]
    refine ⟨rfl, rfl, ?_⟩
    intro n url hStarted
    cases hUrl.symm.trans (h.fetching.legal.url_eq hStarted)
  retries name url hUrl hFailed := by
    have hAbsent : s.loaded.get? name = none := by
      cases hLoaded : s.loaded.get? name with
      | none => rfl
      | some library =>
        obtain ⟨n, hFinished⟩ := (h.fetching.loaded_iff name library).mp hLoaded
        obtain ⟨other, hStarted⟩ := h.fetching.legal.exists_started hFinished
        obtain ⟨e, hError⟩ := hFailed n other hStarted
        cases h.fetching.legal.result_eq hFinished hError
    have hFetching : s.isFetching name = false := by
      rw [Bool.eq_false_iff]
      intro hRunning
      obtain ⟨f, hf, rfl⟩ := isFetching_iff.mp hRunning
      obtain ⟨hStarted, hNotOver⟩ := h.fetching.started_of_mem hf
      obtain ⟨e, hError⟩ := hFailed _ _ hStarted
      exact hNotOver ⟨_, _, hError⟩
    rw [call_of_absent hUrl hAbsent hFetching]
    rfl
  holds_iff name := by
    rw [holds, Table.contains, Option.isSome_iff_exists]
    exact exists_congr (h.fetching.loaded_iff name)

/-- At any moment of any run every library is loaded at most once, with every answer accounted for.
The answers to those who ask, alone or together, come from such runs. -/
theorem follow_loadsOnce (urls : List (String × String))
    (source : Nat → String → String → Answer) (steps : List Step) :
    let s := (ofSource urls source).follow steps
    s.LoadsOnce (.ofList urls) source ∧
      (∀ names, Answered s (s.getAll names).1 names (s.getAll names).2) ∧
      ∀ name, Answered s (s.get name).1 [name] [(s.get name).2] := by
  intro s
  have hKept : s.Kept := (kept_ofSource urls source).follow steps
  obtain ⟨hUrls, hSource⟩ := frame_follow (ofSource urls source) steps
  have hLoadsOnce := hKept.loadsOnce
  rw [hUrls, hSource] at hLoadsOnce
  exact ⟨hLoadsOnce, hKept.answered_getAll, hKept.answered_get⟩

example :
    let source := fun n name url =>
      if n = 0 then .error (.notLoaded url "offline") else .ok ⟨name, url⟩
    let s := (ofSource [("sass", "u"), ("marked", "v")] source).follow
      [.call "sass", .call "marked", .call "sass", .call "less", .finish 1, .finish 0, .finish 2]
    s.replies.map (·.caller) = [3, 1, 0, 2] ∧ s.fetches = 3 ∧ s.holds "sass" ∧ s.running = [] := by
  decide

end Shorthand.Shelf
