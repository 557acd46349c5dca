import Mathlib.Data.List.Perm.Basic
import Shorthand.Proofs.Library.Fetching

/-! # What callers are told

Every caller is told once, or waits for the fetch of what it asked for. A success is told to all who
waited for it and to all who ask later, a failure to one.
-/
namespace Shorthand.Shelf

open Library

variable {s : Shelf} {name : String} {f : Fetch}

theorem perm_queue (caller : Nat) {fs : List Fetch} (hNames : (fs.map (·.name)).Nodup)
    (hf : f ∈ fs) :
    ((fs.map (·.queue f.name caller)).flatMap Fetch.callers).Perm
      (fs.flatMap Fetch.callers ++ [caller]) := by
  induction fs with
  | nil => cases hf
  | cons g rest ih =>
    obtain ⟨hHead, hNames⟩ := List.nodup_cons.mp hNames
    rw [List.map_cons, List.flatMap_cons, List.flatMap_cons]
    by_cases hg : g.name = f.name
    · have hRest : rest.map (·.queue f.name caller) = rest := by
        refine (List.map_congr_left ?_).trans (List.map_id rest)
        intro u hu
        refine if_neg fun hName => hHead ?_
        exact List.mem_map.mpr ⟨u, hu, hName.trans hg.symm⟩
      have hQueue : (g.queue f.name caller).callers = g.callers ++ [caller] := by
        rw [Fetch.queue, if_pos hg]
        rfl
      rw [hRest, hQueue, List.append_assoc, List.append_assoc]
      exact List.perm_append_comm.append_left _
    · rw [Fetch.queue, if_neg hg, List.append_assoc]
      rcases List.mem_cons.mp hf with rfl | hf
      · exact absurd rfl hg
      · exact (ih hNames hf).append_left _

theorem perm_ended {fs : List Fetch} (hNumbers : (fs.map (·.number)).Nodup) (hf : f ∈ fs) :
    (fs.flatMap Fetch.callers).Perm
      (f.callers ++ (fs.filter (·.number ≠ f.number)).flatMap Fetch.callers) := by
  induction fs with
  | nil => cases hf
  | cons g rest ih =>
    obtain ⟨hHead, hNumbers⟩ := List.nodup_cons.mp hNumbers
    rw [List.flatMap_cons]
    rcases List.mem_cons.mp hf with rfl | hf
    · have hRest : rest.filter (·.number ≠ f.number) = rest := by
        rw [List.filter_eq_self]
        intro g hg
        refine decide_eq_true fun hNumber => hHead ?_
        exact List.mem_map.mpr ⟨g, hg, hNumber⟩
      rw [List.filter_cons_of_neg (by simp), hRest]
    · have hne : g.number ≠ f.number := fun hNumber =>
        hHead (List.mem_map.mpr ⟨f, hf, hNumber.symm⟩)
      rw [List.filter_cons_of_pos (by simpa using hne), List.flatMap_cons]
      refine ((ih hNumbers hf).append_left _).trans ?_
      rw [← List.append_assoc, ← List.append_assoc]
      exact List.perm_append_comm.append_right _

theorem Fetching.nodup_names (h : s.Fetching) : (s.running.map (·.name)).Nodup := by
  have hApart := List.pairwise_map.mp h.apart
  refine List.pairwise_map.mpr (hApart.imp_of_mem ?_)
  intro f g hf hg hNumber hName
  obtain ⟨hStarted, hRunning⟩ := h.started_of_mem hf
  obtain ⟨hStarted', hRunning'⟩ := h.started_of_mem hg
  rw [← hName] at hStarted'
  exact hNumber (h.legal.eq_of_not_finished hStarted hStarted' hRunning hRunning')

/-- Every caller has been told or waits, those in hand aside. -/
structure Accounted (inHand : List Nat) (s : Shelf) : Prop where
  perm : (s.replies.map (·.caller) ++ s.running.flatMap Fetch.callers ++ inHand).Perm
    (List.range s.asked.length)
  replied : ∀ r ∈ s.replies, s.asked[r.caller]? = some r.name
  waiting : ∀ f ∈ s.running, ∀ c ∈ f.callers, s.asked[c]? = some f.name

theorem getElem?_asked_heard {c : Nat} {other : String} (h : s.asked[c]? = some other) :
    (s.heard name).asked[c]? = some other := by
  obtain ⟨hLt, _⟩ := List.getElem?_eq_some_iff.mp h
  rwa [heard, List.getElem?_append_left hLt]

namespace Accounted

theorem heard (h : s.Accounted []) (name : String) :
    (s.heard name).Accounted [s.asked.length] where
  perm := by
    have hPerm := h.perm.append_right [s.asked.length]
    rw [List.append_nil, ← List.range_succ] at hPerm
    simpa [Shelf.heard] using hPerm
  replied r hr := getElem?_asked_heard (h.replied r hr)
  waiting f hf c hc := getElem?_asked_heard (h.waiting f hf c hc)

theorem tell {told rest : List Nat} (h : s.Accounted (told ++ rest))
    (hAsked : ∀ c ∈ told, s.asked[c]? = some name) (answer : Answer) :
    (s.tell name answer told).Accounted rest where
  perm := by
    have hReplies : (s.tell name answer told).replies.map (·.caller) =
        s.replies.map (·.caller) ++ told := by simp [Shelf.tell, Function.comp_def]
    rw [hReplies]
    refine .trans ?_ h.perm
    rw [List.append_assoc, List.append_assoc, List.append_assoc]
    refine List.Perm.append_left _ ?_
    rw [← List.append_assoc, ← List.append_assoc]
    exact List.perm_append_comm.append_right _
  replied r hr := by
    rcases List.mem_append.mp hr with hr | hr
    · exact h.replied r hr
    · obtain ⟨c, hc, rfl⟩ := List.mem_map.mp hr
      exact hAsked c hc
  waiting := h.waiting

theorem start {caller : Nat} {waiting : List Nat} (h : s.Accounted (caller :: waiting))
    (hAsked : ∀ c ∈ caller :: waiting, s.asked[c]? = some name) (url : String) :
    (s.start name url caller waiting).Accounted [] where
  perm := by
    refine .trans ?_ h.perm
    rw [Shelf.start, List.flatMap_append, List.flatMap_singleton, List.append_nil,
      List.append_assoc]
    exact .refl _
  replied := h.replied
  waiting f hf := by
    rcases List.mem_append.mp hf with hf | hf
    · exact h.waiting f hf
    · cases List.mem_singleton.mp hf
      exact hAsked

theorem queue {caller : Nat} (h : s.Accounted [caller]) (hAsked : s.asked[caller]? = some f.name)
    (hNames : (s.running.map (·.name)).Nodup) (hf : f ∈ s.running) :
    Accounted [] { s with running := s.running.map (·.queue f.name caller) } where
  perm := by
    refine .trans ?_ h.perm
    rw [List.append_nil, List.append_assoc]
    exact (perm_queue caller hNames hf).append_left _
  replied := h.replied
  waiting g hg c hc := by
    obtain ⟨u, hu, rfl⟩ := List.mem_map.mp hg
    rw [(core_queue f.name caller u).2.1]
    rw [Fetch.queue] at hc
    split at hc
    next hName =>
      rcases List.mem_append.mp (show c ∈ u.callers ++ [caller] from hc) with hc | hc
      · exact h.waiting u hu c hc
      · rw [List.mem_singleton.mp hc, hAsked, hName]
    · exact h.waiting u hu c hc

theorem ended (h : s.Accounted []) (hNumbers : (s.running.map (·.number)).Nodup)
    (hf : f ∈ s.running) (result : Answer) (loaded : Table String Library) :
    Accounted f.callers { s.ended f result with loaded } where
  perm := by
    refine .trans ?_ h.perm
    rw [List.append_nil, List.append_assoc]
    refine List.Perm.append_left _ ?_
    exact List.perm_append_comm.trans (perm_ended hNumbers hf).symm
  replied := h.replied
  waiting g hg := h.waiting g (List.mem_filter.mp hg).1

end Accounted

/-- The fetches that failed, with the error. -/
def failures (log : List FetchEvent) : List (String × LibraryError) :=
  log.filterMap fun e => match e with
    | .finished _ name (.error e) => some (name, e)
    | _ => none

/-- The errors that callers were told of libraries whose address is known. -/
def loadErrors (urls : Table String String) (replies : List Reply) :
    List (String × LibraryError) :=
  replies.filterMap fun r => match r.answer with
    | .error e => if urls.contains r.name then some (r.name, e) else none
    | .ok _ => none

structure Truthful (s : Shelf) : Prop where
  shared : ∀ r ∈ s.replies, ∀ library, r.answer = .ok library → Loaded r.name library s.log
  failures_eq : loadErrors s.urls s.replies = failures s.log
  unknown : ∀ r ∈ s.replies, s.urls.get? r.name = none → r.answer = .error (.unknown r.name)

theorem failures_append (log rest : List FetchEvent) :
    failures (log ++ rest) = failures log ++ failures rest := List.filterMap_append

theorem loadErrors_append (urls : Table String String) (replies rest : List Reply) :
    loadErrors urls (replies ++ rest) = loadErrors urls replies ++ loadErrors urls rest :=
  List.filterMap_append

theorem Loaded.append {library : Library} {log : List FetchEvent} (h : Loaded name library log)
    (rest : List FetchEvent) : Loaded name library (log ++ rest) := by
  obtain ⟨n, hn⟩ := h
  exact ⟨n, List.mem_append_left _ hn⟩

namespace Truthful

theorem congr {s' : Shelf} (h : s.Truthful) (hUrls : s'.urls = s.urls)
    (hReplies : s'.replies = s.replies) {rest : List FetchEvent} (hLog : s'.log = s.log ++ rest)
    (hRest : failures rest = []) : s'.Truthful where
  shared r hr library hOk := by
    rw [hReplies] at hr
    rw [hLog]
    exact (h.shared r hr library hOk).append rest
  failures_eq := by
    rw [hUrls, hReplies, hLog, failures_append, hRest, List.append_nil, h.failures_eq]
  unknown r hr hUrl := by
    rw [hReplies] at hr
    rw [hUrls] at hUrl
    exact h.unknown r hr hUrl

theorem tell_ok (h : s.Truthful) {url : String} {library : Library}
    (hUrl : s.urls.get? name = some url) (hLoaded : Loaded name library s.log)
    (callers : List Nat) : (s.tell name (.ok library) callers).Truthful where
  shared r hr other hOk := by
    rcases List.mem_append.mp hr with hr | hr
    · exact h.shared r hr other hOk
    · obtain ⟨c, _, rfl⟩ := List.mem_map.mp hr
      cases hOk
      exact hLoaded
  failures_eq := by
    have hNone : loadErrors s.urls (callers.map (⟨·, name, .ok library⟩)) = [] := by
      simp [loadErrors]
    rw [Shelf.tell, loadErrors_append, hNone, List.append_nil]
    exact h.failures_eq
  unknown r hr hUnknown := by
    rcases List.mem_append.mp hr with hr | hr
    · exact h.unknown r hr hUnknown
    · obtain ⟨c, _, rfl⟩ := List.mem_map.mp hr
      cases hUrl.symm.trans hUnknown

theorem tell_unknown (h : s.Truthful) (hUrl : s.urls.get? name = none) (caller : Nat) :
    (s.tell name (.error (.unknown name)) [caller]).Truthful where
  shared r hr other hOk := by
    rcases List.mem_append.mp hr with hr | hr
    · exact h.shared r hr other hOk
    · cases List.mem_singleton.mp hr
      cases hOk
  failures_eq := by
    have hNone : loadErrors s.urls [⟨caller, name, .error (.unknown name)⟩] = [] := by
      simp [loadErrors, Table.contains, hUrl]
    rw [Shelf.tell, List.map_singleton, loadErrors_append, hNone, List.append_nil]
    exact h.failures_eq
  unknown r hr hUnknown := by
    rcases List.mem_append.mp hr with hr | hr
    · exact h.unknown r hr hUnknown
    · cases List.mem_singleton.mp hr
      rfl

theorem fail (h : s.Truthful) {url : String} (hUrl : s.urls.get? f.name = some url)
    (e : LibraryError) :
    ((s.ended f (.error e)).tell f.name (.error e) [f.caller]).Truthful where
  shared r hr other hOk := by
    rcases List.mem_append.mp hr with hr | hr
    · exact (h.shared r hr other hOk).append _
    · cases List.mem_singleton.mp hr
      cases hOk
  failures_eq := by
    have hTold : loadErrors s.urls [⟨f.caller, f.name, .error e⟩] = [(f.name, e)] := by
      simp [loadErrors, Table.contains, hUrl]
    rw [Shelf.tell, List.map_singleton, Shelf.ended, loadErrors_append, hTold, failures_append,
      h.failures_eq]
    rfl
  unknown r hr hUnknown := by
    rcases List.mem_append.mp hr with hr | hr
    · exact h.unknown r hr hUnknown
    · cases List.mem_singleton.mp hr
      cases hUrl.symm.trans hUnknown

end Truthful

end Shorthand.Shelf
