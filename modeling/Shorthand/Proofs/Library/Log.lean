import Shorthand.Library
import Shorthand.Proofs.Stepwise

/-! # The log of the fetches

A fetch starts only while its library is neither there nor being fetched. So of the fetches of one
library at most one is under way, and after one has succeeded none follows.
-/
namespace Shorthand.Shelf

open Library

def Finished (n : Nat) (log : List FetchEvent) : Prop :=
  ∃ name result, .finished n name result ∈ log

def Loaded (name : String) (library : Library) (log : List FetchEvent) : Prop :=
  ∃ n, .finished n name (.ok library) ∈ log

def numStarted (log : List FetchEvent) : Nat :=
  log.countP fun e => match e with
    | .started .. => true
    | .finished .. => false

def loads (name : String) : FetchEvent → Bool
  | .finished _ other (.ok _) => other = name
  | _ => false

def numLoads (name : String) (log : List FetchEvent) : Nat := log.countP (loads name)

/-- What may happen next, given what happened before. -/
def Fits (urls : Table String String) (source : Nat → String → String → Answer)
    (log : List FetchEvent) : FetchEvent → Prop
  | .started n name url =>
    n = numStarted log ∧ urls.get? name = some url ∧ (∀ library, ¬ Loaded name library log) ∧
      ∀ m other, .started m name other ∈ log → Finished m log
  | .finished n name result =>
    ¬ Finished n log ∧ ∃ url, .started n name url ∈ log ∧ result = source n name url

abbrev Legal (urls : Table String String) (source : Nat → String → String → Answer)
    (log : List FetchEvent) : Prop := Stepwise (Fits urls source) log

variable {urls : Table String String} {source : Nat → String → String → Answer}
  {log : List FetchEvent} {e : FetchEvent}

theorem finished_concat {n : Nat} :
    Finished n (log ++ [e]) ↔ Finished n log ∨ ∃ name result, e = .finished n name result := by
  simp only [Finished, List.mem_append, List.mem_singleton, exists_or, eq_comm]

theorem loaded_concat {name : String} {library : Library} :
    Loaded name library (log ++ [e]) ↔
      Loaded name library log ∨ ∃ n, e = .finished n name (.ok library) := by
  simp only [Loaded, List.mem_append, List.mem_singleton, exists_or, eq_comm]

theorem numStarted_started (log : List FetchEvent) (n : Nat) (name url : String) :
    numStarted (log ++ [.started n name url]) = numStarted log + 1 := by
  simp [numStarted, List.countP_append]

theorem numStarted_finished (log : List FetchEvent) (n : Nat) (name : String) (result : Answer) :
    numStarted (log ++ [.finished n name result]) = numStarted log := by
  simp [numStarted, List.countP_append]

theorem loads_iff {name : String} :
    loads name e = true ↔ ∃ n library, e = .finished n name (.ok library) := by
  cases e with
  | started n other url => simp [loads]
  | finished n other result => cases result <;> simp [loads]

theorem numLoads_concat (name : String) (log : List FetchEvent) (e : FetchEvent) :
    numLoads name (log ++ [e]) = numLoads name log + if loads name e then 1 else 0 := by
  rw [numLoads, List.countP_append, List.countP_singleton]
  rfl

theorem numLoads_eq_zero {name : String} (h : ∀ library, ¬ Loaded name library log) :
    numLoads name log = 0 := by
  rw [numLoads, List.countP_eq_zero]
  intro e he hLoads
  obtain ⟨n, library, rfl⟩ := loads_iff.mp hLoads
  exact h library ⟨n, he⟩

theorem Finished.mono {n : Nat} {before : List FetchEvent} (hPrefix : before <+: log)
    (h : Finished n before) : Finished n log := by
  obtain ⟨name, result, hMem⟩ := h
  exact ⟨name, result, hPrefix.subset hMem⟩

namespace Legal

theorem started_lt (h : Legal urls source log) {n : Nat} {name url : String}
    (hStarted : .started n name url ∈ log) : n < numStarted log := by
  obtain ⟨before, after, rfl⟩ := List.append_of_mem hStarted
  have hNumber := h.fits_of_split.2.1
  rw [List.append_cons, numStarted, List.countP_append, ← numStarted, numStarted_started]
  omega

theorem exists_started (h : Legal urls source log) {n : Nat} {name : String} {result : Answer}
    (hFinished : .finished n name result ∈ log) : ∃ url, .started n name url ∈ log := by
  obtain ⟨before, after, rfl⟩ := List.append_of_mem hFinished
  obtain ⟨_, url, hStarted, _⟩ := h.fits_of_split.2
  exact ⟨url, List.mem_append_left _ hStarted⟩

theorem finished_lt (h : Legal urls source log) {n : Nat} (hFinished : Finished n log) :
    n < numStarted log := by
  obtain ⟨name, result, hMem⟩ := hFinished
  obtain ⟨url, hStarted⟩ := h.exists_started hMem
  exact h.started_lt hStarted

theorem url_eq (h : Legal urls source log) {n : Nat} {name url : String}
    (hStarted : .started n name url ∈ log) : urls.get? name = some url := by
  obtain ⟨before, after, rfl⟩ := List.append_of_mem hStarted
  exact h.fits_of_split.2.2.1

theorem result_eq (h : Legal urls source log) {n : Nat} {name other : String}
    {result result' : Answer} (hFirst : .finished n name result ∈ log)
    (hSecond : .finished n other result' ∈ log) : result = result' := by
  rcases h.order hFirst hSecond with hEq | ⟨before, _, _, hMem, hFits⟩ |
    ⟨before, _, _, hMem, hFits⟩
  · cases hEq
    rfl
  · exact absurd ⟨name, result, hMem⟩ hFits.1
  · exact absurd ⟨other, result', hMem⟩ hFits.1

theorem eq_of_not_finished (h : Legal urls source log) {m n : Nat} {name url other : String}
    (hm : .started m name url ∈ log) (hn : .started n name other ∈ log)
    (hRunning : ¬ Finished m log) (hRunning' : ¬ Finished n log) : m = n := by
  rcases h.order hm hn with hEq | ⟨before, hPrefix, _, hMem, hFits⟩ |
    ⟨before, hPrefix, _, hMem, hFits⟩
  · cases hEq
    rfl
  · exact absurd ((hFits.2.2.2 m url hMem).mono hPrefix) hRunning
  · exact absurd ((hFits.2.2.2 n other hMem).mono hPrefix) hRunning'

theorem finished_of_loaded (h : Legal urls source log) {name url : String} {library : Library}
    {m : Nat} (hLoaded : Loaded name library log) (hm : .started m name url ∈ log) :
    Finished m log := by
  obtain ⟨n, hn⟩ := hLoaded
  rcases h.order hn hm with hEq | ⟨before, _, _, hMem, hFits⟩ |
    ⟨before, hPrefix, hLegal, hMem, hFits⟩
  · cases hEq
  · exact absurd ⟨n, hMem⟩ (hFits.2.2.1 library)
  · by_cases hFinished : Finished m before
    · exact hFinished.mono hPrefix
    · -- Both were under way when the library came, so they are one.
      obtain ⟨hRunning, other, hStarted, _⟩ := hFits
      cases Legal.eq_of_not_finished hLegal hMem hStarted hFinished hRunning
      exact ⟨name, _, hn⟩

theorem numLoads_le_one (h : Legal urls source log) (name : String) : numLoads name log ≤ 1 := by
  induction h with
  | nil => exact Nat.zero_le _
  | @concat log e h hFits ih =>
    rw [numLoads_concat]
    split
    next hLoads =>
      obtain ⟨n, library, rfl⟩ := loads_iff.mp hLoads
      obtain ⟨hRunning, url, hStarted, _⟩ := hFits
      -- Had the library been there before, this fetch would have been over.
      have hNone : numLoads name log = 0 := numLoads_eq_zero fun other hLoaded =>
        hRunning (Legal.finished_of_loaded h hLoaded hStarted)
      omega
    · exact ih

end Legal

end Shorthand.Shelf
