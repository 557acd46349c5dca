import Mathlib.Data.List.Pairwise
import Shorthand.Proofs.Stepwise
import Shorthand.Timers

/-! # What the log says of an action

The log alone tells which actions wait. An action that was scheduled waits until it runs, which is
when it is due, or until something withdraws it: the same key is scheduled again or cancelled, or
everything is closed. Whichever comes first decides.
-/
namespace Shorthand

def Happening.Withdraws (key : String) : Happening → Prop
  | .scheduled _ k _ _ => k = key
  | .cancelled k => k = key
  | .closed => True
  | .ran _ => False
  | .emitted _ => False

/-- The happening gives out the number `n`, or runs the action that has it. -/
def Happening.Uses (n : Nat) : Happening → Prop
  | .scheduled m _ _ _ => m = n
  | .ran m => m = n
  | _ => False

def Happening.isSchedule : Happening → Bool
  | .scheduled .. => true
  | _ => false

/-- What an action does after `count` actions have been scheduled. -/
def Action.happenings (count : Nat) : Action → List Happening
  | .done => []
  | .emit label next => .emitted label :: next.happenings count
  | .schedule key delay action next =>
    .scheduled count key delay action :: next.happenings (count + 1)

theorem Action.ran_not_mem_happenings (a : Action) (count n : Nat) :
    .ran n ∉ a.happenings count := by
  induction a generalizing count with
  | done => simp [happenings]
  | emit label next ih => simp [happenings, ih]
  | schedule key delay action next _ ih => simp [happenings, ih]

def Waiting.Apart (v w : Waiting) : Prop := v.key ≠ w.key ∧ v.number ≠ w.number

instance : Std.Symm Waiting.Apart := ⟨fun _ _ h => ⟨h.1.symm, h.2.symm⟩⟩

namespace Timers

/-- What waits after a happening. -/
def settle (ws : List Waiting) (e : LogEntry) : List Waiting :=
  match e.what with
  | .scheduled n key delay action =>
    withoutKey key ws ++ [⟨n, key, e.time + min delay longestDelay, action⟩]
  | .cancelled key => withoutKey key ws
  | .closed => []
  | .ran n => ws.filter (·.number ≠ n)
  | .emitted _ => ws

def replay (log : List LogEntry) : List Waiting := log.foldl settle []

def numScheduled (log : List LogEntry) : Nat := log.countP (·.what.isSchedule)

theorem replay_concat (log : List LogEntry) (e : LogEntry) :
    replay (log ++ [e]) = settle (replay log) e := by
  rw [replay, List.foldl_append]
  rfl

theorem numScheduled_concat (log : List LogEntry) (e : LogEntry) :
    numScheduled (log ++ [e]) = numScheduled log + if e.what.isSchedule then 1 else 0 := by
  rw [numScheduled, List.countP_append, List.countP_singleton]
  rfl

theorem mem_withoutKey {key : String} {ws : List Waiting} {w : Waiting} :
    w ∈ withoutKey key ws ↔ w ∈ ws ∧ key ≠ w.key := by
  rw [withoutKey, List.mem_filter, decide_eq_true_iff, ne_comm]

theorem mem_settle {ws : List Waiting} {e : LogEntry} {w : Waiting} :
    w ∈ settle ws e ↔
      (w ∈ ws ∧ e.what ≠ .ran w.number ∧ ¬ e.what.Withdraws w.key) ∨
      ∃ delay, e.what = .scheduled w.number w.key delay w.action ∧
        w.due = e.time + min delay longestDelay := by
  obtain ⟨time, what⟩ := e
  cases what with
  | scheduled n key delay action =>
    simp only [settle, List.mem_append, mem_withoutKey, List.mem_singleton, Happening.Withdraws,
      ne_eq, reduceCtorEq, not_false_iff, true_and]
    refine or_congr Iff.rfl ?_
    constructor
    · rintro rfl
      exact ⟨delay, rfl, rfl⟩
    · rintro ⟨_, hWhat, hDue⟩
      cases w
      cases hWhat
      cases hDue
      rfl
  | cancelled key => simp [settle, mem_withoutKey, Happening.Withdraws]
  | closed => simp [settle, Happening.Withdraws]
  | ran n =>
    simp only [settle, List.mem_filter, decide_eq_true_iff, Happening.Withdraws]
    grind
  | emitted label => simp [settle, Happening.Withdraws]

theorem pairwise_settle {ws : List Waiting} {e : LogEntry} (h : ws.Pairwise Waiting.Apart)
    (hNumber : ∀ n key delay action, e.what = .scheduled n key delay action →
      ∀ w ∈ ws, w.number ≠ n) : (settle ws e).Pairwise Waiting.Apart := by
  obtain ⟨time, what⟩ := e
  cases what with
  | scheduled n key delay action =>
    refine List.pairwise_append.mpr ⟨h.filter _, List.pairwise_singleton _ _, ?_⟩
    intro v hv w hw
    obtain ⟨hv, hKey⟩ := mem_withoutKey.mp hv
    cases List.mem_singleton.mp hw
    exact ⟨hKey.symm, hNumber n key delay action rfl v hv⟩
  | cancelled key => exact h.filter _
  | closed => exact .nil
  | ran n => exact h.filter _
  | emitted label => exact h

/-- What may happen next: nothing that waits is overdue, numbers are given out in turn, and only
what waits runs, when it is due. -/
structure Fits (log : List LogEntry) (e : LogEntry) : Prop where
  time_le : ∀ w ∈ replay log, e.time ≤ w.due
  number_eq : ∀ n key delay action, e.what = .scheduled n key delay action → n = numScheduled log
  waits : ∀ n, e.what = .ran n → ∃ w ∈ replay log, w.number = n ∧ w.due = e.time

abbrev Legal (log : List LogEntry) : Prop := Stepwise Fits log

namespace Legal

variable {log : List LogEntry}

theorem number_lt (h : Legal log) : ∀ w ∈ replay log, w.number < numScheduled log := by
  induction h with
  | nil => intro w hw; cases hw
  | @concat log e _ hFits ih =>
    intro w hw
    rw [replay_concat] at hw
    rw [numScheduled_concat]
    rcases mem_settle.mp hw with ⟨hw, _⟩ | ⟨delay, hWhat, _⟩
    · have := ih w hw
      omega
    · rw [hWhat, ← hFits.number_eq _ _ _ _ hWhat]
      exact Nat.lt_succ_self _

theorem pairwise (h : Legal log) : (replay log).Pairwise Waiting.Apart := by
  induction h with
  | nil => exact .nil
  | @concat log e h hFits ih =>
    rw [replay_concat]
    refine pairwise_settle ih ?_
    intro n key delay action hWhat w hw
    have := Legal.number_lt h w hw
    have := hFits.number_eq n key delay action hWhat
    omega

theorem eq_of_number_eq (h : Legal log) {v w : Waiting} (hv : v ∈ replay log)
    (hw : w ∈ replay log) (hNumber : v.number = w.number) : v = w := by
  by_contra hne
  exact (h.pairwise.forall hv hw hne).2 hNumber

theorem uses_lt {n : Nat} (h : Legal log) {e : LogEntry} (he : e ∈ log) (hUses : e.what.Uses n) :
    n < numScheduled log := by
  obtain ⟨before, after, rfl⟩ := List.append_of_mem he
  obtain ⟨hBefore, hFits⟩ := h.fits_of_split
  have hCount : numScheduled (before ++ e :: after) =
      numScheduled before + (if e.what.isSchedule then 1 else 0) + numScheduled after := by
    rw [List.append_cons, numScheduled, List.countP_append, ← numScheduled, numScheduled_concat]
    rfl
  cases hWhat : e.what with
  | scheduled m key delay action =>
    rw [hWhat] at hUses hCount
    have := hFits.number_eq _ _ _ _ hWhat
    have : m = n := hUses
    simp only [Happening.isSchedule, if_true] at hCount
    omega
  | ran m =>
    rw [hWhat] at hUses
    obtain ⟨w, hw, hNumber, _⟩ := hFits.waits _ hWhat
    have := Legal.number_lt hBefore w hw
    have : m = n := hUses
    omega
  | _ =>
    rw [hWhat] at hUses
    cases hUses

theorem not_uses_before {before after : List LogEntry} {s n : Nat} {key : String} {delay : Nat}
    {action : Action} (h : Legal (before ++ ⟨s, .scheduled n key delay action⟩ :: after)) :
    ∀ e ∈ before, ¬ e.what.Uses n := by
  obtain ⟨hBefore, hFits⟩ := h.fits_of_split
  intro e he hUses
  have := Legal.uses_lt hBefore he hUses
  have := hFits.number_eq _ _ _ _ rfl
  omega

theorem scheduled_inj {n : Nat} {key key' : String} {delay delay' : Nat} {a a' : Action}
    {e e' : LogEntry} (h : Legal log) (he : e ∈ log) (he' : e' ∈ log)
    (hWhat : e.what = .scheduled n key delay a) (hWhat' : e'.what = .scheduled n key' delay' a') :
    e = e' := by
  have hUses : e.what.Uses n := by
    rw [hWhat]
    rfl
  have hUses' : e'.what.Uses n := by
    rw [hWhat']
    rfl
  rcases h.order he he' with hEq | ⟨before, _, hBefore, hMem, hFits⟩ |
    ⟨before, _, hBefore, hMem, hFits⟩
  · exact hEq
  · have := Legal.uses_lt hBefore hMem hUses
    have := hFits.number_eq _ _ _ _ hWhat'
    omega
  · have := Legal.uses_lt hBefore hMem hUses'
    have := hFits.number_eq _ _ _ _ hWhat
    omega

theorem taken {e : LogEntry} {w : Waiting} (h : Legal log) (hFits : Fits log e)
    (hw : w ∈ replay log) (hTaken : e.what = .ran w.number ∨ e.what.Withdraws w.key) :
    ∀ v ∈ replay (log ++ [e]), v.number ≠ w.number := by
  intro v hv hNumber
  rw [replay_concat] at hv
  rcases mem_settle.mp hv with ⟨hv, hRan, hKey⟩ | ⟨delay, hWhat, _⟩
  · cases h.eq_of_number_eq hv hw hNumber
    exact hTaken.elim hRan hKey
  · have := h.number_lt w hw
    have := hFits.number_eq _ _ _ _ hWhat
    omega

theorem gone {n : Nat} {e : LogEntry} (hFits : Fits log e)
    (hn : n < numScheduled log) (hGone : ∀ w ∈ replay log, w.number ≠ n) :
    e.what ≠ .ran n ∧ ∀ w ∈ replay (log ++ [e]), w.number ≠ n := by
  constructor
  · intro hWhat
    obtain ⟨w, hw, hNumber, _⟩ := hFits.waits n hWhat
    exact hGone w hw hNumber
  · intro w hw
    rw [replay_concat] at hw
    rcases mem_settle.mp hw with ⟨hw, _⟩ | ⟨delay, hWhat, _⟩
    · exact hGone w hw
    · have := hFits.number_eq _ _ _ _ hWhat
      omega

end Legal

/-- The action numbered `n` neither runs nor is withdrawn. -/
def Untouched (n : Nat) (key : String) (log : List LogEntry) : Prop :=
  ∀ e ∈ log, e.what ≠ .ran n ∧ ¬ e.what.Withdraws key

/-- The action runs at `due`, for the only time, and nothing withdraws it before. -/
def Runs (n : Nat) (key : String) (due : Nat) (log : List LogEntry) : Prop :=
  ∃ before after, log = before ++ ⟨due, .ran n⟩ :: after ∧ Untouched n key before ∧
    ∀ e ∈ after, e.what ≠ .ran n

/-- Something withdraws the action, before it runs and no later than it is due. -/
def Withdrawn (n : Nat) (key : String) (due : Nat) (log : List LogEntry) : Prop :=
  ∃ before e after, log = before ++ e :: after ∧ e.what.Withdraws key ∧ e.time ≤ due ∧
    ∀ e ∈ before, e.what ≠ .ran n

variable {n : Nat} {key : String} {due : Nat} {log : List LogEntry} {e : LogEntry}

theorem Untouched.concat (h : Untouched n key log) (hRan : e.what ≠ .ran n)
    (hKey : ¬ e.what.Withdraws key) : Untouched n key (log ++ [e]) := by
  intro e' he'
  rcases List.mem_append.mp he' with he' | he'
  · exact h e' he'
  · cases List.mem_singleton.mp he'
    exact ⟨hRan, hKey⟩

theorem Runs.concat (h : Runs n key due log) (hRan : e.what ≠ .ran n) :
    Runs n key due (log ++ [e]) := by
  obtain ⟨before, after, rfl, hBefore, hAfter⟩ := h
  refine ⟨before, after ++ [e], by simp, hBefore, ?_⟩
  exact List.forall_mem_append.mpr ⟨hAfter, List.forall_mem_singleton.mpr hRan⟩

theorem Withdrawn.concat (h : Withdrawn n key due log) (e : LogEntry) :
    Withdrawn n key due (log ++ [e]) := by
  obtain ⟨before, e', after, rfl, hKey, hTime, hBefore⟩ := h
  exact ⟨before, e', after ++ [e], by simp, hKey, hTime, hBefore⟩

theorem Runs.not_withdrawn (h : Runs n key due log) : ¬ Withdrawn n key due log := by
  obtain ⟨before, after, rfl, hBefore, _⟩ := h
  rintro ⟨before', e, after', hLog, hKey, _, hBefore'⟩
  rcases List.append_eq_append_iff.mp hLog with ⟨mid, rfl, hMid⟩ | ⟨mid, rfl, hMid⟩
  · cases mid with
    | nil =>
      cases (List.cons.inj hMid).1
      exact hKey
    | cons f mid =>
      cases (List.cons.inj hMid).1
      exact hBefore' ⟨due, .ran n⟩ (by simp) rfl
  · cases mid with
    | nil =>
      cases (List.cons.inj hMid).1
      exact hKey
    | cons f mid =>
      cases (List.cons.inj hMid).1
      exact (hBefore e (by simp)).2 hKey

theorem Untouched.not_runs (h : Untouched n key log) : ¬ Runs n key due log := by
  rintro ⟨before, after, rfl, _⟩
  exact (h ⟨due, .ran n⟩ (by simp)).1 rfl

theorem Untouched.not_withdrawn (h : Untouched n key log) : ¬ Withdrawn n key due log := by
  rintro ⟨before, e, after, rfl, hKey, _⟩
  exact (h e (by simp)).2 hKey

/-- An action that was scheduled waits, or it has run, or it was withdrawn and never runs. -/
theorem Legal.fate {before after : List LogEntry} {s delay : Nat} {w : Waiting}
    (h : Legal (before ++ ⟨s, .scheduled w.number w.key delay w.action⟩ :: after))
    (hDue : w.due = s + min delay longestDelay) :
    let log := before ++ ⟨s, .scheduled w.number w.key delay w.action⟩ :: after
    (w ∈ replay log ∧ Untouched w.number w.key after) ∨
    ((∀ v ∈ replay log, v.number ≠ w.number) ∧
      (Runs w.number w.key w.due after ∨
        Withdrawn w.number w.key w.due after ∧ ∀ e ∈ after, e.what ≠ .ran w.number)) := by
  intro log
  induction after using List.reverseRecOn with
  | nil =>
    left
    constructor
    · rw [replay_concat]
      exact mem_settle.mpr (.inr ⟨delay, rfl, hDue⟩)
    · intro e he
      cases he
  | append_singleton after e ih =>
    have hSplit : log =
        (before ++ ⟨s, .scheduled w.number w.key delay w.action⟩ :: after) ++ [e] := by
      simp [log]
    have hLegal : Legal log := h
    rw [hSplit] at hLegal ⊢
    obtain ⟨hLegal, hFits⟩ := stepwise_concat.mp hLegal
    rcases ih hLegal with ⟨hw, hUntouched⟩ | ⟨hGone, hFate⟩
    · by_cases hRan : e.what = .ran w.number
      · right
        refine ⟨Legal.taken hLegal hFits hw (.inl hRan), .inl ⟨after, [], ?_, hUntouched, by simp⟩⟩
        obtain ⟨v, hv, hNumber, hTime⟩ := hFits.waits _ hRan
        cases Legal.eq_of_number_eq hLegal hv hw hNumber
        obtain ⟨time, what⟩ := e
        cases hRan
        cases hTime
        rfl
      · by_cases hKey : e.what.Withdraws w.key
        · right
          have hBefore : ∀ e ∈ after, e.what ≠ .ran w.number := fun e he => (hUntouched e he).1
          refine ⟨Legal.taken hLegal hFits hw (.inr hKey), .inr ⟨?_, ?_⟩⟩
          · exact ⟨after, e, [], rfl, hKey, hFits.time_le w hw, hBefore⟩
          · exact List.forall_mem_append.mpr ⟨hBefore, List.forall_mem_singleton.mpr hRan⟩
        · left
          refine ⟨?_, hUntouched.concat hRan hKey⟩
          rw [replay_concat]
          exact mem_settle.mpr (.inl ⟨hw, hRan, hKey⟩)
    · right
      have hLt := Legal.uses_lt hLegal (List.mem_append_right _ List.mem_cons_self) rfl
      obtain ⟨hRan, hGone⟩ := Legal.gone hFits hLt hGone
      refine ⟨hGone, hFate.imp (·.concat hRan) ?_⟩
      rintro ⟨hWithdrawn, hNever⟩
      refine ⟨hWithdrawn.concat e, ?_⟩
      exact List.forall_mem_append.mpr ⟨hNever, List.forall_mem_singleton.mpr hRan⟩

def numRuns (n : Nat) (log : List LogEntry) : Nat := log.countP (·.what = .ran n)

theorem numRuns_eq_zero (h : ∀ e ∈ log, e.what ≠ .ran n) : numRuns n log = 0 := by
  rw [numRuns, List.countP_eq_zero]
  intro e he hRan
  exact h e he (of_decide_eq_true hRan)

theorem Runs.once (h : Runs n key due log) :
    numRuns n log = 1 ∧ ∀ time, ⟨time, .ran n⟩ ∈ log → time = due := by
  obtain ⟨before, after, rfl, hUntouched, hAfter⟩ := h
  have hBefore : ∀ e ∈ before, e.what ≠ .ran n := fun e he => (hUntouched e he).1
  constructor
  · have hCount : numRuns n (before ++ ⟨due, .ran n⟩ :: after) =
        numRuns n before + (numRuns n after + 1) := by simp [numRuns]
    rw [hCount, numRuns_eq_zero hBefore, numRuns_eq_zero hAfter]
  · intro time hRan
    rcases List.mem_append.mp hRan with hRan | hRan
    · exact absurd rfl (hBefore _ hRan)
    · rcases List.mem_cons.mp hRan with hEq | hRan
      · cases hEq
        rfl
      · exact absurd rfl (hAfter _ hRan)

theorem Legal.runs_once {before after : List LogEntry} {s delay : Nat} {action : Action}
    (h : Legal (before ++ ⟨s, .scheduled n key delay action⟩ :: after)) :
    (∀ e ∈ before, e.what ≠ .ran n) ∧ numRuns n after ≤ 1 ∧
      ∀ time, ⟨time, .ran n⟩ ∈ after → time = s + min delay longestDelay := by
  have hNever : (∀ e ∈ after, e.what ≠ .ran n) → numRuns n after ≤ 1 ∧
      ∀ time, ⟨time, .ran n⟩ ∈ after → time = s + min delay longestDelay := by
    intro hAfter
    rw [numRuns_eq_zero hAfter]
    exact ⟨Nat.zero_le _, fun time hRan => absurd rfl (hAfter _ hRan)⟩
  constructor
  · exact fun e he hWhat => h.not_uses_before e he (hWhat ▸ rfl)
  · rcases h.fate (w := ⟨n, key, _, action⟩) rfl with ⟨_, hUntouched⟩ | ⟨_, hRuns | ⟨_, hAfter⟩⟩
    · exact hNever fun e he => (hUntouched e he).1
    · exact ⟨Nat.le_of_eq hRuns.once.1, hRuns.once.2⟩
    · exact hNever hAfter

theorem Legal.waits {before after : List LogEntry} {s delay : Nat} {action : Action}
    (h : Legal (before ++ ⟨s, .scheduled n key delay action⟩ :: after))
    (hUntouched : Untouched n key after) :
    ⟨n, key, s + min delay longestDelay, action⟩ ∈
      replay (before ++ ⟨s, .scheduled n key delay action⟩ :: after) := by
  rcases h.fate (w := ⟨n, key, _, action⟩) rfl with ⟨hw, _⟩ | ⟨_, hRuns | ⟨hWithdrawn, _⟩⟩
  · exact hw
  · exact absurd hRuns hUntouched.not_runs
  · exact absurd hWithdrawn hUntouched.not_withdrawn

theorem Legal.ran_iff {before after : List LogEntry} {s delay : Nat} {action : Action}
    (h : Legal (before ++ ⟨s, .scheduled n key delay action⟩ :: after))
    (hTouched : ¬ Untouched n key after) :
    ⟨s + min delay longestDelay, .ran n⟩ ∈ after ↔
      ¬ Withdrawn n key (s + min delay longestDelay) after := by
  rcases h.fate (w := ⟨n, key, _, action⟩) rfl with ⟨_, hUntouched⟩ |
    ⟨_, hRuns | ⟨hWithdrawn, hNever⟩⟩
  · exact absurd hUntouched hTouched
  · refine iff_of_true ?_ hRuns.not_withdrawn
    obtain ⟨mid, rest, rfl, _⟩ := hRuns
    exact List.mem_append_right _ List.mem_cons_self
  · exact iff_of_false (fun hRan => hNever _ hRan rfl) (not_not_intro hWithdrawn)

theorem exists_of_mem_replay {w : Waiting} (h : w ∈ replay log) :
    ∃ before s delay after,
      log = before ++ ⟨s, .scheduled w.number w.key delay w.action⟩ :: after ∧
      Untouched w.number w.key after ∧ w.due = s + min delay longestDelay := by
  induction log using List.reverseRecOn with
  | nil => cases h
  | append_singleton log e ih =>
    rw [replay_concat] at h
    rcases mem_settle.mp h with ⟨hw, hRan, hKey⟩ | ⟨delay, hWhat, hDue⟩
    · obtain ⟨before, s, delay, after, rfl, hUntouched, hDue⟩ := ih hw
      exact ⟨before, s, delay, after ++ [e], by simp, hUntouched.concat hRan hKey, hDue⟩
    · obtain ⟨time, what⟩ := e
      cases hWhat
      exact ⟨log, time, delay, [], rfl, by simp [Untouched], hDue⟩

/-- Some action under the key was scheduled, and since then it neither ran nor was withdrawn. -/
def Pending (log : List LogEntry) (key : String) : Prop :=
  ∃ before s n delay action after,
    log = before ++ ⟨s, .scheduled n key delay action⟩ :: after ∧ Untouched n key after

theorem Legal.pending_iff (h : Legal log) : Pending log key ↔ ∃ w ∈ replay log, w.key = key := by
  constructor
  · rintro ⟨before, s, n, delay, action, after, rfl, hUntouched⟩
    exact ⟨_, h.waits hUntouched, rfl⟩
  · rintro ⟨w, hw, rfl⟩
    obtain ⟨before, s, delay, after, hLog, hUntouched, _⟩ := exists_of_mem_replay hw
    exact ⟨before, s, _, delay, _, after, hLog, hUntouched⟩

/-- When the action numbered `n` runs, all that it does follows at once. -/
def Follows (n : Nat) (action : Action) (log : List LogEntry) : Prop :=
  ∀ before time after, log = before ++ ⟨time, .ran n⟩ :: after →
    ∃ count rest, after = (action.happenings count).map (⟨time, ·⟩) ++ rest

/-- Whatever runs was waiting, and does all that it does. -/
def Performed (log : List LogEntry) : Prop :=
  ∀ before time n after, log = before ++ ⟨time, .ran n⟩ :: after →
    ∃ w ∈ replay before, w.number = n ∧
      ∃ count rest, after = (w.action.happenings count).map (⟨time, ·⟩) ++ rest

theorem Performed.append {rest : List LogEntry} (h : Performed log)
    (hRest : ∀ before time n after, rest = before ++ ⟨time, .ran n⟩ :: after →
      ∃ w ∈ replay (log ++ before), w.number = n ∧
        ∃ count rest', after = (w.action.happenings count).map (⟨time, ·⟩) ++ rest') :
    Performed (log ++ rest) := by
  intro before time n after hLog
  rcases List.append_eq_append_iff.mp hLog with ⟨mid, rfl, hMid⟩ | ⟨mid, rfl, hMid⟩
  · exact hRest mid time n after hMid
  · cases mid with
    | nil =>
      obtain ⟨w, hw, hNumber, hAfter⟩ := hRest [] time n after hMid.symm
      rw [List.append_nil, List.append_nil] at hw
      exact ⟨w, hw, hNumber, hAfter⟩
    | cons e mid =>
      obtain ⟨rfl, rfl⟩ := List.cons.inj hMid
      obtain ⟨w, hw, hNumber, count, rest', hAfter⟩ := h before time n mid rfl
      refine ⟨w, hw, hNumber, count, rest' ++ rest, ?_⟩
      rw [hAfter]
      exact List.append_assoc _ _ _

theorem Performed.append_of_not_ran {rest : List LogEntry} (h : Performed log)
    (hRest : ∀ e ∈ rest, ∀ n, e.what ≠ .ran n) : Performed (log ++ rest) := by
  refine h.append ?_
  rintro before time n after rfl
  exact absurd rfl (hRest ⟨time, .ran n⟩ (by simp) n)

theorem Performed.append_run {w : Waiting} (h : Performed log) (hw : w ∈ replay log)
    (time count : Nat) :
    Performed (log ++ ⟨time, .ran w.number⟩ :: (w.action.happenings count).map (⟨time, ·⟩)) := by
  refine h.append ?_
  intro before u n after hRest
  cases before with
  | nil =>
    obtain ⟨hHead, rfl⟩ := List.cons.inj hRest
    cases hHead
    exact ⟨w, by rwa [List.append_nil], rfl, count, [], (List.append_nil _).symm⟩
  | cons e before =>
    -- The action itself does not run anything.
    obtain ⟨_, hMap⟩ := List.cons.inj hRest
    have hMem : ⟨u, .ran n⟩ ∈ (w.action.happenings count).map (LogEntry.mk time) := by
      rw [hMap]
      exact List.mem_append_right _ List.mem_cons_self
    obtain ⟨what, hWhat, hEntry⟩ := List.mem_map.mp hMem
    cases hEntry
    exact absurd hWhat (w.action.ran_not_mem_happenings count n)

theorem Performed.follows {n delay : Nat} {action : Action} {e : LogEntry} (h : Performed log)
    (hLegal : Legal log) (he : e ∈ log) (hWhat : e.what = .scheduled n key delay action) :
    Follows n action log := by
  intro before time after hLog
  obtain ⟨w, hw, rfl, hAfter⟩ := h before time n after hLog
  obtain ⟨before', s, delay', after', rfl, _⟩ := exists_of_mem_replay hw
  have hMem : ⟨s, .scheduled w.number w.key delay' w.action⟩ ∈ log := by simp [hLog]
  rw [hLegal.scheduled_inj he hMem hWhat rfl] at hWhat
  cases hWhat
  exact hAfter

end Timers

end Shorthand
