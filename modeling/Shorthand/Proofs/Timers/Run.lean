import Mathlib.Data.Set.Card
import Shorthand.Proofs.Timers.Log

/-! # Runs of the timers

Every step keeps the log and the waiting actions in agreement, so what the log says of an action
holds at any moment. When the clock is advanced, whatever is due by then is run.
-/
namespace Shorthand.Timers

inductive Step where
  | schedule (key : String) (delay : Nat) (action : Action)
  | cancel (key : String)
  | close
  | advance (span : Nat)

def take (t : Timers) : Step → Timers
  | .schedule key delay action => t.schedule key delay action
  | .cancel key => (t.cancel key).1
  | .close => t.close
  | .advance span => t.advance span

def follow (t : Timers) (steps : List Step) : Timers := steps.foldl take t

theorem earliest?_eq_none {limit : Nat} {l : List Waiting} (h : earliest? limit l = none) :
    ∀ w ∈ l, limit < w.due := by
  induction l with
  | nil => intro w hw; cases hw
  | cons v rest ih =>
    rw [earliest?] at h
    split at h
    next hRest =>
      split at h
      · cases h
      next hLate =>
        intro w hw
        rcases List.mem_cons.mp hw with rfl | hw
        · omega
        · exact ih hRest w hw
    next hRest => split at h <;> cases h

theorem earliest?_eq_some {limit : Nat} {l : List Waiting} {w : Waiting}
    (h : earliest? limit l = some w) : w.due ≤ limit ∧ ∀ v ∈ l, w.due ≤ v.due := by
  induction l generalizing w with
  | nil => cases h
  | cons u rest ih =>
    rw [earliest?] at h
    split at h
    next hRest =>
      split at h
      next hDue =>
        cases h
        refine ⟨hDue, ?_⟩
        intro v hv
        rcases List.mem_cons.mp hv with rfl | hv
        · exact Nat.le_refl _
        · have := earliest?_eq_none hRest v hv
          omega
      · cases h
    next x hRest =>
      obtain ⟨hDue, hFirst⟩ := ih hRest
      split at h
      next hLe =>
        cases h
        refine ⟨Nat.le_trans hLe hDue, ?_⟩
        intro v hv
        rcases List.mem_cons.mp hv with rfl | hv
        · exact Nat.le_refl _
        · exact Nat.le_trans hLe (hFirst v hv)
      next hLt =>
        cases h
        refine ⟨hDue, ?_⟩
        intro v hv
        rcases List.mem_cons.mp hv with rfl | hv
        · omega
        · exact hFirst v hv

/-- The log tells what waits, nothing that waits is overdue, and nothing waits once all is
closed. -/
structure Kept (t : Timers) : Prop where
  legal : Legal t.log
  waiting_eq : t.waiting = replay t.log
  count_eq : t.count = numScheduled t.log
  now_le : ∀ w ∈ t.waiting, t.now ≤ w.due
  closed_waiting : t.closed = true → t.waiting = []

theorem kept_new : new.Kept where
  legal := .nil
  waiting_eq := rfl
  count_eq := rfl
  now_le w hw := by cases hw
  closed_waiting h := by cases h

namespace Kept

variable {t : Timers} {w : Waiting}

theorem of_log {t' : Timers} {e : LogEntry} (h : t.Kept) (hLog : t'.log = t.log ++ [e])
    (hFits : Fits t.log e) (hWaiting : t'.waiting = settle t.waiting e)
    (hCount : t'.count = t.count + if e.what.isSchedule then 1 else 0)
    (hNow : ∀ w ∈ t'.waiting, t'.now ≤ w.due) (hClosed : t'.closed = true → t'.waiting = []) :
    t'.Kept where
  legal := hLog ▸ .concat h.legal hFits
  waiting_eq := by rw [hWaiting, hLog, replay_concat, h.waiting_eq]
  count_eq := by rw [hCount, hLog, numScheduled_concat, h.count_eq]
  now_le := hNow
  closed_waiting := hClosed

theorem fits (h : t.Kept) {what : Happening} (hRan : ∀ n, what ≠ .ran n)
    (hNumber : ∀ n key delay action, what = .scheduled n key delay action → n = t.count) :
    Fits t.log ⟨t.now, what⟩ where
  time_le w hw := h.now_le w (h.waiting_eq ▸ hw)
  number_eq n key delay action hWhat := by
    rw [← h.count_eq]
    exact hNumber n key delay action hWhat
  waits n hWhat := absurd hWhat (hRan n)

theorem schedule (h : t.Kept) (key : String) (delay : Nat) (action : Action) :
    (t.schedule key delay action).Kept := by
  unfold Timers.schedule
  split
  · exact h
  next hOpen =>
    refine h.of_log (e := ⟨t.now, .scheduled t.count key delay action⟩) rfl ?_ rfl rfl ?_ ?_
    · refine h.fits (by simp) ?_
      intro n _ _ _ hWhat
      cases hWhat
      rfl
    · intro w hw
      rcases List.mem_append.mp hw with hw | hw
      · exact h.now_le w (mem_withoutKey.mp hw).1
      · cases List.mem_singleton.mp hw
        exact Nat.le_add_right _ _
    · exact fun hClosed => absurd hClosed hOpen

theorem cancel (h : t.Kept) (key : String) : (t.cancel key).1.Kept := by
  refine h.of_log (e := ⟨t.now, .cancelled key⟩) rfl (h.fits (by simp) (by simp)) rfl rfl ?_ ?_
  · exact fun w hw => h.now_le w (mem_withoutKey.mp hw).1
  · intro hClosed
    show withoutKey key t.waiting = []
    rw [h.closed_waiting hClosed]
    rfl

theorem close (h : t.Kept) : t.close.Kept := by
  refine h.of_log (e := ⟨t.now, .closed⟩) rfl (h.fits (by simp) (by simp)) rfl rfl ?_ ?_
  · intro w hw
    cases hw
  · exact fun _ => rfl

theorem emit (h : t.Kept) (label : String) : (t.note (.emitted label)).Kept :=
  h.of_log (e := ⟨t.now, .emitted label⟩) rfl (h.fits (by simp) (by simp)) rfl rfl h.now_le
    h.closed_waiting

theorem perform (h : t.Kept) (a : Action) : (t.perform a).Kept := by
  induction a generalizing t with
  | done => exact h
  | emit label next ih => exact ih (h.emit label)
  | schedule key delay action next _ ih => exact ih (h.schedule key delay action)

theorem closed_of_mem (h : t.Kept) (hw : w ∈ t.waiting) : t.closed = false := by
  cases hClosed : t.closed with
  | false => rfl
  | true =>
    rw [h.closed_waiting hClosed] at hw
    cases hw

theorem withoutKey_eq (h : t.Kept) (hw : w ∈ t.waiting) :
    withoutKey w.key t.waiting = t.waiting.filter (·.number ≠ w.number) := by
  rw [withoutKey]
  refine List.filter_congr ?_
  intro v hv
  by_cases hEq : v = w
  · simp [hEq]
  · have hPairwise := h.legal.pairwise
    rw [← h.waiting_eq] at hPairwise
    have hApart := hPairwise.forall hv hw hEq
    simp [hApart.1, hApart.2]

theorem start (h : t.Kept) (hw : w ∈ t.waiting) (hFirst : ∀ v ∈ t.waiting, w.due ≤ v.due) :
    (t.start w).Kept := by
  have hNow : max t.now w.due = w.due := Nat.max_eq_right (h.now_le w hw)
  refine h.of_log (e := ⟨max t.now w.due, .ran w.number⟩) rfl ?_ (h.withoutKey_eq hw) rfl ?_ ?_
  · constructor
    · intro v hv
      rw [← h.waiting_eq] at hv
      rw [hNow]
      exact hFirst v hv
    · simp
    · rintro n hWhat
      cases hWhat
      exact ⟨w, h.waiting_eq ▸ hw, rfl, hNow.symm⟩
  · intro v hv
    show max t.now w.due ≤ v.due
    rw [hNow]
    exact hFirst v (mem_withoutKey.mp hv).1
  · intro hClosed
    exact absurd (hClosed.symm.trans (h.closed_of_mem hw)) (by simp)

theorem run (h : t.Kept) (hw : w ∈ t.waiting) (hFirst : ∀ v ∈ t.waiting, w.due ≤ v.due) :
    (t.run w).Kept :=
  (h.start hw hFirst).perform w.action

end Kept

variable {t : Timers}

theorem now_perform (t : Timers) (a : Action) : (t.perform a).now = t.now := by
  induction a generalizing t with
  | done => rfl
  | emit label next ih => exact ih _
  | schedule key delay action next _ ih =>
    rw [perform, ih, schedule]
    split <;> rfl

theorem log_perform (hOpen : t.closed = false) (a : Action) :
    (t.perform a).log = t.log ++ (a.happenings t.count).map (⟨t.now, ·⟩) := by
  induction a generalizing t with
  | done => exact (List.append_nil _).symm
  | emit label next ih =>
    rw [perform, ih (t := t.note (.emitted label)) hOpen]
    exact List.append_assoc _ _ _
  | schedule key delay action next _ ih =>
    rw [perform, schedule, if_neg (by simp [hOpen])]
    refine (ih ?_).trans (List.append_assoc _ _ _)
    exact hOpen

/-- An action runs that was scheduled under the number, after `count` actions in all. -/
structure Firing where
  time : Nat
  number : Nat
  action : Action
  count : Nat

def Firing.entries (r : Firing) : List LogEntry :=
  ⟨r.time, .ran r.number⟩ :: (r.action.happenings r.count).map (⟨r.time, ·⟩)

theorem log_run (hKept : t.Kept) {w : Waiting} (hw : w ∈ t.waiting) :
    (t.run w).log =
      t.log ++ Firing.entries ⟨max t.now w.due, w.number, w.action, t.count⟩ := by
  have hOpen : (t.start w).closed = false := hKept.closed_of_mem hw
  rw [Timers.run, log_perform hOpen, Firing.entries, List.append_cons]
  rfl

theorem Performed.run (h : Performed t.log) (hKept : t.Kept) {w : Waiting} (hw : w ∈ t.waiting) :
    Performed (t.run w).log := by
  rw [log_run hKept hw]
  exact h.append_run (hKept.waiting_eq ▸ hw) (max t.now w.due) t.count

theorem runUntil_of_none {limit : Nat} (h : earliest? limit t.waiting = none) :
    t.runUntil limit = { t with now := max t.now limit } := by
  rw [runUntil]
  split
  · rfl
  next hSome =>
    rw [h] at hSome
    cases hSome

theorem runUntil_of_some {limit : Nat} {w : Waiting} (h : earliest? limit t.waiting = some w) :
    t.runUntil limit = (t.run w).runUntil limit := by
  rw [runUntil]
  split
  next hNone =>
    rw [h] at hNone
    cases hNone
  next v hSome =>
    rw [h] at hSome
    cases hSome
    rfl

theorem runUntil_spec (hKept : t.Kept) (hPerformed : Performed t.log) {limit : Nat}
    (hNow : t.now ≤ limit) :
    (t.runUntil limit).Kept ∧ Performed (t.runUntil limit).log ∧
      (t.runUntil limit).now = limit ∧ ∀ w ∈ (t.runUntil limit).waiting, limit < w.due := by
  induction t using runUntil.induct limit with
  | case1 t hNone =>
    rw [runUntil_of_none hNone, Nat.max_eq_right hNow]
    have hLate := earliest?_eq_none hNone
    refine ⟨?_, hPerformed, rfl, hLate⟩
    exact { hKept with now_le := fun w hw => Nat.le_of_lt (hLate w hw) }
  | case2 t w hSome _ ih =>
    obtain ⟨hDue, hFirst⟩ := earliest?_eq_some hSome
    have hw := earliest?_mem hSome
    rw [runUntil_of_some hSome]
    refine ih (hKept.run hw hFirst) (hPerformed.run hKept hw) ?_
    rw [Timers.run, now_perform]
    exact Nat.max_le.mpr ⟨hNow, hDue⟩

theorem log_runUntil (hKept : t.Kept) {limit : Nat} (hNow : t.now ≤ limit) :
    ∃ firings : List Firing, (t.runUntil limit).log = t.log ++ firings.flatMap Firing.entries ∧
      ∀ r ∈ firings, t.now ≤ r.time ∧ r.time ≤ limit := by
  induction t using runUntil.induct limit with
  | case1 t hNone =>
    rw [runUntil_of_none hNone]
    exact ⟨[], (List.append_nil _).symm, by simp⟩
  | case2 t w hSome _ ih =>
    obtain ⟨hDue, hFirst⟩ := earliest?_eq_some hSome
    have hw := earliest?_mem hSome
    have hRun : (t.run w).now = max t.now w.due := now_perform _ _
    have hTime : max t.now w.due ≤ limit := Nat.max_le.mpr ⟨hNow, hDue⟩
    obtain ⟨firings, hLog, hTimes⟩ := ih (hKept.run hw hFirst) (hRun ▸ hTime)
    refine ⟨⟨max t.now w.due, w.number, w.action, t.count⟩ :: firings, ?_, ?_⟩
    · rw [runUntil_of_some hSome, hLog, log_run hKept hw, List.flatMap_cons, List.append_assoc]
    · rintro r (_ | ⟨_, hr⟩)
      · exact ⟨Nat.le_max_left _ _, hTime⟩
      · obtain ⟨hAfter, hBefore⟩ := hTimes r hr
        rw [hRun] at hAfter
        exact ⟨Nat.le_trans (Nat.le_max_left _ _) hAfter, hBefore⟩

theorem Performed.schedule (h : Performed t.log) (key : String) (delay : Nat) (action : Action) :
    Performed (t.schedule key delay action).log := by
  unfold Timers.schedule
  split
  · exact h
  · exact h.append_of_not_ran (List.forall_mem_singleton.mpr (by simp))

theorem take_spec (hKept : t.Kept) (hPerformed : Performed t.log) (s : Step) :
    (t.take s).Kept ∧ Performed (t.take s).log := by
  cases s with
  | schedule key delay action =>
    exact ⟨hKept.schedule key delay action, hPerformed.schedule key delay action⟩
  | cancel key =>
    refine ⟨hKept.cancel key, hPerformed.append_of_not_ran ?_⟩
    exact List.forall_mem_singleton.mpr (by simp)
  | close =>
    refine ⟨hKept.close, hPerformed.append_of_not_ran ?_⟩
    exact List.forall_mem_singleton.mpr (by simp)
  | advance span =>
    have h := runUntil_spec hKept hPerformed (Nat.le_add_right t.now span)
    exact ⟨h.1, h.2.1⟩

theorem follow_spec (hKept : t.Kept) (hPerformed : Performed t.log) (steps : List Step) :
    (t.follow steps).Kept ∧ Performed (t.follow steps).log := by
  induction steps generalizing t with
  | nil => exact ⟨hKept, hPerformed⟩
  | cons s steps ih =>
    obtain ⟨hKept, hPerformed⟩ := take_spec hKept hPerformed s
    exact ih hKept hPerformed

/-- How far a step moves the clock. -/
def Step.span : Step → Nat
  | .advance span => span
  | _ => 0

/-- What a step adds to the log: the entry of what it does, or the runs of the time that it lets
pass. Once all is closed nothing is scheduled any more. -/
def Adds (t : Timers) : Step → List LogEntry → Prop
  | .schedule key delay action, added =>
    added = if t.closed then [] else [⟨t.now, .scheduled (numScheduled t.log) key delay action⟩]
  | .cancel key, added => added = [⟨t.now, .cancelled key⟩]
  | .close, added => added = [⟨t.now, .closed⟩]
  | .advance span, added => ∃ firings : List Firing, added = firings.flatMap Firing.entries ∧
    ∀ r ∈ firings, t.now ≤ r.time ∧ r.time ≤ t.now + span

theorem log_take (hKept : t.Kept) (s : Step) :
    ∃ added, (t.take s).log = t.log ++ added ∧ Adds t s added := by
  cases s with
  | schedule key delay action =>
    refine ⟨_, ?_, rfl⟩
    rw [take, Timers.schedule, ← hKept.count_eq]
    cases t.closed with
    | true => exact (List.append_nil _).symm
    | false => rfl
  | cancel key => exact ⟨_, rfl, rfl⟩
  | close => exact ⟨_, rfl, rfl⟩
  | advance span =>
    obtain ⟨firings, hLog, hTimes⟩ := log_runUntil hKept (Nat.le_add_right t.now span)
    exact ⟨_, hLog, firings, rfl, hTimes⟩

theorem now_take (hKept : t.Kept) (hPerformed : Performed t.log) (s : Step) :
    (t.take s).now = t.now + s.span := by
  cases s with
  | schedule key delay action =>
    rw [take, Timers.schedule]
    split <;> rfl
  | cancel key => rfl
  | close => rfl
  | advance span => exact (runUntil_spec hKept hPerformed (Nat.le_add_right t.now span)).2.2.1

theorem closed_perform (t : Timers) (a : Action) : (t.perform a).closed = t.closed := by
  induction a generalizing t with
  | done => rfl
  | emit label next ih => exact ih _
  | schedule key delay action next _ ih =>
    rw [perform, ih, Timers.schedule]
    split <;> rfl

theorem closed_runUntil (t : Timers) (limit : Nat) : (t.runUntil limit).closed = t.closed := by
  induction t using runUntil.induct limit with
  | case1 t hNone => rw [runUntil_of_none hNone]
  | case2 t w hSome _ ih =>
    rw [runUntil_of_some hSome, ih]
    exact closed_perform _ _

theorem closed_follow (steps : List Step) :
    (new.follow steps).closed = true ↔ .close ∈ steps := by
  induction steps using List.reverseRecOn with
  | nil => simp [follow, new]
  | append_singleton steps s ih =>
    rw [follow, List.foldl_append, List.mem_append, ← ih]
    show ((new.follow steps).take s).closed = true ↔ _
    cases s with
    | schedule key delay action =>
      rw [take, Timers.schedule]
      split
      next hClosed => simp [hClosed]
      next hOpen => simp [note, hOpen]
    | cancel key => simp [take, cancel, note]
    | close => simp [take, close, note]
    | advance span => simp [take, advance, closed_runUntil]

theorem performed_nil : Performed [] := by
  intro before time n after h
  simp at h

theorem late_of_advance (hKept : t.Kept) (hPerformed : Performed t.log) {steps : List Step}
    {span : Nat} (hLast : steps.getLast? = some (.advance span)) :
    ∀ w ∈ (t.follow steps).waiting, (t.follow steps).now < w.due := by
  obtain ⟨earlier, rfl⟩ := List.getLast?_eq_some_iff.mp hLast
  obtain ⟨hKept, hPerformed⟩ := follow_spec hKept hPerformed earlier
  obtain ⟨_, _, hNow, hLate⟩ :=
    runUntil_spec hKept hPerformed (Nat.le_add_right (t.follow earlier).now span)
  rw [follow, List.foldl_append]
  intro w hw
  exact hNow ▸ hLate w hw

theorem Kept.nodup_keys (h : t.Kept) : (t.waiting.map (·.key)).Nodup := by
  rw [h.waiting_eq]
  exact List.pairwise_map.mpr (h.legal.pairwise.imp fun hApart => hApart.1)

theorem Kept.numWaiting_eq (h : t.Kept) : t.numWaiting = {key | Pending t.log key}.ncard := by
  have hKeys : {key | Pending t.log key} = ((t.waiting.map (·.key)).toFinset : Set String) := by
    ext key
    rw [Set.mem_ofPred_eq, h.legal.pending_iff, ← h.waiting_eq]
    simp
  rw [hKeys, Set.ncard_coe_finset, List.toFinset_card_of_nodup h.nodup_keys, List.length_map,
    numWaiting]

theorem Kept.isWaiting_iff (h : t.Kept) (key : String) :
    t.isWaiting key = true ↔ Pending t.log key := by
  rw [h.legal.pending_iff, ← h.waiting_eq, isWaiting, List.any_eq_true]
  simp

/-- Every step of a run adds to the log what it does, and the log tells what waits: what was
scheduled and has neither run nor been withdrawn, at most one action under a key. An action runs at
most once, and only when it is due. As long as it is left alone the clock has not passed that time;
otherwise it has run unless something withdrew it first. What runs does at once all that it is to
do. -/
theorem follow_debounces (steps : List Step) :
    let t := new.follow steps
    (∀ s, (∃ added, (t.take s).log = t.log ++ added ∧ Adds t s added) ∧
      (t.take s).now = t.now + s.span) ∧
    (t.closed = true ↔ .close ∈ steps) ∧ t.waiting = replay t.log ∧
    (t.waiting.map (·.key)).Nodup ∧ t.numWaiting = {key | Pending t.log key}.ncard ∧
    (∀ key, (t.cancel key).2 = true ↔ Pending t.log key) ∧
    ∀ before s n key delay action after,
      t.log = before ++ ⟨s, .scheduled n key delay action⟩ :: after →
      let due := s + min delay longestDelay
      ((∀ e ∈ before, e.what ≠ .ran n) ∧ numRuns n after ≤ 1 ∧
        ∀ time, ⟨time, .ran n⟩ ∈ after → time = due) ∧
      (Untouched n key after → ⟨n, key, due, action⟩ ∈ t.waiting ∧
        t.now ≤ due ∧ ∀ span, steps.getLast? = some (.advance span) → t.now < due) ∧
      (¬ Untouched n key after → (⟨due, .ran n⟩ ∈ after ↔ ¬ Withdrawn n key due after)) ∧
      Follows n action t.log := by
  intro t
  obtain ⟨hKept, hPerformed⟩ := follow_spec kept_new performed_nil steps
  refine ⟨fun s => ⟨log_take hKept s, now_take hKept hPerformed s⟩, closed_follow steps,
    hKept.waiting_eq, hKept.nodup_keys, hKept.numWaiting_eq, hKept.isWaiting_iff, ?_⟩
  intro before s n key delay action after hLog due
  have hLegal : Legal t.log := hKept.legal
  have hMem : ⟨s, .scheduled n key delay action⟩ ∈ t.log := by
    rw [hLog]
    exact List.mem_append_right _ List.mem_cons_self
  have hFollows := hPerformed.follows hLegal hMem rfl
  rw [hLog] at hLegal
  refine ⟨hLegal.runs_once, ?_, hLegal.ran_iff, hFollows⟩
  intro hUntouched
  have hWaits := hLegal.waits hUntouched
  rw [← hLog, ← hKept.waiting_eq] at hWaits
  refine ⟨hWaits, hKept.now_le _ hWaits, ?_⟩
  exact fun span hLast => late_of_advance kept_new performed_nil hLast _ hWaits

/-- A delay of more than thirty years is cut short. -/
theorem follow_runs_early :
    let t := new.follow [.schedule "a" 946080000001 (.emit "far" .done), .advance 946080000000]
    t.log = [⟨0, .scheduled 0 "a" 946080000001 (.emit "far" .done)⟩, ⟨946080000000, .ran 0⟩,
      ⟨946080000000, .emitted "far"⟩] ∧ 946080000000 < 0 + 946080000001 := by
  intro t
  refine ⟨?_, by decide⟩
  have hSchedule : new.schedule "a" 946080000001 (.emit "far" .done) =
      ⟨0, [⟨0, "a", 946080000000, .emit "far" .done⟩], 1, false,
        [⟨0, .scheduled 0 "a" 946080000001 (.emit "far" .done)⟩]⟩ := by
    simp [schedule, new, note, withoutKey, dueAfter, longestDelay]
  show ((new.schedule _ _ _).advance _).log = _
  rw [hSchedule, advance, runUntil_of_some (w := ⟨0, "a", 946080000000, .emit "far" .done⟩),
    runUntil_of_none]
  · simp [run, start, perform, note]
  · simp [run, start, perform, note, withoutKey, earliest?]
  · simp [earliest?]

end Shorthand.Timers
