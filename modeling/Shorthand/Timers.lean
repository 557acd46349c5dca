/-! # Debouncing

Actions that wait for a quiet window. At most one action waits under each key: scheduling a key
again puts the new action in the place of the old one. No action waits longer than thirty years.
Time moves only when the clock is advanced; actions that are due then run in the order of their
times, and of equal times in the order in which they were scheduled. An action may itself schedule
further ones. Everything that happens is logged.
-/
namespace Shorthand

/-- What runs when a quiet window is over. -/
inductive Action where
  | done
  | emit (label : String) (next : Action)
  | schedule (key : String) (delay : Nat) (action : Action) (next : Action)
deriving DecidableEq, Repr, Inhabited

def Action.weight : Action → Nat
  | done => 1
  | emit _ next => next.weight + 1
  | schedule _ _ action next => action.weight + next.weight + 1

/-- Scheduled actions are numbered from zero. -/
inductive Happening where
  | scheduled (number : Nat) (key : String) (delay : Nat) (action : Action)
  | cancelled (key : String)
  | closed
  | ran (number : Nat)
  | emitted (label : String)
deriving DecidableEq, Repr

structure LogEntry where
  time : Nat
  what : Happening
deriving DecidableEq, Repr

structure Waiting where
  number : Nat
  key : String
  due : Nat
  action : Action
deriving Repr

structure Timers where
  now : Nat
  /-- In the order of scheduling. -/
  waiting : List Waiting
  /-- How many actions have been scheduled so far. -/
  count : Nat
  /-- After it is closed nothing runs any more. -/
  closed : Bool
  log : List LogEntry
deriving Repr

namespace Timers

def new : Timers := ⟨0, [], 0, false, []⟩

def numWaiting (t : Timers) : Nat := t.waiting.length

def isWaiting (t : Timers) (key : String) : Bool := t.waiting.any (·.key = key)

def labels (t : Timers) : List String :=
  t.log.filterMap fun e =>
    match e.what with
    | .emitted label => some label
    | _ => none

def note (t : Timers) (what : Happening) : Timers :=
  { t with log := t.log ++ [⟨t.now, what⟩] }

/-- Thirty years in milliseconds. A longer delay is cut to this one. -/
def longestDelay : Nat := 30 * 365 * 24 * 60 * 60 * 1000

def dueAfter (t : Timers) (delay : Nat) : Nat := t.now + min delay longestDelay

def withoutKey (key : String) (l : List Waiting) : List Waiting := l.filter (·.key ≠ key)

def schedule (t : Timers) (key : String) (delay : Nat) (action : Action) : Timers :=
  if t.closed then t
  else
    let waiting := withoutKey key t.waiting ++ [⟨t.count, key, t.dueAfter delay, action⟩]
    note { t with waiting, count := t.count + 1 } (.scheduled t.count key delay action)

/-- Drops the action that waits under a key, and tells whether there was one. -/
def cancel (t : Timers) (key : String) : Timers × Bool :=
  (note { t with waiting := withoutKey key t.waiting } (.cancelled key), t.isWaiting key)

def close (t : Timers) : Timers := note { t with waiting := [], closed := true } .closed

def perform (t : Timers) : Action → Timers
  | .done => t
  | .emit label next => (t.note (.emitted label)).perform next
  | .schedule key delay action next => (t.schedule key delay action).perform next

/-- The action that is due first, no later than `limit`. -/
def earliest? (limit : Nat) : List Waiting → Option Waiting
  | [] => none
  | w :: rest =>
    match earliest? limit rest with
    | none => if w.due ≤ limit then some w else none
    | some v => if w.due ≤ v.due then some w else some v

theorem earliest?_mem {limit : Nat} {l : List Waiting} {w : Waiting}
    (h : earliest? limit l = some w) : w ∈ l := by
  induction l generalizing w with
  | nil => contradiction
  | cons v rest ih =>
    rw [earliest?] at h
    split at h <;> grind

def start (t : Timers) (w : Waiting) : Timers :=
  note { t with now := max t.now w.due, waiting := withoutKey w.key t.waiting } (.ran w.number)

def run (t : Timers) (w : Waiting) : Timers := (t.start w).perform w.action

def totalWeight : List Waiting → Nat
  | [] => 0
  | w :: rest => w.action.weight + totalWeight rest

theorem totalWeight_append (l m : List Waiting) :
    totalWeight (l ++ m) = totalWeight l + totalWeight m := by
  induction l with
  | nil => simp [totalWeight]
  | cons w rest ih => simp [totalWeight, ih, Nat.add_assoc]

theorem totalWeight_withoutKey_le (key : String) (l : List Waiting) :
    totalWeight (withoutKey key l) ≤ totalWeight l := by
  induction l with
  | nil => simp [withoutKey, totalWeight]
  | cons w rest ih =>
    by_cases h : w.key = key
    · simp_all [withoutKey, totalWeight]
      omega
    · simp_all [withoutKey, totalWeight]

theorem totalWeight_withoutKey_of_mem {w : Waiting} {l : List Waiting} (h : w ∈ l) :
    totalWeight (withoutKey w.key l) + w.action.weight ≤ totalWeight l := by
  induction l with
  | nil => contradiction
  | cons v rest ih =>
    have hle := totalWeight_withoutKey_le w.key rest
    rcases List.mem_cons.1 h with rfl | h
    · simp_all [withoutKey, totalWeight]
      omega
    · have := ih h
      by_cases hv : v.key = w.key <;> simp_all [withoutKey, totalWeight] <;> omega

theorem totalWeight_schedule_le (t : Timers) (key : String) (delay : Nat) (action : Action) :
    totalWeight (t.schedule key delay action).waiting ≤ totalWeight t.waiting + action.weight := by
  have := totalWeight_withoutKey_le key t.waiting
  unfold schedule
  split
  · omega
  · simpa [totalWeight_append, totalWeight, note] using this

theorem totalWeight_perform_lt (t : Timers) (a : Action) :
    totalWeight (t.perform a).waiting < totalWeight t.waiting + a.weight := by
  induction a generalizing t with
  | done => simp [perform, Action.weight]
  | emit label next ih =>
    have : totalWeight _ < totalWeight t.waiting + _ := ih (t.note (.emitted label))
    simp only [perform, Action.weight]
    omega
  | schedule key delay action next _ ih =>
    have := ih (t.schedule key delay action)
    have := totalWeight_schedule_le t key delay action
    simp only [perform, Action.weight]
    omega

theorem totalWeight_run_lt {t : Timers} {w : Waiting} (h : w ∈ t.waiting) :
    totalWeight (t.run w).waiting < totalWeight t.waiting :=
  Nat.lt_of_lt_of_le (totalWeight_perform_lt _ w.action) (totalWeight_withoutKey_of_mem h)

/-- Runs everything that is due up to `limit`, then sets the clock to it. -/
def runUntil (t : Timers) (limit : Nat) : Timers :=
  match h : earliest? limit t.waiting with
  | none => { t with now := max t.now limit }
  | some w =>
    have := totalWeight_run_lt (earliest?_mem h)
    (t.run w).runUntil limit
termination_by totalWeight t.waiting

/-- Lets time pass. A span of zero runs what is due at this very moment. -/
def advance (t : Timers) (span : Nat) : Timers := t.runUntil (t.now + span)

end Timers

inductive TimerError where
  /-- There is nothing to run timers on. -/
  | noRuntime
deriving DecidableEq, Repr

def TimerError.message : TimerError → String
  | noRuntime => "No async runtime available for debounced timers"

end Shorthand
