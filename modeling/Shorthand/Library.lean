import Shorthand.Table

/-! # Libraries on demand

A library is fetched when it is first asked for and shared from then on. A fetch that fails is
reported to the one who asked; whoever asks next fetches again. While a library is being fetched
others who ask for it wait in line: when the fetch succeeds all of them share it, and when it fails
the first of them fetches. Fetches of several libraries run side by side.
-/
namespace Shorthand

structure Library where
  name : String
  url : String
deriving DecidableEq, Repr

inductive LibraryError where
  /-- No address is known for the name. -/
  | unknown (name : String)
  | notLoaded (url reason : String)
deriving DecidableEq, Repr

def LibraryError.message : LibraryError → String
  | unknown name => "Transpiler " ++ name ++ " not defined."
  | notLoaded url reason => "Script load error for " ++ url ++ ": " ++ reason

abbrev Shelf.Answer := Except LibraryError Library

namespace Library

def knownUrls : List (String × String) :=
  [("babel", "https://unpkg.com/@babel/standalone@7.23.4/babel.min.js"),
   ("typescript", "https://cdnjs.cloudflare.com/ajax/libs/typescript/5.3.3/typescript.min.js"),
   ("marked", "https://cdnjs.cloudflare.com/ajax/libs/marked/4.2.12/marked.min.js"),
   ("sass", "https://cdnjs.cloudflare.com/ajax/libs/sass.js/0.11.1/sass.sync.min.js")]

/-- A step of the fetches, in the order in which they happen; `number` counts the fetches. -/
inductive FetchEvent where
  | started (number : Nat) (name url : String)
  | finished (number : Nat) (name : String) (result : Shelf.Answer)
deriving Repr

/-- A fetch under way, for one caller, with those who wait in line behind it. -/
structure Fetch where
  number : Nat
  name : String
  url : String
  caller : Nat
  waiting : List Nat
deriving Repr

def Fetch.callers (f : Fetch) : List Nat := f.caller :: f.waiting

/-- Puts a caller at the end of the line if the fetch is of the library that it wants. -/
def Fetch.queue (name : String) (caller : Nat) (f : Fetch) : Fetch :=
  if f.name = name then { f with waiting := f.waiting ++ [caller] } else f

/-- What a caller was told. -/
structure Reply where
  caller : Nat
  name : String
  answer : Shelf.Answer
deriving Repr

end Library

open Library

structure Shelf where
  urls : Table String String
  /-- How the fetches go, by number, name and address. -/
  source : Nat → String → String → Shelf.Answer
  loaded : Table String Library
  running : List Fetch
  /-- What was asked for; a caller is known by its place in this list. -/
  asked : List String
  replies : List Reply
  /-- The number of fetches so far. -/
  fetches : Nat
  log : List FetchEvent

namespace Shelf

def ofSource (urls : List (String × String)) (source : Nat → String → String → Answer) :
    Shelf where
  urls := .ofList urls
  source := source
  loaded := .empty
  running := []
  asked := []
  replies := []
  fetches := 0
  log := []

/-- The shelf whose fetches fail for the reasons given by number; `none` is a success. -/
def new (urls : List (String × String)) (fate : Nat → Option String) : Shelf :=
  ofSource urls fun number name url =>
    match fate number with
    | none => .ok ⟨name, url⟩
    | some reason => .error (.notLoaded url reason)

def holds (s : Shelf) (name : String) : Bool := s.loaded.contains name

def isFetching (s : Shelf) (name : String) : Bool := s.running.any (·.name = name)

def tell (s : Shelf) (name : String) (answer : Answer) (callers : List Nat) : Shelf :=
  { s with replies := s.replies ++ callers.map (⟨·, name, answer⟩) }

def start (s : Shelf) (name url : String) (caller : Nat) (waiting : List Nat) : Shelf :=
  { s with
    running := s.running ++ [⟨s.fetches, name, url, caller, waiting⟩]
    fetches := s.fetches + 1
    log := s.log ++ [.started s.fetches name url] }

/-- A caller asks for a library: it is told at once, it waits in line, or a fetch starts. -/
def call (s : Shelf) (name : String) : Shelf :=
  let caller := s.asked.length
  let heard : Shelf := { s with asked := s.asked ++ [name] }
  match s.urls.get? name with
  | none => heard.tell name (.error (.unknown name)) [caller]
  | some url =>
    match s.loaded.get? name with
    | some library => heard.tell name (.ok library) [caller]
    | none =>
      if s.isFetching name then { heard with running := s.running.map (·.queue name caller) }
      else heard.start name url caller []

def ended (s : Shelf) (f : Fetch) (result : Answer) : Shelf :=
  { s with
    running := s.running.filter (·.number ≠ f.number)
    log := s.log ++ [.finished f.number f.name result] }

/-- What the end of a fetch brings about. All who wait share a success; after a failure the next in
line fetches. -/
def settle (s : Shelf) (f : Fetch) : Answer → Shelf
  | .ok library =>
    { s.ended f (.ok library) with loaded := s.loaded.insert f.name library }.tell f.name
      (.ok library) f.callers
  | .error e =>
    let told := (s.ended f (.error e)).tell f.name (.error e) [f.caller]
    match f.waiting with
    | [] => told
    | caller :: waiting => told.start f.name f.url caller waiting

/-- Ends the fetch with the given number, if it is under way. -/
def finish (s : Shelf) (number : Nat) : Shelf :=
  match s.running.find? (·.number = number) with
  | none => s
  | some f => s.settle f (s.source f.number f.name f.url)

/-- The number of callers that are not told yet. -/
def backlog : List Fetch → Nat
  | [] => 0
  | f :: rest => f.callers.length + backlog rest

theorem backlog_append (fs gs : List Fetch) : backlog (fs ++ gs) = backlog fs + backlog gs := by
  induction fs with
  | nil => simp [backlog]
  | cons f rest ih => simp [backlog, ih, Nat.add_assoc]

theorem backlog_filter_le (p : Fetch → Bool) (fs : List Fetch) :
    backlog (fs.filter p) ≤ backlog fs := by
  induction fs with
  | nil => exact Nat.le_refl _
  | cons f rest ih =>
    by_cases h : p f
    · simpa [h, backlog] using ih
    · simp [h, backlog]
      omega

theorem finish_eq_of_head {s : Shelf} {f : Fetch} {rest : List Fetch} (h : s.running = f :: rest) :
    s.finish f.number = s.settle f (s.source f.number f.name f.url) := by
  rw [finish, h, List.find?_cons_of_pos (by simp)]

theorem backlog_finish_lt {s : Shelf} {f : Fetch} {rest : List Fetch} (h : s.running = f :: rest) :
    backlog (s.finish f.number).running < backlog s.running := by
  have hRest := backlog_filter_le (·.number ≠ f.number) rest
  have hEnded (result : Answer) : (s.ended f result).running =
      rest.filter (·.number ≠ f.number) := by
    rw [ended, h, List.filter_cons_of_neg (by simp)]
  rw [finish_eq_of_head h, h, backlog, Fetch.callers, List.length_cons]
  cases hResult : s.source f.number f.name f.url with
  | ok library =>
    show backlog (s.ended f (.ok library)).running < _
    rw [hEnded]
    omega
  | error e =>
    cases hWaiting : f.waiting with
    | nil =>
      simp only [settle, hWaiting]
      show backlog (s.ended f (.error e)).running < _
      rw [hEnded]
      omega
    | cons caller waiting =>
      simp only [settle, hWaiting]
      show backlog ((s.ended f (.error e)).running ++ [⟨_, _, _, caller, waiting⟩]) < _
      rw [hEnded, backlog_append]
      show backlog (rest.filter _) + (waiting.length + 1 + 0) < waiting.length + 1 + 1 + _
      omega

/-- Lets the fetches end, always the one that has run longest, until none is left. -/
def drain (s : Shelf) : Shelf :=
  match h : s.running with
  | [] => s
  | f :: _ =>
    have := backlog_finish_lt h
    (s.finish f.number).drain
termination_by backlog s.running

def reply? (s : Shelf) (caller : Nat) : Option Answer :=
  (s.replies.find? (·.caller = caller)).map (·.answer)

/-- Several callers ask at the same time. The answers are in their order. -/
def getAll (s : Shelf) (names : List String) : Shelf × List Answer :=
  let last := (names.foldl call s).drain
  (last, (List.range' s.asked.length names.length).filterMap last.reply?)

def get (s : Shelf) (name : String) : Shelf × Answer :=
  let last := (s.call name).drain
  (last, (last.reply? s.asked.length).getD (.error (.unknown name)))

end Shelf

end Shorthand
