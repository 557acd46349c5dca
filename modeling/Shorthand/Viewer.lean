import Shorthand.Timers
import Shorthand.Settings

/-! # Viewer

A preview that is refreshed once the requests for it have paused for the quiet window.
-/
namespace Shorthand

structure Viewer where
  timers : Timers
  /-- The quiet window in milliseconds. -/
  window : Nat

namespace Viewer

def refreshKey : String := "preview-refresh"

def new (window : Nat) : Viewer := ⟨.new, window⟩

def ofSettings (s : Settings) : Viewer := new s.previewDebounce

def request (v : Viewer) : Viewer :=
  { v with timers := v.timers.schedule refreshKey v.window (.emit refreshKey .done) }

/-- Drops a refresh that is still pending, and tells whether there was one. -/
def cancel (v : Viewer) : Viewer × Bool :=
  let (timers, was) := v.timers.cancel refreshKey
  ({ v with timers }, was)

def isWaiting (v : Viewer) : Bool := v.timers.numWaiting > 0

def advance (v : Viewer) (span : Nat) : Viewer :=
  { v with timers := v.timers.advance span }

/-- How often the preview has been refreshed. -/
def refreshed (v : Viewer) : Nat := v.timers.labels.length

end Viewer

end Shorthand
