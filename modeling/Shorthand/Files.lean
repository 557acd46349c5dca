import Shorthand.Files.Path
import Shorthand.Table

/-! # Files

A tree of directories, files and links, as a table from places to entries. A place is the list of
names that leads to it from the root. A link stands for the path that it holds, on the way of a path
as well as at its end; only what moves, makes or removes an entry acts on the entry itself. Every
operation that changes the tree answers with the tree as it is afterwards, also when it fails.
-/
namespace Shorthand

namespace Files

abbrev Place := List (List Char)

inductive Content where
  | text (s : String)
  /-- Bytes that are no text. -/
  | bytes (b : List UInt8)
deriving DecidableEq, Repr

namespace Content

def empty : Content := .text ""

def toBytes : Content → List UInt8
  | .text s => s.toUTF8.data.toList
  | .bytes b => b

def ofBytes (b : List UInt8) : Content :=
  match String.fromUTF8? ⟨b.toArray⟩ with
  | some s => .text s
  | none => .bytes b

def size : Content → Nat
  | .text s => s.utf8ByteSize
  | .bytes b => b.length

end Content

inductive Entry where
  | directory
  | file (c : Content)
  /-- A relative target begins in the directory of the link. -/
  | link (target : Path)
deriving DecidableEq, Repr

inductive Fault where
  | notFound
  | notDirectory
  | isDirectory
  | alreadyExists
  | readOnly
  | denied
  | noSpace
  | broken
  | tooManyLinks
  | notText
  | badName
  | nameTooLong
deriving DecidableEq, Repr

def Fault.message : Fault → String
  | notFound => "No such file or directory"
  | notDirectory => "Not a directory"
  | isDirectory => "Is a directory"
  | alreadyExists => "File exists"
  | readOnly => "Read-only file system"
  | denied => "Permission denied"
  | noSpace => "No space left on device"
  | broken => "Input/output error"
  | tooManyLinks => "Too many levels of symbolic links"
  | notText => "Not Unicode text"
  | badName => "Invalid file name"
  | nameTooLong => "File name too long"

end Files

open Files

structure Files where
  /-- Where relative paths begin. -/
  workingPlace : Place
  entries : Table Place Entry
  /-- Nothing changes at these places or below them. -/
  frozen : List Place
  /-- Directories that may not be searched and files that may not be read. -/
  locked : List Place
  /-- How many bytes fit into a file, where that is limited. -/
  room : Table Place Nat
  /-- Files that take what is written to them but cannot keep it. -/
  unsynced : List Place

namespace Files

def startingAt (workingPlace : Place) : Files := ⟨workingPlace, .empty, [], [], .empty, []⟩

/-- The root is always a directory. -/
def entryAt (f : Files) (p : Place) : Option Entry :=
  if p = [] then some .directory else f.entries.get? p

def isLocked (f : Files) (p : Place) : Bool := f.locked.contains p

def put (f : Files) (p : Place) (e : Entry) : Files := { f with entries := f.entries.insert p e }

/-- Removes an entry; whatever comes to its place may be read. -/
def remove (f : Files) (p : Place) : Files :=
  { f with entries := f.entries.erase p, locked := f.locked.filter (· ≠ p) }

/-- Moves an entry, which stays locked if it was. -/
def move (f : Files) (p q : Place) (e : Entry) : Files :=
  let g := ((f.remove q).remove p).put q e
  if f.isLocked p then { g with locked := q :: g.locked } else g

/-- Makes one place stand for another. -/
def link (f : Files) (p target : Place) : Files := f.put p (.link ⟨true, target⟩)

def linkAt? (f : Files) (p : Place) : Option Path :=
  match f.entryAt p with
  | some (.link target) => some target
  | _ => none

def isFrozen (f : Files) (p : Place) : Bool := f.frozen.any (·.isPrefixOf p)

theorem entryAt_put {f : Files} {p q : Place} {e : Entry} (hq : q ≠ []) :
    (f.put p e).entryAt q = if q = p then some e else f.entryAt q := by
  simp [entryAt, put, hq, Table.get?_insert]

/-- The greatest number of bytes in the text of a path. -/
def longestPath : Nat := 4095

/-- The greatest number of bytes in one name. -/
def longestName : Nat := 255

/-- The greatest number of links on the way of a path. -/
def mostLinks : Nat := 40

def size (text : List Char) : Nat := (String.ofList text).utf8ByteSize

/-- Why a path leads nowhere, whatever there is. -/
def Fault.ofPath? (p : Path) : Option Fault :=
  if p.toText.contains '\x00' then some .badName
  else if longestPath < size p.toText then some .nameTooLong
  else none

def Fault.ofStep? : Path.Step → Option Fault
  | .name s => if longestName < size s then some .nameTooLong else none
  | _ => none

def Place.after (p : Place) : Path.Step → Place
  | .here => p
  | .up => p.dropLast
  | .name s => p ++ [s]

/-- Where the target of a link begins. -/
def Place.beside (link : Place) (target : Path) : Place :=
  if target.absolute then [] else link.dropLast

/-- What is met on the way of a path, if whatever is missing is taken for a directory. -/
structure Route where
  /-- The directories that are left, each with the step out of it. -/
  moves : List (Place × Path.Step)
  /-- The links that are followed. -/
  links : List Place
  /-- Where the way ends, unless there are too many links. -/
  stop : Option Place

def Route.behind (p : Place) (s : Path.Step) (r : Route) : Route :=
  { r with moves := (p, s) :: r.moves }

def Route.through (link : Place) (r : Route) : Route := { r with links := link :: r.links }

/-- The steps up to the first link, and what `jump` makes of the others there. A link at the very
end is not followed unless the `whole` way is asked for. -/
def stretch (f : Files) (whole : Bool) (jump : Place → Path → List Path.Step → Route)
    (p : Place) : List Path.Step → Route
  | [] => ⟨[], [], some p⟩
  | s :: rest =>
    match f.linkAt? (p.after s) with
    | none => (f.stretch whole jump (p.after s) rest).behind p s
    | some target =>
      if whole || !rest.isEmpty then (jump (p.after s) target rest).behind p s
      else ⟨[(p, s)], [], some (p.after s)⟩

/-- The way that steps take from `p`, over so many links at most. -/
def route (f : Files) (whole : Bool) : Nat → Place → List Path.Step → Route
  | 0 => f.stretch whole fun link _ _ => ⟨[], [link], none⟩
  | n + 1 => f.stretch whole fun link target rest =>
    (f.route whole n (link.beside target) (target.steps ++ rest)).through link

def origin (f : Files) (p : Path) : Place := if p.absolute then [] else f.workingPlace

def way (f : Files) (whole : Bool) (p : Path) : Route :=
  f.route whole mostLinks (f.origin p) p.steps

/-- What stops a step out of a directory. -/
def Fault.ofMove? (f : Files) (move : Place × Path.Step) : Option Fault :=
  match f.entryAt move.1 with
  | none => some .notFound
  | some .directory => if f.isLocked move.1 then some .denied else Fault.ofStep? move.2
  | some _ => some .notDirectory

/-- The place where a way ends, if nothing stops it. -/
def Route.arrive (f : Files) (r : Route) : Except Fault Place :=
  match r.moves.findSome? (Fault.ofMove? f), r.stop with
  | some fault, _ => .error fault
  | none, none => .error .tooManyLinks
  | none, some q => .ok q

def resolve (f : Files) (whole : Bool) (p : Path) : Except Fault Place :=
  match Fault.ofPath? p with
  | some fault => .error fault
  | none =>
    if p.steps = [] ∧ ¬ p.absolute then .error .notFound else (f.way whole p).arrive f

def locate (f : Files) (p : Path) : Except Fault Place := f.resolve true p

/-- The place of the entry that a path names, which may be a link. -/
def locateEntry (f : Files) (p : Path) : Except Fault Place := f.resolve false p

def find (f : Files) (p : Path) : Except Fault Entry :=
  match f.locate p with
  | .error fault => .error fault
  | .ok q =>
    match f.entryAt q with
    | none => .error .notFound
    | some e => if p.directoryOnly ∧ e ≠ .directory then .error .notDirectory else .ok e

def holds (f : Files) (p : Path) : Bool :=
  match f.find p with
  | .ok _ => true
  | .error _ => false

def mayRead (f : Files) (p : Path) : Bool :=
  match f.locate p with
  | .ok q => !f.isLocked q
  | .error _ => false

def readText (f : Files) (p : Path) : Except Fault String :=
  match f.find p with
  | .error fault => .error fault
  | .ok .directory => .error .isDirectory
  | .ok (.link _) => .error .tooManyLinks
  | .ok (.file c) =>
    if f.mayRead p then
      match c with
      | .bytes _ => .error .notText
      | .text s => .ok s
    else .error .denied

/-- Opens a file to write to it. It is empty then, and made if it was not there. -/
def create (f : Files) (p : Path) : Except Fault Place × Files :=
  match f.locate p with
  | .error fault => (.error fault, f)
  | .ok q =>
    match f.entryAt q with
    | some .directory => (.error .isDirectory, f)
    | some (.link _) => (.error .tooManyLinks, f)
    | some (.file _) | none =>
      if p.directoryOnly then (.error .isDirectory, f)
      else if f.isFrozen q then (.error .readOnly, f)
      else (.ok q, f.put q (.file .empty))

/-- Writes to the file that was opened at a place. Where not all of it fits, what does is left. -/
def fill (f : Files) (q : Place) (c : Content) : Except Fault Unit × Files :=
  match f.room.get? q with
  | none => (.ok (), f.put q (.file c))
  | some n =>
    if c.size ≤ n then (.ok (), f.put q (.file c))
    else (.error .noSpace, f.put q (.file (.ofBytes (c.toBytes.take n))))

/-- Waits until the disk has what was written. -/
def sync (f : Files) (q : Place) : Except Fault Unit :=
  if f.unsynced.contains q then .error .broken else .ok ()

/-- Creates a file or replaces what it holds. -/
def write (f : Files) (p : Path) (c : Content) : Except Fault Unit × Files :=
  match f.create p with
  | (.error fault, f) => (.error fault, f)
  | (.ok q, f) => f.fill q c

/-- Follows the steps from `p`, over so many links at most, and makes the directories that are
missing on the way. A link to nothing is in the way. -/
def makeWay (f : Files) (budget : Nat) (p : Place) : List Path.Step → Except Fault Unit × Files
  | [] => (.ok (), f)
  | s :: rest =>
    let next := f.route true budget p [s]
    match next.arrive f with
    | .error fault => (.error fault, f)
    | .ok q =>
      match f.entryAt q with
      | some .directory => f.makeWay (budget - next.links.length) q rest
      | some _ => (.error (if rest = [] then .alreadyExists else .notDirectory), f)
      | none =>
        if next.links ≠ [] then (.error .alreadyExists, f)
        else if f.isFrozen q then (.error .readOnly, f)
        else (f.put q .directory).makeWay budget q rest

def makeDirectories (f : Files) (p : Path) : Except Fault Unit × Files :=
  match Fault.ofPath? p with
  | some fault => (.error fault, f)
  | none => f.makeWay mostLinks (f.origin p) p.steps

/-- Moves a file or a link to another path, over the file or the link that may be there. -/
def rename (f : Files) (source target : Path) : Except Fault Unit × Files :=
  match f.locateEntry source, f.locateEntry target with
  | .error fault, _ => (.error fault, f)
  | _, .error fault => (.error fault, f)
  | .ok p, .ok q =>
    match f.entryAt p with
    | none => (.error .notFound, f)
    | some .directory => (.error .isDirectory, f)
    | some e =>
      if source.directoryOnly || target.directoryOnly then (.error .notDirectory, f)
      else if f.entryAt q = some .directory then (.error .isDirectory, f)
      else if f.isFrozen p || f.isFrozen q then (.error .readOnly, f)
      else (.ok (), f.move p q e)

def removeFile (f : Files) (p : Path) : Files :=
  match f.locateEntry p with
  | .error _ => f
  | .ok q =>
    if p.directoryOnly || f.entryAt q = some .directory || f.isFrozen q then f else f.remove q

end Files

end Shorthand
