import Shorthand.CommandLine
import Shorthand.Identifier
import Shorthand.Timestamp
import Std.Time.DateTime.Timestamp

/-! # The program

Reads from the disk what an invocation may touch, runs it, and brings the disk to the state that
the run leaves. Where the system refuses a change, the place counts as frozen and the invocation
runs again.
-/
namespace Shorthand.Program

open CommandLine Files

def textOf (p : Place) : String := "/" ++ String.intercalate "/" (p.map String.ofList)

def placeOf (text : String) : Place := (Path.ofString text).steps.foldl Place.after []

/-- Adds the file at a place with what it holds. One that cannot be read is locked. -/
def putFile (f : Files) (p : Place) : IO Files := do
  try
    let bytes ← IO.FS.readBinFile (textOf p)
    return f.put p (.file (.ofBytes bytes.toList))
  catch _ => return { f.put p (.file (.bytes [])) with locked := p :: f.locked }

/-- The place that a place stands for, if the links were added by their ends. -/
def standFor (f : Files) (p : Place) : Place := ((f.linkAt? p).map (·.pieces)).getD p

/-- Adds what is at a place, if anything: its link, if it is one, and what is at the end of it.
Where files are not read, each counts as one that holds no text, unless it was read before. -/
def look (reads : Bool) (f : Files) (p : Place) : IO Files := do
  try
    let real ← IO.FS.realPath (textOf p)
    let q := placeOf real.toString
    let f := if q = p then f else f.link p q
    if q = [] then return f
    else if ← real.isDir then return f.put q .directory
    else if reads then putFile f q
    else if (f.entryAt q).isSome then return f
    else return f.put q (.file (.bytes []))
  catch _ => return f

/-- Adds what is on the way to a path and at its end. -/
def observe (reads : Bool) (f : Files) (p : Path) : IO Files := do
  if (Fault.ofPath? p).isSome then return f
  let start := f.origin p
  let (f, _) ← p.steps.foldlM (fun ((f : Files), q) s => do
    let next := Place.after q s
    let f ← look reads f next
    return (f, standFor f next)) (← look reads f start, start)
  return f

/-- The place of the snippet file and that of its draft. -/
def draftPlaces? (f : Files) (p : Path) : Option (Place × Place) :=
  match f.locateEntry p, f.locateEntry (SnippetFile.draft p) with
  | .ok target, .ok draft => some (target, draft)
  | _, _ => none

def bytesOf : Content → ByteArray
  | .text s => s.toUTF8
  | .bytes b => ⟨b.toArray⟩

def writeAt (p : Place) (c : Content) : IO Unit :=
  IO.FS.withFile (textOf p) .write fun file => do
    file.write (bytesOf c)
    file.flush

/-- The place itself if the system refuses to change it. -/
def refused? (p : Place) (change : IO Unit) : IO (Option Place) := do
  try
    change
    return none
  catch _ => return some p

/-- Writes a file, by way of its draft if it has one. -/
def writeFile (p : Place) (c : Content) (draft? : Option Place) : IO (Option Place) := do
  match draft? with
  | none => refused? p (writeAt p c)
  | some draft =>
    match ← refused? draft (writeAt draft c) with
    | some q => return some q
    | none => refused? p (IO.FS.rename (textOf draft) (textOf p))

/-- Changes the disk as the files have changed, and gives the first place that cannot be. -/
def settle (before after : Files) (snippets : Option Path) : IO (Option Place) := do
  let drafts := (snippets.bind (draftPlaces? after)).toList
  -- A link that was the draft is not removed but moved.
  let moved (p : Place) (e : Entry) := drafts.any fun (target, draft) =>
    draft = p && after.entryAt target = some e && (before.linkAt? p).isSome
  for (p, e) in before.entries.entries do
    if after.entryAt p = none && e ≠ .directory && !moved p e then
      if let some q ← refused? p (IO.FS.removeFile (textOf p)) then return some q
  for (p, e) in after.entries.entries do
    if before.entryAt p ≠ some e then
      let change := match e with
        | .directory => refused? p (IO.FS.createDir (textOf p))
        | .file c => writeFile p c (drafts.lookup p)
        | .link _ => match drafts.lookup p with
          | some draft => refused? p (IO.FS.rename (textOf draft) (textOf p))
          | none => pure none
      if let some q ← change then return some q
  return none

def newSupply : IO Supply := do
  let bytes ← IO.getRandomBytes 16
  let seed := bytes.toList.foldl (fun n b => n * 256 + b.toNat) 0
  let now ← Std.Time.Timestamp.now
  return ⟨Identifier.numbered seed, 0,
    Timestamp.ofUnix now.val.second.val.toNat now.val.nano.val.toNat⟩

def environment : IO Environment := do
  return ⟨← IO.getEnv "POLYGLOT_CONFIG_DIR", ← IO.getEnv "XDG_CONFIG_HOME", ← IO.getEnv "HOME"⟩

def workingPlace : IO Place := do
  return placeOf (← IO.currentDir).toString

def printLine (l : Line) : IO Unit :=
  match l with
  | .out s => IO.println s
  | .err s => IO.eprintln s

/-- The files that an invocation may touch, and where it keeps the snippets. -/
def filesFor (i : Invocation) (environment : Environment) (supply : Supply) :
    IO (Files × Option Path) := do
  let files := Files.startingAt (← workingPlace)
  let files ←
    match i.settings, environment.usualSettingsFile with
    | some path, _ => observe true files (.ofString path)
    | none, .ok path => observe true files (.ofString path)
    | none, .error _ => pure files
  let snippets : Option Path :=
    match snippetsFile i ⟨files, environment, supply⟩ with
    | .error _ => none
    | .ok path => some (.ofString path)
  let files ←
    match snippets with
    | none => pure files
    | some path => observe false (← observe true files path) (SnippetFile.draft path)
  match i.command with
  | .importFrom path => return (← observe true files (.ofString path), snippets)
  | .exportTo (some path) => return (← observe false files (.ofString path), snippets)
  | _ => return (files, snippets)

def attempts : Nat := 8

def invoke (i : Invocation) : IO UInt32 := do
  let environment ← environment
  let supply ← newSupply
  let mut frozen : List Place := []
  for _ in List.range attempts do
    let (files, snippets) ← filesFor i environment supply
    let files := { files with frozen }
    let report := run i ⟨files, environment, supply⟩
    match ← settle files report.files snippets with
    | some p => frozen := p :: frozen
    | none =>
      report.lines.forM printLine
      return UInt32.ofNat report.exitCode
  throw (IO.userError "the disk cannot be changed")

end Shorthand.Program

def main (arguments : List String) : IO UInt32 := do
  match Shorthand.CommandLine.parse? arguments with
  | none =>
    IO.eprintln "usage error"
    return UInt32.ofNat Shorthand.CommandLine.usageExitCode
  | some i =>
    try Shorthand.Program.invoke i
    catch e =>
      IO.eprintln ("Error: " ++ toString e)
      return 1
