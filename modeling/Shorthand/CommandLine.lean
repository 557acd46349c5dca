import Shorthand.CommandLine.Arguments
import Shorthand.Catalogue.File
import Shorthand.Playground
import Shorthand.Settings

/-! # The command line

What one invocation prints, how it ends, and the files it leaves behind. Notices of success go to
the standard output unless the invocation is quiet; warnings and errors go to the error output.
-/
namespace Shorthand.CommandLine

inductive Line where
  | out (s : String)
  | err (s : String)
deriving DecidableEq, Repr

/-- What an invocation finds. -/
structure World where
  files : Files
  environment : Environment
  supply : Supply

/-- What an invocation leaves. -/
structure Report where
  succeeded : Bool
  lines : List Line
  files : Files
  supply : Supply

def usageExitCode : Nat := 2

def Report.exitCode (r : Report) : Nat := if r.succeeded then 0 else 1

def showEvent (quiet : Bool) : Event → List Line
  | .changed _ => []
  | .notice n =>
    let line := "[" ++ n.level.name ++ "] " ++ n.message
    match n.level with
    | .warn | .error => [.err line]
    | .info | .success => if quiet then [] else [.out line]

/-- A step of an invocation: its answer, its output and the catalogue after it. -/
structure Step (β : Type) where
  answer : Except String β
  lines : List Line
  catalogue : Catalogue SnippetFile

namespace Step

variable {β γ : Type}

def ofOutcome (quiet : Bool) (o : Outcome SnippetFile β) : Step β :=
  ⟨o.answer, o.events.flatMap (showEvent quiet), o.catalogue⟩

def andThen (s : Step β) (next : β → Catalogue SnippetFile → Step γ) : Step γ :=
  match s.answer with
  | .error e => ⟨.error e, s.lines, s.catalogue⟩
  | .ok a =>
    let t := next a s.catalogue
    { t with lines := s.lines ++ t.lines }

def print (lines : List String) (c : Catalogue SnippetFile) : Step Unit :=
  ⟨.ok (), lines.map .out, c⟩

def report (s : Step Unit) : Report :=
  match s.answer with
  | .ok () => ⟨true, s.lines, s.catalogue.archive.files, s.catalogue.supply⟩
  | .error e =>
    ⟨false, s.lines ++ [.err ("Error: " ++ e)], s.catalogue.archive.files, s.catalogue.supply⟩

end Step

def listing (language : Option String) (snippets : List Snippet) : List String :=
  ((Snippet.groupByLanguage snippets).filter fun g => language.all (· = g.1)).flatMap fun g =>
    (g.1 ++ ":") :: g.2.map fun s =>
      "  " ++ s.id ++ "  " ++ s.trigger ++ (if s.isEnabled then "" else " (disabled)")

def writeExport (output : String) (text : String) (c : Catalogue SnippetFile) : Step Unit :=
  let (written, files) := c.archive.files.write (.ofString output) (.text text)
  let c := { c with archive := { c.archive with files } }
  match written with
  | .error fault => ⟨.error ("Failed to write " ++ output ++ ": " ++ fault.message), [], c⟩
  | .ok () => ⟨.ok (), [], c⟩

/-- Types a line into an empty pane and shows the text and where the caret is. -/
def demonstrate (language line : String) (c : Catalogue SnippetFile) : List String :=
  let start := (Playground.new c .shipped).fillPane .script (.ofText [])
  let chosen := (start.switchLanguage? .script language).getD start
  let (g, caret) := chosen.typeAll .script line.toList
  match g.panes.get? .script with
  | none => []
  | some editor =>
    let p := caret.getD editor.document.caret
    [String.ofList editor.document.text,
      "caret: " ++ toString p.line ++ ":" ++ toString p.column]

def perform (quiet : Bool) (c : Catalogue SnippetFile) : Command → Step Unit
  | .list language => .print (listing language c.snippets) c
  | .add language trigger template =>
    (Step.ofOutcome quiet (Management.add c trigger template language)).andThen
      fun s c => .print [s.id] c
  | .update id trigger template language =>
    (Step.ofOutcome quiet (Management.update c id ⟨trigger, template, language, none⟩)).andThen
      fun _ c => .print [] c
  | .delete id =>
    (Step.ofOutcome quiet (Management.delete c id)).andThen fun _ c => .print [] c
  | .toggle id =>
    (Step.ofOutcome quiet (Management.toggle c id)).andThen fun _ c => .print [] c
  | .exportTo output =>
    (Step.ofOutcome quiet (Management.export? c)).andThen fun text c =>
      match text, output with
      | none, _ => .print [] c
      | some text, none => .print [text] c
      | some text, some output => writeExport output text c
  | .importFrom file =>
    match c.archive.files.readText (.ofString file) with
    | .error fault => ⟨.error ("Failed to read " ++ file ++ ": " ++ fault.message), [], c⟩
    | .ok raw =>
      (Step.ofOutcome quiet (Management.importText c raw)).andThen fun _ c => .print [] c
  | .expand language line => .print (demonstrate language line c) c

def settingsOf (i : Invocation) (w : World) : Except SettingsError Settings :=
  match i.settings with
  | some path => Settings.load w.files path
  | none => Settings.loadUsual w.files w.environment

/-- The settings and the path of the snippet file, before anything is opened. -/
def snippetsFile (i : Invocation) (w : World) : Except SettingsError String :=
  (settingsOf i w).bind (·.snippetsFileIn w.environment)

def run (i : Invocation) (w : World) : Report :=
  match snippetsFile i w with
  | .error e => ⟨false, [.err ("Error: " ++ e.message)], w.files, w.supply⟩
  | .ok path =>
    let c := Catalogue.new ⟨.ofString path, w.files⟩ w.supply
    ((Step.ofOutcome i.quiet (Management.reload c)).andThen fun _ c =>
      perform i.quiet c i.command).report

end Shorthand.CommandLine
