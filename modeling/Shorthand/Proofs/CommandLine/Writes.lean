import Shorthand.Proofs.CommandLine.Exit
import Shorthand.Proofs.Files.Existence

/-! # What an invocation writes

Where settings are there but cannot be used, nothing is written, and so it is with snippets that are
found. Snippets that are there but cannot be found are taken for none. Otherwise the snippet file is
as it was, or it holds the list that was saved last, and it is only saved by a command that succeeds
in changing the list. Beside it an invocation writes the draft, the directories that hold the two,
and the file that it is told to export to.
-/
namespace Shorthand

open Catalogue Files

/-- There is something at the path, but no settings can be read from it. -/
def Settings.Unusable (f : Files) (path : Path) : Prop :=
  (∃ n q, f.Present path n q) ∧ ∀ text, f.readText path = .ok text → ofText? text = none

/-- There is something at the path, but it is neither blank nor a list of snippets. -/
def SnippetFile.Unusable (f : Files) (path : Path) : Prop :=
  (∃ n q, f.Present path n q) ∧ ∀ text, f.readText path = .ok text →
    Text.trim text.toList ≠ [] ∧ Snippet.listOfText? text = none

theorem Settings.load_of_unusable {f : Files} {path : String}
    (h : Unusable f (.ofString path)) : ∃ e, load f path = .error e := by
  obtain ⟨⟨n, q, hPresent⟩, hText⟩ := h
  rw [load]
  cases hRead : f.readText (.ofString path) with
  | ok text =>
    dsimp only
    rw [hText text hRead]
    exact ⟨_, rfl⟩
  | error fault =>
    cases fault with
    | notFound => exact absurd hRead hPresent.readText_ne_notFound
    | _ => exact ⟨_, rfl⟩

/-- Unusable snippets are refused if the way to them can be taken, and overlooked otherwise. -/
theorem SnippetFile.load_of_unusable {f : Files} {path : Path} (h : Unusable f path) :
    (f.Passable path → ∃ e, load ⟨path, f⟩ = .error e) ∧
      (¬ f.Passable path → load ⟨path, f⟩ = .ok []) := by
  obtain ⟨hPresent, hText⟩ := h
  constructor
  · intro hPassable
    rw [load, if_pos (holds_iff.mpr ⟨hPresent, hPassable⟩)]
    cases hRead : f.readText path with
    | ok text =>
      obtain ⟨hFilled, hNone⟩ := hText text hRead
      dsimp only
      rw [ofText, if_neg hFilled, hNone]
      exact ⟨_, rfl⟩
    | error fault => exact ⟨_, rfl⟩
  · intro hPassable
    exact if_neg fun hHolds => hPassable (holds_iff.mp hHolds).2

theorem Files.write_cases (f : Files) (p : Path) (c : Content) :
    (∃ fault, f.write p c = (.error fault, f)) ∨ ∃ q, f.Opens p q ∧
      ((∃ fault left, f.write p c = (.error fault, f.put q (.file left))) ∨
        f.write p c = (.ok (), f.put q (.file c))) := by
  rcases create_cases f p with ⟨fault, hCreate⟩ | ⟨q, hOpens, hCreate⟩
  · exact .inl ⟨fault, by rw [write, hCreate]⟩
  · refine .inr ⟨q, hOpens, ?_⟩
    rw [write, hCreate]
    dsimp only
    rcases fill_cases (f.put q (.file .empty)) q c with ⟨fault, left, hFill⟩ | ⟨_, hFill⟩
    · rw [hFill, put_put]
      exact .inl ⟨fault, left, rfl⟩
    · rw [hFill, put_put]
      exact .inr rfl

namespace CommandLine

open Management

/-- Where an export leads that is told to write to a file. -/
def Command.exportGoal? (f : Files) : Command → Option Place
  | .exportTo (some output) => f.goal? (.ofString output)
  | _ => none

def Command.savedLists (start : Catalogue SnippetFile) (command : Command) : List (List Snippet) :=
  match command.operation? start.archive.files with
  | some op => start.savedByParts op.parts
  | none => []

theorem Command.isChange_of_operation? {f : Files} {command : Command} {op : Operation}
    (h : command.operation? f = some op) : command.isChange = true := by
  cases command with
  | list => cases h
  | exportTo => cases h
  | expand => cases h
  | _ => rfl

/-- A command has left all files alone, or it has exported what there is to one, if not all of it
then without success. -/
def Reads (f : Files) (start : Catalogue SnippetFile) (command : Command) (report : Report) :
    Prop :=
  report.files = f ∨ ∃ output q left, command = .exportTo (some output) ∧
    f.Opens (.ofString output) q ∧ report.files = f.put q (.file left) ∧
      (report.exitCode = 0 → ∃ text, start.export? = some text ∧ left = .text text)

theorem reads_of_no_operation {c : Catalogue SnippetFile} {command : Command}
    (h : command.operation? c.archive.files = none) (quiet : Bool) :
    Reads c.archive.files c command (perform quiet c command).report := by
  cases command with
  | list language => exact .inl rfl
  | expand language line => exact .inl rfl
  | importFrom file =>
    rw [Command.operation?] at h
    rw [perform]
    cases hRead : c.archive.files.readText (.ofString file) with
    | error fault => exact .inl rfl
    | ok raw =>
      rw [hRead] at h
      cases h
  | exportTo output =>
    cases hExport : c.export? with
    | none =>
      rw [perform, Management.export?, hExport]
      exact .inl rfl
    | some text =>
      cases output with
      | none =>
        rw [perform, Management.export?, hExport]
        exact .inl rfl
      | some output =>
        have hReport : (perform quiet c (.exportTo (some output))).report.files =
            (writeExport output text c).report.files ∧
            (perform quiet c (.exportTo (some output))).report.succeeded =
              (writeExport output text c).report.succeeded := by
          rw [perform, Management.export?, hExport]
          exact (Step.report_withLines (writeExport output text c) _).symm
        rw [Reads, Report.exitCode, hReport.1, hReport.2, writeExport]
        rcases c.archive.files.write_cases (.ofString output) (.text text) with
          ⟨fault, hWrite⟩ | ⟨q, hOpens, ⟨fault, left, hWrite⟩ | hWrite⟩
        · rw [hWrite]
          exact .inl rfl
        · rw [hWrite]
          exact .inr ⟨output, q, left, rfl, hOpens, rfl, by rintro ⟨⟩⟩
        · rw [hWrite]
          exact .inr ⟨output, q, _, rfl, hOpens, rfl, fun _ => ⟨text, hExport, rfl⟩⟩
  | _ => cases h

/-- What a command that finds the catalogue `start` in the snippet file at `path` leaves behind. -/
structure Confined (path : Path) (f : Files) (start : Catalogue SnippetFile) (command : Command)
    (report : Report) : Prop where
  /-- Without a save the snippet file is as it was, unless it is exported over. -/
  unsaved : command.savedLists start = [] → SnippetFile.Apart path f →
    (∀ q, command.exportGoal? f = some q → f.goal? path ≠ some q) →
    KeepsFile path f report.files
  /-- Otherwise it holds the list that was saved last. -/
  saved : ∀ l, (command.savedLists start).getLast? = some l → SnippetFile.Apart path f →
    report.files.find path = .ok (.file (SnippetFile.content l))
  cause : command.savedLists start ≠ [] → command.isChange = true ∧ report.exitCode = 0 ∧
    ∀ file, command = .importFrom file → ∃ raw tally, f.readText (.ofString file) = .ok raw ∧
      (start.importText raw).1 = .ok tally ∧ 0 < tally.imported
  changed : ChangedWithin (SnippetFile.places path f ++ (command.exportGoal? f).toList) f
    report.files
  made : MadeWithin (SnippetFile.directories path f) f report.files

theorem confined_of_operation {c : Catalogue SnippetFile} {command : Command} {op : Operation}
    (hPlain : SnippetFile.Plain c.archive.path c.archive.files)
    (hOp : command.operation? c.archive.files = some op) (quiet : Bool) :
    Confined c.archive.path c.archive.files c command (perform quiet c command).report := by
  obtain ⟨hSucceeded, hFiles⟩ := report_perform hOp quiet
  have hWritten := c.written_perform hPlain (Command.operation?_ne_load hOp)
  have hSaved : command.savedLists c = c.savedByParts op.parts := by
    rw [Command.savedLists, hOp]
  constructor
  · intro hNone hApart _
    rw [hFiles]
    exact hWritten.kept (hSaved ▸ hNone) hApart
  · intro l hLast hApart
    rw [hFiles]
    exact hWritten.holds l (hSaved ▸ hLast) hApart
  · intro hSome
    rw [hSaved] at hSome
    have hOk := answer_of_saved hSome
    refine ⟨Command.isChange_of_operation? hOp, ?_, ?_⟩
    · rw [Report.exitCode, hSucceeded, hOk]
      rfl
    · rintro file rfl
      obtain ⟨raw, hRaw, rfl⟩ := Option.map_eq_some_iff.mp hOp
      obtain ⟨_, hFile, hRead⟩ := Command.eq_importFrom_of_operation? hOp
      cases hFile
      obtain ⟨tally, hImport⟩ := exists_tally_of_answer_ok hOk
      exact ⟨raw, tally, hRead, congrArg Prod.fst hImport,
        imported_pos_of_saved SnippetFile.refusesAsUnsaved hImport hSome⟩
  · rw [hFiles]
    exact hWritten.changed.mono (List.subset_append_left _ _)
  · rw [hFiles]
    exact hWritten.made

theorem confined_of_no_operation {c : Catalogue SnippetFile} {command : Command}
    (hOp : command.operation? c.archive.files = none) (quiet : Bool) :
    Confined c.archive.path c.archive.files c command (perform quiet c command).report := by
  have hSaved : command.savedLists c = [] := by rw [Command.savedLists, hOp]
  have hNone : ¬ command.savedLists c ≠ [] := fun h => h hSaved
  have hLast (l : List Snippet) : (command.savedLists c).getLast? ≠ some l := by
    rw [hSaved]
    simp
  rcases reads_of_no_operation hOp quiet with hSame | ⟨output, q, left, rfl, hOpens, hPut, _⟩
  · constructor
    · intro _ _ _
      rw [hSame]
      exact .refl _ _
    · intro l h
      exact absurd h (hLast l)
    · intro h
      exact absurd h hNone
    · rw [hSame]
      exact .refl _ _
    · rw [hSame]
      exact .refl _ _
  · have hGoal : c.archive.files.goal? (.ofString output) = some q := stop_of_resolve hOpens.leads
    have hChanged := changedWithin_put hOpens.entry left
    have hMade := c.archive.files.madeWithin_put_file (ne_nil_of_entryAt hOpens.entry) left
    constructor
    · intro _ _ hElsewhere
      rw [hPut]
      apply hChanged.keepsFile
      intro r hr hq
      obtain rfl := List.mem_singleton.mp hq
      rcases List.mem_append.mp hr with hLink | hEnd
      · obtain ⟨target, hTarget⟩ := linkAt?_of_mem_links _ true _ _ _ r hLink
        rw [hOpens.plain] at hTarget
        cases hTarget
      · exact hElsewhere r hGoal (Option.mem_toList.mp hEnd)
    · intro l h
      exact absurd h (hLast l)
    · intro h
      exact absurd h hNone
    · rw [hPut]
      apply hChanged.mono
      rw [Command.exportGoal?, hGoal]
      exact List.subset_append_right _ _
    · rw [hPut]
      exact hMade.mono (List.nil_subset _)

theorem confined_perform {c : Catalogue SnippetFile}
    (hPlain : SnippetFile.Plain c.archive.path c.archive.files) (command : Command) (quiet : Bool) :
    Confined c.archive.path c.archive.files c command (perform quiet c command).report := by
  cases hOp : command.operation? c.archive.files with
  | some op => exact confined_of_operation hPlain hOp quiet
  | none => exact confined_of_no_operation hOp quiet

theorem reads_perform (c : Catalogue SnippetFile) {command : Command}
    (hReading : command.isChange = false) (quiet : Bool) :
    Reads c.archive.files c command (perform quiet c command).report := by
  cases hOp : command.operation? c.archive.files with
  | some op =>
    rw [Command.isChange_of_operation? hOp] at hReading
    cases hReading
  | none => exact reads_of_no_operation hOp quiet

namespace Process

/-- The path of the snippet file that the process keeps to. -/
def snippetsPath (p : Process) (f : Files) : Except SettingsError String :=
  snippetsFile p.invocation ⟨f, p.environment, p.supply⟩

theorem run_of_snippetsPath_error {p : Process} {f : Files} {e : SettingsError}
    (h : p.snippetsPath f = .error e) : (p.run f).exitCode = 1 ∧ (p.run f).files = f := by
  rw [snippetsPath] at h
  rw [run, CommandLine.run, h]
  exact ⟨rfl, rfl⟩

theorem snippetsPath_of_unusable {p : Process} {f : Files} {s : String}
    (hFile : p.settingsFile = .ok s) (h : Settings.Unusable f (.ofString s)) :
    ∃ e, p.snippetsPath f = .error e := by
  obtain ⟨e, hLoad⟩ := Settings.load_of_unusable h
  refine ⟨e, ?_⟩
  rw [snippetsPath, snippetsFile, settingsOf_eq, hFile]
  exact congrArg (Except.bind · _) hLoad

theorem run_of_load_none {p : Process} {f : Files}
    (h : ∀ path loaded, p.snippetsPath f = .ok path →
      SnippetFile.load ⟨.ofString path, f⟩ ≠ .ok loaded) :
    (p.run f).exitCode = 1 ∧ (p.run f).files = f := by
  cases hFile : p.snippetsPath f with
  | error e => exact run_of_snippetsPath_error hFile
  | ok path =>
    cases hLoad : SnippetFile.load ⟨.ofString path, f⟩ with
    | error e => exact run_of_load_error (w := ⟨f, p.environment, p.supply⟩) hFile hLoad
    | ok loaded => exact absurd hLoad (h path loaded hFile)

end Process

end CommandLine

end Shorthand
