import Shorthand.Proofs.Catalogue.Exchange
import Shorthand.Proofs.Catalogue.Written
import Shorthand.Proofs.CommandLine

/-! # What an exit code promises

An invocation that changes the catalogue and ends with success has left its list in the snippet
file, and what it reported as added is in that list. An import is an exception: it ends with success
even if its last save was refused. It says so in a warning then, and what it has added since the
last save that succeeded is in no file.
-/
namespace Shorthand

open Catalogue Files Text

namespace Catalogue

variable {c : Catalogue SnippetFile}

theorem held_of_answer_ok (hPlain : SnippetFile.Plain c.archive.path c.archive.files)
    {op : Operation} (hOnce : op.savesOnce = true) (hOk : c.answer op = .ok ()) :
    SnippetFile.load (c.perform op).archive = .ok (c.perform op).snippets := by
  rcases c.answer_cases hOnce with ⟨e, _, hRefused⟩ | ⟨l, supply, hSaved⟩
  · have hError := (hRefused SnippetFile c.archive).1
    rw [on_archive, hOk] at hError
    cases hError
  · obtain ⟨hAnswer, hPerform⟩ := hSaved SnippetFile c.archive
    rw [on_archive] at hAnswer hPerform
    rw [hPerform]
    rcases saving_file_cases (c := ⟨l, c.archive, supply⟩) hPlain () with
      ⟨_, hHeld⟩ | ⟨detail, hUnsaved⟩
    · exact hHeld
    · rw [hAnswer, hUnsaved] at hOk
      cases hOk

end Catalogue

namespace CommandLine

open Management

def Command.isChange : Command → Bool
  | .add .. | .update .. | .delete _ | .toggle _ | .importFrom _ => true
  | .list _ | .exportTo _ | .expand .. => false

theorem run_of_load {i : Invocation} {w : World} {path : String} {loaded : List Snippet}
    (hFile : snippetsFile i w = .ok path)
    (hLoad : SnippetFile.load ⟨.ofString path, w.files⟩ = .ok loaded) :
    run i w =
      (perform i.quiet ⟨loaded, ⟨.ofString path, w.files⟩, w.supply⟩ i.command).report := by
  have hArchive : Archive.load (⟨.ofString path, w.files⟩ : SnippetFile) = .ok loaded := hLoad
  rw [run, hFile]
  dsimp only
  rw [reload, load_new hArchive]
  rfl

theorem run_of_load_error {i : Invocation} {w : World} {path : String} {e : CatalogueError}
    (hFile : snippetsFile i w = .ok path)
    (hLoad : SnippetFile.load ⟨.ofString path, w.files⟩ = .error e) :
    (run i w).exitCode = 1 ∧ (run i w).files = w.files := by
  have hArchive : Archive.load (⟨.ofString path, w.files⟩ : SnippetFile) = .error e := hLoad
  rw [run, hFile]
  dsimp only
  rw [reload, load_new_error hArchive]
  exact ⟨rfl, rfl⟩

theorem exists_load_of_succeeded {i : Invocation} {w : World} (h : (run i w).succeeded = true) :
    ∃ path loaded, snippetsFile i w = .ok path ∧
      SnippetFile.load ⟨.ofString path, w.files⟩ = .ok loaded := by
  cases hFile : snippetsFile i w with
  | error e =>
    rw [run, hFile] at h
    cases h
  | ok path =>
    cases hLoad : SnippetFile.load ⟨.ofString path, w.files⟩ with
    | ok loaded => exact ⟨path, loaded, rfl, hLoad⟩
    | error e =>
      have hExit := (run_of_load_error hFile hLoad).1
      rw [Report.exitCode, h] at hExit
      cases hExit

theorem exists_operation_of_succeeded {c : Catalogue SnippetFile} {command : Command}
    (hChange : command.isChange = true) {quiet : Bool}
    (h : (perform quiet c command).report.succeeded = true) :
    ∃ op, command.operation? c.archive.files = some op ∧ c.answer op = .ok () := by
  have hAnswer {op : Operation} (hOp : command.operation? c.archive.files = some op) :
      c.answer op = .ok () := by
    rw [(report_perform hOp quiet).1] at h
    cases hAnswer : c.answer op with
    | error e =>
      rw [hAnswer] at h
      cases h
    | ok _ => rfl
  cases command with
  | add => exact ⟨_, rfl, hAnswer rfl⟩
  | update => exact ⟨_, rfl, hAnswer rfl⟩
  | delete => exact ⟨_, rfl, hAnswer rfl⟩
  | toggle => exact ⟨_, rfl, hAnswer rfl⟩
  | importFrom file =>
    cases hRead : c.archive.files.readText (.ofString file) with
    | error fault =>
      rw [perform, hRead] at h
      cases h
    | ok raw =>
      have hOp : Command.operation? c.archive.files (.importFrom file) =
          some (.importText raw) := by
        rw [Command.operation?, hRead]
        rfl
      exact ⟨_, hOp, hAnswer hOp⟩
  | list => cases hChange
  | exportTo => cases hChange
  | expand => cases hChange

theorem Command.eq_add_of_operation? {f : Files} {command : Command}
    {trigger template language : String}
    (h : command.operation? f = some (.add trigger template language)) :
    command = .add language trigger template := by
  cases command with
  | add =>
    cases h
    rfl
  | importFrom file =>
    obtain ⟨raw, _, hRaw⟩ := Option.map_eq_some_iff.mp h
    cases hRaw
  | _ => cases h

theorem Command.operation?_ne_load {f : Files} {command : Command} {op : Operation}
    (h : command.operation? f = some op) : op ≠ .load := by
  cases command with
  | importFrom file =>
    obtain ⟨raw, _, rfl⟩ := Option.map_eq_some_iff.mp h
    simp
  | list => cases h
  | exportTo => cases h
  | expand => cases h
  | _ =>
    cases h
    simp

theorem Command.eq_importFrom_of_operation? {f : Files} {command : Command} {raw : String}
    (h : command.operation? f = some (.importText raw)) :
    ∃ file, command = .importFrom file ∧ f.readText (.ofString file) = .ok raw := by
  cases command with
  | importFrom file =>
    obtain ⟨text, hText, hRaw⟩ := Option.map_eq_some_iff.mp h
    cases hRaw
    refine ⟨file, rfl, ?_⟩
    cases hRead : f.readText (.ofString file) with
    | ok text' =>
      rw [hRead] at hText
      cases hText
      rfl
    | error fault =>
      rw [hRead] at hText
      cases hText
  | _ => cases h

def countLine (tally : ImportTally) : String :=
  toString tally.imported ++ " snippets imported. " ++ toString tally.skipped ++ " skipped."

theorem lines_add {c d : Catalogue SnippetFile} {trigger template language : String} {s : Snippet}
    (h : c.add trigger template language = (.ok s, d)) (quiet : Bool) :
    .out s.id ∈ (perform quiet c (.add language trigger template)).report.lines := by
  rw [perform, Management.add, h]
  exact List.mem_append_right _ (List.mem_singleton_self _)

theorem lines_importFrom {c d : Catalogue SnippetFile} {file raw : String} {tally : ImportTally}
    (hRead : c.archive.files.readText (.ofString file) = .ok raw)
    (h : c.importText raw = (.ok tally, d)) (quiet : Bool) :
    let lines := (perform quiet c (.importFrom file)).report.lines
    (∀ e, tally.refusal = some e → .err ("[warn] " ++ e.userMessage) ∈ lines) ∧
    (tally.skipped ≠ 0 → .err ("[warn] " ++ countLine tally) ∈ lines) ∧
    (tally.skipped = 0 → quiet = false → .out ("[info] " ++ countLine tally) ∈ lines) := by
  intro lines
  have hEvent {e : Event} (he : e ∈ (Management.importText c raw).events) {line : Line}
      (hLine : line ∈ showEvent quiet e) : line ∈ lines := by
    have hOutcome : Management.importText c raw =
        ⟨.ok tally, (Management.importText c raw).events, d⟩ := by
      simp only [Management.importText, h]
    show line ∈ (perform quiet c (.importFrom file)).report.lines
    rw [perform, hRead]
    dsimp only
    rw [hOutcome]
    exact List.mem_append_left _ (List.mem_flatMap.mpr ⟨e, he, hLine⟩)
  refine ⟨?_, ?_, ?_⟩
  · intro e he
    have hTold : told d .warn e.userMessage ∈ (Management.importText c raw).events := by
      simp [Management.importText, h, he]
    exact hEvent hTold (List.mem_singleton_self _)
  · intro hSkipped
    have hTold : told d .warn (countLine tally) ∈ (Management.importText c raw).events := by
      simp [Management.importText, h, hSkipped, countLine]
    exact hEvent hTold (List.mem_singleton_self _)
  · intro hSkipped hLoud
    have hTold : told d .info (countLine tally) ∈ (Management.importText c raw).events := by
      simp [Management.importText, h, hSkipped, countLine]
    rw [hLoud] at hEvent
    exact hEvent hTold (List.mem_singleton_self _)

section Succeeding

variable {c : Catalogue SnippetFile} {command : Command}

theorem exists_tally_of_answer_ok {raw : String} (hOk : c.answer (.importText raw) = .ok ()) :
    ∃ tally, c.importText raw = (.ok tally, c.perform (.importText raw)) := by
  have hPerform : c.perform (.importText raw) = (c.importText raw).2 := rfl
  rw [hPerform]
  cases hTally : (c.importText raw).1 with
  | error e =>
    rw [answer, hTally] at hOk
    cases hOk
  | ok tally => exact ⟨tally, Prod.ext hTally rfl⟩

/-- The last save of an import from `raw` was refused, which it warns of. What it has added since
the save before is in no file: the snippet file has what that save has written, or is as it was
before if there was none. -/
structure LeavesUnsaved (start : Catalogue SnippetFile) (raw : String) (report : Report) :
    Prop where
  refused : ∃ tally detail, (start.importText raw).1 = .ok tally ∧
    tally.refusal = some (.unsaved detail) ∧
    .err ("[warn] " ++ (CatalogueError.unsaved detail).userMessage) ∈ report.lines
  inMemory : ∃ rest, rest ≠ [] ∧ (start.perform (.importText raw)).snippets =
    (start.savedByParts (Operation.importText raw).parts).getLast?.getD start.snippets ++ rest
  kept : start.savedByParts (Operation.importText raw).parts = [] →
    SnippetFile.Apart start.archive.path start.archive.files →
    KeepsFile start.archive.path start.archive.files report.files
  holds : ∀ l, (start.savedByParts (Operation.importText raw).parts).getLast? = some l →
    SnippetFile.Apart start.archive.path start.archive.files →
    report.files.find start.archive.path = .ok (.file (SnippetFile.content l))

/-- The list of a command that succeeds is in the file, unless it is an import that leaves something
unsaved. -/
theorem held_or_unsaved (hPlain : SnippetFile.Plain c.archive.path c.archive.files)
    (hHeld : SnippetFile.load c.archive = .ok c.snippets) {op : Operation}
    (hOp : command.operation? c.archive.files = some op) (hOk : c.answer op = .ok ())
    (quiet : Bool) :
    SnippetFile.load (c.perform op).archive = .ok (c.perform op).snippets ∨
      ∃ raw, op = .importText raw ∧ LeavesUnsaved c raw (perform quiet c command).report := by
  cases op with
  | importText raw =>
    obtain ⟨file, rfl, hRead⟩ := Command.eq_importFrom_of_operation? hOp
    obtain ⟨tally, hImport⟩ := exists_tally_of_answer_ok hOk
    have hTally := tallied_importText hPlain hHeld (congrArg Prod.fst hImport)
    cases hRefusal : tally.refusal with
    | none => exact .inl (hTally.held hRefusal)
    | some e =>
      obtain ⟨detail, rfl⟩ := hTally.refusal e hRefusal
      obtain ⟨rest, hRest, hSome⟩ := hTally.unsaved
      have hLine := (lines_importFrom hRead hImport quiet).1 _ hRefusal
      have hFiles := (report_perform hOp quiet).2
      refine .inr ⟨raw, rfl, ⟨tally, detail, congrArg Prod.fst hImport, hRefusal, hLine⟩,
        ⟨rest, ?_, hRest⟩, ?_, ?_⟩
      · intro hNil
        rw [hSome.mp hNil] at hRefusal
        cases hRefusal
      · rw [hFiles]
        exact hTally.written.kept
      · rw [hFiles]
        exact hTally.written.holds
  | load => exact absurd rfl (Command.operation?_ne_load hOp)
  | _ => exact .inl (held_of_answer_ok hPlain rfl hOk)

theorem added_of_add {trigger template language : String}
    (hOp : command.operation? c.archive.files = some (.add trigger template language))
    (hOk : c.answer (.add trigger template language) = .ok ()) (quiet : Bool) :
    ∃ s, (c.perform (.add trigger template language)).snippets = c.snippets ++ [s] ∧
      .out s.id ∈ (perform quiet c command).report.lines ∧
      s.portable = ⟨trimmed trigger, template, language⟩ := by
  rw [Command.eq_add_of_operation? hOp]
  rcases c.add_cases trigger template language with ⟨_, hAdd⟩ | ⟨_, _, hAdd⟩ | ⟨_, _, hAdd⟩
  · rw [answer, hAdd] at hOk
    cases hOk
  · rw [answer, hAdd] at hOk
    cases hOk
  · let s := c.newSnippet trigger template language
    let d : Catalogue SnippetFile := ⟨c.snippets ++ [s], c.archive, c.supply.next⟩
    rcases answer_saving SnippetFile.refusesAsUnsaved d s with hSaved | ⟨detail, hSaved⟩
    · have hPair : c.add trigger template language = (.ok s, (d.saving s).2) :=
        hAdd.trans (Prod.ext hSaved rfl)
      refine ⟨s, ?_, lines_add hPair quiet, rfl⟩
      rw [Catalogue.perform, hAdd]
      rfl
    · rw [answer, hAdd, hSaved] at hOk
      cases hOk

theorem added_of_importText {raw : String}
    (hOp : command.operation? c.archive.files = some (.importText raw))
    (hOk : c.answer (.importText raw) = .ok ()) (quiet : Bool) :
    ∃ tally added, (c.importText raw).1 = .ok tally ∧
      (c.perform (.importText raw)).snippets = c.snippets ++ added ∧
      added.length = tally.imported ∧
      (tally.skipped ≠ 0 →
        .err ("[warn] " ++ countLine tally) ∈ (perform quiet c command).report.lines) ∧
      (tally.skipped = 0 → quiet = false →
        .out ("[info] " ++ countLine tally) ∈ (perform quiet c command).report.lines) := by
  obtain ⟨file, rfl, hRead⟩ := Command.eq_importFrom_of_operation? hOp
  obtain ⟨tally, hImport⟩ := exists_tally_of_answer_ok hOk
  obtain ⟨added, hList, hCount⟩ := importText_counts SnippetFile.refusesAsUnsaved hImport
  exact ⟨tally, added, congrArg Prod.fst hImport, hList, hCount.symm,
    (lines_importFrom hRead hImport quiet).2⟩

end Succeeding

theorem Report.succeeded_of_exitCode {r : Report} (h : r.exitCode = 0) : r.succeeded = true := by
  rw [Report.exitCode] at h
  by_contra hFailed
  rw [if_neg hFailed] at h
  cases h

end CommandLine

end Shorthand
