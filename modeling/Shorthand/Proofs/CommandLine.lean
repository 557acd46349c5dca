import Shorthand.CommandLine
import Shorthand.Proofs.Catalogue.Stored

/-! # Invocations one after another

Processes that share nothing but a snippet file do what one catalogue would do that loads the file
once: each of them finds there the list that the one before it left.
-/
namespace Shorthand

open Catalogue Files

namespace Management

variable {α β : Type} [Archive α]

/-- An outcome tells whether the operation succeeded and holds the catalogue that it left. -/
structure Tells (o : Outcome α β) (c : Catalogue α) (op : Operation) : Prop where
  answer : o.answer.isOk = (c.answer op).isOk
  catalogue : o.catalogue = c.perform op

omit [Archive α] in
theorem isOk_map {ε γ : Type} (r : Except ε β) (f : β → γ) : (r.map f).isOk = r.isOk := by
  cases r with
  | error e => rfl
  | ok a => rfl

theorem tells_reported {c : Catalogue α} {op : Operation} {action : String} {id : Option String}
    {level : Notice.Level} {message : Snippet → String}
    {r : Except CatalogueError Snippet × Catalogue α}
    (hAnswer : c.answer op = r.1.map fun _ => ()) (hPerform : c.perform op = r.2) :
    Tells (reported action id level message r) c op := by
  obtain ⟨_ | _, d⟩ := r
  · exact ⟨by rw [hAnswer]; rfl, hPerform.symm⟩
  · exact ⟨by rw [hAnswer]; rfl, hPerform.symm⟩

theorem tells_add (c : Catalogue α) (trigger template language : String) :
    Tells (add c trigger template language) c (.add trigger template language) :=
  tells_reported rfl rfl

theorem tells_update (c : Catalogue α) (id : String) (p : Snippet.Patch) :
    Tells (update c id p) c (.update id p) :=
  tells_reported rfl rfl

theorem tells_toggle (c : Catalogue α) (id : String) : Tells (toggle c id) c (.toggle id) :=
  tells_reported rfl rfl

theorem tells_delete (c : Catalogue α) (id : String) : Tells (delete c id) c (.delete id) := by
  have hReported : Tells (reported "delete" (some id) .success (fun _ => "Snippet deleted.")
      (c.delete id)) c (.delete id) :=
    tells_reported rfl rfl
  exact ⟨(isOk_map _ _).trans hReported.answer, hReported.catalogue⟩

theorem tells_importText (c : Catalogue α) (raw : String) :
    Tells (importText c raw) c (.importText raw) := by
  have hAnswer : c.answer (.importText raw) = (c.importText raw).1.map fun _ => () := rfl
  have hPerform : c.perform (.importText raw) = (c.importText raw).2 := rfl
  refine ⟨?_, ?_⟩
  · rw [hAnswer, isOk_map, importText]
    rcases c.importText raw with ⟨_ | _, _⟩ <;> rfl
  · rw [hPerform, importText]
    rcases c.importText raw with ⟨_ | _, _⟩ <;> rfl

end Management

namespace CommandLine

open Management

theorem Step.report_of_tells {β : Type} {o : Outcome SnippetFile β} {c : Catalogue SnippetFile}
    {op : Operation} (h : Tells o c op) (quiet : Bool) (lines : β → List String) :
    let report := ((Step.ofOutcome quiet o).andThen fun a c => .print (lines a) c).report
    report.succeeded = (c.answer op).isOk ∧ report.files = (c.perform op).archive.files := by
  rw [← h.answer, ← h.catalogue]
  obtain ⟨_ | _, events, d⟩ := o
  · exact ⟨rfl, rfl⟩
  · exact ⟨rfl, rfl⟩

theorem Step.report_withLines (s : Step Unit) (lines : List Line) :
    let told : Step Unit := { s with lines }
    told.report.succeeded = s.report.succeeded ∧ told.report.files = s.report.files := by
  obtain ⟨_ | _, _, _⟩ := s
  · exact ⟨rfl, rfl⟩
  · exact ⟨rfl, rfl⟩

/-- The operation that a command asks for. Commands that only read ask for none, nor does an import
of a file that cannot be read. -/
def Command.operation? (f : Files) : Command → Option Operation
  | .add language trigger template => some (.add trigger template language)
  | .update id trigger template language => some (.update id ⟨trigger, template, language, none⟩)
  | .delete id => some (.delete id)
  | .toggle id => some (.toggle id)
  | .importFrom file => (f.readText (.ofString file)).toOption.map .importText
  | .list _ | .exportTo _ | .expand _ _ => none

theorem report_perform {c : Catalogue SnippetFile} {command : Command} {op : Operation}
    (h : command.operation? c.archive.files = some op) (quiet : Bool) :
    (perform quiet c command).report.succeeded = (c.answer op).isOk ∧
      (perform quiet c command).report.files = (c.perform op).archive.files := by
  cases command with
  | add language trigger template =>
    cases h
    exact Step.report_of_tells (tells_add c trigger template language) quiet _
  | update id trigger template language =>
    cases h
    exact Step.report_of_tells (tells_update c id ⟨trigger, template, language, none⟩) quiet _
  | delete id =>
    cases h
    exact Step.report_of_tells (tells_delete c id) quiet fun _ => []
  | toggle id =>
    cases h
    exact Step.report_of_tells (tells_toggle c id) quiet _
  | importFrom file =>
    rw [Command.operation?] at h
    rw [perform]
    cases hRead : c.archive.files.readText (.ofString file) with
    | error fault =>
      rw [hRead] at h
      cases h
    | ok raw =>
      rw [hRead] at h
      cases h
      exact Step.report_of_tells (tells_importText c raw) quiet _
  | list language => cases h
  | exportTo output => cases h
  | expand language line => cases h

structure Process where
  invocation : Invocation
  environment : Environment
  supply : Supply

namespace Process

def run (p : Process) (f : Files) : Report :=
  CommandLine.run p.invocation ⟨f, p.environment, p.supply⟩

def settingsFile (p : Process) : Except SettingsError String :=
  match p.invocation.settings with
  | some path => .ok path
  | none => p.environment.usualSettingsFile

theorem settingsOf_eq (p : Process) (f : Files) :
    settingsOf p.invocation ⟨f, p.environment, p.supply⟩ =
      p.settingsFile.bind (Settings.load f) := by
  rw [settingsOf, settingsFile]
  cases p.invocation.settings with
  | none => rfl
  | some path => rfl

/-- Whether the settings file can be read, if there is one. -/
def readsSettings (p : Process) (f : Files) : Bool :=
  match p.settingsFile with
  | .error _ => false
  | .ok path =>
    match f.readText (.ofString path) with
    | .ok _ | .error .notFound => true
    | .error _ => false

theorem eq_notFound_of_readsSettings {p : Process} {f : Files} {s : String} {fault : Fault}
    (h : p.readsSettings f = true) (hFile : p.settingsFile = .ok s)
    (hRead : f.readText (.ofString s) = .error fault) : fault = .notFound := by
  rw [readsSettings, hFile] at h
  dsimp only at h
  rw [hRead] at h
  cases fault with
  | notFound => rfl
  | _ => cases h

/-- The process keeps its snippets at `path`. Its settings can be read or are not there at all, and
neither they nor a link to them are where a save writes. -/
structure Uses (p : Process) (path : String) (f : Files) : Prop where
  snippets : snippetsFile p.invocation ⟨f, p.environment, p.supply⟩ = .ok path
  settings : ∀ s, p.settingsFile = .ok s → (∃ text, f.readText (.ofString s) = .ok text) ∨
    ∀ q, f.goal? (.ofString s) = some q → f.entryAt q = none
  apart : ∀ s, p.settingsFile = .ok s →
    ∀ r ∈ f.reach (.ofString s), r ∉ SnippetFile.places (.ofString path) f

namespace Uses

variable {p : Process} {path : String} {f g : Files}

theorem exists_settingsFile (h : p.Uses path f) : ∃ s, p.settingsFile = .ok s := by
  have hSnippets := h.snippets
  rw [snippetsFile, settingsOf_eq] at hSnippets
  cases hFile : p.settingsFile with
  | error e =>
    rw [hFile] at hSnippets
    cases hSnippets
  | ok s => exact ⟨s, rfl⟩

theorem readsSettings (h : p.Uses path f) : p.readsSettings f = true := by
  obtain ⟨s, hFile⟩ := h.exists_settingsFile
  have hSnippets := h.snippets
  rw [snippetsFile, settingsOf_eq, hFile, Except.bind, Settings.load] at hSnippets
  rw [Process.readsSettings, hFile]
  dsimp only
  cases hRead : f.readText (.ofString s) with
  | ok text => rfl
  | error fault =>
    rw [hRead] at hSnippets
    cases fault with
    | notFound => rfl
    | _ => cases hSnippets

theorem readText_eq (h : p.Uses path f)
    (hChanged : ChangedWithin (SnippetFile.places (.ofString path) f) f g)
    (hReads : p.readsSettings g = true) {s : String} (hFile : p.settingsFile = .ok s) :
    g.readText (.ofString s) = f.readText (.ofString s) := by
  have hText (text : String) :
      g.readText (.ofString s) = .ok text ↔ f.readText (.ofString s) = .ok text :=
    hChanged.readText_eq_ok_iff (h.apart s hFile) (h.settings s hFile)
  cases hBefore : f.readText (.ofString s) with
  | ok text => exact (hText text).mpr hBefore
  | error fault =>
    cases hAfter : g.readText (.ofString s) with
    | ok text =>
      rw [(hText text).mp hAfter] at hBefore
      cases hBefore
    | error fault' =>
      -- Neither read failed for good, so both found no file.
      rw [eq_notFound_of_readsSettings h.readsSettings hFile hBefore,
        eq_notFound_of_readsSettings hReads hFile hAfter]

/-- Saves leave the settings alone. -/
theorem snippetsFile_eq (h : p.Uses path f)
    (hChanged : ChangedWithin (SnippetFile.places (.ofString path) f) f g)
    (hReads : p.readsSettings g = true) :
    snippetsFile p.invocation ⟨g, p.environment, p.supply⟩ = .ok path := by
  obtain ⟨s, hFile⟩ := h.exists_settingsFile
  have hSnippets := h.snippets
  rw [snippetsFile, settingsOf_eq, hFile, Except.bind, Settings.load] at hSnippets ⊢
  rw [h.readText_eq hChanged hReads hFile]
  exact hSnippets

end Uses

/-- The operation that the process asks for, if it can read its files. -/
def request? (p : Process) (f : Files) : Option Operation :=
  if p.readsSettings f then p.invocation.command.operation? f else none

theorem run_eq {p : Process} {start : SnippetFile} {c : Catalogue SnippetFile} {op : Operation}
    {path : String} (hPath : start.path = .ofString path) (hUses : p.Uses path start.files)
    (h : Stored start c) (hRequest : p.request? c.archive.files = some op) :
    (p.run c.archive.files).succeeded = ((c.withSupply p.supply).answer op).isOk ∧
      (p.run c.archive.files).files = ((c.withSupply p.supply).perform op).archive.files := by
  rw [request?] at hRequest
  split at hRequest
  next hReads =>
    have hChanged := h.changed
    have hArchive : c.archive = ⟨.ofString path, c.archive.files⟩ := by
      rw [← hPath, ← h.path]
    rw [hPath] at hChanged
    have hLoad : (Catalogue.new c.archive p.supply).load = (.ok (), c.withSupply p.supply) :=
      h.load_eq [] p.supply
    obtain ⟨hSucceeded, hFiles⟩ := report_perform
      (c := c.withSupply p.supply) hRequest p.invocation.quiet
    rw [run, CommandLine.run, hUses.snippetsFile_eq hChanged hReads]
    dsimp only
    rw [← hArchive, Management.reload, hLoad]
    obtain ⟨hTold, hKept⟩ := Step.report_withLines
      (perform p.invocation.quiet (c.withSupply p.supply) p.invocation.command) ([] ++ _)
    exact ⟨hTold.trans hSucceeded, hKept.trans hFiles⟩
  next => cases hRequest

end Process

/-- What processes ask for one after another, each with the supply that it finds. -/
def requests? (f : Files) : List Process → Option (List (Supply × Operation))
  | [] => some []
  | p :: ps =>
    match p.request? f with
    | none => none
    | some op => (requests? (p.run f).files ps).map ((p.supply, op) :: ·)

/-- The exit code of each process, with what the snippet file holds when it is done. -/
def outcomes (path : Path) (f : Files) :
    List Process → List (Nat × Except CatalogueError (List Snippet))
  | [] => []
  | p :: ps =>
    ((p.run f).exitCode, SnippetFile.load ⟨path, (p.run f).files⟩) ::
      outcomes path (p.run f).files ps

/-- The same of a single catalogue, which never loads its archive again. -/
def outcomesWithin (c : Catalogue SnippetFile) :
    List (Supply × Operation) → List (Nat × Except CatalogueError (List Snippet))
  | [] => []
  | (supply, op) :: rest =>
    (if ((c.withSupply supply).answer op).isOk then 0 else 1,
        .ok ((c.withSupply supply).perform op).snippets) ::
      outcomesWithin ((c.withSupply supply).perform op) rest

theorem outcomes_of_stored {start : SnippetFile} {path : String}
    (hPath : start.path = .ofString path) {ps : List Process} {c : Catalogue SnippetFile}
    {asked : List (Supply × Operation)} (hUses : ∀ p ∈ ps, p.Uses path start.files)
    (h : Stored start c) (hAsked : requests? c.archive.files ps = some asked) :
    outcomes start.path c.archive.files ps = outcomesWithin c asked := by
  induction ps generalizing c asked with
  | nil =>
    cases hAsked
    rfl
  | cons p ps ih =>
    rw [requests?] at hAsked
    cases hRequest : p.request? c.archive.files with
    | none =>
      rw [hRequest] at hAsked
      cases hAsked
    | some op =>
      rw [hRequest] at hAsked
      obtain ⟨rest, hRest, rfl⟩ := Option.map_eq_some_iff.mp hAsked
      obtain ⟨hSucceeded, hFiles⟩ :=
        Process.run_eq hPath (hUses p List.mem_cons_self) h hRequest
      have hNext := (h.withSupply p.supply).perform op
      have hHeld : SnippetFile.load ⟨start.path,
          ((c.withSupply p.supply).perform op).archive.files⟩ =
          .ok ((c.withSupply p.supply).perform op).snippets := by
        rw [← hNext.path]
        exact hNext.held
      rw [hFiles] at hRest
      rw [outcomes, outcomesWithin, Report.exitCode, hSucceeded, hFiles, hHeld,
        ih (fun q hq => hUses q (List.mem_cons_of_mem p hq)) hNext hRest]

end CommandLine

end Shorthand
