import Shorthand.Proofs.CommandLine.Exit
import Shorthand.Proofs.Playground.Typing

/-! # The caret that a demonstration prints

A demonstration prints the caret of the last expansion if there was one. When the line goes on
behind it, the caret of the pane is further on than what is printed.
-/
namespace Shorthand.CommandLine

open Files

def stage (language : String) (c : Catalogue SnippetFile) : Playground SnippetFile where
  panes := Panes.none.set .script ⟨.ofText [], language⟩
  catalogue := c
  stock := .shipped
  refreshes := 0

def caretLine (p : Position) : String :=
  "caret: " ++ toString p.line ++ ":" ++ toString p.column

variable {language line : String} {c : Catalogue SnippetFile}

theorem grounded_stage (language : String) (c : Catalogue SnippetFile) :
    (stage language c).Grounded :=
  (Playground.grounded_new c .shipped).set .script (Document.grounded_ofText [])

theorem demonstrate_eq {d : Document}
    (hPane : ((stage language c).typeAll .script line.toList).1.panes.get? .script =
      some ⟨d, language⟩) :
    demonstrate language line c = [String.ofList d.text,
      caretLine (((stage language c).typeAll .script line.toList).2.getD d.caret)] := by
  have hStage : (((Playground.new c .shipped).fillPane .script (.ofText [])).switchLanguage? .script
      language).getD ((Playground.new c .shipped).fillPane .script (.ofText [])) =
        stage language c := rfl
  rw [demonstrate]
  simp only [hStage, hPane]
  rfl

theorem run_of_expand {i : Invocation} {w : World} {path : String} {loaded : List Snippet}
    (hCommand : i.command = .expand language line) (hFile : snippetsFile i w = .ok path)
    (hLoad : SnippetFile.load ⟨.ofString path, w.files⟩ = .ok loaded) :
    (run i w).exitCode = 0 ∧
      (run i w).lines =
        (demonstrate language line ⟨loaded, ⟨.ofString path, w.files⟩, w.supply⟩).map .out := by
  rw [run_of_load hFile hLoad, hCommand]
  exact ⟨rfl, rfl⟩

/-- A demonstration prints the text and a caret. The caret of the pane, where the next character
would come in, is behind the printed one by `since`, which is what was typed since the last
expansion. So the two are the same unless the line goes on behind an expansion. -/
theorem run_expand_caret {i : Invocation} {w : World} {language line path : String}
    {loaded : List Snippet} (hCommand : i.command = .expand language line)
    (hFile : snippetsFile i w = .ok path)
    (hLoad : SnippetFile.load ⟨.ofString path, w.files⟩ = .ok loaded) :
    let g := stage language ⟨loaded, ⟨.ofString path, w.files⟩, w.supply⟩
    ∃ d before since after,
      (g.typeAll .script line.toList).1.panes.get? .script = some ⟨d, language⟩ ∧
      let printed := Position.origin.after before
      (run i w).exitCode = 0 ∧
      (run i w).lines = [.out (String.ofList d.text), .out (caretLine printed)] ∧
      d.text = before ++ since ++ after ∧ d.caret = printed.after since ∧
      (∀ ch, (d.type ch).1.text = before ++ since ++ [ch] ++ after) ∧
      since <:+ line.toList ∧
      (printed = d.caret ↔ ¬ g.TypesOn .script line.toList) := by
  intro g
  obtain ⟨d, since, hPane, ⟨before, after, hStands, hPlace⟩, hSuffix, hSince⟩ :=
    Playground.typeAll_trails (p := .script) rfl (grounded_stage language _) line.toList
  have hCaret : d.caret = (Position.origin.after before).after since := by
    rw [hStands.caret_eq, Position.after_append]
  obtain ⟨hExit, hLines⟩ := run_of_expand hCommand hFile hLoad
  rw [demonstrate_eq hPane, hPlace] at hLines
  refine ⟨d, before, since, after, hPane, ?_⟩
  intro printed
  refine ⟨hExit, hLines, hStands.text_eq, hCaret, ?_, hSuffix, ?_⟩
  · intro ch
    exact (hStands.type ch).text_eq
  · rw [← hSince, hCaret, eq_comm]
    exact Position.after_eq_self_iff

/-- The line ends behind a trigger, and there is no snippet file. -/
theorem run_expand_caret_log :
    let i : Invocation := ⟨none, false, .expand "javascript" "log "⟩
    let w : World := ⟨.startingAt [], ⟨some "/c", none, none⟩, ⟨fun _ => "x", 0, "1"⟩⟩
    let g := stage "javascript" ⟨[], ⟨.ofString "/c/snippets.json", w.files⟩, w.supply⟩
    (run i w).exitCode = 0 ∧ ¬ g.TypesOn .script "log ".toList ∧
      ∃ d, (g.typeAll .script "log ".toList).1.panes.get? .script = some ⟨d, "javascript"⟩ ∧
        (run i w).lines = [.out "console.log();", .out (caretLine d.caret)] ∧
        d.caret = ⟨0, 12⟩ := by
  intro i w g
  have hFile : snippetsFile i w = .ok "/c/snippets.json" := rfl
  have hLoad : SnippetFile.load ⟨.ofString "/c/snippets.json", w.files⟩ = .ok [] := rfl
  obtain ⟨d, _, _, _, hPane, hExit, hLines, _, _, _, _, hSame⟩ :=
    run_expand_caret (i := i) rfl hFile hLoad
  have hEnds : ¬ g.TypesOn .script "log ".toList := by decide +kernel
  have hDocument : ((g.typeAll .script "log ".toList).1.panes.get? .script).map
      (fun editor => (String.ofList editor.document.text, editor.document.caret)) =
        some ("console.log();", ⟨0, 12⟩) := by decide +kernel
  rw [hPane] at hDocument
  obtain ⟨hText, hCaret⟩ := Prod.mk.inj (Option.some.inj hDocument)
  rw [hSame.mpr hEnds, hText] at hLines
  exact ⟨hExit, hEnds, d, hPane, hLines, hCaret⟩

/-- The line goes on behind an expansion. -/
theorem run_expand_caret_behind :
    let i : Invocation := ⟨none, false, .expand "javascript" "log x"⟩
    let w : World := ⟨.startingAt [], ⟨some "/c", none, none⟩, ⟨fun _ => "x", 0, "1"⟩⟩
    let g := stage "javascript" ⟨[], ⟨.ofString "/c/snippets.json", w.files⟩, w.supply⟩
    snippetsFile i w = .ok "/c/snippets.json" ∧
      SnippetFile.load ⟨.ofString "/c/snippets.json", w.files⟩ = .ok [] ∧
      (run i w).lines = [.out "console.log(x);", .out (caretLine ⟨0, 12⟩)] ∧
      ((g.typeAll .script "log x".toList).1.panes.get? .script).map (·.document.caret) =
        some ⟨0, 13⟩ := by
  intro i w g
  have hFile : snippetsFile i w = .ok "/c/snippets.json" := rfl
  have hLoad : SnippetFile.load ⟨.ofString "/c/snippets.json", w.files⟩ = .ok [] := rfl
  have hPrinted : demonstrate "javascript" "log x" g.catalogue =
      ["console.log(x);", caretLine ⟨0, 12⟩] := by decide +kernel
  refine ⟨hFile, hLoad, ?_, by decide +kernel⟩
  exact (run_of_expand (i := i) rfl hFile hLoad).2.trans (congrArg (List.map Line.out) hPrinted)

end Shorthand.CommandLine
