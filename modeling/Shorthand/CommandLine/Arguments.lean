/-! # Command line arguments

Which lists of arguments name a command, and which command. Options may stand before or after the
positional arguments of their level; what follows two dashes is positional. The options that
belong to no command may stand before the command, where they give way to those behind it.
-/
namespace Shorthand.CommandLine

inductive Command where
  | list (language : Option String)
  | add (language trigger template : String)
  | update (id : String) (trigger template language : Option String)
  | delete (id : String)
  | toggle (id : String)
  | exportTo (output : Option String)
  | importFrom (file : String)
  | expand (language line : String)
deriving DecidableEq, Repr

structure Invocation where
  settings : Option String
  quiet : Bool
  command : Command
deriving DecidableEq, Repr

structure OptionSpec where
  long : String
  short : Option Char
  takesValue : Bool

def globalOptions : List OptionSpec := [⟨"settings", none, true⟩, ⟨"quiet", some 'q', false⟩]

/-- The options of a command besides the global ones; `none` if there is no such command. -/
def commandOptions? : String → Option (List OptionSpec)
  | "list" => some [⟨"language", none, true⟩]
  | "update" =>
    some [⟨"trigger", none, true⟩, ⟨"template", none, true⟩, ⟨"language", none, true⟩]
  | "export" => some [⟨"output", some 'o', true⟩]
  | "add" | "delete" | "toggle" | "import" | "expand" => some []
  | _ => none

/-- Options that were given, with their values; that of a flag is empty. -/
abbrev Given := List (String × String)

/-- A single dash is an ordinary argument. -/
def isOption (argument : String) : Bool :=
  argument.toList.head? = some '-' && argument ≠ "-"

def separateValue? (next : Option String) : Option String := next.filter (!isOption ·)

/-- Reads an option by its long name. The flag tells whether it took the next argument. -/
def readLong (specs : List OptionSpec) (body : List Char) (next : Option String) :
    Option (Given × Bool) := do
  let name := String.ofList (body.takeWhile (· ≠ '='))
  let spec ← specs.find? (·.long = name)
  match body.dropWhile (· ≠ '='), spec.takesValue with
  | _ :: value, true => return ([(name, String.ofList value)], false)
  | [], true => return ([(name, ← separateValue? next)], true)
  | [], false => return ([(name, "")], false)
  | _ :: _, false => none

/-- Reads options by their one-letter names, which may be run together. -/
def readShort (specs : List OptionSpec) (next : Option String) : List Char → Option (Given × Bool)
  | [] => some ([], false)
  | c :: rest => do
    let spec ← specs.find? (·.short = some c)
    if spec.takesValue then
      match rest with
      | [] => return ([(spec.long, ← separateValue? next)], true)
      | '=' :: value => return ([(spec.long, String.ofList value)], false)
      | value => return ([(spec.long, String.ofList value)], false)
    else
      let (given, took) ← readShort specs next rest
      return ((spec.long, "") :: given, took)

def readOption (specs : List OptionSpec) (argument : String) (next : Option String) :
    Option (Given × Bool) :=
  match argument.toList with
  | '-' :: '-' :: body => readLong specs body next
  | _ :: body => readShort specs next body
  | [] => none

/-- Splits the arguments of a command into options and positional arguments. -/
def scan (specs : List OptionSpec) (arguments : List String) : Option (Given × List String) :=
  match arguments with
  | [] => some ([], [])
  | a :: rest =>
    if a = "--" then some ([], rest)
    else if isOption a then
      match readOption specs a rest.head? with
      | none => none
      | some (given, took) =>
        (scan specs (rest.drop (if took then 1 else 0))).map fun (more, positional) =>
          (given ++ more, positional)
    else (scan specs rest).map fun (given, positional) => (given, a :: positional)
termination_by arguments.length
decreasing_by all_goals simp only [List.length_drop, List.length_cons]; omega

/-- The options before the command, the command, and the arguments behind it. -/
def scanLead (specs : List OptionSpec) (arguments : List String) :
    Option (Given × String × List String) :=
  match arguments with
  | [] => none
  | a :: rest =>
    if a = "--" then none
    else if isOption a then
      match readOption specs a rest.head? with
      | none => none
      | some (given, took) =>
        (scanLead specs (rest.drop (if took then 1 else 0))).map fun (more, command) =>
          (given ++ more, command)
    else some ([], a, rest)
termination_by arguments.length
decreasing_by simp only [List.length_drop, List.length_cons]; omega

/-- No option may be given twice, and an option that names a file must not be empty. -/
def isValid (given : Given) : Bool :=
  (given.map Prod.fst).Nodup &&
    given.all fun (name, value) => value ≠ "" || (name ≠ "settings" && name ≠ "output")

def command? (name : String) (given : Given) (positional : List String) : Option Command :=
  match name, positional with
  | "list", [] => some (.list (given.lookup "language"))
  | "add", [language, trigger, template] => some (.add language trigger template)
  | "update", [id] =>
    some (.update id (given.lookup "trigger") (given.lookup "template") (given.lookup "language"))
  | "delete", [id] => some (.delete id)
  | "toggle", [id] => some (.toggle id)
  | "export", [] => some (.exportTo (given.lookup "output"))
  | "import", [file] => if file = "" then none else some (.importFrom file)
  | "expand", [language, line] => some (.expand language line)
  | _, _ => none

/-- The invocation that the arguments ask for; `none` for a usage error. -/
def parse? (arguments : List String) : Option Invocation := do
  let (before, name, rest) ← scanLead globalOptions arguments
  let specs ← commandOptions? name
  let (behind, positional) ← scan (globalOptions ++ specs) rest
  let command ← command? name behind positional
  if isValid before && isValid behind then
    let given := behind ++ before
    return ⟨given.lookup "settings", (given.lookup "quiet").isSome, command⟩
  else none

end Shorthand.CommandLine
