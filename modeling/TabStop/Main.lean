import TabStop.Command.Run
import TabStop.Command.Shell

/-!
# The program

Reads a snippet from a file or from the standard input, and prints what the command line asks for.
-/

namespace TabStop.Command

/-- What there is at a path. -/
def fileState (path : String) : IO FileState := do
  try
    return .text (← IO.FS.readFile path)
  catch e =>
    match e with
    | .noFileOrDirectory _ _ _ => return .missing
    | _ => return .unreadable

/-- The paths that a command reads. -/
def pathsOf (home : Option String) : Option Request → List String
  | some (.run c) =>
    c.options.config.getD (defaultConfig fun _ => home) :: c.options.file.toList.filter (· ≠ "-")
  | _ => []

/-- The names of the variables that code and a setting may use. -/
def namesIn (text : String) : List String :=
  let words := String.ofList (text.toList.map fun c => if Text.inVariable c then c else ' ')
  (words.splitOn " ").filter (!·.isEmpty)

end TabStop.Command

open TabStop.Command in
/-- Runs the command line. -/
def main (args : List String) : IO UInt32 := do
  let request := read? args
  let home ← IO.getEnv "HOME"
  let files ← (pathsOf home request).mapM fun path => do return (path, ← fileState path)
  let readsInput := match request with
    | some (.run c) => c.options.file.getD "-" == "-"
    | _ => false
  let input ← if readsInput then (← IO.getStdin).readToEnd else pure ""
  let texts := input :: files.filterMap fun f =>
    match f.2 with
    | .text s => some s
    | _ => none
  let names := "HOME" :: (texts.flatMap namesIn).eraseDups
  let environment ← names.mapM fun name => do return (name, ← IO.getEnv name)
  let value? (name : String) : Option String := (environment.lookup name).join
  let host : Host := {
    input
    file := fun path => (files.lookup path).getD .missing
    environment := value?
    runCode := runShell value? }
  match run host args with
  | .printed s =>
    IO.print s
    return 0
  | other =>
    IO.eprintln (match other with
      | .usage => "the command line is not well formed; try --help"
      | .failed => "a file could not be read"
      | _ => "no tab-stop index is left")
    return other.code.toUInt32
