import TabStop.Command.Help
import TabStop.Config
import TabStop.Snippet
import TabStop.Tree.Evaluate
import TabStop.Tree.Listing
import TabStop.Tree.Resolve

/-!
# Running commands

What a command prints hangs on the machine that it runs on: the files there, the environment, and what
runs shell code. A command may fail before it has printed anything.
-/

namespace TabStop.Command

/-- What there is at a path. -/
inductive FileState where
  | missing
  /-- There is something, but not a text that can be read. -/
  | unreadable
  | text (content : String)
  deriving DecidableEq, Repr

/-- The machine that a command runs on. -/
structure Host where
  /-- The text on the standard input. -/
  input : String
  file : String → FileState
  /-- The environment. -/
  environment : Text.Variables
  /-- Runs code by a program, and answers what it has printed if it has succeeded. -/
  runCode : String → String → Option String

/-- How a run ends. -/
inductive Outcome where
  | printed (s : String)
  /-- The command line is not well formed. -/
  | usage
  /-- A file cannot be read, or the settings cannot. -/
  | failed
  /-- There are no indexes left for new tab stops. -/
  | exhausted
  deriving DecidableEq, Repr

namespace Outcome

/-- The exit code of the program. -/
def code : Outcome → Nat
  | printed _ => 0
  | failed => 1
  | usage => 2
  | exhausted => 134

end Outcome

/-! ## What a job needs -/

/-- The file of settings that is used if none is named. -/
def defaultConfig (vars : Text.Variables) : String :=
  String.ofList (Text.expandHome (vars "HOME") "~/.config/snippet-engine/config.toml".toList)

/-- The settings for a job: those in the file, changed by the options. -/
def settings? (host : Host) (c : Job) : Option Config := do
  let path := c.options.config.getD (defaultConfig host.environment)
  let config : Config ← match host.file path with
    | .missing => some {}
    | .unreadable => none
    | .text source => Config.read? host.environment source
  return { config with
    ultiSnips := config.ultiSnips || c.options.ultiSnips
    insertFinal := config.insertFinal && !c.options.noFinal
    evaluateCode := config.evaluateCode || c.options.evaluate }

/-- A text without a line end at its end, which editors add. -/
def withoutLastLineEnd (s : String) : String :=
  match s.toList.getLast? with
  | some '\n' => String.ofList s.toList.dropLast
  | _ => s

/-- The text that a job works on. -/
def input? (host : Host) (c : Job) : Option String :=
  match c.options.file with
  | none => some (withoutLastLineEnd host.input)
  | some "-" => some (withoutLastLineEnd host.input)
  | some path =>
    match host.file path with
    | .text s => some (withoutLastLineEnd s)
    | _ => none

/-! ## Rendering -/

/-- Looks variables up in the settings, then in the environment. -/
def resolver (host : Host) (config : Config) : Resolver := fun _ name =>
  config.values.lookup name <|> host.environment name

/-- The output of shell code without line ends at its end. -/
def trimmedOutput (s : String) : String :=
  String.ofList (s.toList.reverse.dropWhile fun c => c = '\n' ∨ c = '\r').reverse

/-- Runs shell blocks; blocks of other languages fail. -/
def evaluator (host : Host) (config : Config) : Evaluator := fun _ call =>
  let block := call.block
  if block.kind ≠ .shell then none
  else if Text.isBlank block.code.toList then some ""
  else (host.runCode config.shell block.code).map trimmedOutput

/-- What a snippet shows with its variables resolved, and its shell blocks run if that is enabled. -/
def rendered? (host : Host) (config : Config) (t : Tree) : Option String := do
  let (_, t) ← t.resolveVariables? (resolver host config)
  if config.evaluateCode then return (t.evaluate (evaluator host config)).tree.text
  else return t.text

/-! ## Running -/

/-- A text on a line of its own. -/
def line (s : String) : Outcome := .printed (s ++ "\n")

/-- Runs an action on a text. -/
def perform (host : Host) (config : Config) (action : Action) (input : String) : Outcome :=
  let parsed := Tree.ofSnippet 0 config.dialect input config.insertFinal
  match action with
  | .render =>
    match rendered? host config parsed with
    | some s => line s
    | none => .exhausted
  | .flatten => line (Snippet.flatten config.dialect input)
  | .canonical => line parsed.source
  | .tree => .printed parsed.listing
  | .escape => line (Snippet.escape input)

/-- Runs a command line. -/
def run (host : Host) (args : List String) : Outcome :=
  match read? args with
  | none => .usage
  | some .version => .printed versionText
  | some (.help topic) => .printed (helpText topic)
  | some (.run c) =>
    match settings? host c, input? host c with
    | some config, some input => perform host config c.action input
    | _, _ => .failed

end TabStop.Command
