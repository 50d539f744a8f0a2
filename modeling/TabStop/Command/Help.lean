import TabStop.Command.Line

/-!
# Help

The texts that explain the command line.
-/

namespace TabStop.Command

/-- The version of the command. -/
def versionText : String := "snippet 0.1.0\n"

/-- What an action does. -/
def Action.about : Action → String
  | render => "Resolve variables, run shell blocks when enabled and print the text"
  | flatten => "Print the text the snippet shows before any resolution"
  | canonical => "Print the canonical snippet source"
  | tree => "Print the parsed marker tree"
  | escape => "Escape text so it can be embedded in a snippet literally"

/-- What `help` does. -/
def aboutHelp : String := "Print this message or the help of the given subcommand(s)"

/-- A text with blanks after it, up to a width. -/
def padded (width : Nat) (s : String) : String :=
  s ++ String.ofList (List.replicate (width - s.length) ' ')

/-- Rows of two columns. -/
def rows (xs : List (String × String)) : String :=
  let width := (xs.map (·.1.length)).foldl max 0
  String.join (xs.map fun (a, b) => "  " ++ padded width a ++ "  " ++ b ++ "\n")

/-- The options that hold for every action, and those before them. -/
def optionRows (first last : List (String × String)) : String :=
  rows (first ++ [
    ("    --ultisnips", "Parse snippets as UltiSnips instead of TextMate"),
    ("    --no-final-tabstop", "Do not append a final `$0` tab stop"),
    ("    --config <CONFIG>",
      "Config file to use instead of ~/.config/snippet-engine/config.toml"),
    ("-h, --help", "Print help")] ++ last)

/-- What is in the file of an action. -/
def Action.fileContent : Action → String
  | escape => "Text"
  | _ => "Snippet"

/-- The text of a topic. -/
def helpText : Topic → String
  | .everything =>
    "Render, inspect and escape TextMate and UltiSnips snippets\n\n" ++
    "Usage: snippet [OPTIONS] <COMMAND>\n\nCommands:\n" ++
    rows ((Action.all.map fun a => (a.name, a.about)) ++ [("help", aboutHelp)]) ++
    "\nOptions:\n" ++ optionRows [] [("-V, --version", "Print version")]
  | .action a =>
    a.about ++ "\n\nUsage: snippet " ++ a.name ++ " [OPTIONS] [FILE]\n\nArguments:\n" ++
    rows [("[FILE]", a.fileContent ++ " file (reads stdin if not provided or `-`)")] ++
    "\nOptions:\n" ++
    optionRows
      (if a = .render then
        [("    --evaluate", "Run shell code blocks even when the config does not enable it")]
      else []) []
  | .help =>
    aboutHelp ++ "\n\nUsage: snippet help [COMMAND]...\n\nArguments:\n" ++
    rows [("[COMMAND]...", "Print help for the subcommand(s)")]

end TabStop.Command
