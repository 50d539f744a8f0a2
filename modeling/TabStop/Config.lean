import TabStop.Dialect
import TabStop.Text.Expansion
import TabStop.Toml.Document
import TabStop.Toml.Writer

/-!
# Configuration

Settings for showing snippets, kept in a TOML file. Every setting may be missing in the file, and keys
that mean nothing are passed over; a setting of the wrong type is an error.
-/

namespace TabStop

/-- The settings. -/
structure Config where
  /-- Snippets are UltiSnips. -/
  ultiSnips : Bool := false
  /-- A final tab stop is added to snippets without one. -/
  insertFinal : Bool := true
  /-- Shell blocks are run. -/
  evaluateCode : Bool := false
  /-- The program that runs shell blocks. -/
  shell : String := "sh"
  /-- Values of variables, in ascending order of the names. They go before the environment. -/
  values : List (String × String) := []
  deriving DecidableEq, Repr

namespace Config

/-- The dialect of snippets. -/
def dialect (c : Config) : Dialect := if c.ultiSnips then .ultiSnips else .textMate

/-! ## Reading -/

/-- A setting that is a truth value. -/
def boolean? (es : Toml.Entries) (k : String) (default : Bool) : Option Bool :=
  match es.lookup k with
  | none => some default
  | some (.boolean b) => some b
  | some _ => none

/-- A setting that is a text. -/
def string? (es : Toml.Entries) (k : String) (default : String) : Option String :=
  match es.lookup k with
  | none => some default
  | some (.string s) => some s
  | some _ => none

/-- The texts of a table, if it holds nothing else, in ascending order of the keys. -/
def strings? (es : Toml.Entries) : Option (List (String × String)) := do
  let pairs ← es.mapM fun (k, v) =>
    match v with
    | .string s => some (k, s)
    | _ => none
  return pairs.mergeSort fun a b => a.1 ≤ b.1

/-- A setting that is a table of texts. -/
def table? (es : Toml.Entries) (k : String) : Option (List (String × String)) :=
  match es.lookup k with
  | none => some []
  | some (.table _ es) => strings? es
  | some _ => none

/-- The settings in a document. -/
def ofToml? (es : Toml.Entries) : Option Config := do
  let defaults : Config := {}
  return {
    ultiSnips := ← boolean? es "ultisnips" defaults.ultiSnips
    insertFinal := ← boolean? es "insert_final_tabstop" defaults.insertFinal
    evaluateCode := ← boolean? es "evaluate_code" defaults.evaluateCode
    shell := ← string? es "shell" defaults.shell
    values := ← table? es "variables" }

/-- The settings in a file. Variables and a tilde in the name of the shell are expanded. -/
def read? (vars : Text.Variables) (source : String) : Option Config := do
  let c ← ofToml? (← Toml.read? source)
  return { c with shell := Text.expand vars c.shell }

/-! ## Writing -/

/-- The file that holds the settings. -/
def source (c : Config) : String :=
  Toml.writeLine "ultisnips" (Toml.writeBoolean c.ultiSnips) ++
  Toml.writeLine "insert_final_tabstop" (Toml.writeBoolean c.insertFinal) ++
  Toml.writeLine "evaluate_code" (Toml.writeBoolean c.evaluateCode) ++
  Toml.writeLine "shell" (Toml.writeString c.shell) ++
  "\n[variables]\n" ++
  String.join (c.values.map fun (k, v) => Toml.writeLine k (Toml.writeString v))

end Config

end TabStop
