/-!
# The command line

A command line names what is to be done with a snippet, and may name the file that the snippet is in.
Options that hold for everything may stand before the name or after it, and those after it win. Each
option may be given once before the name and once after it.
-/

namespace TabStop.Command

/-- What is to be done. -/
inductive Action where
  | render | flatten | canonical | tree | escape
  deriving DecidableEq, Repr

namespace Action

/-- The name of an action. -/
def name : Action → String
  | render => "render"
  | flatten => "flatten"
  | canonical => "canonical"
  | tree => "tree"
  | escape => "escape"

/-- All actions. -/
def all : List Action := [render, flatten, canonical, tree, escape]

/-- The action with a name. -/
def ofName? (s : String) : Option Action := all.find? fun a => a.name = s

end Action

/-- The options of one part of a command line. -/
structure Options where
  ultiSnips : Bool := false
  noFinal : Bool := false
  config : Option String := none
  /-- Shell blocks are run whatever the settings say; for `render` only. -/
  evaluate : Bool := false
  file : Option String := none
  deriving DecidableEq, Repr

/-- A job: an action and its options. -/
structure Job where
  action : Action
  options : Options
  deriving DecidableEq, Repr

/-- What help is asked about. -/
inductive Topic where
  | everything
  | action (a : Action)
  /-- The command for help itself. -/
  | help
  deriving DecidableEq, Repr

/-- What a command line asks for. -/
inductive Request where
  | run (job : Job)
  | help (t : Topic)
  | version
  deriving DecidableEq, Repr

/-! ## Options -/

/-- An option as it is written, or another word. -/
inductive Word where
  /-- An option `--name` or `--name=value`. -/
  | long (name : String) (value : Option String)
  /-- Letters after a dash. -/
  | short (letters : List Char)
  /-- Two dashes; no option comes after them. -/
  | dashes
  | plain
  deriving DecidableEq, Repr

/-- What a word is. A lone dash is no option. -/
def Word.of (s : String) : Word :=
  match s.toList with
  | ['-', '-'] => dashes
  | '-' :: '-' :: cs =>
    let name := String.ofList (cs.takeWhile (· ≠ '='))
    match cs.dropWhile (· ≠ '=') with
    | _ :: value => long name (some (String.ofList value))
    | [] => long name none
  | ['-'] => plain
  | '-' :: cs => short cs
  | _ => plain

/-- Where options stand: before the name of an action, or after it. -/
inductive Place where
  | before
  | after (a : Action)
  deriving DecidableEq, Repr

/-- What help is about that is asked for in a place. -/
def Place.topic : Place → Topic
  | before => .everything
  | after a => .action a

/-- What an option leads to: the options with it and the words after it, or an answer at once. -/
inductive Reading where
  | next (o : Options) (rest : List String)
  | done (r : Request)

/-- Takes an option without value. -/
def switch? (p : Place) (o : Options) (name : String) (rest : List String) : Option Reading :=
  match name with
  | "help" => some (.done (.help p.topic))
  | "version" => if p = .before then some (.done .version) else none
  | "ultisnips" => if o.ultiSnips then none else some (.next { o with ultiSnips := true } rest)
  | "no-final-tabstop" => if o.noFinal then none else some (.next { o with noFinal := true } rest)
  | "evaluate" =>
    if p = .after .render ∧ o.evaluate = false then some (.next { o with evaluate := true } rest)
    else none
  | _ => none

/-- Takes the option that names a file of settings. -/
def config? (o : Options) (path : String) (rest : List String) : Option Reading :=
  if path.isEmpty ∨ o.config.isSome then none else some (.next { o with config := some path } rest)

/-- Takes an option of any form. There is none if it is not known, or given twice, or if it lacks a
value or has one too many. -/
def option? (p : Place) (o : Options) (w : Word) (rest : List String) : Option Reading :=
  match w with
  | .long "config" (some path) => config? o path rest
  | .long "config" none =>
    match rest with
    | path :: rest => if Word.of path = .plain then config? o path rest else none
    | [] => none
  | .long name none => switch? p o name rest
  | .long _ (some _) => none
  | .short ('h' :: _) => some (.done (.help p.topic))
  | .short ('V' :: _) => if p = .before then some (.done .version) else none
  | _ => none

/-! ## Words -/

/-- Takes the name of a file. -/
def file? (o : Options) (s : String) : Option Options :=
  if s.isEmpty ∨ o.file.isSome then none else some { o with file := some s }

/-- What is asked for by the words after an action. -/
def readAfter? (a : Action) : Nat → Options → List String → Option Request
  | 0, _, _ => none
  | _, o, [] => some (.run ⟨a, o⟩)
  | fuel + 1, o, s :: rest =>
    match Word.of s with
    | .plain => do readAfter? a fuel (← file? o s) rest
    | .dashes => do return .run ⟨a, ← rest.foldlM file? o⟩
    | w =>
      match option? (.after a) o w rest with
      | some (.next o rest) => readAfter? a fuel o rest
      | some (.done r) => some r
      | none => none

/-- What help is asked for by the words after `help`. -/
def helpTopic? : List String → Option Topic
  | [] => some .everything
  | [s] => if s = "help" then some .help else (Action.ofName? s).map .action
  | _ => none

/-- The options before an action and those after it, which win. -/
def Options.merge (before after : Options) : Options :=
  { after with
    ultiSnips := before.ultiSnips || after.ultiSnips
    noFinal := before.noFinal || after.noFinal
    config := after.config <|> before.config }

/-- What is asked for by the words from the first one on. -/
def readBefore? : Nat → Options → List String → Option Request
  | 0, _, _ => none
  | _, _, [] => none
  | fuel + 1, o, s :: rest =>
    match Word.of s with
    | .plain =>
      if s = "help" then (helpTopic? rest).map .help
      else do
        match ← readAfter? (← Action.ofName? s) (rest.length + 1) {} rest with
        | .run c => return .run { c with options := o.merge c.options }
        | r => return r
    | .dashes => none
    | w =>
      match option? .before o w rest with
      | some (.next o rest) => readBefore? fuel o rest
      | some (.done r) => some r
      | none => none

/-- What a command line asks for; nothing if it is not well formed. -/
def read? (args : List String) : Option Request := readBefore? (args.length + 1) {} args

end TabStop.Command
