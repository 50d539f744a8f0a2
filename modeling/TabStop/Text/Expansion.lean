import TabStop.Unicode.Category

/-!
# Variables and the home directory in a path

A setting that names a program may hold variables, `$NAME`, `${NAME}` and `${NAME:-default}`, and a
tilde at its start. Two dollar signs stand for one. The setting is left as it is if a variable in it is
not set and has no default.
-/

namespace TabStop.Text

/-- The variables that are set. -/
abbrev Variables := String → Option String

/-- Whether a character can be part of the name of a variable. -/
def inVariable (c : Char) : Bool := Unicode.isAlphanumeric c || c == '_'

/-- The name and the default of a variable in braces. -/
def splitDefault (inside : List Char) : List Char × Option (List Char) :=
  match inside with
  | ':' :: '-' :: _ => (inside, none)
  | _ => go inside
where
  /-- Cuts at the first colon with a dash after it. -/
  go : List Char → List Char × Option (List Char)
    | ':' :: '-' :: rest => ([], some rest)
    | c :: rest =>
      let (name, default) := go rest
      (c :: name, default)
    | [] => ([], none)

/-- What a variable in braces stands for. -/
def bracedValue? (vars : Variables) (inside : List Char) : Option (List Char) :=
  let (name, default) := splitDefault inside
  match vars (String.ofList name) with
  | some v => some v.toList
  | none => default

/-- What a dollar sign before a text begins: its value, and the text after it. -/
def dollarValue? (vars : Variables) (cs : List Char) : Option (List Char × List Char) :=
  match cs with
  | [] => some (['$'], [])
  | c :: rest =>
    if c = '\x7b' then
      if rest.contains '\x7d' then
        (bracedValue? vars (rest.takeWhile (· ≠ '\x7d'))).map fun value =>
          (value, (rest.dropWhile (· ≠ '\x7d')).drop 1)
      else some (['$', '\x7b'], rest)
    else if c = '$' then some (['$'], rest)
    else if inVariable c then
      (vars (String.ofList (cs.takeWhile inVariable))).map fun value =>
        (value.toList, cs.dropWhile inVariable)
    else some (['$'], cs)

/-- Puts in the values of variables, in at most `fuel` steps. -/
def expandFrom? (vars : Variables) : Nat → List Char → Option (List Char)
  | 0, _ => none
  | _, [] => some []
  | fuel + 1, c :: rest =>
    if c = '$' then do
      let (value, rest) ← dollarValue? vars rest
      return value ++ (← expandFrom? vars fuel rest)
    else do return c :: (← expandFrom? vars fuel rest)

/-- Puts in the values of variables. -/
def expandVariables? (vars : Variables) (cs : List Char) : Option (List Char) :=
  expandFrom? vars (cs.length + 1) cs

/-- Puts in the home directory for a tilde that is the first component of a path. -/
def expandHome (home : Option String) (cs : List Char) : List Char :=
  match cs, home with
  | '~' :: rest, some h =>
    if rest.isEmpty ∨ rest.head? = some '/' then h.toList ++ rest else cs
  | _, _ => cs

/-- Expands a setting. A tilde that comes from a variable stays. -/
def expand (vars : Variables) (s : String) : String :=
  let cs := s.toList
  match expandVariables? vars cs with
  | none => s
  | some expanded =>
    if cs.head? ≠ some '~' ∧ expanded.head? = some '~' then String.ofList expanded
    else String.ofList (expandHome (vars "HOME") expanded)

end TabStop.Text
