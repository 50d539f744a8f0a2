import TabStop.Token

/-!
# Words of shell code

Shell code is words and operators between them. A word is put together from parts: text, with or
without quotes, and things that stand for text, such as variables. What comes from a part without
quotes is split at blanks when the word is expanded, so quotes are remembered.
-/

namespace TabStop.Shell

/-- What stands for a text. -/
inductive Source where
  | variable (name : String)
  /-- A variable, and the text for one that is not set or empty. -/
  | default (name text : String)
  /-- The status of the last command. -/
  | status
  /-- The output of code. -/
  | output (code : String)
  /-- The value of a numeric expression. -/
  | number (expression : String)
  deriving DecidableEq, Repr

/-- A part of a word. -/
inductive Part where
  | text (s : List Char)
  | source (quoted : Bool) (s : Source)
  deriving DecidableEq, Repr

/-- A word or an operator. -/
inductive Token where
  | word (parts : List Part)
  | operator (s : String)
  deriving DecidableEq, Repr

/-- Characters that end a word. -/
def endsWord (c : Char) : Bool := " \t\n;&|<>()".toList.contains c

/-- The text up to the parenthesis that closes one, and what is after it. -/
def closing? (depth : Nat) : List Char → Option (List Char × List Char)
  | [] => none
  | ')' :: cs =>
    if depth = 0 then some ([], cs)
    else (closing? (depth - 1) cs).map fun (inside, rest) => (')' :: inside, rest)
  | '(' :: cs => (closing? (depth + 1) cs).map fun (inside, rest) => ('(' :: inside, rest)
  | c :: cs => (closing? depth cs).map fun (inside, rest) => (c :: inside, rest)

/-- A variable in braces. -/
def braced? (inside : List Char) : Option Source :=
  let name := String.ofList (inside.takeWhile Token.continuesWord)
  match inside.dropWhile Token.continuesWord with
  | [] => some (.variable name)
  | ':' :: '-' :: text => some (.default name (String.ofList text))
  | _ => none

/-- What a dollar sign begins, and what is after it. -/
def dollar? (quoted : Bool) (cs : List Char) : Option (Part × List Char) :=
  match cs with
  | '(' :: rest => do
    let (inside, rest) ← closing? 0 rest
    match inside, inside.getLast? with
    | '(' :: expression, some ')' =>
      return (.source quoted (.number (String.ofList expression.dropLast)), rest)
    | _, _ => return (.source quoted (.output (String.ofList inside)), rest)
  | '\x7b' :: rest => do
    let source ← braced? (rest.takeWhile (· ≠ '\x7d'))
    if rest.contains '\x7d' then
      return (.source quoted source, (rest.dropWhile (· ≠ '\x7d')).drop 1)
    else none
  | '?' :: rest => some (.source quoted .status, rest)
  | c :: rest =>
    if Token.startsWord c then
      some (.source quoted (.variable (String.ofList (cs.takeWhile Token.continuesWord))),
        cs.dropWhile Token.continuesWord)
    else if Token.isDigit c then some (.source quoted (.variable (String.singleton c)), rest)
    else some (.text ['$'], cs)
  | [] => some (.text ['$'], [])

/-- Whether a backslash between double quotes escapes a character. -/
def isEscaped (c : Char) : Bool := c == '$' || c == '\x60' || c == '"' || c == '\\'

/-- The parts up to a closing double quote, read in at most `fuel` steps. -/
def quoted? : Nat → List Char → Option (List Part × List Char)
  | 0, _ => none
  | fuel + 1, cs => do
    let (part, rest) ← match cs with
      | '"' :: rest => return ([.text []], rest)
      | '\\' :: '\n' :: rest => some (Part.text [], rest)
      | '\\' :: c :: rest => some (.text (if isEscaped c then [c] else ['\\', c]), rest)
      | '$' :: rest => dollar? true rest
      | c :: rest => some (.text [c], rest)
      | [] => none
    let (parts, rest) ← quoted? fuel rest
    return (part :: parts, rest)

/-- The parts of a word, read in at most `fuel` steps. -/
def word? : Nat → List Char → Option (List Part × List Char)
  | 0, _ => none
  | fuel + 1, cs => do
    let (first, rest) ← match cs with
      | [] => return ([], [])
      | '\'' :: rest =>
        if rest.contains '\'' then
          some ([Part.text (rest.takeWhile (· ≠ '\''))], (rest.dropWhile (· ≠ '\'')).drop 1)
        else none
      | '"' :: rest => quoted? (rest.length + 1) rest
      | '\\' :: '\n' :: rest => some ([], rest)
      | '\\' :: c :: rest => some ([.text [c]], rest)
      | '$' :: rest => (dollar? false rest).map fun (part, rest) => ([part], rest)
      | c :: rest => if endsWord c then return ([], cs) else some ([.text [c]], rest)
    let (parts, rest) ← word? fuel rest
    return (first ++ parts, rest)

/-- The operator at the front. -/
def operator? : List Char → Option (String × List Char)
  | '&' :: '&' :: cs => some ("&&", cs)
  | '|' :: '|' :: cs => some ("||", cs)
  | '>' :: '&' :: cs => some (">&", cs)
  | '>' :: '>' :: cs => some (">", cs)
  | '>' :: cs => some (">", cs)
  | '|' :: cs => some ("|", cs)
  | ';' :: cs => some (";", cs)
  | '\n' :: cs => some (";", cs)
  | _ => none

/-- The tokens of code, read in at most `fuel` steps. -/
def tokensFrom? : Nat → List Char → Option (List Token)
  | 0, _ => none
  | fuel + 1, cs =>
    match cs with
    | [] => some []
    | ' ' :: rest => tokensFrom? fuel rest
    | '\t' :: rest => tokensFrom? fuel rest
    | '\\' :: '\n' :: rest => tokensFrom? fuel rest
    | '#' :: rest => tokensFrom? fuel (rest.dropWhile (· ≠ '\n'))
    | '2' :: '>' :: rest => do
      let ts ← tokensFrom? fuel ('>' :: rest)
      return .operator "2" :: ts
    | '1' :: '>' :: rest => tokensFrom? fuel ('>' :: rest)
    | _ =>
      match operator? cs with
      | some (s, rest) => do
        let ts ← tokensFrom? fuel rest
        return .operator s :: ts
      | none => do
        let (parts, rest) ← word? (cs.length + 1) cs
        if rest.length < cs.length then
          let ts ← tokensFrom? fuel rest
          return .word parts :: ts
        else none

/-- The tokens of code. -/
def tokens? (code : String) : Option (List Token) :=
  let cs := code.toList
  tokensFrom? (cs.length + 1) cs

end TabStop.Shell
