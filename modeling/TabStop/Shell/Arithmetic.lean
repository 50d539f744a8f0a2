import TabStop.Decimal
import TabStop.Token

/-!
# Numeric expressions of the shell

Whole numbers and variables, joined by `+`, `-`, `*`, `/` and `%`, with parentheses. Division drops
the fraction, and there is none by zero.
-/

namespace TabStop.Shell

/-- Characters without blanks. -/
def withoutBlanks (s : String) : List Char := s.toList.filter fun c => !c.isWhitespace

/-- The whole number that a text stands for; zero for a text that stands for none. -/
def wholeOf (s : String) : Int :=
  match s.toList with
  | '-' :: ds => if ds.all Token.isDigit then -(Decimal.ofDigits ds : Int) else 0
  | ds => if ds.all Token.isDigit then Decimal.ofDigits ds else 0

/-- The result of an operation that binds tightly. -/
def multiply? (op : Char) (a b : Int) : Option Int :=
  if op = '*' then some (a * b)
  else if b = 0 then none
  else if op = '/' then some (a.tdiv b)
  else some (a.tmod b)

mutual

/-- Reads a number, a variable, a sign, or an expression in parentheses. -/
def operand? (vars : String → String) : Nat → List Char → Option (Int × List Char)
  | 0, _ => none
  | fuel + 1, cs =>
    match cs with
    | '-' :: rest => (operand? vars fuel rest).map fun (n, rest) => (-n, rest)
    | '+' :: rest => operand? vars fuel rest
    | '$' :: rest => operand? vars fuel rest
    | '(' :: rest => do
      match ← sum? vars fuel rest with
      | (n, ')' :: rest) => return (n, rest)
      | _ => none
    | c :: _ =>
      if Token.isDigit c then
        some (Decimal.ofDigits (cs.takeWhile Token.isDigit), cs.dropWhile Token.isDigit)
      else if Token.startsWord c then
        some (wholeOf (vars (String.ofList (cs.takeWhile Token.continuesWord))),
          cs.dropWhile Token.continuesWord)
      else none
    | [] => none

/-- Reads what follows a first factor. -/
def factors? (vars : String → String) : Nat → Int → List Char → Option (Int × List Char)
  | 0, _, _ => none
  | fuel + 1, n, cs =>
    match cs with
    | op :: rest =>
      if op = '*' ∨ op = '/' ∨ op = '%' then do
        let (m, rest) ← operand? vars fuel rest
        factors? vars fuel (← multiply? op n m) rest
      else some (n, cs)
    | [] => some (n, [])

/-- Reads what follows a first term. -/
def terms? (vars : String → String) : Nat → Int → List Char → Option (Int × List Char)
  | 0, _, _ => none
  | fuel + 1, n, cs =>
    match cs with
    | op :: rest =>
      if op = '+' ∨ op = '-' then do
        let (m, rest) ← operand? vars fuel rest
        let (m, rest) ← factors? vars fuel m rest
        terms? vars fuel (if op = '+' then n + m else n - m) rest
      else some (n, cs)
    | [] => some (n, [])

/-- Reads a sum. -/
def sum? (vars : String → String) : Nat → List Char → Option (Int × List Char)
  | 0, _ => none
  | fuel + 1, cs => do
    let (n, rest) ← operand? vars fuel cs
    let (n, rest) ← factors? vars fuel n rest
    terms? vars fuel n rest

end

/-- The value of an expression. -/
def evaluate? (vars : String → String) (expression : String) : Option Int :=
  let cs := withoutBlanks expression
  match sum? vars (4 * cs.length + 4) cs with
  | some (n, []) => some n
  | _ => none

end TabStop.Shell
