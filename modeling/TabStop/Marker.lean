import TabStop.TabIndex
import TabStop.Transform

/-!
# Markers

What a node of a snippet is: text, a tab stop, a variable, the options of a choice, or a block of
code. The root of a snippet is a marker of its own.
-/

namespace TabStop

/-- A tab stop: `$1`, `${1:default}`, `${1|a,b|}`, `${1/pattern/template/}`. Of the tab stops with one
index, the primary one is edited and the others repeat its text. -/
structure Placeholder where
  index : TabIndex
  primary : Bool := false
  transform : Option Transform := none

/-- A variable: `$name`, `${name:default}`, `${name/pattern/template/}`. -/
structure Variable where
  name : String
  transform : Option Transform := none
  /-- What the variable stands for once it has been resolved, with the transform applied. -/
  value : Option String := none

/-- The options of `${1|a,b|}`; the first one is shown. -/
structure Choice where
  options : List String
  deriving DecidableEq, Repr

namespace Choice

/-- The option that is shown. -/
def shown (c : Choice) : String := c.options.headD ""

end Choice

/-- The languages of code blocks. -/
inductive CodeKind where
  /-- A command for the shell, in backticks. -/
  | shell
  /-- An expression for the editor, after `!v`. -/
  | vim
  /-- A program, after `!p`, that may read other tab stops. -/
  | python
  deriving DecidableEq, Repr

/-- Code whose output is text of the snippet. -/
structure CodeBlock where
  kind : CodeKind
  code : String
  /-- The output, once there is one. -/
  value : Option String := none
  deriving DecidableEq, Repr

/-- What a node is. -/
inductive Marker where
  | root
  | text (s : String)
  | placeholder (p : Placeholder)
  | var (v : Variable)
  | choice (c : Choice)
  | code (b : CodeBlock)

instance : Inhabited Marker := ⟨.text ""⟩

namespace Marker

/-- The text of a text node. -/
def text? : Marker → Option String
  | text s => some s
  | _ => none

/-- The tab stop that a node is. -/
def placeholder? : Marker → Option Placeholder
  | placeholder p => some p
  | _ => none

/-- The variable that a node is. -/
def var? : Marker → Option Variable
  | var v => some v
  | _ => none

/-- The choice that a node is. -/
def choice? : Marker → Option Choice
  | choice c => some c
  | _ => none

/-- The code block that a node is. -/
def code? : Marker → Option CodeBlock
  | code b => some b
  | _ => none

end Marker

namespace CodeBlock

/-- A number and the bracket after it, at the end of a reference to a tab stop. -/
def indexBefore? (cs : List Char) : Option Nat :=
  let digits := cs.takeWhile Unicode.decimalDigits.contains
  match cs.dropWhile Unicode.decimalDigits.contains with
  | ']' :: _ =>
    if digits.isEmpty ∨ ¬digits.all Token.isDigit then none
    else
      let n := Decimal.ofDigits digits
      if n ≤ TabIndex.maxWhole then some n else none
  | _ => none

/-- The tab stops that a text refers to as `t[1]`, in the order of the references. A reference does
not start inside a word; `before` says whether the character before is part of one. -/
def referencesFrom (before : Bool) : List Char → List Nat
  | [] => []
  | c :: cs =>
    let later := referencesFrom (Unicode.wordChars.contains c) cs
    match c, before, cs with
    | 't', false, '[' :: rest =>
      match indexBefore? rest with
      | some n => n :: later
      | none => later
    | _, _, _ => later

/-- Puts a number in its place in an ascending list, where it stands once. -/
def insertSorted (n : Nat) : List Nat → List Nat
  | [] => [n]
  | m :: ms => if n < m then n :: m :: ms else if n = m then m :: ms else m :: insertSorted n ms

/-- The tab stops that a python block reads, in ascending order and without repetition. -/
def related (b : CodeBlock) : List Nat :=
  match b.kind with
  | .python => (referencesFrom false b.code.toList).foldr insertSorted []
  | _ => []

end CodeBlock

end TabStop
