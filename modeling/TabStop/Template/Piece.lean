import TabStop.Dialect
import TabStop.Template.CaseDirective
import TabStop.Template.Shorthand

/-!
# Replacement templates

A template is what replaces a match: literal text, case directives, references to groups and
conditions on groups. A group that took no part in the match counts as empty, and a condition asks
whether a group matched something that is not empty.

A condition whose branches are literal text is kept as such, `textCondition`; any other one holds
templates, `condition`.
-/

namespace TabStop

/-- The groups of a match; the first is the match itself. -/
abbrev Groups := List (Option String)

namespace Groups

/-- What group `i` matched; the empty text if it took no part or does not exist. -/
def text (groups : Groups) (i : Nat) : String := (groups[i]?.join).getD ""

/-- Whether group `i` matched something that is not empty. -/
def matched (groups : Groups) (i : Nat) : Bool := !(groups.text i).isEmpty

end Groups

/-- A reference to a group: `${1}`, `${1:/upcase}`, `${1:+if}`, `${1:-else}`, `${1:?if:else}`. -/
structure FormatString where
  index : Nat
  /-- The conversion to apply; it goes before the branches. -/
  shorthand : Option Shorthand := none
  /-- What stands for a group that is not empty, if not its text. -/
  ifText : Option String := none
  /-- What stands for an empty group. -/
  elseText : Option String := none
  deriving DecidableEq, Repr

namespace FormatString

/-- What the reference stands for when its group matched `value`. -/
def resolve (f : FormatString) (value : String) : String :=
  match f.shorthand with
  | some s => s.apply value
  | none => if value.isEmpty then f.elseText.getD "" else f.ifText.getD value

/-- Puts a backslash before the characters that satisfy `special`. -/
def escapeWith (special : Char → Bool) (s : String) : String :=
  String.ofList (s.toList.flatMap fun c => if special c then ['\\', c] else [c])

/-- Escapes the text of a branch. -/
def escapeBranch (s : String) : String := escapeWith (fun c => c == '$' || c == '}' || c == '\\') s

/-- The part of the notation after the index. -/
def suffix (f : FormatString) : String :=
  match f.shorthand, f.ifText, f.elseText with
  | some s, _, _ => ":/" ++ s.name
  | none, some a, some b => ":?" ++ escapeBranch a ++ ":" ++ escapeBranch b
  | none, some a, none => ":+" ++ escapeBranch a
  | none, none, some b => ":-" ++ escapeBranch b
  | none, none, none => ""

/-- How the reference is written. -/
def source (f : FormatString) : String := "$\x7b" ++ toString f.index ++ f.suffix ++ "\x7d"

end FormatString

/-- A piece of a template. -/
inductive Piece where
  | text (s : String)
  | directive (d : CaseDirective)
  | format (f : FormatString)
  | textCondition (index : Nat) (ifText elseText : String)
  | condition (index : Nat) (ifBranch elseBranch : List Piece)
  deriving Repr, Inhabited

namespace Piece

/-! ## Rendering -/

mutual

/-- The output of a piece for a match. -/
def render (groups : Groups) : Piece → List Segment
  | text s => [.text s]
  | directive d => [.directive d]
  | format f => [.text (f.resolve (groups.text f.index))]
  | textCondition i a b => [.text (if groups.matched i then a else b)]
  | condition i a b => if groups.matched i then renderAll groups a else renderAll groups b

/-- The output of a template for a match. -/
def renderAll (groups : Groups) : List Piece → List Segment
  | [] => []
  | p :: ps => render groups p ++ renderAll groups ps

end

/-! ## Notation -/

/-- Whether a character of literal text is escaped: what would end or start something in a
template. Parentheses and colons mean something in UltiSnips only. -/
def isSpecial (d : Dialect) (c : Char) : Bool :=
  match c with
  | '\\' | '/' | '$' | '}' => true
  | '(' | ')' | ':' => d.isUltiSnips
  | _ => false

/-- Literal text as it is written in a template. -/
def escapeText (d : Dialect) (s : String) : String := FormatString.escapeWith (isSpecial d) s

/-- A condition as it is written, its branches being given as written. -/
def conditionSource (index : Nat) (ifSource : String) (elseSource : Option String) : String :=
  "(?" ++ toString index ++ ":" ++ ifSource ++
    (match elseSource with | some s => ":" ++ s | none => "") ++ ")"

mutual

/-- How a piece is written. The branches of a condition are UltiSnips in either dialect. -/
def source (d : Dialect) : Piece → String
  | text s => escapeText d s
  | directive c => String.ofList ['\\', c.letter]
  | format f => f.source
  | textCondition i a b =>
    conditionSource i (escapeText .ultiSnips a)
      (if b.isEmpty then none else some (escapeText .ultiSnips b))
  | condition i a b =>
    conditionSource i (sourceAll .ultiSnips a)
      (if b.isEmpty then none else some (sourceAll .ultiSnips b))

/-- How a template is written. -/
def sourceAll (d : Dialect) : List Piece → String
  | [] => ""
  | p :: ps => source d p ++ sourceAll d ps

end

/-- Joins literal texts that follow each other. -/
def mergeText : List Piece → List Piece
  | [] => []
  | p :: ps =>
    match p, mergeText ps with
    | text a, text b :: rest => text (a ++ b) :: rest
    | p, rest => p :: rest

/-- The text of a branch that is at most literal text. -/
def plainText? : List Piece → Option String
  | [] => some ""
  | [text s] => some s
  | _ => none

/-- The condition with the given branches, kept as texts where they are no more than that. -/
def mkCondition (index : Nat) (ifBranch elseBranch : List Piece) : Piece :=
  match plainText? ifBranch, plainText? elseBranch with
  | some a, some b => textCondition index a b
  | _, _ => condition index ifBranch elseBranch

end Piece

end TabStop
