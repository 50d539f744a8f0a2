/-!
# Snippet dialects

A snippet is written in one of two dialects. They share tab stops, placeholders, choices and
transforms; UltiSnips adds code blocks, conditional replacements and case directives, and knows
the single variable `VISUAL`.
-/

namespace TabStop

/-- The grammar that a snippet is written in. -/
inductive Dialect where
  | textMate
  | ultiSnips
  deriving DecidableEq, Repr, Inhabited

namespace Dialect

/-- Whether the dialect has code blocks, conditions and case directives. -/
def isUltiSnips : Dialect → Bool
  | textMate => false
  | ultiSnips => true

/-- Whether `name` reads as a variable: every name does in TextMate, only `VISUAL` in UltiSnips. -/
def acceptsVariable (d : Dialect) (name : String) : Bool :=
  match d with
  | textMate => true
  | ultiSnips => name == "VISUAL"

end Dialect

end TabStop
