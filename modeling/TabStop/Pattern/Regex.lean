import TabStop.Pattern.Reader
import TabStop.Pattern.Search

/-!
# Compiled patterns

A pattern compiles if it can be read and its compiled form stays within the limit on its size.
Whether it does depends on the pattern and the flags alone.
-/

namespace TabStop

/-- A compiled regular expression. -/
structure Regex where
  program : Pattern.Program

namespace Regex

/-- Compiles a pattern; none if it is refused. -/
def compile? (flags : Pattern.Flags) (pattern : String) : Option Regex :=
  match Pattern.read? flags pattern.toList with
  | none => none
  | some parsed =>
    if parsed.node.size ≤ Pattern.Node.sizeLimit then
      some ⟨Pattern.Program.ofNode parsed.node parsed.groups⟩
    else none

/-- All matches in a text from left to right. -/
def findAll (r : Regex) (text : List Char) : List Pattern.Found := r.program.findAll text

end Regex

end TabStop
