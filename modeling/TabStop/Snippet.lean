import TabStop.Template.CaseDirective
import TabStop.Tree.Build
import TabStop.Tree.Repeat
import TabStop.Tree.Source

/-!
# Snippets from source

A snippet is read, its primary tab stops are chosen, and the others repeat them. Plain text can be
escaped so that it reads back as itself, and a snippet can be reduced to the text that it shows.
-/

namespace TabStop

namespace Tree

/-- The snippet of a source, with a final tab stop added if that is wanted and there is none. -/
def ofSnippet (identity : Nat) (d : Dialect) (source : String) (final : Bool) : Tree :=
  let t := (ofSource identity d source).settle
  if final then t.insertFinal.2 else t

end Tree

namespace Snippet

/-- The text that a source shows before any variable is resolved and any code is run. UltiSnips
follows the case directives in it. -/
def flatten (d : Dialect) (source : String) : String :=
  let text := (Tree.ofSnippet 0 d source false).text
  match d with
  | .textMate => text
  | .ultiSnips => applyCaseDirectives text

/-- Characters that begin something in either dialect, or end a default. -/
def isSpecial (c : Char) : Bool := c == '\\' || c == '$' || c == '}'

/-- Writes a text so that it reads back as itself. -/
def escape (s : String) : String := escapeWhere isSpecial s

/-- The nodes before a final tab stop without anything in it at the end. -/
def dropFinal (t : Tree) (hs : List Handle) : List Handle :=
  match hs.getLast? with
  | some h => if t.isFinal h && (t.children h).isEmpty then hs.dropLast else hs
  | none => hs

/-- Whether there is nothing but text in a TextMate source, apart from a final tab stop at its end. -/
def isPlainText (source : String) : Bool :=
  let t := Tree.ofSource 0 .textMate source
  (dropFinal t (t.children t.root)).all fun h =>
    (t.walk h).all fun n =>
      match t.marker? n with
      | some (.text _) => true
      | some .root => true
      | _ => false

end Snippet

end TabStop
