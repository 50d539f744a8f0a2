import TabStop.Unicode.Category

/-!
# Blanks and lines

Blanks are the white space of Unicode. A line ends before a line feed, and a carriage return right
before that line feed belongs to the line end; after the last line feed there is a line only if
there is text.
-/

namespace TabStop.Text

/-- A text without the blanks at its start. -/
def trimStart (cs : List Char) : List Char := cs.dropWhile Unicode.isSpace

/-- A text without the blanks at its end. -/
def trimEnd (cs : List Char) : List Char := (cs.reverse.dropWhile Unicode.isSpace).reverse

/-- A text without the blanks at its ends. -/
def trim (cs : List Char) : List Char := trimEnd (trimStart cs)

/-- Whether there is nothing but blanks in a text. -/
def isBlank (cs : List Char) : Bool := cs.all Unicode.isSpace

/-- A line without a carriage return at its end. -/
def dropReturn (line : List Char) : List Char :=
  if line.getLast? = some '\r' then line.dropLast else line

/-- The lines of a text; `line` is the one that has been begun. -/
def linesFrom (line : List Char) : List Char → List (List Char)
  | [] => if line.isEmpty then [] else [line]
  | c :: cs => if c = '\n' then dropReturn line :: linesFrom [] cs else linesFrom (line ++ [c]) cs

/-- The lines of a text, without what ends them. -/
def lines (cs : List Char) : List (List Char) := linesFrom [] cs

/-- Lines joined by line feeds. -/
def unlines : List (List Char) → List Char
  | [] => []
  | [l] => l
  | l :: ls => l ++ '\n' :: unlines ls

/-- How many bytes a text takes in UTF-8. -/
def byteLength : List Char → Nat
  | [] => 0
  | c :: cs => c.utf8Size + byteLength cs

/-- The text after its first `n` bytes, if that is where a character starts or the text ends. -/
def dropBytes? (n : Nat) : List Char → Option (List Char)
  | [] => if n = 0 then some [] else none
  | c :: cs =>
    if n = 0 then some (c :: cs)
    else if c.utf8Size ≤ n then dropBytes? (n - c.utf8Size) cs
    else none

/-- The bytes of blanks at the start of a line. -/
def indentation (line : List Char) : Nat := byteLength line - byteLength (trimStart line)

/-- The least indentation of the lines that are not blank. -/
def commonIndentation (ls : List (List Char)) : Nat :=
  ((ls.filter (!isBlank ·)).map indentation).min?.getD 0

/-- Takes the indentation that all lines share off each of them. A line that cannot be cut at that
place loses all blanks at its start. -/
def dedent (cs : List Char) : List Char :=
  let ls := lines cs
  let n := commonIndentation ls
  unlines (ls.map fun l => (dropBytes? n l).getD (trimStart l))

end TabStop.Text
