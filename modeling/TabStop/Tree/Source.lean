import TabStop.Tree.Basic

/-!
# How a tree is written

Each node is written in the form that reads back as the same node. Characters of a text that would
begin something are escaped.
-/

namespace TabStop

/-! ## Text and options -/

/-- Characters of a text that are escaped: those that begin something, or end a default. -/
def Dialect.isSpecial (d : Dialect) (c : Char) : Bool :=
  c == '$' || c == '}' || c == '\\' || (d.isUltiSnips && c == '`')

/-- A text with a backslash before each character that satisfies `special`. -/
def escapeWhere (special : Char → Bool) (s : String) : String :=
  String.ofList (s.toList.flatMap fun c => if special c then ['\\', c] else [c])

/-- A text as it is written in a snippet. -/
def escapeText (d : Dialect) (s : String) : String := escapeWhere d.isSpecial s

namespace Choice

/-- Characters of an option that are escaped. -/
def isSpecial (c : Char) : Bool := c == '\\' || c == ',' || c == '|'

/-- The options as they are written, between bars. -/
def source (c : Choice) : String :=
  "|" ++ ",".intercalate (c.options.map (escapeWhere isSpecial)) ++ "|"

end Choice

namespace CodeKind

/-- What is written after the opening backtick. -/
def opening : CodeKind → String
  | shell => ""
  | vim => "!v "
  | python => "!p "

end CodeKind

/-- A code block as it is written. -/
def CodeBlock.source (b : CodeBlock) : String := "`" ++ b.kind.opening ++ b.code ++ "`"

/-! ## Nodes -/

/-- What a tab stop or variable holds besides its name. -/
inductive Content where
  | transform (t : Transform)
  | choice (c : Choice)
  | nothing
  /-- The source of its children. -/
  | default (source : String)

/-- A construct in braces. -/
def braced (s : String) : String := "$\x7b" ++ s ++ "\x7d"

/-- A tab stop or variable with what it holds. `short` is its form if it holds nothing. -/
def Content.source (d : Dialect) (name short : String) : Content → String
  | transform t => braced (name ++ "/" ++ t.source d)
  | choice c => braced (name ++ c.source)
  | nothing => short
  | default s => braced (name ++ ":" ++ s)

namespace Tree

/-- Whether a node is text that begins with a digit. -/
def startsWithDigit (t : Tree) (h : Handle) : Bool :=
  match (t.slotOf h).marker.text? with
  | some s => s.toList.head?.any Token.isDigit
  | none => false

/-- Writes nodes in a row. `write` is told whether a digit follows. -/
def writeRow (t : Tree) (write : Bool → Handle → String) : List Handle → String
  | [] => ""
  | h :: hs => write (hs.head?.any t.startsWithDigit) h ++ writeRow t write hs

/-- What a node holds: its transform, or else its children, of which there is `source`. -/
def content (s : Slot) (transform : Option Transform) (source : String) : Content :=
  match transform with
  | some tr => .transform tr
  | none => if s.children.isEmpty then .nothing else .default source

/-- What a tab stop holds. -/
def placeholderContent (t : Tree) (h : Handle) (p : Placeholder) (source : String) : Content :=
  match p.transform, t.choice? h with
  | none, some c => .choice c
  | _, _ => content (t.slotOf h) p.transform source

/-- Writes a node and what is below it, down to `fuel` levels. A tab stop with nothing in it needs
braces if a digit follows. -/
def sourceFrom (t : Tree) : Nat → Bool → Handle → String
  | 0, _, _ => ""
  | fuel + 1, digitFollows, h =>
    let s := t.slotOf h
    let inside := t.writeRow (sourceFrom t fuel) s.children
    match s.marker with
    | .root => inside
    | .text text => escapeText t.dialect text
    | .placeholder p =>
      let index := p.index.text
      (t.placeholderContent h p inside).source t.dialect index
        (if digitFollows then braced index else "$" ++ index)
    | .var v => (content s v.transform inside).source t.dialect v.name (braced v.name)
    | .choice c => c.source
    | .code b => b.source

/-- How a node and what is below it are written. -/
def sourceOf (t : Tree) (h : Handle) : String :=
  if t.owns h then t.sourceFrom t.capacity false h else ""

/-- How the whole snippet is written. -/
def source (t : Tree) : String := t.sourceOf t.root

end Tree

end TabStop
