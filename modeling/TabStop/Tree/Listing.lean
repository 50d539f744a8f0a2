import TabStop.Text.Quoted
import TabStop.Tree.Basic

/-!
# Listings of trees

A tree as text, with a line for each node. Nodes stand below the node that they are in and further to
the right.
-/

namespace TabStop

/-- The name of a language. -/
def CodeKind.name : CodeKind → String
  | shell => "Shell"
  | vim => "Vim"
  | python => "Python"

/-- A value behind what it is the value of. -/
def withValue (label : String) : Option String → String
  | some value => label ++ " = " ++ Text.quoted value
  | none => label

/-- What a listing says of a node. -/
def Marker.label (d : Dialect) : Marker → String
  | root => "Snippet"
  | text s => "Text " ++ Text.quoted s
  | placeholder p =>
    "Placeholder " ++ p.index.text ++ (if p.primary then " primary" else "") ++
      (match p.transform with
      | some t => " /" ++ t.source d
      | none => "")
  | var v => withValue ("Variable " ++ v.name) v.value
  | choice c => "Choice " ++ Text.quotedList c.options
  | code b => withValue ("CodeBlock " ++ b.kind.name ++ " " ++ Text.quoted b.code) b.value

namespace Tree

/-- The lines of a node and what is below it, down to `fuel` levels. -/
def listFrom (t : Tree) : Nat → Nat → Handle → String
  | 0, _, _ => ""
  | fuel + 1, depth, h =>
    match t.marker? h with
    | some m =>
      String.join (List.replicate depth "  ") ++ m.label t.dialect ++ "\n" ++
        String.join ((t.children h).map (listFrom t fuel (depth + 1)))
    | none => ""

/-- The listing of a tree. -/
def listing (t : Tree) : String := t.listFrom t.capacity 0 t.root

end Tree

end TabStop
