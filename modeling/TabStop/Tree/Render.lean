import TabStop.Tree.Basic

/-!
# The text of a tree

What a snippet shows is the text of its leaves in order. A variable that has a value shows it instead
of its children, which are hidden then.

Positions count characters from the start of the snippet. Nodes that are hidden or not attached have
no offset.
-/

namespace TabStop

/-- The text that a node shows instead of its children. -/
def Marker.ownText? : Marker → Option String
  | text s => some s
  | choice c => some c.shown
  | code b => some (b.value.getD "")
  | var v => v.value
  | root => none
  | placeholder _ => none

namespace Tree

/-! ## Text -/

/-- The text of a node, with what is shown down to `fuel` levels. -/
def renderFrom (t : Tree) : Nat → Handle → String
  | 0, _ => ""
  | fuel + 1, h =>
    let s := t.slotOf h
    match s.marker.ownText? with
    | some text => text
    | none => String.join (s.children.map (renderFrom t fuel))

/-- The text of the node that a handle points to, whether the handle is still good or not. -/
def renderSlot (t : Tree) (h : Handle) : String := t.renderFrom t.capacity h

/-- The text that a node and what is below it show. -/
def render (t : Tree) (h : Handle) : String := if t.owns h then t.renderSlot h else ""

/-- The text of the whole snippet. -/
def text (t : Tree) : String := t.render t.root

/-! ## Lengths and positions -/

/-- How many characters a node shows by itself, without its children. -/
def length (t : Tree) (h : Handle) : Nat :=
  (((t.marker? h).bind Marker.ownText?).getD "").length

/-- How many characters a node and what is below it show. -/
def subtreeLength (t : Tree) (h : Handle) : Nat := (t.render h).length

/-- Whether a variable with a value is above a node. -/
def isHidden (t : Tree) (h : Handle) : Bool :=
  (t.ancestors h).any fun a => ((t.var? a).bind (·.value)).isSome

/-- The siblings before a node. -/
def siblingsBefore (t : Tree) (h : Handle) : List Handle :=
  match t.parent? h with
  | some p => (t.slotOf p).children.takeWhile (· ≠ h)
  | none => []

/-- How many characters are shown before a node. -/
def offset? (t : Tree) (h : Handle) : Option Nat :=
  if t.isAttached h && !t.isHidden h then
    let before := (h :: t.ancestors h).flatMap t.siblingsBefore
    some ((before.map t.subtreeLength).foldr (· + ·) 0)
  else none

/-- The text before a node, from the start of a node that it is in. -/
def textBefore? (t : Tree) (boundary h : Handle) : Option String :=
  if t.isAttached h && t.isAncestorOrSelf boundary h then
    let path := ((h :: t.ancestors h).takeWhile (· ≠ boundary)).reverse
    some (String.join (path.map fun n => String.join ((t.siblingsBefore n).map t.renderSlot)))
  else none

end Tree

end TabStop
