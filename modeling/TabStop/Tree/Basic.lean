import TabStop.Marker
import TabStop.Dialect

/-!
# Trees of markers

The nodes of a snippet live in the slots of a store and are named by handles. A node may be attached
to the root, or hang under another node that is not, or stand alone. A node that is released gives
its slot back, which a later node may get.

A handle names a node of one tree only: it carries the identity of the tree. It also carries the
generation of its slot, which goes up when the slot is given back, so that a handle which outlives
its node is recognized. All queries take any handle, and answer with nothing when the tree does not
own it.
-/

namespace TabStop

/-- The name of a node. -/
structure Handle where
  /-- The identity of the tree. -/
  tree : Nat
  slot : Nat
  generation : UInt32
  deriving DecidableEq, Repr

/-- A place for a node: the node, its links, and how often the place has been given back. -/
structure Slot where
  marker : Marker
  parent : Option Handle := none
  children : List Handle := []
  generation : UInt32 := 0
  deriving Inhabited

/-- A tree. Slot 0 holds the root; `free` lists the slots that have been given back, the last of
them first. -/
structure Tree where
  identity : Nat
  dialect : Dialect
  slots : Array Slot
  free : List Nat

namespace Tree

/-- A tree of nothing but its root. -/
def empty (identity : Nat) (dialect : Dialect) : Tree where
  identity := identity
  dialect := dialect
  slots := #[{ marker := .root }]
  free := []

/-- The handle of the root. -/
def root (t : Tree) : Handle := ⟨t.identity, 0, 0⟩

/-- How many slots there are, in use or free. -/
def capacity (t : Tree) : Nat := t.slots.size

/-- Whether a handle names a node of this tree that has not been released. -/
def owns (t : Tree) (h : Handle) : Bool :=
  h.tree == t.identity &&
    match t.slots[h.slot]? with
    | some s => s.generation == h.generation
    | none => false

/-- The slot that a handle points to, whether the handle is still good or not. -/
def slotOf (t : Tree) (h : Handle) : Slot := t.slots.getD h.slot default

/-! ## Nodes -/

/-- What a node is. -/
def marker? (t : Tree) (h : Handle) : Option Marker :=
  if t.owns h then some (t.slotOf h).marker else none

/-- The tab stop that a node is. -/
def placeholder? (t : Tree) (h : Handle) : Option Placeholder :=
  (t.marker? h).bind Marker.placeholder?

/-- The variable that a node is. -/
def var? (t : Tree) (h : Handle) : Option Variable := (t.marker? h).bind Marker.var?

/-- The code block that a node is. -/
def code? (t : Tree) (h : Handle) : Option CodeBlock := (t.marker? h).bind Marker.code?

/-- The children of a node in order. -/
def children (t : Tree) (h : Handle) : List Handle :=
  if t.owns h then (t.slotOf h).children else []

/-- The node that a node is a child of. -/
def parent? (t : Tree) (h : Handle) : Option Handle :=
  if t.owns h then (t.slotOf h).parent else none

/-- The place of a node among the children of its parent. -/
def indexInParent? (t : Tree) (h : Handle) : Option Nat :=
  (t.parent? h).bind fun p => (t.slotOf p).children.findIdx? (· == h)

/-- The choice that a tab stop offers: the first one among its children. -/
def choice? (t : Tree) (h : Handle) : Option Choice :=
  (t.children h).findSome? fun c => (t.slotOf c).marker.choice?

/-! ## Ancestors -/

/-- At most `fuel` nodes from `current` upwards. -/
def upwards (t : Tree) : Nat → Option Handle → List Handle
  | 0, _ => []
  | _, none => []
  | fuel + 1, some h => h :: upwards t fuel (t.slotOf h).parent

/-- The nodes above a node, the nearest first. There are no more of them than slots. -/
def ancestors (t : Tree) (h : Handle) : List Handle := t.upwards t.capacity (t.parent? h)

/-- Whether `a` is `h` or above it. -/
def isAncestorOrSelf (t : Tree) (a h : Handle) : Bool := a == h || (t.ancestors h).contains a

/-- Whether the root is above a node, or is it. -/
def isAttached (t : Tree) (h : Handle) : Bool :=
  t.owns h && (h == t.root || (t.ancestors h).getLast? == some t.root)

/-! ## Descendants -/

/-- A node and what is below it, down to `fuel` levels, each node before its children. -/
def walkFrom (t : Tree) : Nat → Handle → List Handle
  | 0, _ => []
  | fuel + 1, h => h :: (t.slotOf h).children.flatMap (walkFrom t fuel)

/-- A node and all nodes below it, each before its children. There are no more levels than slots. -/
def walk (t : Tree) (h : Handle) : List Handle :=
  if t.owns h then t.walkFrom t.capacity h else []

/-- All nodes below a node. -/
def descendants (t : Tree) (h : Handle) : List Handle := (t.walk h).drop 1

/-- The tab stops below the root in the order of the document. -/
def placeholders (t : Tree) : List Handle :=
  (t.descendants t.root).filter fun h => (t.placeholder? h).isSome

/-- The tab stops strictly above a node, the outermost first. -/
def enclosingPlaceholders (t : Tree) (h : Handle) : List Handle :=
  ((t.ancestors h).filter fun a => (t.placeholder? a).isSome).reverse

end Tree

end TabStop
