import TabStop.Grammar.Element
import TabStop.Tree.Edit

/-!
# Building a tree

The events of reading say how to build a tree: the nodes that have started and are not finished are
open, and what comes belongs to the last of them, or else to the root. Text that follows text becomes
part of it, and empty text is no node.
-/

namespace TabStop

/-- A tree that is being built, and the nodes that are open, the last one first. -/
structure Builder where
  tree : Tree
  openNodes : List Handle

namespace Builder

/-- The node that what comes belongs to. -/
def current (b : Builder) : Handle := b.openNodes.headD b.tree.root

/-- Makes a node the last child of the current one. -/
def attach (b : Builder) (m : Marker) : Handle × Builder :=
  let (h, t) := b.tree.alloc m
  (h, { b with tree := (Tree.appendChild b.current h).after t })

/-- Adds text to the current node. -/
def addText (b : Builder) (s : String) : Builder :=
  if s.isEmpty then b
  else
    let last := (b.tree.children b.current).getLast?
    match last.filter fun h => ((b.tree.marker? h).bind Marker.text?).isSome with
    | some h => { b with tree := b.tree.appendText h s }
    | none => (b.attach (.text s)).2

/-- Takes the next event. -/
def step (b : Builder) : Event → Builder
  | .start m =>
    let (h, b) := b.attach m
    { b with openNodes := h :: b.openNodes }
  | .text s => b.addText s
  | .finish => { b with openNodes := b.openNodes.tail }

end Builder

namespace Tree

/-- The tree that events tell to build. -/
def ofEvents (identity : Nat) (d : Dialect) (events : List Event) : Tree :=
  (events.foldl Builder.step ⟨empty identity d, []⟩).tree

/-- The tree of a source. -/
def ofSource (identity : Nat) (d : Dialect) (source : String) : Tree :=
  ofEvents identity d (Event.ofSource d source)

end Tree

end TabStop
