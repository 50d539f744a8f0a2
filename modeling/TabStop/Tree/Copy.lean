import TabStop.Tree.Edit

/-!
# Copies of nodes and of trees

A node is copied with all that is below it. The copy is made of new nodes and stands alone, be it in
the same tree or in another one.

A whole tree is copied slot by slot. The copy has an identity of its own, so that the handles of
either tree mean nothing to the other; the node in the same place of the copy is its counterpart.
-/

namespace TabStop.Tree

/-! ## Nodes -/

/-- Puts a node without a parent behind the children of another. -/
def link (t : Tree) (parent child : Handle) : Tree :=
  (t.setParent child (some parent)).modifySlot parent fun s =>
    { s with children := s.children ++ [child] }

/-- Copies a node and what is below it, down to `fuel` levels. The node is one of `source`, which may
be the tree that is edited. -/
def copyFrom (source : Tree → Tree) : Nat → Handle → Edit Handle
  | 0, h => throw (.foreign h)
  | fuel + 1, h => do
    let t := source (← get)
    if !t.owns h then throw (.foreign h)
    let copy ← new (t.slotOf h).marker
    (t.slotOf h).children.forM fun c => do
      let child ← copyFrom source fuel c
      modify (·.link copy child)
    return copy

/-- Copies a node of another tree, with all below it. -/
def copyOf (other : Tree) (h : Handle) : Edit Handle := copyFrom (fun _ => other) other.capacity h

/-- Copies a node of this tree, with all below it. -/
def duplicate (h : Handle) : Edit Handle := do
  copyFrom id (← get).capacity h

/-! ## Trees -/

/-- The same place in a tree of another identity. -/
def rebase (identity : Nat) (h : Handle) : Handle := { h with tree := identity }

/-- A copy of the tree under another identity. -/
def copyAs (t : Tree) (identity : Nat) : Tree :=
  { t with
    identity
    slots := t.slots.map fun s =>
      { s with
        parent := s.parent.map (rebase identity)
        children := s.children.map (rebase identity) } }

/-- The handle of the node in the same place of this tree, if there is one. -/
def counterpart? (t : Tree) (h : Handle) : Option Handle :=
  let same := rebase t.identity h
  if t.owns same then some same else none

end TabStop.Tree
