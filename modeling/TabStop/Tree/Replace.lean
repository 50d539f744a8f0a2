import TabStop.Tree.Repeat

/-!
# Replacing what is in a node

The content of any attached node can be replaced by other nodes, new ones or nodes from elsewhere in
the snippet. That is refused if a tab stop would get inside one of its own index, or if an index would
get a second primary tab stop.
-/

namespace TabStop.Tree

/-- The tab stops among nodes and what is below them. -/
def placeholdersIn (t : Tree) (hs : List Handle) : List Handle :=
  (hs.flatMap t.walk).filter fun h => (t.placeholder? h).isSome

/-- The indexes of the tab stops that a node is or is in. -/
def indexesAround (t : Tree) (h : Handle) : List TabIndex :=
  (h :: t.ancestors h).filterMap t.index?

/-- The indexes whose primary tab stop stays when the content of a node is replaced by the tab stops
`incoming`. -/
def claimedIndexes (t : Tree) (h : Handle) (incoming : List Handle) : List TabIndex :=
  (t.primaries.filter fun p =>
    !incoming.contains p && !(t.isAncestorOrSelf h p && p != h)).filterMap t.index?

/-- Goes through tab stops that come in. `around` are the indexes that may not come in, `claimed` those
that have a primary tab stop. -/
def checkIncoming (around claimed : List TabIndex) : List Placeholder → Except EditError Unit
  | [] => .ok ()
  | p :: ps =>
    if p.index.isFinal then checkIncoming around claimed ps
    else if around.contains p.index then .error (.ancestorIndex p.index)
    else if p.primary then
      if claimed.contains p.index then .error (.duplicatePrimary p.index)
      else checkIncoming around (p.index :: claimed) ps
    else checkIncoming around claimed ps

/-- Fails unless the content of a node may be replaced by other nodes. -/
def checkReplace (h : Handle) (children : List Handle) : Edit Unit := do
  check h
  let t ← get
  if !t.isAttached h then throw (.detached h)
  children.forM check
  let incoming := t.placeholdersIn children
  match checkIncoming (t.indexesAround h) (t.claimedIndexes h incoming)
      (incoming.filterMap t.placeholder?) with
  | .ok _ => return
  | .error e => throw e

/-- Replaces what is in a node by other nodes, chooses the primary tab stops, and brings the others up
to date. -/
def replaceSubtree (h : Handle) (children : List Handle) : Edit Unit := do
  checkReplace h children
  overwrite h children
  modify settle

end TabStop.Tree
