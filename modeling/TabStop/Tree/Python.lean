import TabStop.Tree.Primary

/-!
# The order of python blocks

A python block in a primary tab stop makes the text of that tab stop, and may read the text of other
ones. The blocks run in the order of the document, so a block may read a tab stop only if that is not
made by a later block.
-/

namespace TabStop.Tree

/-- The code blocks in the order of the document. -/
def codeBlocks (t : Tree) : List Handle :=
  (t.descendants t.root).filter fun h => (t.code? h).isSome

/-- Whether a node is a python block. -/
def isPython (t : Tree) (h : Handle) : Bool := (t.code? h).any (·.kind == .python)

/-- The python blocks in the order of the document. -/
def pythonBlocks (t : Tree) : List Handle := (t.descendants t.root).filter t.isPython

/-- Whether there is a code block. -/
def hasCode (t : Tree) : Bool := !t.codeBlocks.isEmpty

/-- Whether there is a python block. -/
def hasPython (t : Tree) : Bool := !t.pythonBlocks.isEmpty

/-- The nearest tab stop around a node. -/
def nearestPlaceholder? (t : Tree) (h : Handle) : Option Placeholder :=
  (t.ancestors h).findSome? t.placeholder?

/-- The index whose text a block makes: that of the nearest tab stop around it, if that is a primary
one and not a final one. -/
def boundIndex? (t : Tree) (h : Handle) : Option TabIndex :=
  (t.nearestPlaceholder? h).bind fun p =>
    if p.primary && !p.index.isFinal then some p.index else none

/-- The tab stops that a block reads. -/
def related (t : Tree) (h : Handle) : List Nat := ((t.code? h).map (·.related)).getD []

/-- The python blocks that make the text of a tab stop, each with the index. -/
def boundBlocks (t : Tree) : List (Handle × TabIndex) :=
  t.pythonBlocks.filterMap fun h => (t.boundIndex? h).map fun i => (h, i)

/-- Whether a block reads an index that some block makes, but neither the block itself nor one of those
before it, which make the indexes `seen`. -/
def readsForward (t : Tree) (made seen : List TabIndex) (b : Handle × TabIndex) : Bool :=
  (t.related b.1).any fun n =>
    let i := TabIndex.ofNat n
    i != b.2 && made.contains i && !seen.contains i

/-- Whether no block reads an index that a later block makes. -/
def isOrdered (t : Tree) (made seen : List TabIndex) : List (Handle × TabIndex) → Bool
  | [] => true
  | b :: bs => !t.readsForward made seen b && isOrdered t made (b.2 :: seen) bs

/-- The python blocks that make the text of a tab stop, in the order in which they run; none if one of
them reads an index that a later one makes. -/
def orderedPythonBlocks (t : Tree) : List Handle :=
  let bound := t.boundBlocks
  if t.isOrdered (bound.map (·.2)) [] bound then bound.map (·.1) else []

end TabStop.Tree
