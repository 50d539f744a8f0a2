import TabStop.Tree.Basic

/-!
# Edits of a tree

An edit either succeeds or fails with an error; either way it leaves a tree. All handles are checked
before anything is changed. No edit repeats the text of tab stops elsewhere; that is done when an
edit is over.
-/

namespace TabStop

/-- Why an edit fails. -/
inductive EditError where
  /-- A handle that names no node of the tree. -/
  | foreign (h : Handle)
  /-- A node that is not attached. -/
  | detached (h : Handle)
  /-- A node that would get below itself. -/
  | cycle (parent child : Handle)
  /-- The root, which stays where it is. -/
  | root
  /-- A node that is to be released but has a parent. -/
  | attached (h : Handle)
  /-- A node that is no tab stop. -/
  | notAPlaceholder (h : Handle)
  /-- A tab stop that repeats another one's text. -/
  | notPrimary (h : Handle)
  /-- An index that would have two primary tab stops. -/
  | duplicatePrimary (index : TabIndex)
  /-- An index that would occur inside a tab stop of that index. -/
  | ancestorIndex (index : TabIndex)
  deriving DecidableEq

/-- The wording of an error, with `name` for the nodes in it. -/
def EditError.message (name : Handle → String) : EditError → String
  | foreign h => "node " ++ name h ++ " does not belong to this tree"
  | detached h => "node " ++ name h ++ " is not attached to the tree"
  | cycle p c => "moving node " ++ name c ++ " under " ++ name p ++ " would create a cycle"
  | root => "the root node cannot be moved or replaced"
  | attached h => "node " ++ name h ++ " is still attached"
  | notAPlaceholder h => "node " ++ name h ++ " is not a placeholder"
  | notPrimary h => "placeholder " ++ name h ++ " is a mirror, not the primary of its index"
  | duplicatePrimary i => "tab stop " ++ i.text ++ " would have two primary placeholders"
  | ancestorIndex i => "tab stop " ++ i.text ++ " is already used by an enclosing placeholder"

/-- An edit of a tree that may fail. What it has done before it fails stays done. -/
abbrev Edit := EStateM EditError Tree

namespace Edit

/-- Performs an edit; its result, and the tree after it. -/
def perform {α : Type} (e : Edit α) (t : Tree) : Except EditError α × Tree :=
  match e.run t with
  | .ok a t => (.ok a, t)
  | .error err t => (.error err, t)

/-- The tree after an edit, whether it fails or not. -/
def after {α : Type} (e : Edit α) (t : Tree) : Tree := (e.perform t).2

/-- Performs an edit as part of another one that does not fail with it. -/
def attempt (e : Edit Unit) : Edit Bool := tryCatch (do e; pure true) fun _ => pure false

end Edit

namespace Tree

/-! ## Single changes -/

/-- Fails unless the tree owns a handle. -/
def check (h : Handle) : Edit Unit := do
  if !(← get).owns h then throw (.foreign h)

/-- Changes the slot that a handle points to. -/
def modifySlot (t : Tree) (h : Handle) (f : Slot → Slot) : Tree :=
  { t with slots := t.slots.modify h.slot f }

/-- Sets the parent of a node. -/
def setParent (t : Tree) (h : Handle) (p : Option Handle) : Tree :=
  t.modifySlot h fun s => { s with parent := p }

/-- Sets the children of a node. -/
def setChildren (t : Tree) (h : Handle) (cs : List Handle) : Tree :=
  t.modifySlot h fun s => { s with children := cs }

/-- Sets what a node is. A handle that the tree does not own changes nothing. -/
def setMarker (t : Tree) (h : Handle) (m : Marker) : Tree :=
  if t.owns h then t.modifySlot h fun s => { s with marker := m } else t

/-! ## Getting and releasing nodes -/

/-- Makes a node that stands alone. The slot is the one given back last, or else a new one. -/
def alloc (t : Tree) (m : Marker) : Handle × Tree :=
  match t.free with
  | i :: free =>
    let t := { t with free, slots := t.slots.modify i fun s => { s with marker := m } }
    (⟨t.identity, i, (t.slots.getD i default).generation⟩, t)
  | [] => (⟨t.identity, t.slots.size, 0⟩, { t with slots := t.slots.push { marker := m } })

/-- Makes a node as part of an edit. -/
def new (m : Marker) : Edit Handle := modifyGet fun t => t.alloc m

/-- Gives back the slot of a node. -/
def freeSlot (t : Tree) (h : Handle) : Tree :=
  let t := t.modifySlot h fun s => { marker := .text "", generation := s.generation + 1 }
  { t with free := h.slot :: t.free }

/-- Releases a node and all below it. It must not have a parent. -/
def release (h : Handle) : Edit Unit := do
  check h
  let t ← get
  if h = t.root then throw .root
  if (t.slotOf h).parent.isSome then throw (.attached h)
  set ((t.walk h).foldl freeSlot t)

/-! ## Moving nodes -/

/-- Fails unless `child` may be put below `parent`. -/
def checkMove (parent child : Handle) : Edit Unit := do
  check parent
  check child
  let t ← get
  if child = t.root then throw .root
  if t.isAncestorOrSelf child parent then throw (.cycle parent child)

/-- Takes a node from its parent, if it has one. -/
def unlink (t : Tree) (h : Handle) : Tree :=
  match (t.slotOf h).parent with
  | none => t
  | some p => (t.setParent h none).modifySlot p fun s =>
      { s with children := s.children.filter (· ≠ h) }

/-- Takes a node from its parent; it and all below it can be attached again. -/
def detach (h : Handle) : Edit Unit := do
  check h
  if h = (← get).root then throw .root
  modify (·.unlink h)

/-- A list with a new item at place `i`, or at its end if it is shorter than that. -/
def insertAt (i : Nat) (h : Handle) (hs : List Handle) : List Handle :=
  hs.take i ++ h :: hs.drop i

/-- Puts a node among the children of another at place `i`, or behind them if there are fewer. It is
taken from where it is. -/
def insertChild (parent : Handle) (i : Nat) (child : Handle) : Edit Unit := do
  checkMove parent child
  modify fun t =>
    ((t.unlink child).modifySlot parent fun s =>
      { s with children := insertAt i child s.children }).setParent child (some parent)

/-- Puts a node behind the children of another. -/
def appendChild (parent child : Handle) : Edit Unit := do
  insertChild parent ((← get).children parent).length child

/-- Makes given nodes the children of a node. The children that it had stand alone then. -/
def replaceChildren (parent : Handle) (children : List Handle) : Edit Unit := do
  check parent
  children.forM (checkMove parent)
  modify fun t =>
    let old := (t.slotOf parent).children
    let t := old.foldl (fun t c => t.setParent c none) (t.setChildren parent [])
    let t := children.foldl (fun t c => (t.unlink c).setParent c (some parent)) t
    t.setChildren parent children

/-- Makes a node the only child of another. -/
def setOnlyChild (parent child : Handle) : Edit Unit := replaceChildren parent [child]

/-- The parent of a node that must have one. -/
def parentOrFail (h : Handle) : Edit Handle := do
  match (← get).parent? h with
  | some p => return p
  | none => throw (.detached h)

/-- The place of a node among its siblings. -/
def indexOrFail (h : Handle) : Edit Nat := do
  match (← get).indexInParent? h with
  | some i => return i
  | none => throw (.detached h)

/-- Puts a node in the place of another, which stands alone then. -/
def replaceWith (old replacement : Handle) : Edit Unit := do
  check old
  let parent ← parentOrFail old
  checkMove parent replacement
  if (← get).isAncestorOrSelf replacement old then throw (.cycle parent replacement)
  modify (·.unlink replacement)
  let i ← indexOrFail old
  modify fun t =>
    ((t.modifySlot parent fun s => { s with children := s.children.set i replacement }).setParent
      replacement (some parent)).setParent old none

/-! ## Text nodes -/

/-- Adds to the end of a text node. -/
def appendText (t : Tree) (h : Handle) (s : String) : Tree :=
  t.modifySlot h fun slot =>
    match slot.marker with
    | .text old => { slot with marker := .text (old ++ s) }
    | _ => slot

/-- Puts text right before a node: at the end of a text node that is there, or in a new one. -/
def insertBefore (h : Handle) (s : String) : Edit Unit := do
  check h
  let parent ← parentOrFail h
  let i ← indexOrFail h
  if s.isEmpty then return
  let t ← get
  let previous := if i = 0 then none else (t.slotOf parent).children[i - 1]?
  match previous.filter fun p => (t.slotOf p).marker.text?.isSome with
  | some p => set (t.appendText p s)
  | none =>
    let new ← new (.text s)
    insertChild parent i new

/-- Releases a child that its parent is about to forget. -/
def dropChild (h : Handle) : Edit Unit := do
  modify (·.setParent h none)
  release h

/-- Takes one child over into `kept`, the children that stay. Empty text is dropped, and text after
text is added to it, unless that is one of the first `start` children. What is below a child of
another kind is brought into order by `inside`. -/
def normalizeChild (inside : Handle → Edit Unit) (start : Nat) (kept : List Handle)
    (child : Handle) : Edit (List Handle) := do
  let t ← get
  match (t.slotOf child).marker.text? with
  | none =>
    inside child
    return kept ++ [child]
  | some s =>
    if s.isEmpty then
      dropChild child
      return kept
    else
      let last := if start < kept.length then kept.getLast? else none
      match last.filter fun l => (t.slotOf l).marker.text?.isSome with
      | some l =>
        modify (·.appendText l s)
        dropChild child
        return kept
      | none => return kept ++ [child]

/-- Joins text with the text before it and drops empty text, among the children of a node from place
`start` on, and down to `fuel` levels below them. -/
def normalizeFrom : Nat → Handle → Nat → Edit Unit
  | 0, _, _ => return
  | fuel + 1, h, start => do
    check h
    let children := ((← get).slotOf h).children
    let start := min start children.length
    let kept ← (children.drop start).foldlM
      (normalizeChild (fun c => normalizeFrom fuel c 0) start) (children.take start)
    modify (·.setChildren h kept)

/-- Joins text with the text before it and drops empty text, among the children of a node from place
`start` on, and everywhere below them. -/
def normalize (h : Handle) (start : Nat) : Edit Unit := do
  normalizeFrom (← get).capacity h start

end Tree

end TabStop
