import TabStop.Tree.Primary

/-!
# Repeated tab stops

A tab stop that is not the primary one of its index repeats the text of the primary one, changed by
its transform if it has one. A tab stop inside the primary one is emptied, since it would repeat
itself; one that the primary one is inside of is left alone.

A repeated text may stand in the primary tab stop of another index and change what is repeated there.
So all indexes are gone through again until nothing changes, but no more often than there are tab
stops, and once more. That also ends the work for snippets in which tab stops repeat each other in a
circle.
-/

namespace TabStop.Tree

/-! ## Overwriting -/

/-- Makes nodes the children of a node, and releases the children that have no other place now. -/
def overwrite (parent : Handle) (children : List Handle) : Edit Unit := do
  let old := (← get).children parent
  replaceChildren parent children
  old.forM fun h => do
    if ((← get).parent? h).isNone then discard (Edit.attempt (release h))

/-- A text as the children that show it. -/
def newText (s : String) : Edit (List Handle) := do
  if s.isEmpty then return [] else return [← new (.text s)]

/-- Makes a node show a text and nothing else, by new children; whether that could be done. -/
def overwriteText (t : Tree) (h : Handle) (s : String) : Bool × Tree :=
  match (do overwrite h (← newText s) : Edit Unit).perform t with
  | (.ok _, t) => (true, t)
  | (.error _, t) => (false, t)

/-- Makes a node show a text and nothing else; whether that changed anything. A node that shows one
text keeps the node for it. -/
def showText (t : Tree) (h : Handle) (s : String) : Bool × Tree :=
  match t.children h with
  | [] => if s.isEmpty then (false, t) else t.overwriteText h s
  | [only] =>
    match (t.marker? only).bind Marker.text?, s.isEmpty with
    | some old, false => if old = s then (false, t) else (true, t.setMarker only (.text s))
    | _, _ => t.overwriteText h s
  | _ => t.overwriteText h s

/-! ## Repeating -/

/-- What a tab stop shows that repeats the text `s` of a primary one. -/
def repeatedText (t : Tree) (primary h : Handle) (s : String) : String :=
  if t.isAncestorOrSelf primary h then ""
  else Transform.resolveBy ((t.placeholder? h).bind (·.transform)) s

/-- Makes one tab stop repeat the text `s` of a primary one, unless it is that one or around it. -/
def repeatAt (primary : Handle) (s : String) (st : Bool × Tree) (h : Handle) : Bool × Tree :=
  let t := st.2
  if t.isAncestorOrSelf h primary then st
  else
    let (changed, t) := t.showText h (t.repeatedText primary h s)
    (st.1 || changed, t)

/-- Makes all other tab stops of its index repeat a primary one; whether that changed anything. -/
def repeatPrimary (t : Tree) (primary : Handle) : Bool × Tree :=
  if !t.isAttached primary then (false, t)
  else
    match t.index? primary with
    | some i => (t.placeholdersOf i).foldl (repeatAt primary (t.render primary)) (false, t)
    | none => (false, t)

/-- Goes through all indexes once; whether that changed anything. -/
def repeatPass (t : Tree) : Bool × Tree :=
  t.primaries.foldl (fun st h =>
    if (st.2.index? h).any (!·.isFinal) then
      let (changed, t) := st.2.repeatPrimary h
      (st.1 || changed, t)
    else st) (false, t)

/-- Goes through all indexes until nothing changes, at most `n` times. -/
def repeatPasses : Nat → Tree → Tree
  | 0, t => t
  | n + 1, t =>
    let (changed, t) := t.repeatPass
    if changed then repeatPasses n t else t

/-- Brings all repeated tab stops up to date. -/
def repeatAll (t : Tree) : Tree := repeatPasses (t.placeholders.length + 1) t

/-- Chooses the primary tab stops and brings the others up to date. -/
def settle (t : Tree) : Tree := t.assignPrimaries.repeatAll

/-! ## Editing tab stops -/

/-- The tab stop that a node must be; it must be attached. -/
def placeholderOrFail (h : Handle) : Edit Placeholder := do
  check h
  let t ← get
  if !t.isAttached h then throw (.detached h)
  match t.placeholder? h with
  | some p => return p
  | none => throw (.notAPlaceholder h)

/-- Fails unless a node is an attached primary tab stop. -/
def checkPrimary (h : Handle) : Edit Unit := do
  if !(← placeholderOrFail h).primary then throw (.notPrimary h)

/-- Brings all repeated tab stops up to date after a primary one has been edited. -/
def update (primary : Handle) : Edit Unit := do
  checkPrimary primary
  modify repeatAll

/-- Replaces what is in a primary tab stop by a text, as typing does. -/
def typeText (primary : Handle) (s : String) : Edit Unit := do
  overwrite primary [← new (.text s)]
  update primary

end TabStop.Tree
