import TabStop.Tree.Edit
import TabStop.Tree.Render

/-!
# Primary tab stops

Several tab stops may have one index. One of them is the primary one: the cursor goes there, and its
text is the value of the index. Final tab stops do not repeat each other, so each is a primary one.

Which tab stop is the primary one is not stored apart from the tree. It is read off the tab stops in
the order of the document, so no change of the tree leaves it out of date.
-/

namespace TabStop

/-- The texts of the indexes, in ascending order of the indexes. -/
abbrev Values := List (TabIndex × String)

namespace Values

/-- The text of an index. -/
def get? (vs : Values) (i : TabIndex) : Option String := vs.lookup i

/-- Adds the text of an index in its place. An index that has a text keeps it. -/
def add (i : TabIndex) (s : String) : Values → Values
  | [] => [(i, s)]
  | (j, r) :: vs =>
    if i = j then (j, r) :: vs
    else if i.before j then (i, s) :: (j, r) :: vs
    else (j, r) :: add i s vs

end Values

namespace Tree

/-! ## Reading -/

/-- The index of a tab stop. -/
def index? (t : Tree) (h : Handle) : Option TabIndex := (t.placeholder? h).map (·.index)

/-- Whether a node is a tab stop that is marked as the primary one. -/
def isPrimary (t : Tree) (h : Handle) : Bool := (t.placeholder? h).any (·.primary)

/-- Whether a node is a final tab stop. -/
def isFinal (t : Tree) (h : Handle) : Bool := (t.index? h).any (·.isFinal)

/-- The tab stops of an index in the order of the document. -/
def placeholdersOf (t : Tree) (i : TabIndex) : List Handle :=
  t.placeholders.filter fun h => t.index? h == some i

/-- The primary tab stops in the order of the document. -/
def primaries (t : Tree) : List Handle := t.placeholders.filter t.isPrimary

/-- The primary tab stop of an index. -/
def primary? (t : Tree) (i : TabIndex) : Option Handle := (t.placeholdersOf i).find? t.isPrimary

/-- The text of each index: what its primary tab stop shows. -/
def values (t : Tree) : Values :=
  t.primaries.foldl (fun vs h =>
    match t.index? h with
    | some i => vs.add i (t.render h)
    | none => vs) []

/-- The first of the items with the lowest index. -/
def lowest : List (TabIndex × Handle) → Option (TabIndex × Handle)
  | [] => none
  | x :: xs =>
    match lowest xs with
    | some y => if y.1.before x.1 then some y else some x
    | none => some x

/-- Where the cursor goes first: the primary tab stop with the lowest index, or else the first final
one. Tab stops that are hidden are passed over. -/
def first? (t : Tree) : Option Handle :=
  let shown := t.primaries.filter fun h => !t.isHidden h
  let numbered := (shown.filter fun h => !t.isFinal h).filterMap fun h =>
    (t.index? h).map fun i => (i, h)
  match lowest numbered with
  | some (_, h) => some h
  | none => t.placeholders.find? fun h => !t.isHidden h && t.isFinal h

/-! ## Choosing -/

/-- The one of the tab stops of an index that becomes the primary one: the one that is marked, if just
one is; else the first without transform that has something in it; else the first without
transform; else the first. -/
def choosePrimary (t : Tree) (hs : List Handle) : Option Handle :=
  match hs.filter t.isPrimary with
  | [h] => some h
  | _ =>
    let plain := hs.filter fun h => (t.placeholder? h).any (·.transform.isNone)
    (plain.find? fun h => !(t.children h).isEmpty) <|> plain.head? <|> hs.head?

/-- Marks a tab stop as the primary one, or as another. -/
def markPrimary (t : Tree) (h : Handle) (primary : Bool) : Tree :=
  match t.placeholder? h with
  | some p => t.setMarker h (.placeholder { p with primary })
  | none => t

/-- Gives each index one primary tab stop, and makes each final tab stop a primary one. -/
def assignPrimaries (t : Tree) : Tree :=
  t.placeholders.foldl (fun u h =>
    match t.index? h with
    | some i => u.markPrimary h (i.isFinal || t.choosePrimary (t.placeholdersOf i) == some h)
    | none => u) t

/-! ## The final tab stop -/

/-- Adds a final tab stop at the end unless there is one; whether it was added. -/
def insertFinal (t : Tree) : Bool × Tree :=
  if t.placeholders.any t.isFinal then (false, t)
  else
    match (do
      let h ← new (.placeholder { index := .final, primary := true })
      appendChild (← get).root h : Edit Unit).perform t with
    | (.ok _, t) => (true, t)
    | (.error _, t) => (false, t)

end Tree

end TabStop
