import TabStop.Tree.Repeat

/-!
# Resolving variables

Values of variables come from a resolver, which is asked for one name at a time in the order of the
document. What it answers may hang on what it has been asked before.

A variable with a value shows it and keeps its default, which is hidden; variables in it are not asked
for. A variable without value is made into something else. In TextMate it becomes a tab stop if it
has a default, and so does each later variable of the same name; all get one new index. In UltiSnips
its default takes its place. In both, one that has no default becomes its name.
-/

namespace TabStop

/-- What knows the values of variables. Given the names asked for before, the last one first, it
answers for a name. -/
abbrev Resolver := List String → String → Option String

/-- New indexes for variables without value: those that have been given out, and the next one. -/
structure Promotions where
  given : List (String × TabIndex)
  next : Nat

namespace Promotions

/-- Starts behind the highest index of the snippet, unless that is the last one. -/
def start? (t : Tree) : Option Promotions :=
  let highest := ((t.placeholders.filterMap t.index?).map TabIndex.floor).foldl max 0
  if highest < TabIndex.maxWhole then some ⟨[], highest + 1⟩ else none

/-- The index for a name: the one that it has been given, or else a new one, unless there is none left
after it. -/
def indexFor? (p : Promotions) (name : String) : Option (TabIndex × Promotions) :=
  match p.given.lookup name with
  | some i => some (i, p)
  | none =>
    if p.next < TabIndex.maxWhole then
      let i := TabIndex.ofNat p.next
      some (i, ⟨(name, i) :: p.given, p.next + 1⟩)
    else none

end Promotions

namespace Tree

/-- The variables in the order of the document. -/
def variableNodes (t : Tree) : List Handle :=
  (t.descendants t.root).filter fun h => (t.var? h).isSome

/-- Puts nodes among the children of a node, one after the other from place `i` on. -/
def insertAll (parent : Handle) (i : Nat) : List Handle → Edit Unit
  | [] => return
  | h :: hs => do
    insertChild parent i h
    insertAll parent (i + 1) hs

/-- Puts the children of a node in its place, and releases it. -/
def splice (h : Handle) : Edit Unit := do
  let t ← get
  match t.parent? h, t.indexInParent? h with
  | some parent, some i =>
    insertAll parent i (t.children h)
    detach h
    release h
    normalize parent 0
  | _, _ => return

/-- Makes a variable without value into something else. -/
def leaveUnresolved (p : Promotions) (h : Handle) (v : Variable) (t : Tree) :
    Option (Promotions × Tree) :=
  let hasDefault := !(t.children h).isEmpty
  let name := Transform.resolveBy v.transform v.name
  match t.dialect with
  | .ultiSnips =>
    if hasDefault then some (p, (splice h).after t)
    else some (p, t.setMarker h (.text name))
  | .textMate =>
    if hasDefault || (p.given.lookup v.name).isSome then
      (p.indexFor? v.name).map fun (index, p) =>
        (p, t.setMarker h (.placeholder { index, transform := v.transform }))
    else some (p, t.setMarker h (.text name))

end Tree

/-- A tree whose variables are being resolved: the names asked for, the last one first, the variables
that have got a value, and the new indexes. -/
structure Resolution where
  tree : Tree
  asked : List String := []
  resolved : List Handle := []
  promotions : Promotions

namespace Resolution

/-- Resolves one variable, if it is still there and not in the default of one that has been resolved.
There is no result if the indexes run out. -/
def step (r : Resolver) (st : Resolution) (h : Handle) : Option Resolution :=
  let t := st.tree
  if !t.isAttached h || st.resolved.any (t.isAncestorOrSelf · h) then some st
  else
    match t.var? h with
    | none => some st
    | some v =>
      let asked := v.name :: st.asked
      match r st.asked v.name with
      | some s =>
        some { st with
          asked
          tree := t.setMarker h (.var { v with value := some (Transform.resolveBy v.transform s) })
          resolved := st.resolved ++ [h] }
      | none =>
        (Tree.leaveUnresolved st.promotions h v t).map fun (promotions, tree) =>
          { st with asked, promotions, tree }

end Resolution

namespace Tree

/-- Resolves all variables; the names asked for, and the tree. There is no result if there are no
indexes left for new tab stops. -/
def resolveVariables? (r : Resolver) (t : Tree) : Option (List String × Tree) := do
  let promotions ← Promotions.start? t
  let st ← t.variableNodes.foldlM (Resolution.step r) { tree := t, promotions }
  return (st.asked.reverse, st.tree.settle)

end Tree

end TabStop
