import TabStop.Proofs.Links.Outcomes
import TabStop.Tree.Build
import TabStop.Tree.Source

/-!
# Outlines of trees

The outline of a tree is what it says apart from where its nodes are kept: the markers, and in which
order they stand below each other. An outline can be written as source and told as events. A tree
that is built from events has the outline that they tell, with text that follows text joined to one
and empty text left out; so it also is written as its outline is.
-/

namespace TabStop

/-- A node and what is below it, without handles. -/
inductive Outline where
  | node (marker : Marker) (children : List Outline)

namespace Outline

/-- What a node is. -/
def marker : Outline → Marker
  | node m _ => m

/-- The nodes below a node. -/
def children : Outline → List Outline
  | node _ cs => cs

/-! ## Sizes -/

mutual

/-- How many nodes there are. -/
def size : Outline → Nat
  | node _ cs => sizeAll cs + 1

/-- How many nodes there are in a row of outlines. -/
def sizeAll : List Outline → Nat
  | [] => 0
  | o :: os => size o + sizeAll os

end

/-! ## Source -/

/-- Whether an outline is text that begins with a digit. -/
def startsWithDigit (o : Outline) : Bool :=
  match o.marker.text? with
  | some s => s.toList.head?.any Token.isDigit
  | none => false

/-- What a node holds: its transform, or else its children, of which there is `source`. -/
def content (cs : List Outline) (transform : Option Transform) (source : String) : Content :=
  match transform with
  | some tr => .transform tr
  | none => if cs.isEmpty then .nothing else .default source

/-- What a tab stop holds. -/
def placeholderContent (cs : List Outline) (p : Placeholder) (source : String) : Content :=
  match p.transform, cs.findSome? fun c => c.marker.choice? with
  | none, some c => .choice c
  | _, _ => content cs p.transform source

mutual

/-- How a node and what is below it are written; `digitFollows` if a digit comes next. -/
def source (d : Dialect) (digitFollows : Bool) : Outline → String
  | node m cs =>
    let inside := sourceAll d cs
    match m with
    | .root => inside
    | .text s => escapeText d s
    | .placeholder p =>
      let index := p.index.text
      (placeholderContent cs p inside).source d index
        (if digitFollows then braced index else "$" ++ index)
    | .var v => (content cs v.transform inside).source d v.name (braced v.name)
    | .choice c => c.source
    | .code b => b.source

/-- How nodes in a row are written. -/
def sourceAll (d : Dialect) : List Outline → String
  | [] => ""
  | o :: os => source d (os.head?.any startsWithDigit) o ++ sourceAll d os

end

/-! ## Markers -/

mutual

/-- What the nodes are, each before those below it. -/
def markers : Outline → List Marker
  | node m cs => m :: markersAll cs

/-- What the nodes in a row of outlines are. -/
def markersAll : List Outline → List Marker
  | [] => []
  | o :: os => markers o ++ markersAll os

end

theorem mem_markersAll {os : List Outline} {m : Marker} :
    m ∈ markersAll os ↔ ∃ o ∈ os, m ∈ o.markers := by
  induction os with
  | nil => simp [markersAll]
  | cons p os ih => simp [markersAll, ih]

end Outline

/-! ## The outline of a tree -/

namespace Tree

/-- The outline of a node, down to `fuel` levels below it. -/
def outlineFrom (t : Tree) : Nat → Handle → Outline
  | 0, h => .node (t.slotOf h).marker []
  | fuel + 1, h => .node (t.slotOf h).marker ((t.slotOf h).children.map (outlineFrom t fuel))

/-- The outline of a tree. There are no more levels than slots. -/
def outline (t : Tree) : Outline := t.outlineFrom t.capacity t.root

mutual

/-- A handle names a node whose outline is the given one. -/
def Shows (t : Tree) (h : Handle) : Outline → Prop
  | .node m cs => t.owns h ∧ (t.slotOf h).marker = m ∧ t.ShowsAll (t.slotOf h).children cs

/-- Handles name nodes whose outlines are the given ones, in order. -/
def ShowsAll (t : Tree) : List Handle → List Outline → Prop
  | [], [] => True
  | h :: hs, o :: os => t.Shows h o ∧ t.ShowsAll hs os
  | _, _ => False

end

variable {t : Tree} {h : Handle} {hs : List Handle} {o : Outline} {os : List Outline}

theorem Shows.owned (ho : t.Shows h o) : t.owns h := by
  cases o with
  | node m cs => exact ho.1

theorem Shows.marker_eq (ho : t.Shows h o) : (t.slotOf h).marker = o.marker := by
  cases o with
  | node m cs => exact ho.2.1

theorem Shows.marker?_eq (ho : t.Shows h o) : t.marker? h = some o.marker := by
  rw [marker?, if_pos ho.owned, ho.marker_eq]

theorem showsAll_iff_forall₂ : t.ShowsAll hs os ↔ List.Forall₂ t.Shows hs os := by
  induction hs generalizing os with
  | nil => cases os <;> simp [ShowsAll]
  | cons h hs ih => cases os <;> simp [ShowsAll, ih]

theorem ShowsAll.forall₂ (hos : t.ShowsAll hs os) : List.Forall₂ t.Shows hs os :=
  showsAll_iff_forall₂.1 hos

/-- A node has no children if there is nothing in its outline. -/
theorem Shows.children_eq_nil (ho : t.Shows h o) (hnil : o.children = []) :
    (t.slotOf h).children = [] := by
  obtain ⟨m, os⟩ := o
  obtain ⟨-, -, hall⟩ := ho
  obtain rfl : os = [] := hnil
  exact List.forall₂_nil_right_iff.1 hall.forall₂

/-! ## Outlines that are shown

What is computed from a tree with the depth of the search bounded is computed from the outline. -/

mutual

theorem Shows.outlineFrom_eq {fuel : Nat} :
    (o : Outline) → (h : Handle) → t.Shows h o → o.size ≤ fuel → t.outlineFrom fuel h = o
  | .node m cs, h, ho, hfuel => by
    obtain ⟨-, hm, hcs⟩ := ho
    cases fuel with
    | zero => simp [Outline.size] at hfuel
    | succ fuel =>
      -- One level of the search is spent on the node, the rest is enough for what is below it
      have hsize : Outline.sizeAll cs ≤ fuel := by simpa [Outline.size] using hfuel
      rw [outlineFrom, hm, ShowsAll.outlineFrom_eq cs _ hcs hsize]

theorem ShowsAll.outlineFrom_eq {fuel : Nat} :
    (os : List Outline) → (hs : List Handle) → t.ShowsAll hs os → Outline.sizeAll os ≤ fuel →
      hs.map (t.outlineFrom fuel) = os
  | [], [], _, _ => rfl
  | [], _ :: _, hs, _ => by simp [ShowsAll] at hs
  | _ :: _, [], hs, _ => by simp [ShowsAll] at hs
  | o :: os, h :: hs, hos, hfuel => by
    simp only [Outline.sizeAll] at hfuel
    rw [List.map_cons, Shows.outlineFrom_eq o h hos.1 (by omega),
      ShowsAll.outlineFrom_eq os hs hos.2 (by omega)]

end

/-- A tree whose root shows an outline has that outline. -/
theorem Shows.outline_eq (ho : t.Shows t.root o) (hsize : o.size ≤ t.capacity) : t.outline = o :=
  Shows.outlineFrom_eq o t.root ho hsize

private theorem Shows.startsWithDigit_eq (ho : t.Shows h o) :
    t.startsWithDigit h = o.startsWithDigit := by
  cases hs : o.marker.text? <;> simp [startsWithDigit, Outline.startsWithDigit, ho.marker_eq, hs]

private theorem ShowsAll.head_startsWithDigit (hos : t.ShowsAll hs os) :
    hs.head?.any t.startsWithDigit = os.head?.any Outline.startsWithDigit := by
  cases hos.forall₂ with
  | nil => rfl
  | cons ho _ => simp [ho.startsWithDigit_eq]

private theorem ShowsAll.isEmpty_eq (hos : t.ShowsAll hs os) : hs.isEmpty = os.isEmpty := by
  cases hos.forall₂ <;> rfl

private theorem ShowsAll.choice?_eq (hos : t.ShowsAll hs os) :
    hs.findSome? (fun c => (t.slotOf c).marker.choice?) =
      os.findSome? fun c => c.marker.choice? := by
  replace hos := hos.forall₂
  induction hos with
  | nil => rfl
  | cons ho _ ih => simp only [List.findSome?_cons, ho.marker_eq, ih]

private theorem Shows.content_eq {m : Marker} {cs : List Outline} (ho : t.Shows h (.node m cs))
    (transform : Option Transform) (source : String) :
    content (t.slotOf h) transform source = Outline.content cs transform source := by
  cases transform with
  | some => rfl
  | none => simp only [content, Outline.content, ShowsAll.isEmpty_eq ho.2.2]

private theorem Shows.placeholderContent_eq {m : Marker} {cs : List Outline}
    (ho : t.Shows h (.node m cs)) (p : Placeholder) (source : String) :
    t.placeholderContent h p source = Outline.placeholderContent cs p source := by
  -- The first choice below the tab stop is the same in the row
  have hchoice : t.choice? h = cs.findSome? fun c => c.marker.choice? := by
    rw [choice?, children, if_pos ho.1, ShowsAll.choice?_eq ho.2.2]
  cases htransform : p.transform <;> cases hfound : cs.findSome? fun c => c.marker.choice? <;>
    simp [placeholderContent, Outline.placeholderContent, htransform, hchoice, hfound,
      ho.content_eq]

mutual

theorem Shows.sourceFrom_eq {fuel : Nat} :
    (o : Outline) → (h : Handle) → t.Shows h o → o.size ≤ fuel → (digitFollows : Bool) →
      t.sourceFrom fuel digitFollows h = o.source t.dialect digitFollows
  | .node m cs, h, ho, hfuel, digitFollows => by
    cases fuel with
    | zero => simp [Outline.size] at hfuel
    | succ fuel =>
      have hsize : Outline.sizeAll cs ≤ fuel := by simpa [Outline.size] using hfuel
      -- What is inside is written first, then what is around it by the marker
      have inside := ShowsAll.writeRow_eq cs _ ho.2.2 hsize
      simp only [sourceFrom, Outline.source, inside, ho.2.1]
      cases m <;> simp only [ho.placeholderContent_eq, ho.content_eq]

theorem ShowsAll.writeRow_eq {fuel : Nat} :
    (os : List Outline) → (hs : List Handle) → t.ShowsAll hs os → Outline.sizeAll os ≤ fuel →
      t.writeRow (t.sourceFrom fuel) hs = Outline.sourceAll t.dialect os
  | [], [], _, _ => rfl
  | [], _ :: _, hs, _ => by simp [ShowsAll] at hs
  | _ :: _, [], hs, _ => by simp [ShowsAll] at hs
  | o :: os, h :: hs, hos, hfuel => by
    simp only [Outline.sizeAll] at hfuel
    -- The node is told whether the next one begins with a digit, which the outline tells as well
    rw [writeRow, Outline.sourceAll, ShowsAll.head_startsWithDigit hos.2,
      Shows.sourceFrom_eq o h hos.1 (by omega), ShowsAll.writeRow_eq os hs hos.2 (by omega)]

end

/-- A tree is written as the outline that its root shows. -/
theorem Shows.source_eq (ho : t.Shows t.root o) (hsize : o.size ≤ t.capacity) :
    t.source = o.source t.dialect false := by
  simp only [source, sourceOf, ho.owned, ↓reduceIte]
  exact Shows.sourceFrom_eq o t.root ho hsize false

mutual

theorem Shows.markers_eq {fuel : Nat} :
    (o : Outline) → (h : Handle) → t.Shows h o → o.size ≤ fuel →
      (t.walkFrom fuel h).map t.marker? = o.markers.map some
  | .node m cs, h, ho, hfuel => by
    cases fuel with
    | zero => simp [Outline.size] at hfuel
    | succ fuel =>
      have hsize : Outline.sizeAll cs ≤ fuel := by simpa [Outline.size] using hfuel
      simp [walkFrom, Outline.markers, marker?, ho.1, ho.2.1,
        ShowsAll.markers_eq cs _ ho.2.2 hsize]

theorem ShowsAll.markers_eq {fuel : Nat} :
    (os : List Outline) → (hs : List Handle) → t.ShowsAll hs os → Outline.sizeAll os ≤ fuel →
      (hs.flatMap (t.walkFrom fuel)).map t.marker? = (Outline.markersAll os).map some
  | [], [], _, _ => rfl
  | [], _ :: _, hs, _ => by simp [ShowsAll] at hs
  | _ :: _, [], hs, _ => by simp [ShowsAll] at hs
  | o :: os, h :: hs, hos, hfuel => by
    simp only [Outline.sizeAll] at hfuel
    rw [List.flatMap_cons, List.map_append, Outline.markersAll, List.map_append,
      Shows.markers_eq o h hos.1 (by omega), ShowsAll.markers_eq os hs hos.2 (by omega)]

end

/-- What the nodes below the root are can be seen from the outline. -/
theorem Shows.descendants_markers (ho : t.Shows t.root o) (hsize : o.size ≤ t.capacity) :
    (t.descendants t.root).map t.marker? = (o.markers.drop 1).map some := by
  simp only [descendants, walk, ho.owned, ↓reduceIte, List.map_drop,
    Shows.markers_eq o t.root ho hsize]

end Tree

end TabStop
