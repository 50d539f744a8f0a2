import TabStop.Proofs.Links.Outcomes
import TabStop.Proofs.Source.Outline
import TabStop.Tree.Build

/-!
# What events build

Events can be followed without a tree: a node that has started holds a row of outlines, text joins
the text at the end of the row, and a node that is finished goes to the end of the row around it. A
tree that is being built keeps its nodes in the order in which they have started, each right before
those in it, so what its slots hold can be told from the rows. Hence the tree that events build
shows the outline that they tell.
-/

namespace TabStop

/-! ## Following events without a tree -/

/-- A node that has started, with what stands in it so far. -/
structure Frame where
  marker : Marker
  row : List Outline

namespace Frame

/-- The node as it is if nothing more comes. -/
def close (f : Frame) : Outline := .node f.marker f.row

/-- How many nodes there are in a frame. -/
def size (f : Frame) : Nat := Outline.sizeAll f.row + 1

/-- Adds a node behind those in a frame. -/
def add (f : Frame) (o : Outline) : Frame := { f with row := f.row ++ [o] }

end Frame

namespace Outline

/-- A row of nodes with text behind it. -/
def addText (row : List Outline) (s : String) : List Outline :=
  if s.isEmpty then row
  else
    match row.getLast? with
    | some (node (.text r) cs) => row.dropLast ++ [node (.text (r ++ s)) cs]
    | _ => row ++ [node (.text s) []]

/-- Whether a node is no text. -/
def IsNode (o : Outline) : Prop := o.marker.text? = none

theorem addText_empty (row : List Outline) : addText row "" = row := by simp [addText]

theorem addText_text {s : String} (hs : s ≠ "") (row : List Outline) (r : String)
    (cs : List Outline) :
    addText (row ++ [node (.text r) cs]) s = row ++ [node (.text (r ++ s)) cs] := by
  simp [addText, hs]

theorem addText_nil {s : String} (hs : s ≠ "") : addText [] s = [node (.text s) []] := by
  simp [addText, hs]

theorem addText_node {s : String} (hs : s ≠ "") (row : List Outline) {o : Outline}
    (ho : o.IsNode) : addText (row ++ [o]) s = row ++ [o] ++ [node (.text s) []] := by
  obtain ⟨m, cs⟩ := o
  cases m with
  | text r => simp [IsNode, marker, Marker.text?] at ho
  | _ => simp [addText, hs]

/-- A row ends with text, or text behind it is a node of its own. -/
theorem addText_cases {s : String} (hs : s ≠ "") (row : List Outline) :
    (∃ init r cs, row = init ++ [node (.text r) cs] ∧
        addText row s = init ++ [node (.text (r ++ s)) cs]) ∨
      ((∀ o ∈ row.getLast?, o.IsNode) ∧ addText row s = row ++ [node (.text s) []]) := by
  -- The row is told apart by its end, where the text goes
  rcases List.eq_nil_or_concat row with rfl | ⟨init, o, rfl⟩
  · exact Or.inr ⟨by simp, addText_nil hs⟩
  · by_cases ho : o.IsNode
    · exact Or.inr ⟨by simpa using ho, by simpa using addText_node hs init ho⟩
    · obtain ⟨m, cs⟩ := o
      cases m with
      | text r => exact Or.inl ⟨init, r, cs, by simp, by simpa using addText_text hs init r cs⟩
      | _ => exact absurd rfl ho

theorem addText_of_isNode {s : String} (hs : s ≠ "") {row : List Outline}
    (hrow : ∀ o ∈ row.getLast?, o.IsNode) : addText row s = row ++ [node (.text s) []] := by
  rcases addText_cases hs row with ⟨init, r, cs, rfl, -⟩ | ⟨-, hadd⟩
  · have := hrow (node (.text r) cs) (by simp)
    simp [IsNode, marker, Marker.text?] at this
  · exact hadd

/-- Text that comes in two parts is joined. -/
theorem addText_append (row : List Outline) (r s : String) :
    addText (addText row r) s = addText row (r ++ s) := by
  by_cases hr : r = ""
  · subst hr; simp [addText_empty]
  by_cases hs : s = ""
  · subst hs; simp [addText_empty]
  -- The first part has made the end of the row a text, which the second part joins in both
  -- cases
  have hrs : r ++ s ≠ "" := by simp [hr]
  rcases addText_cases hr row with ⟨init, q, cs, rfl, h⟩ | ⟨hrow, h⟩
  · rw [h, addText_text hs, addText_text hrs, String.append_assoc]
  · rw [h, addText_text hs]
    rcases List.eq_nil_or_concat row with rfl | ⟨init, o, rfl⟩
    · rw [addText_nil hrs]
      rfl
    · rw [List.concat_eq_append, addText_node hrs init (by simpa using hrow)]

end Outline

/-- The nodes that have started and are not finished: the last one, and those around it from the
inside out. The last of all is the root. -/
structure Draft where
  frame : Frame
  outer : List Frame

namespace Draft

/-- Nothing but the root. -/
def start : Draft := ⟨⟨.root, []⟩, []⟩

/-- Takes the next event. Nothing finishes the root. -/
def step (d : Draft) : Event → Draft
  | .start m => ⟨⟨m, []⟩, d.frame :: d.outer⟩
  | .text s => { d with frame := { d.frame with row := Outline.addText d.frame.row s } }
  | .finish =>
    match d.outer with
    | [] => d
    | f :: outer => ⟨f.add d.frame.close, outer⟩

/-- Takes events one by one. -/
def run (d : Draft) (es : List Event) : Draft := es.foldl step d

/-- What has been told, with all nodes finished. -/
def closeFrom (f : Frame) : List Frame → Outline
  | [] => f.close
  | g :: outer => closeFrom (g.add f.close) outer

/-- What has been told, with all nodes finished. -/
def close (d : Draft) : Outline := closeFrom d.frame d.outer

@[simp] theorem run_cons (d : Draft) (e : Event) (es : List Event) :
    d.run (e :: es) = (d.step e).run es := rfl

theorem run_append (d : Draft) (es fs : List Event) : d.run (es ++ fs) = (d.run es).run fs := by
  simp [run]

end Draft

/-- Events turn the row of nodes in the current node into another row, and touch nothing else. -/
def Event.Tells (es : List Event) (row row' : List Outline) : Prop :=
  ∀ m outer, Draft.run ⟨⟨m, row⟩, outer⟩ es = ⟨⟨m, row'⟩, outer⟩

namespace Event

variable {es fs : List Event} {row row' row'' cs : List Outline}

theorem Tells.nil (row : List Outline) : Tells [] row row := fun _ _ => rfl

theorem Tells.append (h : Tells es row row') (h' : Tells fs row' row'') :
    Tells (es ++ fs) row row'' := by
  intro m outer
  rw [Draft.run_append, h, h']

theorem tells_text (s : String) (row : List Outline) :
    Tells [.text s] row (Outline.addText row s) := fun _ _ => rfl

theorem tells_node (m : Marker) (h : Tells es [] cs) (row : List Outline) :
    Tells (.start m :: es ++ [.finish]) row (row ++ [.node m cs]) := by
  intro n outer
  rw [List.cons_append, Draft.run_cons, Draft.run_append]
  simp only [Draft.step]
  rw [h]
  rfl

theorem tells_leaf (m : Marker) (row : List Outline) :
    Tells (leaf m) row (row ++ [.node m []]) := tells_node m (.nil []) row

end Event

/-! ## What the slots hold -/

namespace Outline

/-- The handles of nodes in a row, if the nodes are kept from `start` on, each right before those
below it. -/
def handles (identity start : Nat) : List Outline → List Handle
  | [] => []
  | o :: os => ⟨identity, start, 0⟩ :: handles identity (start + o.size) os

mutual

/-- What the slots of a node and of those below it hold, from `start` on. -/
def slots (identity : Nat) (parent : Option Handle) (start : Nat) : Outline → List Slot
  | node marker cs =>
    { marker, parent, children := handles identity (start + 1) cs } ::
      slotsAll identity (some ⟨identity, start, 0⟩) (start + 1) cs

/-- What the slots of nodes in a row hold, from `start` on. -/
def slotsAll (identity : Nat) (parent : Option Handle) (start : Nat) : List Outline → List Slot
  | [] => []
  | o :: os => slots identity parent start o ++ slotsAll identity parent (start + o.size) os

end

variable {identity : Nat} {parent : Option Handle} {start : Nat}

mutual

theorem length_slots {parent : Option Handle} {start : Nat} :
    (o : Outline) → (slots identity parent start o).length = o.size
  | node m cs => by rw [slots, List.length_cons, length_slotsAll cs, size]

theorem length_slotsAll {parent : Option Handle} {start : Nat} :
    (os : List Outline) → (slotsAll identity parent start os).length = sizeAll os
  | [] => rfl
  | o :: os => by rw [slotsAll, List.length_append, length_slots o, length_slotsAll os, sizeAll]

end

theorem handles_append (os ps : List Outline) :
    handles identity start (os ++ ps) =
      handles identity start os ++ handles identity (start + sizeAll os) ps := by
  induction os generalizing start with
  | nil => rfl
  | cons o os ih => simp [handles, sizeAll, ih, Nat.add_assoc]

theorem slotsAll_append (os ps : List Outline) :
    slotsAll identity parent start (os ++ ps) =
      slotsAll identity parent start os ++
        slotsAll identity parent (start + sizeAll os) ps := by
  induction os generalizing start with
  | nil => rfl
  | cons o os ih => simp [slotsAll, sizeAll, ih, Nat.add_assoc]

mutual

/-- A node below another has a parent that comes before it. -/
theorem parent_lt_of_mem_slots {bound : Nat} {parent : Option Handle} {start : Nat} {s : Slot} :
    (o : Outline) → (∀ p ∈ parent, p.slot < bound) → start + o.size ≤ bound →
      s ∈ slots identity parent start o → ∀ p ∈ s.parent, p.slot < bound
  | node m cs, hparent, hbound, hs => by
    simp only [size] at hbound
    rcases List.mem_cons.1 hs with rfl | hs
    · exact hparent
    · exact parent_lt_of_mem_slotsAll cs (by simp; omega) (by omega) hs

theorem parent_lt_of_mem_slotsAll {bound : Nat} {parent : Option Handle} {start : Nat}
    {s : Slot} :
    (os : List Outline) → (∀ p ∈ parent, p.slot < bound) → start + sizeAll os ≤ bound →
      s ∈ slotsAll identity parent start os → ∀ p ∈ s.parent, p.slot < bound
  | [], _, _, hs => by simp [slotsAll] at hs
  | o :: os, hparent, hbound, hs => by
    simp only [sizeAll] at hbound
    rcases List.mem_append.1 hs with hs | hs
    · exact parent_lt_of_mem_slots o hparent (by omega) hs
    · exact parent_lt_of_mem_slotsAll os hparent (by omega) hs

end

mutual

/-- Of the slots of a node and of those below it, only the first one may name no parent. -/
theorem parent_isSome_of_mem_slots {parent : Option Handle} {start : Nat} {s : Slot} :
    (o : Outline) → parent.isSome → s ∈ slots identity parent start o → s.parent.isSome
  | node m cs, hparent, hs => by
    rcases List.mem_cons.1 hs with rfl | hs
    · exact hparent
    · exact parent_isSome_of_mem_slotsAll cs rfl hs

theorem parent_isSome_of_mem_slotsAll {parent : Option Handle} {start : Nat} {s : Slot} :
    (os : List Outline) → parent.isSome → s ∈ slotsAll identity parent start os → s.parent.isSome
  | [], _, hs => by simp [slotsAll] at hs
  | o :: os, hparent, hs => by
    rcases List.mem_append.1 hs with hs | hs
    · exact parent_isSome_of_mem_slots o hparent hs
    · exact parent_isSome_of_mem_slotsAll os hparent hs

end

end Outline

namespace Draft

variable (identity : Nat)

/-- How many nodes there are in frames. -/
def total : List Frame → Nat
  | [] => 0
  | f :: outer => total outer + f.size

/-- The handle of a node that has started inside others. -/
def handleIn (outer : List Frame) : Handle := ⟨identity, total outer, 0⟩

/-- The handle of the last one of the nodes that have started. -/
def parentOf : List Frame → Option Handle
  | [] => none
  | _ :: outer => some (handleIn identity outer)

/-- What the slot of a node that has started holds; it has the children `more` besides those in the
frame. -/
def ownSlot (outer : List Frame) (f : Frame) (more : List Handle) : Slot where
  marker := f.marker
  parent := parentOf identity outer
  children := Outline.handles identity (total outer + 1) f.row ++ more

/-- What the slots of the nodes in a frame hold. -/
def insideSlots (outer : List Frame) (f : Frame) : List Slot :=
  Outline.slotsAll identity (some (handleIn identity outer)) (total outer + 1) f.row

/-- What the slots of all frames hold, from the outside in; each node has the next one as its last
child. -/
def slots (more : List Handle) : List Frame → List Slot
  | [] => []
  | f :: outer =>
    slots [handleIn identity outer] outer ++
      ownSlot identity outer f more :: insideSlots identity outer f

variable {identity}

theorem length_slots (more : List Handle) (fs : List Frame) :
    (slots identity more fs).length = total fs := by
  induction fs generalizing more with
  | nil => rfl
  | cons f outer ih =>
    rw [slots, List.length_append, ih, List.length_cons, insideSlots, Outline.length_slotsAll]
    rfl

theorem handleIn_slot (more : List Handle) (outer : List Frame) :
    (handleIn identity outer).slot = (slots identity more outer).length := by
  rw [length_slots]; rfl

/-- A frame that is finished keeps its slots as it goes into the frame around it. -/
theorem slots_add (f g : Frame) (outer : List Frame) :
    slots identity [] (f :: g :: outer) = slots identity [] (g.add f.close :: outer) := by
  -- The frame starts where the row around it ends, so its slots are in their places already
  have hstart : total outer + 1 + Outline.sizeAll g.row = total (g :: outer) := by
    simp only [total, Frame.size]; omega
  have handles : Outline.handles identity (total outer + 1) (g.row ++ [f.close]) =
      Outline.handles identity (total outer + 1) g.row ++ [handleIn identity (g :: outer)] := by
    rw [Outline.handles_append, hstart]
    rfl
  have inner : ownSlot identity (g :: outer) f [] :: insideSlots identity (g :: outer) f =
      Outline.slotsAll identity (some (handleIn identity outer)) (total (g :: outer))
        [f.close] := by
    simp only [ownSlot, insideSlots, Outline.slotsAll, Frame.close, Outline.slots, List.append_nil,
      parentOf]
    rfl
  rw [slots, slots, slots, List.append_assoc, inner]
  simp only [ownSlot, insideSlots, Frame.add, handles, List.append_nil, Outline.slotsAll_append,
    hstart, List.cons_append]

theorem slots_closeFrom (f : Frame) (outer : List Frame) :
    slots identity [] (f :: outer) = Outline.slots identity none 0 (closeFrom f outer) := by
  induction outer generalizing f with
  | nil =>
    -- Only the root is left, and nothing is around it
    simp [slots, ownSlot, insideSlots, closeFrom, Frame.close, Outline.slots, total, parentOf,
      handleIn]
  | cons g outer ih => rw [slots_add, ih, closeFrom]

theorem parent_lt_of_mem_slots {more : List Handle} {fs : List Frame} {s : Slot}
    (hs : s ∈ slots identity more fs) : ∀ p ∈ s.parent, p.slot < total fs := by
  induction fs generalizing more with
  | nil => simp [slots] at hs
  | cons f outer ih =>
    simp only [total, Frame.size]
    rcases List.mem_append.1 hs with hs | hs
    -- Slots of the frames outside name frames further outside
    · intro p hp
      have := ih hs p hp
      omega
    · rcases List.mem_cons.1 hs with rfl | hs
      · intro p hp
        cases outer with
        | nil => simp [ownSlot, parentOf] at hp
        | cons g outer =>
          simp only [ownSlot, parentOf, Option.mem_some_iff] at hp
          subst hp
          simp only [handleIn, total, Frame.size]
          omega
      · exact Outline.parent_lt_of_mem_slotsAll f.row (by simp [handleIn]) (by omega) hs

end Draft

/-! ## Trees that keep given slots -/

namespace Tree

/-- The tree that keeps the given slots, all of them in use. -/
def ofSlots (identity : Nat) (d : Dialect) (slots : List Slot) : Tree where
  identity := identity
  dialect := d
  slots := slots.toArray
  free := []

variable {identity : Nat} {d : Dialect} {before after : List Slot} {s : Slot} {h : Handle}

theorem slotOf_ofSlots (hs : h.slot = before.length) :
    (ofSlots identity d (before ++ s :: after)).slotOf h = s := by
  simp [ofSlots, slotOf, hs, Array.getD_eq_getD_getElem?]

theorem owns_ofSlots (hs : h.slot = before.length) (ht : h.tree = identity)
    (hg : s.generation = h.generation) : (ofSlots identity d (before ++ s :: after)).owns h := by
  rw [owns_iff, slotOf_ofSlots hs]
  exact ⟨ht, by simp [ofSlots, hs], hg⟩

theorem modifySlot_ofSlots (hs : h.slot = before.length) (f : Slot → Slot) :
    (ofSlots identity d (before ++ s :: after)).modifySlot h f =
      ofSlots identity d (before ++ f s :: after) := by
  simp [ofSlots, modifySlot, hs, List.modify_eq_take_cons_drop]

theorem alloc_ofSlots (m : Marker) (slots : List Slot) :
    (ofSlots identity d slots).alloc m =
      (⟨identity, slots.length, 0⟩, ofSlots identity d (slots ++ [{ marker := m }])) := by
  simp [ofSlots, alloc]

/-- Nothing is above a node but what some slot names as parent. -/
theorem mem_upwards {t : Tree} {fuel : Nat} {o : Option Handle} {a : Handle}
    (ha : a ∈ t.upwards fuel o) : o = some a ∨ ∃ s ∈ t.slots, s.parent = some a := by
  induction fuel generalizing o with
  | zero => simp [upwards] at ha
  | succ fuel ih =>
    cases o with
    | none => simp [upwards] at ha
    | some h =>
      rcases List.mem_cons.1 ha with rfl | ha
      · exact Or.inl rfl
      · rcases ih ha with hp | hp
        · right
          -- A slot past the end reads as one without a parent
          by_cases hs : h.slot < t.slots.size
          · refine ⟨_, Array.getElem_mem hs, ?_⟩
            simpa [slotOf, Array.getD, hs] using hp
          · simp [slotOf, Array.getD, hs] at hp
            cases hp
        · exact Or.inr hp

/-- The tree whose last slot holds a node that stands alone, put below the node `own` in due
course. -/
def withLast (identity : Nat) (d : Dialect) (before : List Slot) (own : Slot) (inside : List Slot)
    (last : Slot) : Tree := ofSlots identity d (before ++ own :: (inside ++ [last]))

variable {own last : Slot} {inside : List Slot} {parent : Handle}

/-- The handle of the node in the last slot. -/
def lastHandle (identity : Nat) (before inside : List Slot) : Handle :=
  ⟨identity, before.length + 1 + inside.length, 0⟩

theorem withLast_eq :
    withLast identity d before own inside last =
      ofSlots identity d ((before ++ own :: inside) ++ last :: []) := by
  simp [withLast]

theorem lastHandle_slot :
    (lastHandle identity before inside).slot = (before ++ own :: inside).length := by
  simp only [lastHandle, List.length_append, List.length_cons]
  omega

/-- Where no slot names it as parent, the last node is above nothing else. -/
theorem canMove_last (hslot : parent.slot = before.length) (htree : parent.tree = identity)
    (hgen : own.generation = parent.generation) (hlast : last.generation = 0)
    (hnone : last.parent = none)
    (hparents : ∀ s ∈ before ++ own :: inside, ∀ p ∈ s.parent,
      p.slot < before.length + 1 + inside.length) :
    (withLast identity d before own inside last).CanMove parent
      (lastHandle identity before inside) := by
  have howned : (withLast identity d before own inside last).owns parent :=
    owns_ofSlots hslot htree hgen
  have hown : (withLast identity d before own inside last).slotOf parent = own :=
    slotOf_ofSlots hslot
  refine ⟨howned, ?_, ?_, ?_⟩
  · rw [withLast_eq]
    exact owns_ofSlots lastHandle_slot rfl hlast
  · intro h
    have := congrArg Handle.slot h
    simp [lastHandle, root] at this
  -- The node is not its own parent, and no slot names it
  · rw [isAncestorOrSelf, Bool.or_eq_false_iff]
    constructor
    · rw [beq_eq_false_iff_ne]
      intro h
      have := congrArg Handle.slot h
      simp only [lastHandle, hslot] at this
      omega
    · simp only [List.contains_eq_mem, decide_eq_false_iff_not]
      intro h
      have : ∃ s ∈ (withLast identity d before own inside last).slots,
          s.parent = some (lastHandle identity before inside) := by
        rcases mem_upwards h with hp | hp
        · simp only [parent?, howned, ↓reduceIte, hown] at hp
          exact ⟨own, by simp [withLast, ofSlots], hp⟩
        · exact hp
      obtain ⟨s, hs, hp⟩ := this
      rw [withLast_eq] at hs
      simp only [ofSlots, List.mem_toArray, List.mem_append (t := [last]),
        List.mem_singleton] at hs
      rcases hs with hs | rfl
      · exact absurd (hparents s hs _ hp) (Nat.lt_irrefl _)
      · simp [hnone] at hp

/-- The last node becomes the last child of another. -/
theorem appendChild_last (hslot : parent.slot = before.length) (htree : parent.tree = identity)
    (hgen : own.generation = parent.generation) (hlast : last.generation = 0)
    (hnone : last.parent = none)
    (hparents : ∀ s ∈ before ++ own :: inside, ∀ p ∈ s.parent,
      p.slot < before.length + 1 + inside.length) :
    (appendChild parent (lastHandle identity before inside)).after
        (withLast identity d before own inside last) =
      withLast identity d before
        { own with children := own.children ++ [lastHandle identity before inside] } inside
        { last with parent := some parent } := by
  have hmove : (withLast identity d before own inside last).CanMove parent
      (lastHandle identity before inside) :=
    canMove_last hslot htree hgen hlast hnone hparents
  have hchildren :
      (withLast identity d before own inside last).children parent = own.children := by
    simp only [children, hmove.parent_owned, ↓reduceIte]
    rw [withLast, slotOf_ofSlots hslot]
  -- A node that stands alone is taken from nowhere
  have hunlink : (withLast identity d before own inside last).unlink
      (lastHandle identity before inside) = withLast identity d before own inside last := by
    simp only [unlink]
    rw [withLast_eq, slotOf_ofSlots lastHandle_slot, hnone]
  rcases appendChild_cases (withLast identity d before own inside last) parent
    (lastHandle identity before inside) with ⟨-, h⟩ | ⟨h, -⟩
  · rw [after_of_perform h, placed, hunlink, hchildren, withLast, modifySlot_ofSlots hslot,
      setParent]
    rw [← withLast, withLast_eq, modifySlot_ofSlots lastHandle_slot, withLast_eq]
    simp [insertAt]
  · exact absurd hmove h

end Tree

/-! ## Events and the tree that they build -/

namespace Draft

/-- The nodes inside the root that have started, the last one first. -/
def openHandles (identity : Nat) : List Frame → List Handle
  | [] => []
  | g :: outer => handleIn identity (g :: outer) :: openHandles identity outer

/-- The builder that has come as far. -/
def builder (identity : Nat) (d : Dialect) (dr : Draft) : Builder where
  tree := .ofSlots identity d (slots identity [] (dr.frame :: dr.outer))
  openNodes := openHandles identity dr.outer

variable {identity : Nat} {d : Dialect}

theorem current_builder (dr : Draft) :
    (dr.builder identity d).current = handleIn identity dr.outer := by
  obtain ⟨f, outer⟩ := dr
  cases outer <;> rfl

/-- The slots are those of the frames outside, then that of the current node, then those of the nodes
in it. -/
theorem length_slots_current (f : Frame) (outer : List Frame) :
    (slots identity [handleIn identity outer] outer).length + 1 +
      (insideSlots identity outer f).length = total (f :: outer) := by
  simp only [length_slots, insideSlots, Outline.length_slotsAll, total, Frame.size]
  omega

theorem lastHandle_current (f : Frame) (outer : List Frame) :
    Tree.lastHandle identity (slots identity [handleIn identity outer] outer)
      (insideSlots identity outer f) = handleIn identity (f :: outer) := by
  simp only [Tree.lastHandle, length_slots_current]
  rfl

/-- A new node stands alone in the last slot. -/
theorem alloc_builder (m : Marker) (f : Frame) (outer : List Frame) :
    (builder identity d ⟨f, outer⟩).tree.alloc m =
      (handleIn identity (f :: outer),
        Tree.withLast identity d (slots identity [handleIn identity outer] outer)
          (ownSlot identity outer f []) (insideSlots identity outer f) { marker := m }) := by
  simp only [builder, Tree.alloc_ofSlots, length_slots]
  rw [Tree.withLast_eq]
  rfl

/-- No slot names a node as parent that is made behind them. -/
theorem parent_lt_of_mem_current (f : Frame) (outer : List Frame) :
    ∀ s ∈ slots identity [handleIn identity outer] outer ++
      ownSlot identity outer f [] :: insideSlots identity outer f, ∀ p ∈ s.parent,
      p.slot < (slots identity [handleIn identity outer] outer).length + 1 +
        (insideSlots identity outer f).length := by
  rw [length_slots_current]
  intro s hs
  have hs : s ∈ slots identity [] (f :: outer) := hs
  exact parent_lt_of_mem_slots hs

/-- A new node is put behind those in the current one. -/
theorem attach_builder (m : Marker) (f : Frame) (outer : List Frame) :
    (builder identity d ⟨f, outer⟩).attach m =
      (handleIn identity (f :: outer),
        { tree := .ofSlots identity d (slots identity [] (⟨m, []⟩ :: f :: outer))
          openNodes := openHandles identity outer }) := by
  let before := slots identity [handleIn identity outer] outer
  let inside := insideSlots identity outer f
  have happend : (Tree.appendChild (handleIn identity outer) (handleIn identity (f :: outer))).after
        (Tree.withLast identity d before (ownSlot identity outer f []) inside { marker := m }) =
      Tree.withLast identity d before
        (ownSlot identity outer f [handleIn identity (f :: outer)]) inside
        { marker := m, parent := some (handleIn identity outer) } := by
    -- It stands below nothing yet, and no slot names it as parent
    have hslot : (handleIn identity outer).slot = before.length := handleIn_slot ..
    have htree : (handleIn identity outer).tree = identity := rfl
    rw [← lastHandle_current, Tree.appendChild_last hslot htree rfl rfl rfl
      (parent_lt_of_mem_current f outer)]
    simp [ownSlot, before, inside]
  have hdone : slots identity [] (⟨m, []⟩ :: f :: outer) =
      before ++ ownSlot identity outer f [handleIn identity (f :: outer)] :: (inside ++
        [{ marker := m, parent := some (handleIn identity outer) }]) := by
    simp only [slots, List.append_assoc, List.cons_append]
    rfl
  simp only [Builder.attach, alloc_builder, current_builder]
  rw [happend, hdone, Tree.withLast]
  rfl

theorem children_current (f : Frame) (outer : List Frame) :
    (builder identity d ⟨f, outer⟩).tree.children (handleIn identity outer) =
      Outline.handles identity (total outer + 1) f.row := by
  have hslot : (handleIn identity outer).slot =
      (slots identity [handleIn identity outer] outer).length := handleIn_slot ..
  have htree : (handleIn identity outer).tree = identity := rfl
  have howned : (builder identity d ⟨f, outer⟩).tree.owns (handleIn identity outer) :=
    Tree.owns_ofSlots hslot htree rfl
  have hown : (builder identity d ⟨f, outer⟩).tree.slotOf (handleIn identity outer) =
      ownSlot identity outer f [] := Tree.slotOf_ofSlots hslot
  simp [Tree.children, howned, hown, ownSlot]

/-- What a node in the current one is can be told from its slot alone. -/
theorem slots_last (identity : Nat) (m : Marker) (init cs : List Outline) (outer : List Frame) :
    ∃ before after parent children, before.length = total outer + 1 + Outline.sizeAll init ∧
      ∀ n, slots identity [] (⟨m, init ++ [.node n cs]⟩ :: outer) =
        before ++ ⟨n, parent, children, 0⟩ :: after := by
  -- `before` are the slots up to the last node, `after` those of the nodes in it
  let start := total outer + 1 + Outline.sizeAll init
  refine ⟨slots identity [handleIn identity outer] outer ++
      ownSlot identity outer ⟨m, init ++ [.node .root cs]⟩ [] ::
        Outline.slotsAll identity (some (handleIn identity outer)) (total outer + 1) init,
    Outline.slotsAll identity (some ⟨identity, start, 0⟩) (start + 1) cs,
    some (handleIn identity outer), Outline.handles identity (start + 1) cs, ?_, ?_⟩
  · rw [List.length_append, List.length_cons, length_slots, Outline.length_slotsAll]
    omega
  · intro n
    simp only [slots, ownSlot, insideSlots, Outline.handles_append, Outline.slotsAll_append,
      Outline.handles, Outline.slotsAll, Outline.slots, List.append_assoc, List.cons_append,
      List.append_nil, start]

theorem handles_getLast? (identity start : Nat) (row : List Outline) (o : Outline) :
    (Outline.handles identity start (row ++ [o])).getLast? =
      some ⟨identity, start + Outline.sizeAll row, 0⟩ := by
  rw [Outline.handles_append]
  simp [Outline.handles]

variable (identity d) in
/-- What the last node in the current one is. -/
theorem marker?_last (m n : Marker) (init cs : List Outline) (outer : List Frame) :
    (builder identity d ⟨⟨m, init ++ [.node n cs]⟩, outer⟩).tree.marker?
      ⟨identity, total outer + 1 + Outline.sizeAll init, 0⟩ = some n := by
  obtain ⟨before, after, parent, children, hlength, hslots⟩ := slots_last identity m init cs outer
  have howned : (Tree.ofSlots identity d (before ++ ⟨n, parent, children, 0⟩ :: after)).owns
      ⟨identity, total outer + 1 + Outline.sizeAll init, 0⟩ :=
    Tree.owns_ofSlots hlength.symm rfl rfl
  simp only [builder, hslots]
  rw [Tree.marker?, howned, Tree.slotOf_ofSlots hlength.symm]
  rfl

variable (identity d) in
/-- Text that is added to the last node in the current one. -/
theorem appendText_last (m : Marker) (r s : String) (init cs : List Outline)
    (outer : List Frame) :
    (builder identity d ⟨⟨m, init ++ [.node (.text r) cs]⟩, outer⟩).tree.appendText
        ⟨identity, total outer + 1 + Outline.sizeAll init, 0⟩ s =
      (builder identity d ⟨⟨m, init ++ [.node (.text (r ++ s)) cs]⟩, outer⟩).tree := by
  obtain ⟨before, after, parent, children, hlength, hslots⟩ := slots_last identity m init cs outer
  simp only [builder, hslots, Tree.appendText]
  rw [Tree.modifySlot_ofSlots hlength.symm]

/-- Text goes to the end of the current node as text goes to the end of a row. -/
theorem addText_builder (s : String) (dr : Draft) :
    (dr.builder identity d).addText s = (dr.step (.text s)).builder identity d := by
  obtain ⟨⟨m, row⟩, outer⟩ := dr
  by_cases hs : s = ""
  · subst hs
    simp [Builder.addText, step, Outline.addText_empty]
  have hempty : s.isEmpty = false := by simpa using hs
  simp only [Builder.addText, hempty, current_builder, children_current, step]
  rcases Outline.addText_cases hs row with ⟨init, r, cs, rfl, hadd⟩ | ⟨hrow, hadd⟩
  -- The row ends with text, and so does the last child say
  · have hmarker := marker?_last identity d m (.text r) init cs outer
    simp only [handles_getLast?, Option.filter_some, hmarker, hadd]
    simp only [Option.bind_some, Marker.text?, Option.isSome_some, ↓reduceIte]
    rw [appendText_last]
    rfl
  -- The row is empty or ends with another node, so the text becomes a node
  · have hlast : ((Outline.handles identity (total outer + 1) row).getLast?.filter fun h =>
        (((builder identity d ⟨⟨m, row⟩, outer⟩).tree.marker? h).bind Marker.text?).isSome) =
        none := by
      rcases List.eq_nil_or_concat row with rfl | ⟨init, ⟨n, cs⟩, rfl⟩
      · rfl
      · rw [List.concat_eq_append] at hrow ⊢
        have hn : n.text? = none := by simpa [Outline.IsNode, Outline.marker] using hrow
        rw [handles_getLast?, Option.filter_some, marker?_last, Option.bind_some, hn]
        rfl
    simp only [hlast, attach_builder, hadd, slots_add]
    rfl

/-- The builder follows the events. -/
theorem step_builder (e : Event) (dr : Draft) :
    (dr.builder identity d).step e = (dr.step e).builder identity d := by
  obtain ⟨f, outer⟩ := dr
  cases e with
  | start m =>
    simp only [Builder.step, attach_builder]
    rfl
  | text s => exact addText_builder s _
  | finish =>
    cases outer with
    | nil => rfl
    | cons g outer =>
      -- The builder only drops a handle, and the slots stay as they are
      simp only [Builder.step, step, builder, slots_add]
      rfl

theorem foldl_builder (es : List Event) (dr : Draft) :
    es.foldl Builder.step (dr.builder identity d) = (dr.run es).builder identity d := by
  induction es generalizing dr with
  | nil => rfl
  | cons e es ih => rw [List.foldl_cons, step_builder, ih, run_cons]

end Draft

/-! ## Trees and outlines -/

namespace Tree

variable {identity : Nat} {d : Dialect}

mutual

theorem shows_ofSlots {parent : Option Handle} {start : Nat} {all before after : List Slot} :
    (o : Outline) → start = before.length →
      all = before ++ (Outline.slots identity parent start o ++ after) →
      (ofSlots identity d all).Shows ⟨identity, start, 0⟩ o
  | .node m cs, hstart, hall => by
    rw [Outline.slots, List.cons_append] at hall
    have howned : (ofSlots identity d all).owns ⟨identity, start, 0⟩ := by
      rw [hall]
      exact owns_ofSlots hstart rfl rfl
    -- The slot of the node comes first, and those of its children are right behind it
    have hown : (ofSlots identity d all).slotOf ⟨identity, start, 0⟩ =
        { marker := m, parent, children := Outline.handles identity (start + 1) cs } := by
      rw [hall]
      exact slotOf_ofSlots hstart
    refine ⟨howned, by rw [hown], ?_⟩
    rw [hown]
    rw [List.append_cons] at hall
    refine showsAll_ofSlots cs ?_ hall
    rw [hstart, List.length_append]
    rfl

theorem showsAll_ofSlots {parent : Option Handle} {start : Nat} {all before after : List Slot} :
    (os : List Outline) → start = before.length →
      all = before ++ (Outline.slotsAll identity parent start os ++ after) →
      (ofSlots identity d all).ShowsAll (Outline.handles identity start os) os
  | [], _, _ => trivial
  | o :: os, hstart, hall => by
    rw [Outline.slotsAll, List.append_assoc] at hall
    refine ⟨shows_ofSlots o hstart hall, ?_⟩
    rw [← List.append_assoc] at hall
    refine showsAll_ofSlots os ?_ hall
    rw [List.length_append, Outline.length_slots, hstart]

end

/-- The tree that events build keeps the outline that they tell. -/
theorem ofEvents_eq (identity : Nat) (d : Dialect) (es : List Event) :
    ofEvents identity d es =
      ofSlots identity d (Outline.slots identity none 0 (Draft.start.run es).close) := by
  have : es.foldl Builder.step (Draft.start.builder identity d) =
      (Draft.start.run es).builder identity d := Draft.foldl_builder es .start
  rw [ofEvents, Draft.close, ← Draft.slots_closeFrom]
  exact congrArg Builder.tree this

/-- The tree that events build shows the outline that they tell. -/
theorem shows_ofEvents (identity : Nat) (d : Dialect) (es : List Event) :
    (ofEvents identity d es).Shows (ofEvents identity d es).root (Draft.start.run es).close := by
  rw [ofEvents_eq]
  have hall : ∀ slots : List Slot, slots = [] ++ (slots ++ []) := by simp
  exact shows_ofSlots _ rfl (hall _)

theorem size_le_capacity_ofEvents (identity : Nat) (d : Dialect) (es : List Event) :
    (Draft.start.run es).close.size ≤ (ofEvents identity d es).capacity := by
  apply Nat.le_of_eq
  rw [ofEvents_eq, capacity, ofSlots, List.size_toArray, Outline.length_slots]

end Tree

end TabStop
