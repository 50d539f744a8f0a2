import TabStop.Proofs.Repeat.Overwriting
import TabStop.Proofs.Document.Rendering

/-!
# A new node in its place

A new node is put below another one, or at the end of the document, behind all others. Nothing else is
changed by that but the list of the children of the node that it is put below.
-/

namespace TabStop.Tree

variable {t u : Tree} {c h p q x : Handle} {m : Marker}

/-! ## Below any node -/

/-- What is true of a tree in which a new node stands at place `i` below the node `p`. -/
structure Planted (t : Tree) (m : Marker) (p : Handle) (i : Nat) (h : Handle) (u : Tree) : Prop where
  wellLinked : u.WellLinked
  identity : u.identity = t.identity
  inUse_iff (x : Handle) : u.InUse x ↔ x = h ∨ t.InUse x
  fresh : ¬ t.InUse h
  marker_new : (u.slotOf h).marker = m
  children_new : (u.slotOf h).children = []
  marker {x : Handle} : t.InUse x → (u.slotOf x).marker = (t.slotOf x).marker
  parent {x : Handle} : t.InUse x → (u.slotOf x).parent = (t.slotOf x).parent
  children {x : Handle} : t.InUse x → (u.slotOf x).children =
    if x = p then insertAt i h (t.slotOf x).children else (t.slotOf x).children

/-- A node that stands alone is put below another one that it is not above. -/
private theorem placed_alone (hl : t.WellLinked) (hp : t.InUse p) (hh : t.InUse h) (hne : h ≠ t.root)
    (hnone : (t.slotOf h).parent = none) (hnot : h ∉ p :: t.ancestors p) (i : Nat) :
    let u := t.placed p i h
    t.CanMove p h ∧ u.WellLinked ∧ SameSlots t u ∧ ∀ x, t.InUse x →
      (u.slotOf x).marker = (t.slotOf x).marker ∧
      (x ≠ h → (u.slotOf x).parent = (t.slotOf x).parent) ∧ (u.slotOf x).children =
        if x = p then insertAt i h (t.slotOf x).children else (t.slotOf x).children := by
  intro u
  -- A node without a parent need not be taken from anywhere
  have hunlink : t.unlink h = t := by simp only [Tree.unlink, hnone]
  have hs := sameSlots_modifySlot (f := fun s : Slot =>
    { s with children := insertAt i h s.children }) (by intro; rfl) t p
  refine ⟨canMove_iff.2 ⟨hp.owned, hh.owned, hne, hnot⟩, hl.placed hp hh hne hnot _,
    sameSlots_placed t p _ h, fun x hx => ⟨?_, fun hxh => ?_, ?_⟩⟩
  · show ((t.placed p _ h).slotOf x).marker = _
    rw [Tree.placed, hunlink, setParent, slotOf_modifySlot_eq Slot.marker (by intro; rfl),
      slotOf_modifySlot_eq Slot.marker (by intro; rfl)]
  · show ((t.placed p _ h).slotOf x).parent = _
    rw [Tree.placed, hunlink, parent_setParent (hs.inUse_iff.2 hh), if_neg (hx.slot_ne hh hxh),
      slotOf_modifySlot_eq Slot.parent (by intro; rfl)]
  · show ((t.placed p _ h).slotOf x).children = _
    rw [Tree.placed, hunlink, children_setParent, children_modifySlot (f := insertAt i h) hp]
    by_cases hxp : x = p
    · subst hxp
      simp
    · rw [if_neg (hx.slot_ne hp hxp), if_neg hxp]

/-- A node that has just been made can be put below any node that was there. -/
theorem WellLinked.planted (hl : t.WellLinked) (m : Marker) (hp : t.InUse p) (i : Nat) :
    (t.alloc m).2.CanMove p (t.alloc m).1 ∧
      Planted t m p i (t.alloc m).1 ((t.alloc m).2.placed p i (t.alloc m).1) := by
  have ha := Linked.allocated hl m
  generalize t.alloc m = r at ha
  obtain ⟨h, v⟩ := r
  have hg := ha.grown hl
  have hh : v.InUse h := (ha.inUse_iff h).2 (Or.inl rfl)
  have hold {x : Handle} (hx : t.InUse x) : x ≠ h := fun heq => ha.fresh (heq ▸ hx)
  have hroot : h ≠ v.root := by
    rw [ha.extended.root_eq]
    exact (hold (Linked.root_inUse hl)).symm
  -- What is above `p` was there before
  have hnot : h ∉ p :: v.ancestors p := by
    intro hmem
    rw [hg.ancestors_eq hl hp] at hmem
    exact hold (Linked.above_inUse hl hp (isAncestorOrSelf_iff.2 hmem)) rfl
  obtain ⟨hmove, hwell, hs, hslots⟩ :=
    placed_alone hg.wellLinked (hg.extended.inUse hp) hh hroot ha.parent hnot i
  refine ⟨hmove, hwell, hs.identity.trans ha.extended.identity, fun x => ?_, ha.fresh, ?_, ?_,
    fun {x} hx => ?_, fun {x} hx => ?_, fun {x} hx => ?_⟩
  · rw [hs.inUse_iff, ha.inUse_iff]
  · rw [(hslots h hh).1, ha.marker]
  · rw [(hslots h hh).2.2, if_neg (hold hp).symm, ha.children]
  · rw [(hslots x (hg.extended.inUse hx)).1, hg.kept x hx]
  · rw [(hslots x (hg.extended.inUse hx)).2.1 (hold hx), hg.kept x hx]
  · rw [(hslots x (hg.extended.inUse hx)).2.2, hg.kept x hx]

/-! ## At the end of the document -/

/-- What is true of a tree in which a new node stands at the end of the document. -/
structure Appended (t : Tree) (m : Marker) (h : Handle) (u : Tree) : Prop where
  wellLinked : u.WellLinked
  identity : u.identity = t.identity
  inUse_iff (x : Handle) : u.InUse x ↔ x = h ∨ t.InUse x
  marker_new : (u.slotOf h).marker = m
  children_new : (u.slotOf h).children = []
  marker {x : Handle} : t.InUse x → (u.slotOf x).marker = (t.slotOf x).marker
  parent {x : Handle} : t.InUse x → (u.slotOf x).parent = (t.slotOf x).parent
  children {x : Handle} : t.InUse x → (u.slotOf x).children =
    if x = t.root then (t.slotOf x).children ++ [h] else (t.slotOf x).children

namespace Appended

theorem root_eq (ha : Appended t m h u) : u.root = t.root := by simp [root, ha.identity]

theorem inUse (ha : Appended t m h u) (hx : t.InUse x) : u.InUse x := (ha.inUse_iff x).2 (Or.inr hx)

theorem inUse_new (ha : Appended t m h u) : u.InUse h := (ha.inUse_iff h).2 (Or.inl rfl)

theorem ancestors_eq (ha : Appended t m h u) (hl : t.WellLinked) (hx : t.InUse x) :
    u.ancestors x = t.ancestors x :=
  Linked.ancestors_congr hl ha.wellLinked hx (ha.inUse hx) fun _ hy _ => ha.parent hy

theorem ancestors_new (ha : Appended t m h u) (hl : t.WellLinked) : u.ancestors h = [u.root] := by
  have hroot := Linked.root_inUse hl
  have hmem : h ∈ (u.slotOf t.root).children := by simp [ha.children hroot]
  rw [Linked.ancestors_child ha.wellLinked (ha.inUse hroot) hmem, ← ha.root_eq,
    ha.wellLinked.ancestors_root]

theorem marker?_eq (ha : Appended t m h u) (hx : t.InUse x) : u.marker? x = t.marker? x := by
  rw [marker?, marker?, if_pos (ha.inUse hx).owned, if_pos hx.owned, ha.marker hx]

theorem marker?_new (ha : Appended t m h u) : u.marker? h = some m := by
  rw [marker?, if_pos ha.inUse_new.owned, ha.marker_new]

theorem walk_new (ha : Appended t m h u) : u.walk h = [h] := by
  rw [ha.wellLinked.walk_eq ha.inUse_new, ha.children_new]
  rfl

/-- Where the root is not met, a walk is what it was. -/
theorem walk_eq (ha : Appended t m h u) (hl : t.WellLinked) (hq : t.InUse q)
    (hroot : t.root ∉ t.walk q) : u.walk q = t.walk q := by
  apply hl.walk_congr ha.wellLinked hq
  intro x hx
  have hxu := ((hl.mem_walk_iff hq).1 hx).1
  have hne : x ≠ t.root := fun heq => hroot (heq ▸ hx)
  exact ⟨ha.inUse hxu, by rw [ha.children hxu, if_neg hne]⟩

theorem walk_root (ha : Appended t m h u) (hl : t.WellLinked) :
    u.walk u.root = t.walk t.root ++ [h] := by
  have hroot := Linked.root_inUse hl
  have hold : ∀ c ∈ (t.slotOf t.root).children, u.walk c = t.walk c := fun c hc =>
    ha.walk_eq hl (Linked.child hl hroot hc).1 (hl.not_mem_walk_child hroot hc)
  rw [ha.root_eq, ha.wellLinked.walk_eq (ha.inUse hroot), hl.walk_eq hroot, ha.children hroot,
    if_pos rfl, List.flatMap_append, List.flatMap_singleton, ha.walk_new, List.flatMap_def,
    List.flatMap_def, List.map_congr_left hold, List.cons_append]

theorem descendants_eq (ha : Appended t m h u) (hl : t.WellLinked) :
    u.descendants u.root = t.descendants t.root ++ [h] := by
  have hpos := List.length_pos_of_mem (hl.mem_walk_self (Linked.root_inUse hl))
  rw [descendants, descendants, ha.walk_root hl, List.drop_append_of_le_length hpos]

/-- A node shows what it showed, unless it is the root. -/
theorem render_eq (ha : Appended t m h u) (hl : t.WellLinked) (hq : t.InUse q)
    (hroot : t.root ∉ t.walk q) : u.render q = t.render q := by
  apply hl.render_congr ha.wellLinked hq
  intro x hx
  have hxu := ((hl.mem_walk_iff hq).1 hx).1
  have hne : x ≠ t.root := fun heq => hroot (heq ▸ hx)
  exact ⟨ha.inUse hxu, by rw [ha.marker hxu], by rw [ha.children hxu, if_neg hne]⟩

end Appended

/-- A new node can be put at the end of any document. -/
theorem WellLinked.appendNew (hl : t.WellLinked) (m : Marker) :
    ∃ h u, (do
        let h ← new m
        appendChild (← get).root h : Edit Unit).perform t = (.ok (), u) ∧ Appended t m h u := by
  have hroot := Linked.root_inUse hl
  have ha := Linked.allocated hl m
  obtain ⟨hmove, hp⟩ := hl.planted m hroot (t.children t.root).length
  generalize halloc : t.alloc m = r at ha hmove hp
  obtain ⟨h, v⟩ := r
  -- Where the node goes is told from the children after allocating, which are those before
  have hsame : v.children t.root = t.children t.root := by
    rw [WellLinked.children_eq (ha.extended.inUse hroot), WellLinked.children_eq hroot,
      ha.slotOf_eq hroot]
  refine ⟨h, _, ?_, hp.wellLinked, hp.identity, hp.inUse_iff, hp.marker_new, hp.children_new,
    hp.marker, hp.parent, fun {x} hx => ?_⟩
  · simp only [new, Edit.perform_bind, Edit.perform_modifyGet, Edit.perform_get, halloc,
      ha.extended.root_eq]
    rcases appendChild_cases v t.root h with ⟨-, hperform⟩ | ⟨hno, -⟩
    · rw [hperform, hsame]
    · exact absurd hmove hno
  · rw [hp.children hx]
    split
    · next heq => simp [heq, insertAt, WellLinked.children_eq hroot]
    · rfl

end TabStop.Tree
