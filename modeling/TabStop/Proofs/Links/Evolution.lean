import TabStop.Proofs.Links.Copying
import TabStop.Proofs.Links.Normalizing
import TabStop.Tree.Build

/-!
# Every edit keeps the links sound

An edit is given handles that are good if the tree owns them. Then it leaves a sound tree, whether
it succeeds or not, and it either takes slots or gives slots back.
-/

namespace TabStop.Tree

variable {t u : Tree} {c h p x : Handle} {cs : List Handle}

/-- What an edit does to a sound tree. -/
structure Evolves (t u : Tree) : Prop where
  wellLinked : u.WellLinked
  slots : Extends t u ∨ ∃ gone, Trims t gone u

/-- A handle that is good if the tree owns it. -/
def Reliable (t : Tree) (h : Handle) : Prop := t.owns h → t.InUse h

theorem Evolves.refl (hl : t.WellLinked) : Evolves t t := ⟨hl, Or.inl (.refl t)⟩

theorem SameSlots.evolves (hs : SameSlots t u) (hl : u.WellLinked) : Evolves t u :=
  ⟨hl, Or.inl hs.extends⟩

theorem SameLinks.evolves (hs : SameLinks t u) (hl : t.WellLinked) : Evolves t u :=
  hs.toSameSlots.evolves (hs.wellLinked hl)

theorem Refuses.evolves {α : Type} {e : Edit α} (hr : t.Refuses e) (hl : t.WellLinked) :
    Evolves t (e.after t) := by
  rw [hr.after_eq]
  exact .refl hl

/-! ## Edits -/

theorem sameSlots_insertChild (t : Tree) (p : Handle) (i : Nat) (c : Handle) :
    SameSlots t ((insertChild p i c).after t) := by
  rcases insertChild_cases t p i c with ⟨-, hperform⟩ | ⟨-, hr⟩
  · rw [after_of_perform hperform]
    exact sameSlots_placed t p i c
  · rw [hr.after_eq]
    exact .refl t

theorem appendChild_after (t : Tree) (p c : Handle) :
    (appendChild p c).after t = (insertChild p (t.children p).length c).after t := by
  simp [Edit.after, appendChild]

namespace WellLinked

theorem evolves_release (hl : t.WellLinked) (hh : t.Reliable h) :
    Evolves t ((release h).after t) := by
  rcases release_cases t h with ⟨ho, hr, hp, hperform⟩ | hr
  · obtain ⟨hreleased, hlinked⟩ :=
      Linked.released hl (hh ho) (WellLinked.agreesBelow t h) hr hp
    rw [after_of_perform hperform]
    refine ⟨hlinked.wellLinked fun x hx => ?_, Or.inr ⟨_, hreleased.trims⟩⟩
    rw [hreleased.other x hx]
  · exact hr.evolves hl

theorem evolves_detach (hl : t.WellLinked) (hh : t.Reliable h) :
    Evolves t ((detach h).after t) := by
  rcases detach_cases t h with ⟨ho, -, hperform⟩ | hr
  · rw [after_of_perform hperform]
    exact (sameSlots_unlink t h).evolves (hl.unlink (hh ho))
  · exact hr.evolves hl

theorem evolves_insertChild (hl : t.WellLinked) (hp : t.Reliable p) (hc : t.Reliable c) (i : Nat) :
    Evolves t ((insertChild p i c).after t) := by
  rcases insertChild_cases t p i c with ⟨hm, hperform⟩ | ⟨-, hr⟩
  · obtain ⟨hpo, hco, hroot, hnot⟩ := canMove_iff.1 hm
    rw [after_of_perform hperform]
    exact (sameSlots_placed t p i c).evolves (hl.placed (hp hpo) (hc hco) hroot hnot i)
  · exact hr.evolves hl

theorem evolves_appendChild (hl : t.WellLinked) (hp : t.Reliable p) (hc : t.Reliable c) :
    Evolves t ((appendChild p c).after t) := by
  rw [appendChild_after]
  exact hl.evolves_insertChild hp hc _

/-- The new children must be different ones: a node that is given twice would be listed twice. -/
theorem evolves_replaceChildren (hl : t.WellLinked) (hp : t.Reliable p)
    (hcs : ∀ c ∈ cs, t.Reliable c) (hnodup : cs.Nodup) :
    Evolves t ((replaceChildren p cs).after t) := by
  rcases replaceChildren_cases t p cs with ⟨ho, hm, hperform⟩ | ⟨-, hr⟩
  · rw [after_of_perform hperform]
    refine (sameSlots_replaced t p cs).evolves (hl.replaced (hp ho) (fun c hc => ?_) hnodup)
    obtain ⟨-, hco, hroot, hnot⟩ := canMove_iff.1 (hm c hc)
    exact ⟨hcs c hc hco, hroot, hnot⟩
  · exact hr.evolves hl

/-- A node keeps its place among the children of its parent when another one is taken out of its own,
which may be a node that a free slot will hold only later. -/
theorem indexInParent?_unlink {old new : Handle} (hl : t.WellLinked)
    (hp : t.parent? old = some p) (hn : t.owns new) (hne : new ≠ old) :
    (t.unlink new).indexInParent? old ≠ none := by
  have hold := hl.inUse_of_parent hp
  rw [WellLinked.parent?_eq hold] at hp
  obtain ⟨hl', hup⟩ : (t.unlink new).WellLinked ∧ ((t.unlink new).slotOf old).parent = some p := by
    by_cases hfree : new.slot ∈ t.free
    · -- A free slot has no parent to be taken from
      have heq : t.unlink new = t := by simp only [Tree.unlink, Linked.free_parent hl hfree]
      rw [heq]
      exact ⟨hl, hp⟩
    · have hnew : t.InUse new := ⟨hn, hfree⟩
      refine ⟨hl.unlink hnew, ?_⟩
      rw [parent_unlink hnew, if_neg (hold.slot_ne hnew (Ne.symm hne)), hp]
  have ho' := (sameSlots_unlink t new).inUse_iff.2 hold
  have hmem := (Linked.parent hl' ho' hup).2
  rw [indexInParent?, parent?, if_pos ho'.owned, hup, Option.bind_some]
  intro hi
  rw [List.findIdx?_eq_none_iff] at hi
  simpa using hi old hmem

theorem evolves_replaceWith {old new : Handle} (hl : t.WellLinked) (ho : t.Reliable old)
    (hn : t.Reliable new) : Evolves t ((replaceWith old new).after t) := by
  have hparent {p : Handle} (hold : t.owns old) (hp : t.parent? old = some p) :
      (t.slotOf old).parent = some p := by rwa [parent?, if_pos hold] at hp
  -- A node does not take its own place
  have hne (ha : t.isAncestorOrSelf new old = false) : new ≠ old := by
    intro heq
    rw [heq, isAncestorOrSelf_self] at ha
    simp at ha
  rcases replaceWith_cases t old new with ⟨p, i, hold, hp, hm, ha, hi, hperform⟩ | hr |
    ⟨p, hold, hp, hm, ha, hi⟩
  · obtain ⟨-, hno, hroot, hnot⟩ := canMove_iff.1 hm
    have hpo := (Linked.parent hl (ho hold) (hparent hold hp)).1
    rw [after_of_perform hperform]
    exact (sameSlots_exchanged t p old new i).evolves
      (hl.exchanged (ho hold) hpo (hparent hold hp) (hn hno) hroot hnot (hne ha) hi)
  · exact hr.evolves hl
  · exact absurd hi (hl.indexInParent?_unlink hp hm.child_owned (hne ha))

theorem evolves_insertBefore (hl : t.WellLinked) (hh : t.Reliable h) (s : String) :
    Evolves t ((insertBefore h s).after t) := by
  rcases insertBefore_cases t h s with hr | hperform | ⟨p, hperform⟩ |
    ⟨p, i, ho, hp, -, hperform⟩
  · exact hr.evolves hl
  · rw [after_of_perform hperform]
    exact .refl hl
  · rw [after_of_perform hperform]
    exact (sameLinks_appendText t p s).evolves hl
  · have ha := Linked.allocated hl (.text s)
    rw [parent?, if_pos ho] at hp
    have hinUse := (Linked.parent hl (hh ho) hp).1
    -- A new node is put in front, which does not touch the slots in use
    have hafter : (insertBefore h s).after t =
        (insertChild p i (t.alloc (.text s)).1).after (t.alloc (.text s)).2 := by
      rw [Edit.after, hperform, Edit.after]
    rw [hafter]
    have hevolves := (ha.wellLinked hl).evolves_insertChild
      (fun _ => ha.extended.inUse hinUse) (fun _ => (ha.inUse_iff _).2 (Or.inl rfl)) i
    exact ⟨hevolves.wellLinked,
      Or.inl (ha.extended.trans (sameSlots_insertChild ..).extends)⟩

theorem evolves_normalize (hl : t.WellLinked) (hh : t.Reliable h) (start : Nat) :
    Evolves t ((Tree.normalize h start).after t) := by
  by_cases ho : t.owns h
  · obtain ⟨u, gone, hperform, hwell, htrims⟩ := hl.normalize (hh ho) start
    rw [after_of_perform hperform]
    exact ⟨hwell, Or.inr ⟨gone, htrims⟩⟩
  · have hafter : (Tree.normalize h start).after t = t := by
      -- No search begins at a handle that is not owned
      cases hcap : t.capacity with
      | zero => simp [Edit.after, Tree.normalize, hcap, normalizeFrom]
      | succ fuel => simp [Edit.after, Tree.normalize, hcap, normalizeFrom, check_perform, ho]
    rw [hafter]
    exact .refl hl

theorem evolves_copyFrom (hl : t.WellLinked) (source : Tree → Tree) (fuel : Nat) (h : Handle) :
    Evolves t ((copyFrom source fuel h).after t) :=
  have hgrown := (copyFrom_copied source fuel h hl).grown
  ⟨hgrown.wellLinked, Or.inl hgrown.extended⟩

end WellLinked

/-! ## Trees of sources -/

theorem wellLinked_empty (identity : Nat) (d : Dialect) : (empty identity d).WellLinked := by
  have hroot : (empty identity d).slotOf (empty identity d).root = { marker := .root } := rfl
  -- There is one slot, and the root is in it
  have hinUse {x : Handle} (hx : (empty identity d).InUse x) : x = (empty identity d).root := by
    apply hx.eq_of_slot ⟨by simp [owns, root, empty], by simp [empty]⟩
    have : x.slot < 1 := hx.slot_lt
    simp only [root]
    omega
  constructor
  case root_inUse =>
    exact ⟨by simp [owns, root, empty], by simp [empty]⟩
  case root_parent =>
    rw [hroot]
  case child =>
    intro p c hp hc
    rw [hinUse hp, hroot] at hc
    simp at hc
  case parent =>
    intro p c hc hup
    rw [hinUse hc, hroot] at hup
    simp at hup
  case nodup =>
    intro p hp
    rw [hinUse hp, hroot]
    exact List.nodup_nil
  case lineage =>
    intro x hx
    exact ⟨[], by rw [hinUse hx]; rfl⟩
  case free_nodup =>
    exact List.nodup_nil
  case free_lt =>
    intro i hi
    simp [empty] at hi
  case free_parent =>
    intro x hx
    simp [empty] at hx
  case free_children =>
    intro x hx
    simp [empty] at hx

/-- A tree that is being built from `t` is sound, and the nodes that are open are in use. -/
private structure Building (t : Tree) (b : Builder) : Prop where
  wellLinked : b.tree.WellLinked
  extended : Extends t b.tree
  openNodes : ∀ h ∈ b.openNodes, b.tree.InUse h

private theorem Building.current {b : Builder} (hb : Building t b) : b.tree.InUse b.current := by
  unfold Builder.current
  cases ho : b.openNodes with
  | nil => exact Linked.root_inUse hb.wellLinked
  | cons h hs => exact hb.openNodes h (by simp [ho])

private theorem Building.attach {b : Builder} (hb : Building t b) (m : Marker) :
    Building t (b.attach m).2 ∧ (b.attach m).2.tree.InUse (b.attach m).1 := by
  have ha := Linked.allocated hb.wellLinked m
  have hnew := (ha.inUse_iff _).2 (Or.inl rfl)
  have hevolves := (ha.wellLinked hb.wellLinked).evolves_appendChild
    (fun _ => ha.extended.inUse hb.current) (fun _ => hnew)
  -- A new node is put below the current one, which may not succeed
  have hs : SameSlots (b.tree.alloc m).2 (b.attach m).2.tree := by
    show SameSlots _ ((appendChild b.current (b.tree.alloc m).1).after (b.tree.alloc m).2)
    rw [appendChild_after]
    exact sameSlots_insertChild ..
  exact ⟨⟨hevolves.wellLinked, (hb.extended.trans ha.extended).trans hs.extends,
    fun h hh => hs.inUse_iff.2 (ha.extended.inUse (hb.openNodes h hh))⟩, hs.inUse_iff.2 hnew⟩

private theorem Building.step {b : Builder} (hb : Building t b) (e : Event) :
    Building t (b.step e) := by
  -- A new node hangs below the open one; a text may join the text before it, and the end of a node
  -- closes it
  cases e with
  | start m =>
    obtain ⟨hattach, hnew⟩ := hb.attach m
    refine ⟨hattach.wellLinked, hattach.extended, fun h hh => ?_⟩
    rcases List.mem_cons.1 hh with rfl | hh
    · exact hnew
    · exact hattach.openNodes h hh
  | text s =>
    simp only [Builder.step, Builder.addText]
    split
    · exact hb
    · split
      · next h _ =>
        have hs := sameLinks_appendText b.tree h s
        exact ⟨hs.wellLinked hb.wellLinked, hb.extended.trans hs.extends,
          fun x hx => hs.inUse_iff.2 (hb.openNodes x hx)⟩
      · exact (hb.attach _).1
  | finish =>
    exact ⟨hb.wellLinked, hb.extended, fun h hh => hb.openNodes h (List.mem_of_mem_tail hh)⟩

private theorem building_foldl (es : List Event) {b : Builder} (hb : Building t b) :
    Building t (es.foldl Builder.step b) := by
  induction es generalizing b with
  | nil => exact hb
  | cons e es ih => exact ih (hb.step e)

/-- The tree of a source is sound, and all slots of it are in their first generation. -/
theorem grown_ofSource (identity : Nat) (d : Dialect) (source : String) :
    (ofSource identity d source).WellLinked ∧
      ∀ h, ((ofSource identity d source).slotOf h).generation = 0 := by
  have hb := building_foldl (t := empty identity d) (b := ⟨empty identity d, []⟩)
    (Event.ofSource d source) ⟨wellLinked_empty identity d, .refl _, by simp⟩
  refine ⟨hb.wellLinked, fun h => (hb.extended.generation h).trans ?_⟩
  -- A slot that is not there reads as one in its first generation
  by_cases hh : h.slot = 0
  · simp [slotOf, empty, hh]
  · have : (empty identity d).slots.size ≤ h.slot := by simp [empty]; omega
    simp [slotOf, Array.getD_eq_getD_getElem?, this]
    rfl

end TabStop.Tree
