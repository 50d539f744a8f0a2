import TabStop.Proofs.Links.Ownership

/-!
# Moving nodes keeps the links sound

All that an edit does to the links is done in two steps: a node is cut from its parent, or a node
without a parent is joined to one. Each step keeps the links sound, whatever the order of the
children. The edits that move nodes are made of these steps.
-/

namespace TabStop.Tree

variable {t u v : Tree} {a b c h p x : Handle} {as bs cs : List Handle}
variable {down down' : Handle → List Handle}

/-! ## Changes that leave the slots in use as they are -/

/-- The same slots are in use, by nodes of the same handles. -/
structure SameSlots (t u : Tree) : Prop where
  identity : u.identity = t.identity
  size : u.slots.size = t.slots.size
  free : u.free = t.free
  generation : ∀ x, (u.slotOf x).generation = (t.slotOf x).generation

namespace SameSlots

theorem refl (t : Tree) : SameSlots t t := ⟨rfl, rfl, rfl, fun _ => rfl⟩

theorem trans (h : SameSlots t u) (h' : SameSlots u v) : SameSlots t v :=
  ⟨h'.identity.trans h.identity, h'.size.trans h.size, h'.free.trans h.free,
    fun x => (h'.generation x).trans (h.generation x)⟩

theorem foldl {α : Type} {f : Tree → α → Tree} (hf : ∀ t a, SameSlots t (f t a)) (as : List α)
    (t : Tree) : SameSlots t (as.foldl f t) := by
  induction as generalizing t with
  | nil => exact refl t
  | cons a as ih => exact (hf t a).trans (ih (f t a))

theorem inUse_iff (h : SameSlots t u) : u.InUse x ↔ t.InUse x := by
  have howns : u.owns x ↔ t.owns x := by
    rw [owns_iff, owns_iff, h.identity, h.size, h.generation]
  constructor
  · intro hx
    exact ⟨howns.1 hx.owned, by rw [← h.free]; exact hx.kept⟩
  · intro hx
    exact ⟨howns.2 hx.owned, by rw [h.free]; exact hx.kept⟩

theorem root_eq (h : SameSlots t u) : u.root = t.root := by
  simp [root, h.identity]

end SameSlots

/-- There is nothing to change past the last slot. -/
theorem modifySlot_of_not_lt (hs : ¬ h.slot < t.slots.size) (f : Slot → Slot) :
    t.modifySlot h f = t := by
  simp only [modifySlot, Array.modify, Array.modifyM, hs, ↓reduceDIte]
  rfl

/-- What a change of slots leaves alone stays as it is in all of them. -/
theorem slotOf_modifySlot_eq {β : Type} (get : Slot → β) {f : Slot → Slot}
    (hf : ∀ s, get (f s) = get s) (t : Tree) (h x : Handle) :
    get ((t.modifySlot h f).slotOf x) = get (t.slotOf x) := by
  by_cases hs : h.slot < t.slots.size
  · rw [slotOf_modifySlot hs]
    split
    · exact hf _
    · rfl
  · rw [modifySlot_of_not_lt hs]

theorem sameSlots_modifySlot {f : Slot → Slot} (hf : ∀ s, (f s).generation = s.generation)
    (t : Tree) (h : Handle) : SameSlots t (t.modifySlot h f) :=
  ⟨rfl, modifySlot_size t h f, rfl, slotOf_modifySlot_eq Slot.generation hf t h⟩

theorem sameSlots_setParent (t : Tree) (h : Handle) (o : Option Handle) :
    SameSlots t (t.setParent h o) := sameSlots_modifySlot (by intro; rfl) t h

theorem sameSlots_setChildren (t : Tree) (h : Handle) (cs : List Handle) :
    SameSlots t (t.setChildren h cs) := sameSlots_modifySlot (by intro; rfl) t h

theorem sameSlots_unlink (t : Tree) (h : Handle) : SameSlots t (t.unlink h) := by
  unfold unlink
  split
  · exact .refl t
  · exact (sameSlots_setParent t h none).trans (sameSlots_modifySlot (by intro; rfl) _ _)

theorem parent_setParent (hc : t.InUse c) (o : Option Handle) (x : Handle) :
    ((t.setParent c o).slotOf x).parent =
      if x.slot = c.slot then o else (t.slotOf x).parent := by
  rw [setParent, slotOf_modifySlot hc.slot_lt]
  split <;> rfl

@[simp] theorem children_setParent (t : Tree) (c : Handle) (o : Option Handle) (x : Handle) :
    ((t.setParent c o).slotOf x).children = (t.slotOf x).children :=
  slotOf_modifySlot_eq Slot.children (by intro; rfl) t c x

theorem children_modifySlot {f : List Handle → List Handle} (hp : t.InUse p) (x : Handle) :
    ((t.modifySlot p fun s => { s with children := f s.children }).slotOf x).children =
      if x.slot = p.slot then f (t.slotOf x).children else (t.slotOf x).children := by
  rw [slotOf_modifySlot hp.slot_lt]
  split <;> rfl

theorem InUse.slot_ne (ha : t.InUse a) (hb : t.InUse b) (hne : a ≠ b) : a.slot ≠ b.slot :=
  fun hs => hne (ha.eq_of_slot hb hs)

/-! ## Lists without a node -/

theorem filter_ne_of_not_mem (hc : c ∉ cs) : cs.filter (· ≠ c) = cs :=
  List.filter_eq_self.2 fun _ hd => decide_eq_true fun heq => hc (heq ▸ hd)

theorem filter_ne_append_cons (hnodup : (as ++ c :: bs).Nodup) :
    (as ++ c :: bs).filter (· ≠ c) = as ++ bs := by
  obtain ⟨hnot, -⟩ := List.nodup_cons.1 (List.perm_middle.nodup_iff.1 hnodup)
  rw [List.mem_append, not_or] at hnot
  rw [List.filter_append, List.filter_cons_of_neg (by simp), filter_ne_of_not_mem hnot.1,
    filter_ne_of_not_mem hnot.2]

/-! ## What soundness depends on -/

namespace Linked

/-- Only the parents count, and that free slots are linked to nothing. -/
theorem congr (hl : t.Linked down) (hs : SameSlots t u)
    (hparent : ∀ x, (u.slotOf x).parent = (t.slotOf x).parent)
    (hfree : ∀ x, x.slot ∈ t.free → (u.slotOf x).children = []) : u.Linked down where
  root_inUse := by rw [hs.root_eq]; exact hs.inUse_iff.2 hl.root_inUse
  root_parent := by rw [hs.root_eq, hparent]; exact hl.root_parent
  child hp hc := by
    rw [hs.inUse_iff, hparent]
    exact hl.child (hs.inUse_iff.1 hp) hc
  parent hc hp := by
    rw [hs.inUse_iff]
    rw [hparent] at hp
    exact hl.parent (hs.inUse_iff.1 hc) hp
  nodup hp := hl.nodup (hs.inUse_iff.1 hp)
  lineage hh := by
    obtain ⟨as, ha⟩ := hl.lineage (hs.inUse_iff.1 hh)
    exact ⟨as, ha.congr fun x _ => hparent x⟩
  free_nodup := by rw [hs.free]; exact hl.free_nodup
  free_lt := by rw [hs.free, capacity, hs.size]; exact hl.free_lt
  free_parent hx := by rw [hs.free] at hx; rw [hparent]; exact hl.free_parent hx
  free_children hx := by rw [hs.free] at hx; exact hfree _ hx

/-- The order of the children does not count. -/
theorem perm (hl : t.Linked down) (hd : ∀ x, t.InUse x → (down' x).Perm (down x)) :
    t.Linked down' :=
  { hl with
    child := fun hp hc => hl.child hp ((hd _ hp).mem_iff.1 hc)
    parent := fun hc hp => by
      obtain ⟨hinUse, hmem⟩ := hl.parent hc hp
      exact ⟨hinUse, (hd _ hinUse).mem_iff.2 hmem⟩
    nodup := fun hp => (hd _ hp).nodup_iff.2 (hl.nodup hp) }

/-- A change of a node in use that is not about its parent. -/
theorem modifySlot (hl : t.Linked down) (hh : t.InUse h) {f : Slot → Slot}
    (hparent : ∀ s, (f s).parent = s.parent) (hgeneration : ∀ s, (f s).generation = s.generation) :
    (t.modifySlot h f).Linked down := by
  refine hl.congr (sameSlots_modifySlot hgeneration t h)
    (slotOf_modifySlot_eq Slot.parent hparent t h) fun x hx => ?_
  -- The slot that is changed is in use, so a free one keeps its empty list
  have hne : x.slot ≠ h.slot := fun hs => hh.kept (hs ▸ hx)
  rw [slotOf_modifySlot hh.slot_lt, if_neg hne]
  exact hl.free_children hx

theorem setChildren (hl : t.Linked down) (hh : t.InUse h) (cs : List Handle) :
    (t.setChildren h cs).Linked down := hl.modifySlot hh (by intro; rfl) (by intro; rfl)

theorem wellLinked (hl : t.Linked down)
    (hd : ∀ x, t.InUse x → (t.slotOf x).children.Perm (down x)) : t.WellLinked := hl.perm hd

/-- A node is in no list of children but that of its parent. -/
theorem not_mem_down (hl : t.Linked down) (hx : t.InUse x)
    (hne : (t.slotOf c).parent ≠ some x) : c ∉ down x := fun hmem => hne (hl.child hx hmem).2

/-- The nodes above a node keep their places when another one gets a parent. -/
theorem lineage_setParent (hl : t.Linked down) (hp : t.InUse p) (ha : t.Lineage p as)
    (hc : t.InUse c) (hnot : c ∉ p :: as) (o : Option Handle) :
    (t.setParent c o).Lineage p as := by
  apply ha.congr
  intro x hx
  have hx' : t.InUse x := by
    rcases List.mem_cons.1 hx with rfl | hx
    · exact hp
    · exact hl.lineage_inUse hp ha x hx
  -- The node that gets a parent is none of those above `p`
  rw [parent_setParent hc, if_neg (hx'.slot_ne hc fun heq => hnot (heq ▸ hx))]

end Linked

/-! ## Changes that leave the links as they are -/

/-- The same nodes are linked in the same way; only what they are may differ. -/
structure SameLinks (t u : Tree) : Prop extends SameSlots t u where
  parent (x : Handle) : (u.slotOf x).parent = (t.slotOf x).parent
  children (x : Handle) : (u.slotOf x).children = (t.slotOf x).children

namespace SameLinks

theorem refl (t : Tree) : SameLinks t t := ⟨.refl t, fun _ => rfl, fun _ => rfl⟩

theorem trans (hs : SameLinks t u) (hs' : SameLinks u v) : SameLinks t v :=
  ⟨hs.toSameSlots.trans hs'.toSameSlots, fun x => (hs'.parent x).trans (hs.parent x),
    fun x => (hs'.children x).trans (hs.children x)⟩

theorem owns_eq (hs : SameLinks t u) (x : Handle) : u.owns x = t.owns x := by
  apply Bool.eq_iff_iff.2
  rw [owns_iff, owns_iff, hs.identity, hs.size, hs.generation]

theorem walk_eq (hs : SameLinks t u) (x : Handle) : u.walk x = t.walk x := by
  have hwalkFrom (fuel : Nat) (x : Handle) : u.walkFrom fuel x = t.walkFrom fuel x := by
    induction fuel generalizing x with
    | zero => rfl
    | succ fuel ih => rw [walkFrom, walkFrom, hs.children, funext ih]
  rw [walk, walk, hs.owns_eq, capacity, capacity, hs.size, hwalkFrom]

theorem linked (hs : SameLinks t u) (hl : t.Linked down) : u.Linked down :=
  hl.congr hs.toSameSlots hs.parent fun x hx => by
    rw [hs.children]
    exact hl.free_children hx

theorem wellLinked (hs : SameLinks t u) (hl : t.WellLinked) : u.WellLinked :=
  (hs.linked hl).wellLinked fun x _ => by rw [hs.children]

end SameLinks

theorem sameLinks_modifySlot {f : Slot → Slot} (hparent : ∀ s, (f s).parent = s.parent)
    (hgeneration : ∀ s, (f s).generation = s.generation)
    (hchildren : ∀ s, (f s).children = s.children) (t : Tree) (h : Handle) :
    SameLinks t (t.modifySlot h f) :=
  ⟨sameSlots_modifySlot hgeneration t h, slotOf_modifySlot_eq Slot.parent hparent t h,
    slotOf_modifySlot_eq Slot.children hchildren t h⟩

theorem sameLinks_appendText (t : Tree) (h : Handle) (s : String) :
    SameLinks t (t.appendText h s) :=
  sameLinks_modifySlot (by intro slot; split <;> rfl) (by intro slot; split <;> rfl)
    (by intro slot; split <;> rfl) t h

theorem sameLinks_setMarker (t : Tree) (h : Handle) (m : Marker) :
    SameLinks t (t.setMarker h m) := by
  unfold setMarker
  split
  · exact sameLinks_modifySlot (by intro; rfl) (by intro; rfl) (by intro; rfl) t h
  · exact .refl t

/-! ## Cutting and joining -/

/-- A lineage ends at the node that is cut, if it comes to it. -/
theorem Lineage.exists_cut (ha : t.Lineage x as) (hc : t.InUse c) :
    ∃ bs, (t.setParent c none).Lineage x bs := by
  have hparent := parent_setParent hc none
  induction as generalizing x with
  | nil => exact ⟨[], by rw [Lineage, hparent]; split <;> simp_all [Lineage]⟩
  | cons r as ih =>
    by_cases hxc : x.slot = c.slot
    · exact ⟨[], by rw [Lineage, hparent, if_pos hxc]⟩
    · obtain ⟨bs, hb⟩ := ih ha.2
      exact ⟨r :: bs, by rw [hparent, if_neg hxc]; exact ha.1, hb⟩

namespace Linked

/-- A node in use has no slot that is free, so free slots stay linked to nothing. -/
theorem free_setParent (hl : t.Linked down) (hc : t.InUse c) (q : Option Handle)
    (hx : x.slot ∈ t.free) :
    ((t.setParent c q).slotOf x).parent = none ∧ ((t.setParent c q).slotOf x).children = [] := by
  have hne : x.slot ≠ c.slot := fun heq => hc.kept (heq ▸ hx)
  rw [parent_setParent hc, if_neg hne, children_setParent]
  exact ⟨hl.free_parent hx, hl.free_children hx⟩

/-- Cutting a node from its parent, if it has one. -/
theorem cut (hl : t.Linked down) (hc : t.InUse c) :
    (t.setParent c none).Linked fun x => (down x).filter (· ≠ c) := by
  -- The node is in use as before, but it has no parent and is no child
  have hs := sameSlots_setParent t c none
  have hparent := parent_setParent hc none
  constructor
  case root_inUse =>
    rw [hs.root_eq]
    exact hs.inUse_iff.2 hl.root_inUse
  case root_parent =>
    rw [hs.root_eq, hparent]
    split
    · rfl
    · exact hl.root_parent
  case child =>
    intro q d hq hd
    obtain ⟨hmem, hne⟩ := List.mem_filter.1 hd
    obtain ⟨hinUse, hup⟩ := hl.child (hs.inUse_iff.1 hq) hmem
    rw [hs.inUse_iff, hparent, if_neg (hinUse.slot_ne hc (by simpa using hne))]
    exact ⟨hinUse, hup⟩
  case parent =>
    intro q d hd hup
    rw [hs.inUse_iff] at hd
    rw [hparent] at hup
    split at hup
    · simp at hup
    · next hne =>
      obtain ⟨hinUse, hmem⟩ := hl.parent hd hup
      refine ⟨hs.inUse_iff.2 hinUse, List.mem_filter.2 ⟨hmem, ?_⟩⟩
      simpa using fun heq : d = c => hne (heq ▸ rfl)
  case nodup =>
    intro q hq
    exact (hl.nodup (hs.inUse_iff.1 hq)).filter _
  case lineage =>
    intro q hq
    obtain ⟨as, ha⟩ := hl.lineage (hs.inUse_iff.1 hq)
    exact ha.exists_cut hc
  case free_nodup =>
    exact hl.free_nodup
  case free_lt =>
    intro i hi
    rw [capacity, hs.size]
    exact hl.free_lt i hi
  case free_parent =>
    exact fun hq => (hl.free_setParent hc none hq).1
  case free_children =>
    exact fun hq => (hl.free_setParent hc none hq).2

/-- A lineage goes on above `p` where it came to its end at a node that is joined to `p`. -/
theorem exists_lineage_join (hl : t.Linked down) (hc : t.InUse c)
    (hup : (t.setParent c (some p)).Lineage p as) (hx : t.InUse x) (hxb : t.Lineage x bs) :
    ∃ ds, (t.setParent c (some p)).Lineage x ds := by
  have hparent := parent_setParent hc (some p)
  induction bs generalizing x with
  | nil =>
    by_cases hxc : x.slot = c.slot
    · exact ⟨p :: as, by rw [hparent, if_pos hxc], hup⟩
    · exact ⟨[], by rw [Lineage, hparent, if_neg hxc]; exact hxb⟩
  | cons r bs ih =>
    by_cases hxc : x.slot = c.slot
    · exact ⟨p :: as, by rw [hparent, if_pos hxc], hup⟩
    · obtain ⟨ds, hds⟩ := ih (hl.parent hx hxb.1).1 hxb.2
      exact ⟨r :: ds, by rw [hparent, if_neg hxc]; exact hxb.1, hds⟩

/-- Joining a node that has no parent to a node that is not below it. -/
theorem join (hl : t.Linked down) (hc : t.InUse c) (hroot : c ≠ t.root)
    (hnone : (t.slotOf c).parent = none) (hp : t.InUse p) (ha : t.Lineage p as)
    (hnot : c ∉ p :: as) :
    (t.setParent c (some p)).Linked fun x => if x = p then c :: down x else down x := by
  have hs := sameSlots_setParent t c (some p)
  have hparent := parent_setParent hc (some p)
  -- It has no parent, so it is in no list of children
  have hfresh : ∀ {q}, t.InUse q → c ∉ down q := fun hq => hl.not_mem_down hq (by simp [hnone])
  have hlineage := hl.lineage_setParent hp ha hc hnot (some p)
  constructor
  case root_inUse =>
    rw [hs.root_eq]
    exact hs.inUse_iff.2 hl.root_inUse
  case root_parent =>
    rw [hs.root_eq, hparent, if_neg (hl.root_inUse.slot_ne hc (Ne.symm hroot))]
    exact hl.root_parent
  case child =>
    intro q d hq hd
    rw [hs.inUse_iff] at hq ⊢
    rw [hparent]
    -- What was a child before is another node and keeps its parent
    have hold : d ∈ down q → t.InUse d ∧
        (if d.slot = c.slot then some p else (t.slotOf d).parent) = some q := by
      intro hmem
      obtain ⟨hinUse, hup⟩ := hl.child hq hmem
      have hne : d ≠ c := fun heq => hfresh hq (heq ▸ hmem)
      exact ⟨hinUse, by rw [if_neg (hinUse.slot_ne hc hne)]; exact hup⟩
    split at hd
    · next heq =>
      subst heq
      rcases List.mem_cons.1 hd with rfl | hmem
      · exact ⟨hc, if_pos rfl⟩
      · exact hold hmem
    · exact hold hd
  case parent =>
    intro q d hd hup
    rw [hs.inUse_iff] at hd ⊢
    rw [hparent] at hup
    split at hup
    · next heq =>
      obtain rfl := hd.eq_of_slot hc heq
      obtain rfl : p = q := by simpa using hup
      exact ⟨hp, by simp⟩
    · obtain ⟨hinUse, hmem⟩ := hl.parent hd hup
      refine ⟨hinUse, ?_⟩
      split
      · exact List.mem_cons_of_mem _ hmem
      · exact hmem
  case nodup =>
    intro q hq
    rw [hs.inUse_iff] at hq
    show List.Nodup (if q = p then c :: down q else down q)
    split
    · exact List.nodup_cons.2 ⟨hfresh hq, hl.nodup hq⟩
    · exact hl.nodup hq
  case lineage =>
    intro q hq
    rw [hs.inUse_iff] at hq
    obtain ⟨bs, hb⟩ := hl.lineage hq
    exact hl.exists_lineage_join hc hlineage hq hb
  case free_nodup =>
    exact hl.free_nodup
  case free_lt =>
    intro i hi
    rw [capacity, hs.size]
    exact hl.free_lt i hi
  case free_parent =>
    exact fun hq => (hl.free_setParent hc (some p) hq).1
  case free_children =>
    exact fun hq => (hl.free_setParent hc (some p) hq).2

end Linked

/-! ## Taking a node from its parent -/

theorem parent_unlink (hc : t.InUse c) (x : Handle) :
    ((t.unlink c).slotOf x).parent = if x.slot = c.slot then none else (t.slotOf x).parent := by
  unfold unlink
  split
  · next hnone =>
    split
    · next hs => rw [slotOf_congr hs, hnone]
    · rfl
  · rw [slotOf_modifySlot_eq Slot.parent (by intro; rfl), parent_setParent hc]

theorem marker_unlink (t : Tree) (h x : Handle) :
    ((t.unlink h).slotOf x).marker = (t.slotOf x).marker := by
  unfold unlink
  split
  · rfl
  · rw [slotOf_modifySlot_eq Slot.marker (by intro; rfl), setParent,
      slotOf_modifySlot_eq Slot.marker (by intro; rfl)]

theorem Linked.unlink (hl : t.Linked down) (hc : t.InUse c) :
    (t.unlink c).Linked fun x => (down x).filter (· ≠ c) := by
  cases hp : (t.slotOf c).parent with
  | none =>
    -- Nothing is done to a node without a parent, and no list has it
    have heq : t.unlink c = t := by simp only [Tree.unlink, hp]
    rw [heq]
    apply hl.perm
    intro x hx
    rw [filter_ne_of_not_mem (hl.not_mem_down hx (by simp [hp]))]
  | some p =>
    have hinUse := (hl.parent hc hp).1
    simp only [Tree.unlink, hp]
    exact (hl.cut hc).modifySlot ((sameSlots_setParent t c none).inUse_iff.2 hinUse)
      (by intro; rfl) (by intro; rfl)

theorem Linked.children_unlink (hl : t.Linked down) (hc : t.InUse c) (hx : t.InUse x)
    (hd : (t.slotOf x).children = down x) :
    ((t.unlink c).slotOf x).children = (down x).filter (· ≠ c) := by
  -- Only the parent of `c` has `c` among its children
  have hself (hne : (t.slotOf c).parent ≠ some x) : (down x).filter (· ≠ c) = down x :=
    filter_ne_of_not_mem (hl.not_mem_down hx hne)
  cases hp : (t.slotOf c).parent with
  | none =>
    rw [hself (by simp [hp]), ← hd]
    simp only [Tree.unlink, hp]
  | some p =>
    have hinUse := (hl.parent hc hp).1
    simp only [Tree.unlink, hp]
    rw [children_modifySlot ((sameSlots_setParent t c none).inUse_iff.2 hinUse),
      children_setParent, hd]
    split
    · rfl
    · next hne => rw [hself fun heq => hne (by rw [Option.some.inj (hp.symm.trans heq)])]

theorem Linked.lineage_unlink (hl : t.Linked down) (hp : t.InUse p) (ha : t.Lineage p as)
    (hc : t.InUse c) (hnot : c ∉ p :: as) : (t.unlink c).Lineage p as := by
  apply (hl.lineage_setParent hp ha hc hnot none).congr
  intro x _
  rw [parent_unlink hc, parent_setParent hc]

theorem WellLinked.unlink (hl : t.WellLinked) (hc : t.InUse c) : (t.unlink c).WellLinked := by
  apply (Linked.unlink hl hc).wellLinked
  intro x hx
  rw [Linked.children_unlink hl hc ((sameSlots_unlink t c).inUse_iff.1 hx) rfl]

/-! ## Putting a node among the children of another -/

theorem insertAt_perm (i : Nat) (h : Handle) (hs : List Handle) :
    (insertAt i h hs).Perm (h :: hs) := by
  -- A list falls apart at any place
  have hperm : (hs.take i ++ h :: hs.drop i).Perm (h :: (hs.take i ++ hs.drop i)) :=
    List.perm_middle
  rwa [List.take_append_drop] at hperm

theorem sameSlots_placed (t : Tree) (p : Handle) (i : Nat) (c : Handle) :
    SameSlots t (t.placed p i c) :=
  ((sameSlots_unlink t c).trans (sameSlots_modifySlot (by intro; rfl) _ _)).trans
    (sameSlots_setParent _ _ _)

/-- A node without a parent is joined to another one, whose list of children is changed by `f`. -/
theorem WellLinked.join_with (hl : t.WellLinked) (hc : t.InUse c) (hroot : c ≠ t.root)
    (hnone : (t.slotOf c).parent = none) (hp : t.InUse p) (ha : t.Lineage p as)
    (hnot : c ∉ p :: as) (f : List Handle → List Handle) :
    let u := (t.modifySlot p fun s => { s with children := f s.children }).setParent c (some p)
    u.Linked (fun x => if x = p then c :: (t.slotOf x).children else (t.slotOf x).children) ∧
      SameSlots t u ∧ ∀ x, t.InUse x → (u.slotOf x).children =
        if x = p then f (t.slotOf x).children else (t.slotOf x).children := by
  have hs : SameSlots t (t.modifySlot p fun s => { s with children := f s.children }) :=
    sameSlots_modifySlot (by intro; rfl) t p
  -- The list of children is changed first, which is nothing to the links
  have hparent (x : Handle) :=
    slotOf_modifySlot_eq Slot.parent (f := fun s => { s with children := f s.children })
      (by intro; rfl) t p x
  have hlinked := Linked.modifySlot (f := fun s => { s with children := f s.children }) hl hp
    (by intro; rfl) (by intro; rfl)
  refine ⟨?_, hs.trans (sameSlots_setParent _ _ _), ?_⟩
  · exact hlinked.join (hs.inUse_iff.2 hc) (by rw [hs.root_eq]; exact hroot)
      (by rw [hparent]; exact hnone) (hs.inUse_iff.2 hp) (ha.congr fun x _ => hparent x) hnot
  · intro x hx
    rw [children_setParent, children_modifySlot (f := f) hp]
    by_cases hxp : x = p
    · rw [if_pos (by rw [hxp]), if_pos hxp]
    · rw [if_neg (hx.slot_ne hp hxp), if_neg hxp]

theorem WellLinked.placed (hl : t.WellLinked) (hp : t.InUse p) (hc : t.InUse c)
    (hroot : c ≠ t.root) (hnot : c ∉ p :: t.ancestors p) (i : Nat) :
    (t.placed p i c).WellLinked := by
  have hs := sameSlots_unlink t c
  obtain ⟨hlinked, hs', hchildren⟩ := (hl.unlink hc).join_with (hs.inUse_iff.2 hc)
    (by rw [hs.root_eq]; exact hroot) (by rw [parent_unlink hc, if_pos rfl])
    (hs.inUse_iff.2 hp)
    (Linked.lineage_unlink hl hp (Linked.lineage_ancestors hl hp) hc hnot) hnot (insertAt i c)
  apply hlinked.wellLinked
  intro x hx
  rw [hchildren x (hs'.inUse_iff.1 hx)]
  split
  · exact insertAt_perm i c _
  · exact .refl _

/-! ## Replacing all children of a node -/

namespace Linked

theorem cut_all (hl : t.Linked down) (hp : t.InUse p) (ha : t.Lineage p as)
    (hcs : ∀ c ∈ cs, t.InUse c ∧ c ∉ p :: as) :
    (cs.foldl (fun t c => t.setParent c none) t).Linked (fun x => (down x).filter (· ∉ cs)) ∧
      (cs.foldl (fun t c => t.setParent c none) t).Lineage p as := by
  induction cs generalizing t down with
  | nil => exact ⟨hl.perm fun x _ => by rw [List.filter_eq_self.2 (by simp)], ha⟩
  | cons c cs ih =>
    obtain ⟨⟨hc, hnot⟩, hcs⟩ := List.forall_mem_cons.1 hcs
    have hs := sameSlots_setParent t c none
    obtain ⟨hlinked, hlineage⟩ := ih (hl.cut hc) (hs.inUse_iff.2 hp)
      (hl.lineage_setParent hp ha hc hnot none)
      fun d hd => ⟨hs.inUse_iff.2 (hcs d hd).1, (hcs d hd).2⟩
    refine ⟨hlinked.perm fun x _ => ?_, hlineage⟩
    rw [List.filter_filter]
    simp [Bool.and_comm]

/-- Nodes are joined to a node one by one. The slot of that node may hold another list of children
until all of them have been joined. -/
theorem join_all (hl : t.Linked down) (hp : t.InUse p) (ha : t.Lineage p as)
    (hcs : ∀ c ∈ cs, t.InUse c ∧ c ≠ t.root ∧ c ∉ p :: as ∧ c ∉ down p) (hnodup : cs.Nodup)
    (hd : ∀ x, t.InUse x → x ≠ p → (t.slotOf x).children = down x) :
    let u := cs.foldl (fun t c => (t.unlink c).setParent c (some p)) t
    ∃ down', u.Linked down' ∧ (down' p).Perm (cs ++ down p) ∧ SameSlots t u ∧
      ∀ x, u.InUse x → x ≠ p → (u.slotOf x).children = down' x := by
  induction cs generalizing t down with
  | nil => exact ⟨down, hl, .refl _, .refl t, hd⟩
  | cons c cs ih =>
    obtain ⟨⟨hc, hroot, hnot, hfresh⟩, hcs⟩ := List.forall_mem_cons.1 hcs
    obtain ⟨hnotin, hnodup⟩ := List.nodup_cons.1 hnodup
    have hs := sameSlots_unlink t c
    have hs' := sameSlots_setParent (t.unlink c) c (some p)
    have hlin := hl.lineage_unlink hp ha hc hnot
    have hunlinked := hl.unlink hc
    have hjoin := hunlinked.join (hs.inUse_iff.2 hc) (by rw [hs.root_eq]; exact hroot)
      (by rw [parent_unlink hc, if_pos rfl]) (hs.inUse_iff.2 hp) hlin hnot
    -- It is no child of `p` yet, so taking it out changes nothing there
    have hdown : (down p).filter (· ≠ c) = down p := filter_ne_of_not_mem hfresh
    -- The others are as far from `p` as before, also from its new child
    have hrest := ih hjoin (hs'.inUse_iff.2 (hs.inUse_iff.2 hp))
      (hunlinked.lineage_setParent (hs.inUse_iff.2 hp) hlin (hs.inUse_iff.2 hc) hnot (some p))
      (fun e he => by
        obtain ⟨hinUse, heroot, henot, hefresh⟩ := hcs e he
        refine ⟨hs'.inUse_iff.2 (hs.inUse_iff.2 hinUse), ?_, henot, ?_⟩
        · rw [hs'.root_eq, hs.root_eq]
          exact heroot
        · rw [if_pos rfl, hdown]
          exact fun hmem => (List.mem_cons.1 hmem).elim (fun heq => hnotin (heq ▸ he)) hefresh)
      hnodup
      (fun x hx hxp => by
        have hx' := hs.inUse_iff.1 (hs'.inUse_iff.1 hx)
        rw [children_setParent, hl.children_unlink hc hx' (hd x hx' hxp), if_neg hxp])
    obtain ⟨down', hlinked, hperm, hsame, hagree⟩ := hrest
    refine ⟨down', hlinked, ?_, (hs.trans hs').trans hsame, hagree⟩
    rw [if_pos rfl, hdown] at hperm
    exact hperm.trans List.perm_middle

end Linked

theorem sameSlots_replaced (t : Tree) (p : Handle) (cs : List Handle) :
    SameSlots t (t.replaced p cs) := by
  refine SameSlots.trans ?_ (sameSlots_setChildren _ _ _)
  refine SameSlots.trans ?_ (SameSlots.foldl
    (fun t c => (sameSlots_unlink t c).trans (sameSlots_setParent _ _ _)) _ _)
  exact (sameSlots_setChildren _ _ _).trans
    (SameSlots.foldl (fun t c => sameSlots_setParent t c none) _ _)

/-- The new children of a node must be different ones. -/
theorem WellLinked.replaced (hl : t.WellLinked) (hp : t.InUse p)
    (hcs : ∀ c ∈ cs, t.InUse c ∧ c ≠ t.root ∧ c ∉ p :: t.ancestors p) (hnodup : cs.Nodup) :
    (t.replaced p cs).WellLinked := by
  have hlin := Linked.lineage_ancestors hl hp
  have hs := sameSlots_setChildren t p []
  have hparent (x : Handle) :=
    slotOf_modifySlot_eq Slot.parent (f := fun s => { s with children := [] }) (by intro; rfl) t p x
  -- First all children are cut; none of them is above `p`
  have hold : ∀ c ∈ (t.slotOf p).children,
      (t.setChildren p []).InUse c ∧ c ∉ p :: t.ancestors p := fun c hc =>
    ⟨hs.inUse_iff.2 (Linked.child hl hp hc).1, fun hmem =>
      Linked.not_above_of_child hl hp hc (isAncestorOrSelf_iff.2 hmem)⟩
  obtain ⟨hcut, hlineage⟩ := (Linked.setChildren hl hp []).cut_all (hs.inUse_iff.2 hp)
    (hlin.congr fun x _ => hparent x) hold
  have hs' := SameSlots.foldl (fun t c => sameSlots_setParent t c none) (t.slotOf p).children
    (t.setChildren p [])
  have hchildren {hs : List Handle} {v : Tree} (x : Handle) :
      ((hs.foldl (fun t c => t.setParent c none) v).slotOf x).children =
        (v.slotOf x).children := by
    induction hs generalizing v with
    | nil => rfl
    | cons c hs ih => rw [List.foldl_cons, ih, children_setParent]
  -- Then `p` has no children, and the new ones are joined to it
  have hnone : (t.slotOf p).children.filter (· ∉ (t.slotOf p).children) = [] := by
    simp [List.filter_eq_nil_iff]
  have hnew : ∀ c ∈ cs, ((t.slotOf p).children.foldl (fun t c => t.setParent c none)
      (t.setChildren p [])).InUse c ∧ c ≠ ((t.slotOf p).children.foldl
        (fun t c => t.setParent c none) (t.setChildren p [])).root ∧ c ∉ p :: t.ancestors p ∧
          c ∉ (t.slotOf p).children.filter (· ∉ (t.slotOf p).children) := by
    intro c hc
    obtain ⟨hinUse, hroot, hnot⟩ := hcs c hc
    refine ⟨hs'.inUse_iff.2 (hs.inUse_iff.2 hinUse), ?_, hnot, by rw [hnone]; simp⟩
    rw [hs'.root_eq, hs.root_eq]
    exact hroot
  have hjoin := hcut.join_all (hs'.inUse_iff.2 (hs.inUse_iff.2 hp)) hlineage hnew hnodup
    (fun x hx hxp => by
      -- A child of another node is none of the old children of `p`
      have hx' := hs.inUse_iff.1 (hs'.inUse_iff.1 hx)
      rw [hchildren, Tree.setChildren, slotOf_modifySlot hp.slot_lt, if_neg (hx'.slot_ne hp hxp)]
      refine (List.filter_eq_self.2 fun c hc => ?_).symm
      have hnot : c ∉ (t.slotOf p).children := fun hmem =>
        hxp (Option.some.inj ((Linked.child hl hx' hc).2.symm.trans (Linked.child hl hp hmem).2))
      simpa using hnot)
  obtain ⟨down', hlinked, hperm, hsame, hagree⟩ := hjoin
  rw [hnone, List.append_nil] at hperm
  -- Last the list of `p` is set to the new children, in their order
  have hp' := hsame.inUse_iff.2 (hs'.inUse_iff.2 (hs.inUse_iff.2 hp))
  apply (hlinked.setChildren hp' cs).wellLinked
  intro x hx
  have hx' := (sameSlots_setChildren _ p cs).inUse_iff.1 hx
  rw [Tree.setChildren, slotOf_modifySlot hp'.slot_lt]
  by_cases hxp : x = p
  · subst hxp
    rw [if_pos rfl]
    exact hperm.symm
  · rw [if_neg (hx'.slot_ne hp' hxp), hagree x hx' hxp]

/-! ## Putting a node in the place of another -/

theorem sameSlots_exchanged (t : Tree) (p old new : Handle) (i : Nat) :
    SameSlots t (t.exchanged p old new i) :=
  (((sameSlots_unlink t new).trans (sameSlots_modifySlot (by intro; rfl) _ _)).trans
    (sameSlots_setParent _ _ _)).trans (sameSlots_setParent _ _ _)

/-- A list with one item replaced has the new item and all but the old one. -/
private theorem set_perm {hs : List Handle} {i : Nat} (hi : hs.findIdx? (· == a) = some i)
    (hnodup : hs.Nodup) (hne : b ≠ a) : (hs.set i b).Perm ((b :: hs).filter (· ≠ a)) := by
  obtain ⟨hlt, hget, -⟩ := List.findIdx?_eq_some_iff_getElem.1 hi
  -- The old item stands at one place only, between two parts that do not have it
  have hsplit : hs = hs.take i ++ a :: hs.drop (i + 1) := by
    have hcons := List.getElem_cons_drop hlt
    rw [eq_of_beq hget] at hcons
    rw [hcons, List.take_append_drop]
  rw [List.set_eq_take_append_cons_drop, if_pos hlt, List.filter_cons_of_pos (by simpa using hne)]
  rw [hsplit] at hnodup
  have hrest := filter_ne_append_cons hnodup
  rw [← hsplit] at hrest
  rw [hrest]
  exact List.perm_middle

theorem WellLinked.exchanged {old new : Handle} {i : Nat} (hl : t.WellLinked) (ho : t.InUse old)
    (hp : t.InUse p) (hup : (t.slotOf old).parent = some p) (hn : t.InUse new)
    (hroot : new ≠ t.root) (hnot : new ∉ p :: t.ancestors p) (hne : new ≠ old)
    (hi : (t.unlink new).indexInParent? old = some i) : (t.exchanged p old new i).WellLinked := by
  have hs := sameSlots_unlink t new
  have hu := hl.unlink hn
  have hp' := hs.inUse_iff.2 hp
  have ho' := hs.inUse_iff.2 ho
  -- The old node has kept its parent when the new one was taken out of its place
  have hup' : ((t.unlink new).slotOf old).parent = some p := by
    rw [parent_unlink hn, if_neg (ho.slot_ne hn (Ne.symm hne)), hup]
  have hindex : ((t.unlink new).slotOf p).children.findIdx? (· == old) = some i := by
    rw [indexInParent?, parent?, if_pos ho'.owned, hup'] at hi
    exact hi
  -- The new node is joined to the parent of the old one, and the old one is cut from it
  obtain ⟨hlinked, hs', hchildren⟩ := hu.join_with (hs.inUse_iff.2 hn)
    (by rw [hs.root_eq]; exact hroot) (by rw [parent_unlink hn, if_pos rfl]) hp'
    (Linked.lineage_unlink hl hp (Linked.lineage_ancestors hl hp) hn hnot) hnot (·.set i new)
  apply (hlinked.cut (hs'.inUse_iff.2 ho')).wellLinked
  intro x hx
  have hx' := hs'.inUse_iff.1 ((sameSlots_setParent _ _ _).inUse_iff.1 hx)
  rw [children_setParent, hchildren x hx']
  split
  · next hxp =>
    subst hxp
    exact set_perm hindex (Linked.nodup hu hp') hne
  · next hxp =>
    have hother : ((t.unlink new).slotOf old).parent ≠ some x := by
      rw [hup']
      exact fun heq => hxp (Option.some.inj heq).symm
    rw [filter_ne_of_not_mem (Linked.not_mem_down hu hx' hother)]

end TabStop.Tree
