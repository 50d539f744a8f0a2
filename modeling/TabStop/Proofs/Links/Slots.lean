import TabStop.Proofs.Links.Moving

/-!
# Getting and giving back slots

A new node stands alone, in a slot that was free and linked to nothing, or in one that did not
exist. A node is released together with all that is below it, so nothing that stays is linked to
what goes. How the generations of the slots change says which handles stay good.
-/

namespace TabStop.Tree

variable {t u v : Tree} {c h p x : Handle} {hs : List Handle} {m : Marker}
variable {down : Handle → List Handle}

/-! ## How the slots in use change -/

/-- Slots have been taken, and none has been given back. -/
structure Extends (t u : Tree) : Prop where
  identity : u.identity = t.identity
  size_le : t.slots.size ≤ u.slots.size
  free : u.free <:+ t.free
  generation : ∀ x, (u.slotOf x).generation = (t.slotOf x).generation

/-- The slots `gone` have been given back, and none has been taken. -/
structure Trims (t : Tree) (gone : List Nat) (u : Tree) : Prop where
  identity : u.identity = t.identity
  size : u.slots.size = t.slots.size
  free : u.free = gone ++ t.free
  generation : ∀ x, (u.slotOf x).generation =
    if x.slot ∈ gone then (t.slotOf x).generation + 1 else (t.slotOf x).generation

namespace Extends

theorem refl (t : Tree) : Extends t t := ⟨rfl, Nat.le_refl _, List.suffix_refl _, fun _ => rfl⟩

theorem trans (h : Extends t u) (h' : Extends u v) : Extends t v :=
  ⟨h'.identity.trans h.identity, Nat.le_trans h.size_le h'.size_le, h'.free.trans h.free,
    fun x => (h'.generation x).trans (h.generation x)⟩

theorem root_eq (h : Extends t u) : u.root = t.root := by simp [root, h.identity]

theorem inUse (h : Extends t u) (hx : t.InUse x) : u.InUse x := by
  obtain ⟨htree, hlt, hgen⟩ := owns_iff.1 hx.owned
  constructor
  · rw [owns_iff, h.identity, h.generation]
    exact ⟨htree, Nat.lt_of_lt_of_le hlt h.size_le, hgen⟩
  · exact fun hmem => hx.kept (h.free.subset hmem)

end Extends

theorem SameSlots.extends (h : SameSlots t u) : Extends t u :=
  ⟨h.identity, Nat.le_of_eq h.size.symm, h.free ▸ List.suffix_refl _, h.generation⟩

theorem SameSlots.trims (h : SameSlots t u) : Trims t [] u :=
  ⟨h.identity, h.size, h.free, fun x => by rw [if_neg (by simp)]; exact h.generation x⟩

namespace Trims

variable {gone gone' : List Nat}

theorem root_eq (h : Trims t gone u) : u.root = t.root := by simp [root, h.identity]

theorem inUse_iff (h : Trims t gone u) : u.InUse x ↔ t.InUse x ∧ x.slot ∉ gone := by
  have howns (hgone : x.slot ∉ gone) : u.owns x ↔ t.owns x := by
    rw [owns_iff, owns_iff, h.identity, h.size, h.generation, if_neg hgone]
  constructor
  · intro hx
    have hkept := hx.kept
    rw [h.free, List.mem_append, not_or] at hkept
    exact ⟨⟨(howns hkept.1).1 hx.owned, hkept.2⟩, hkept.1⟩
  · rintro ⟨hx, hgone⟩
    refine ⟨(howns hgone).2 hx.owned, ?_⟩
    rw [h.free, List.mem_append, not_or]
    exact ⟨hgone, hx.kept⟩

/-- A slot is given back once, since no slot has been taken in between. -/
theorem trans (h : Trims t gone u) (h' : Trims u gone' v) (hnodup : v.free.Nodup) :
    Trims t (gone' ++ gone) v := by
  refine ⟨h'.identity.trans h.identity, h'.size.trans h.size, ?_, fun x => ?_⟩
  · rw [h'.free, h.free, List.append_assoc]
  · -- A slot given back twice would be twice among the free ones
    have hdisjoint : x.slot ∈ gone' → x.slot ∉ gone := by
      rw [h'.free, h.free, ← List.append_assoc] at hnodup
      have := (List.nodup_append.1 (List.nodup_append.1 hnodup).1).2.2
      exact fun hx' hx => this _ hx' _ hx rfl
    rw [h'.generation, h.generation]
    by_cases hx' : x.slot ∈ gone'
    · simp [hx', hdisjoint hx']
    · simp [hx']

end Trims

/-! ## New nodes -/

/-- What is true of a tree in which a node has been made. -/
structure Allocated (t : Tree) (m : Marker) (h : Handle) (u : Tree) : Prop where
  extended : Extends t u
  inUse_iff : ∀ x, u.InUse x ↔ x = h ∨ t.InUse x
  fresh : ¬ t.InUse h
  marker : (u.slotOf h).marker = m
  parent : (u.slotOf h).parent = none
  children : (u.slotOf h).children = []
  other : ∀ x, x.slot ≠ h.slot → u.slotOf x = t.slotOf x

theorem inUse_iff : t.InUse x ↔ x.tree = t.identity ∧ x.slot < t.slots.size ∧
    (t.slotOf x).generation = x.generation ∧ x.slot ∉ t.free := by
  constructor
  · intro hx
    obtain ⟨htree, hlt, hgen⟩ := owns_iff.1 hx.owned
    exact ⟨htree, hlt, hgen, hx.kept⟩
  · rintro ⟨htree, hlt, hgen, hkept⟩
    exact ⟨owns_iff.2 ⟨htree, hlt, hgen⟩, hkept⟩

/-- A node is made in slot `i`, which was free or did not exist. -/
private theorem allocated_at {i : Nat} (hidentity : u.identity = t.identity)
    (hsize : ∀ j, j < u.slots.size ↔ j = i ∨ j < t.slots.size) (hfree : u.free <:+ t.free)
    (hkept : ∀ j, j ∉ u.free ↔ j = i ∨ j ∉ t.free) (hfresh : i < t.slots.size → i ∈ t.free)
    (hat : ∀ x, u.slotOf x = if x.slot = i then { t.slotOf x with marker := m } else t.slotOf x)
    (hh : h.slot = i) (htree : h.tree = t.identity)
    (hgeneration : h.generation = (t.slotOf h).generation)
    (hparent : (t.slotOf h).parent = none) (hchildren : (t.slotOf h).children = []) :
    Allocated t m h u := by
  have hgen (x : Handle) : (u.slotOf x).generation = (t.slotOf x).generation := by
    rw [hat]
    split <;> rfl
  -- No slot is lost: the last one that there was is still there
  have hle : t.slots.size ≤ u.slots.size := by
    by_cases hpos : t.slots.size = 0
    · omega
    · have := (hsize (t.slots.size - 1)).2 (Or.inr (by omega))
      omega
  constructor
  case extended =>
    exact ⟨hidentity, hle, hfree, hgen⟩
  case inUse_iff =>
    intro x
    rw [inUse_iff, inUse_iff, hidentity, hsize, hgen, hkept]
    by_cases hx : x.slot = i
    · -- The only handle of the new slot that is good is the one with its generation
      have hslot : t.slotOf x = t.slotOf h := slotOf_congr (hx.trans hh.symm)
      constructor
      · rintro ⟨hxtree, -, hxgen, -⟩
        left
        rw [hslot, ← hgeneration] at hxgen
        obtain ⟨tree, slot, generation⟩ := x
        obtain ⟨tree', slot', generation'⟩ := h
        exact Handle.mk.injEq .. ▸ ⟨hxtree.trans htree.symm, hx.trans hh.symm, hxgen.symm⟩
      · rintro (rfl | ⟨-, hlt, -, hnot⟩)
        · exact ⟨htree, Or.inl hx, hgeneration.symm, Or.inl hx⟩
        · exact absurd (hx ▸ hfresh (hx ▸ hlt)) hnot
    · have hne : x ≠ h := fun heq => hx (heq ▸ hh)
      simp [hx, hne]
  case fresh =>
    intro hinUse
    exact hinUse.kept (hh ▸ hfresh (hh ▸ hinUse.slot_lt))
  case marker =>
    rw [hat, if_pos hh]
  case parent =>
    rw [hat, if_pos hh]
    exact hparent
  case children =>
    rw [hat, if_pos hh]
    exact hchildren
  case other =>
    intro x hx
    rw [hat, if_neg fun heq => hx (heq.trans hh.symm)]

theorem Linked.allocated (hl : t.Linked down) (m : Marker) :
    Allocated t m (t.alloc m).1 (t.alloc m).2 := by
  cases hfree : t.free with
  | nil =>
    -- The new slot comes behind all others
    have halloc : t.alloc m = (⟨t.identity, t.slots.size, 0⟩,
        { t with slots := t.slots.push { marker := m } }) := by
      simp only [alloc, hfree]
    have hnew {x : Handle} (hx : x.slot = t.slots.size) : t.slotOf x = default := by
      simp [slotOf, Array.getD_eq_getD_getElem?, hx]
    rw [halloc]
    refine allocated_at (i := t.slots.size) rfl (fun j => ?_) (List.suffix_refl _)
      (fun j => by simp [hfree]) (fun hlt => absurd hlt (Nat.lt_irrefl _)) (fun x => ?_) rfl rfl
      (by rw [hnew rfl]; rfl) (by rw [hnew rfl]; rfl) (by rw [hnew rfl]; rfl)
    -- One slot more, which holds the new node
    · rw [Array.size_push]
      omega
    · by_cases hx : x.slot = t.slots.size
      · rw [if_pos hx, hnew hx]
        simp [slotOf, Array.getD_eq_getD_getElem?, hx]
        exact ⟨rfl, rfl, rfl⟩
      · simp [slotOf, Array.getD_eq_getD_getElem?, Array.getElem?_push, hx]
  | cons i free =>
    have hmem : i ∈ t.free := by simp [hfree]
    have hlt : i < t.slots.size := hl.free_lt i hmem
    -- The first of the free slots is taken, and it is among them once
    have hnot : i ∉ free := by
      have := hl.free_nodup
      rw [hfree] at this
      exact (List.nodup_cons.1 this).1
    -- The handle has the generation that was left when the slot was given back
    obtain ⟨h, hh⟩ : ∃ h : Handle, h = ⟨t.identity, i, (t.slots.getD i default).generation⟩ :=
      ⟨_, rfl⟩
    have hslot : h.slot = i := by rw [hh]
    have hgen := slotOf_modifySlot_eq Slot.generation (f := fun s => { s with marker := m })
      (by intro; rfl) t h h
    have halloc : t.alloc m =
        (h, { t.modifySlot h (fun s => { s with marker := m }) with free := free }) := by
      simp only [alloc, hfree]
      refine Prod.ext ?_ (by rw [hh]; rfl)
      rw [hh] at hgen ⊢
      exact congrArg (Handle.mk t.identity i) hgen
    rw [halloc]
    refine allocated_at (i := i) rfl (fun j => ?_) ⟨[i], by simp [hfree]⟩ (fun j => ?_)
      (fun _ => hmem) (fun x => ?_) hslot (by rw [hh]) (by rw [hh]; rfl)
      (hl.free_parent (hslot ▸ hmem)) (hl.free_children (hslot ▸ hmem))
    · rw [modifySlot_size]
      omega
    · simp only [hfree, List.mem_cons, not_or]
      by_cases hj : j = i
      · simp [hj, hnot]
      · simp [hj]
    · rw [← hslot]
      exact slotOf_modifySlot (hslot ▸ hlt) _ x

namespace Allocated

variable {down : Handle → List Handle}

theorem slotOf_eq (ha : Allocated t m h u) (hx : t.InUse x) : u.slotOf x = t.slotOf x := by
  -- A node in use is not in the slot of the new one
  refine ha.other x fun hs => ha.fresh ?_
  rwa [← (ha.extended.inUse hx).eq_of_slot ((ha.inUse_iff h).2 (Or.inl rfl)) hs]

/-- A new node is below nothing, and nothing is below it. -/
theorem linked (ha : Allocated t m h u) (hl : t.Linked down) :
    u.Linked fun x => if x = h then [] else down x := by
  have hroot := ha.extended.root_eq
  have hne {x : Handle} (hx : t.InUse x) : x ≠ h := fun heq => ha.fresh (heq ▸ hx)
  have hfree {x : Handle} (hx : x.slot ∈ u.free) : x.slot ≠ h.slot := fun heq =>
    ((ha.inUse_iff h).2 (Or.inl rfl)).kept (heq ▸ hx)
  -- The new node has neither parent nor children, and what was in use is not the new node
  constructor
  case root_inUse =>
    rw [hroot]
    exact ha.extended.inUse hl.root_inUse
  case root_parent =>
    rw [hroot, ha.slotOf_eq hl.root_inUse]
    exact hl.root_parent
  case child =>
    intro p c hp hc
    split at hc
    · simp at hc
    · next hph =>
      have hp' := ((ha.inUse_iff p).1 hp).resolve_left hph
      obtain ⟨hinUse, hup⟩ := hl.child hp' hc
      rw [ha.slotOf_eq hinUse]
      exact ⟨ha.extended.inUse hinUse, hup⟩
  case parent =>
    intro p c hc hup
    rcases (ha.inUse_iff c).1 hc with rfl | hc'
    · rw [ha.parent] at hup
      simp at hup
    · rw [ha.slotOf_eq hc'] at hup
      obtain ⟨hinUse, hmem⟩ := hl.parent hc' hup
      rw [if_neg (hne hinUse)]
      exact ⟨ha.extended.inUse hinUse, hmem⟩
  case nodup =>
    intro p hp
    split
    · exact List.nodup_nil
    · next hph => exact hl.nodup (((ha.inUse_iff p).1 hp).resolve_left hph)
  case lineage =>
    intro x hx
    -- The new node has nothing above it; of the others none on the way up has changed
    rcases (ha.inUse_iff x).1 hx with rfl | hx'
    · exact ⟨[], ha.parent⟩
    · obtain ⟨as, has⟩ := hl.lineage hx'
      refine ⟨as, has.congr fun y hy => ?_⟩
      rcases List.mem_cons.1 hy with rfl | hy
      · rw [ha.slotOf_eq hx']
      · rw [ha.slotOf_eq (hl.lineage_inUse hx' has y hy)]
  case free_nodup =>
    exact hl.free_nodup.sublist ha.extended.free.sublist
  case free_lt =>
    intro i hi
    exact Nat.lt_of_lt_of_le (hl.free_lt i (ha.extended.free.subset hi)) ha.extended.size_le
  case free_parent =>
    intro x hx
    rw [ha.other x (hfree hx)]
    exact hl.free_parent (ha.extended.free.subset hx)
  case free_children =>
    intro x hx
    rw [ha.other x (hfree hx)]
    exact hl.free_children (ha.extended.free.subset hx)

theorem wellLinked (ha : Allocated t m h u) (hl : t.WellLinked) : u.WellLinked := by
  apply (ha.linked hl).wellLinked
  intro x hx
  rcases (ha.inUse_iff x).1 hx with rfl | hx'
  · rw [if_pos rfl, ha.children]
  · have hne : x ≠ h := fun heq => ha.fresh (heq ▸ hx')
    rw [if_neg hne, ha.slotOf_eq hx']

end Allocated

/-! ## Releasing nodes -/

/-- What a slot holds after it has been given back. -/
def Slot.cleared (s : Slot) : Slot := { marker := .text "", generation := s.generation + 1 }

theorem slotOf_freeSlot (hlt : h.slot < t.slots.size) (x : Handle) :
    (t.freeSlot h).slotOf x = if x.slot = h.slot then Slot.cleared (t.slotOf x) else t.slotOf x :=
  slotOf_modifySlot hlt _ x

/-- Giving back slots one by one, none of them twice. -/
theorem foldl_freeSlot (hlt : ∀ h ∈ hs, h.slot < t.slots.size)
    (hnodup : (hs.map Handle.slot).Nodup) :
    Trims t (hs.map Handle.slot).reverse (hs.foldl freeSlot t) ∧
      ∀ x, (hs.foldl freeSlot t).slotOf x =
        if x.slot ∈ hs.map Handle.slot then Slot.cleared (t.slotOf x) else t.slotOf x := by
  induction hs generalizing t with
  | nil => exact ⟨(SameSlots.refl t).trims, fun x => by simp⟩
  | cons h hs ih =>
    obtain ⟨hlt, hlts⟩ := List.forall_mem_cons.1 hlt
    obtain ⟨hnot, hnodup⟩ := List.nodup_cons.1 hnodup
    obtain ⟨htrims, hslots⟩ := ih (t := t.freeSlot h)
      (fun d hd => by simpa [freeSlot] using hlts d hd) hnodup
    have hat (x : Handle) : ((h :: hs).foldl freeSlot t).slotOf x =
        if x.slot ∈ (h :: hs).map Handle.slot then Slot.cleared (t.slotOf x) else t.slotOf x := by
      -- A slot is cleared when its turn comes and not touched after that
      rw [List.foldl_cons, hslots, slotOf_freeSlot hlt]
      by_cases hx : x.slot = h.slot
      · rw [if_neg (by rw [hx]; exact hnot), if_pos hx, if_pos (by simp [hx])]
      · simp [hx]
    refine ⟨⟨htrims.identity, htrims.size.trans (by simp [freeSlot]), ?_, fun x => ?_⟩, hat⟩
    · rw [List.foldl_cons, htrims.free]
      simp [freeSlot]
    · rw [hat]
      by_cases hx : x.slot ∈ (h :: hs).map Handle.slot
      · rw [if_pos hx, if_pos (List.mem_reverse.2 hx)]
        rfl
      · rw [if_neg hx, if_neg fun hmem => hx (List.mem_reverse.1 hmem)]

/-- What is true of a tree from which a node has been released with all below it. -/
structure Released (t : Tree) (h : Handle) (u : Tree) : Prop where
  trims : Trims t ((t.walk h).map Handle.slot).reverse u
  inUse_iff : ∀ x, u.InUse x ↔ t.InUse x ∧ x ∉ t.walk h
  other : ∀ x, u.InUse x → u.slotOf x = t.slotOf x

/-- What goes is linked to nothing that stays: a child goes with its parent, and a parent with its
child, as only `h` has nothing above it that could stay. -/
theorem Linked.mem_walk_child_iff (hl : t.Linked down) (hh : t.InUse h) (hd : t.AgreesBelow down h)
    (hnone : (t.slotOf h).parent = none) (hp : t.InUse p) (hc : c ∈ down p) :
    c ∈ t.walk h ↔ p ∈ t.walk h := by
  constructor
  · intro hcw
    rw [hl.mem_walk_iff hh hd, isAncestorOrSelf_iff, hl.ancestors_child hp hc] at hcw
    rcases List.mem_cons.1 hcw.2 with rfl | hmem
    · have hup := (hl.child hp hc).2
      simp [hnone] at hup
    · exact (hl.mem_walk_iff hh hd).2 ⟨hp, isAncestorOrSelf_iff.2 hmem⟩
  · exact fun hpw => hl.mem_walk_child hh hd hpw hc

/-- Nothing is above the root, so it is below no other node. -/
theorem Linked.root_not_mem_walk (hl : t.Linked down) (hh : t.InUse h) (hd : t.AgreesBelow down h)
    (hroot : h ≠ t.root) : t.root ∉ t.walk h := by
  intro hmem
  have hlin : t.ancestors t.root = [] := hl.ancestors_eq hl.root_inUse hl.root_parent
  rw [hl.mem_walk_iff hh hd, isAncestorOrSelf_iff, hlin] at hmem
  exact hroot (List.mem_singleton.1 hmem.2)

/-- The slots of a node and of all below it are given back, and a slot that has been free or has been
given back is linked to nothing. -/
theorem Linked.releasedNodes (hl : t.Linked down) (hh : t.InUse h) (hd : t.AgreesBelow down h) :
    Released t h ((t.walk h).foldl freeSlot t) ∧
      ((t.walk h).map Handle.slot).Nodup ∧
      ∀ x, x.slot ∈ ((t.walk h).foldl freeSlot t).free →
        (((t.walk h).foldl freeSlot t).slotOf x).parent = none ∧
          (((t.walk h).foldl freeSlot t).slotOf x).children = [] := by
  have hin {x : Handle} (hx : x ∈ t.walk h) : t.InUse x := ((hl.mem_walk_iff hh hd).1 hx).1
  -- Each slot is freed once, since no node is met twice
  have hnodup := nodup_map_slot (fun x hx => hin hx) (hl.nodup_walk hh hd)
  obtain ⟨htrims, hslots⟩ := foldl_freeSlot (fun x hx => (hin hx).slot_lt) hnodup
  have hmem {x : Handle} (hx : t.InUse x) := mem_map_slot (fun x hx => hin hx) hx
  have hinUse (x : Handle) : ((t.walk h).foldl freeSlot t).InUse x ↔ t.InUse x ∧ x ∉ t.walk h := by
    rw [htrims.inUse_iff, List.mem_reverse]
    exact and_congr_right fun hx => not_congr (hmem hx)
  refine ⟨⟨htrims, hinUse, fun x hx => ?_⟩, hnodup, fun x hx => ?_⟩
  · obtain ⟨hx, hnot⟩ := (hinUse x).1 hx
    rw [hslots, if_neg fun hxs => hnot ((hmem hx).1 hxs)]
  -- A free slot was freed now, and so emptied, or was free before
  · rw [htrims.free, List.mem_append, List.mem_reverse] at hx
    rw [hslots]
    split
    · exact ⟨rfl, rfl⟩
    · next hnot =>
      have hxf := hx.resolve_left hnot
      exact ⟨hl.free_parent hxf, hl.free_children hxf⟩

theorem Linked.released (hl : t.Linked down) (hh : t.InUse h) (hd : t.AgreesBelow down h)
    (hroot : h ≠ t.root) (hnone : (t.slotOf h).parent = none) :
    Released t h ((t.walk h).foldl freeSlot t) ∧ ((t.walk h).foldl freeSlot t).Linked down := by
  obtain ⟨hr, hnodup, hfree⟩ := hl.releasedNodes hh hd
  refine ⟨hr, ?_⟩
  have hwalk {x : Handle} := hl.mem_walk_iff (x := x) hh hd
  have hrootIn : ((t.walk h).foldl freeSlot t).InUse t.root :=
    (hr.inUse_iff _).2 ⟨hl.root_inUse, hl.root_not_mem_walk hh hd hroot⟩
  constructor
  case root_inUse =>
    rw [hr.trims.root_eq]
    exact hrootIn
  case root_parent =>
    rw [hr.trims.root_eq, hr.other _ hrootIn]
    exact hl.root_parent
  case child =>
    intro p c hp hc
    obtain ⟨hpu, hpw⟩ := (hr.inUse_iff p).1 hp
    obtain ⟨hcu, hup⟩ := hl.child hpu hc
    have hcw : c ∉ t.walk h := fun hcw => hpw ((hl.mem_walk_child_iff hh hd hnone hpu hc).1 hcw)
    have hcin := (hr.inUse_iff c).2 ⟨hcu, hcw⟩
    exact ⟨hcin, by rw [hr.other c hcin]; exact hup⟩
  case parent =>
    intro p c hc hup
    obtain ⟨hcu, hcw⟩ := (hr.inUse_iff c).1 hc
    rw [hr.other c hc] at hup
    obtain ⟨hpu, hmem⟩ := hl.parent hcu hup
    have hpw : p ∉ t.walk h := fun hpw => hcw ((hl.mem_walk_child_iff hh hd hnone hpu hmem).2 hpw)
    exact ⟨(hr.inUse_iff p).2 ⟨hpu, hpw⟩, hmem⟩
  case nodup =>
    exact fun hp => hl.nodup ((hr.inUse_iff _).1 hp).1
  case lineage =>
    intro x hx
    obtain ⟨hxu, hxw⟩ := (hr.inUse_iff x).1 hx
    obtain ⟨as, ha⟩ := hl.lineage hxu
    refine ⟨as, ha.congr fun y hy => ?_⟩
    -- Were a node above `x` to go, then `x` would go too
    have hyx : t.isAncestorOrSelf y x := by
      rw [isAncestorOrSelf_iff, hl.ancestors_eq hxu ha]
      exact hy
    have hyw : y ∉ t.walk h := fun hyw =>
      hxw (hwalk.2 ⟨hxu, hl.above_trans hxu hyx (hwalk.1 hyw).2⟩)
    rw [hr.other y ((hr.inUse_iff y).2 ⟨hl.above_inUse hxu hyx, hyw⟩)]
  case free_nodup =>
    rw [hr.trims.free]
    -- What is given back was in use, so it was not free
    refine List.nodup_append.2 ⟨(List.reverse_perm _).nodup_iff.2 hnodup, hl.free_nodup, ?_⟩
    intro i hi j hj hij
    obtain ⟨x, hx, rfl⟩ := List.mem_map.1 (List.mem_reverse.1 hi)
    exact (hwalk.1 hx).1.kept (hij ▸ hj)
  case free_lt =>
    intro i hi
    rw [capacity, hr.trims.size]
    rw [hr.trims.free, List.mem_append, List.mem_reverse] at hi
    rcases hi with hi | hi
    · obtain ⟨x, hx, rfl⟩ := List.mem_map.1 hi
      exact (hwalk.1 hx).1.slot_lt
    · exact hl.free_lt i hi
  case free_parent =>
    exact fun hx => (hfree _ hx).1
  case free_children =>
    exact fun hx => (hfree _ hx).2

end TabStop.Tree
