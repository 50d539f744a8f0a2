import TabStop.Proofs.Links.Evolution

/-!
# Replacing the children of a node

A node gets given nodes as its children, wherever these have been before: among its old children,
below one another, or elsewhere. A node that is given twice is listed twice, and this is the only
way in which a node comes to be listed more than once.
-/

namespace TabStop.Tree

variable {t u v : Tree} {c h p x : Handle} {cs : List Handle}

/-! ## Single owners -/

/-- The nodes that are listed name those that list them as their parents. -/
def Named (t : Tree) : Prop :=
  ∀ p, t.owns p → ∀ c ∈ (t.slotOf p).children, t.owns c ∧ (t.slotOf c).parent = some p

/-- Each node is listed once at most in all lists of children together, and names the node that
lists it as its parent. -/
structure SingleOwners (t : Tree) : Prop where
  once : (t.slots.toList.flatMap Slot.children).Nodup
  named : ∀ p c, c ∈ t.children p → t.parent? c = some p

theorem slotOf_getElem {i : Nat} (hi : i < t.slots.size) (hx : x.slot = i) :
    t.slotOf x = t.slots[i] := by
  simp [slotOf, hx, hi]

/-- Different lists share no node, as a node names one parent. So no more is needed than that each
list has no node twice. -/
theorem Named.singleOwners (hn : t.Named)
    (hnodup : ∀ p, t.owns p → (t.slotOf p).children.Nodup) : t.SingleOwners := by
  -- The handle of the node in a slot, be it in use or not
  have howner {i : Nat} (hi : i < t.slots.size) :
      ∃ p : Handle, p.slot = i ∧ t.owns p ∧ (t.slotOf p).children = t.slots[i].children := by
    have hslot : t.slotOf ⟨t.identity, i, t.slots[i].generation⟩ = t.slots[i] :=
      slotOf_getElem hi rfl
    exact ⟨_, rfl, owns_iff.2 ⟨rfl, hi, by rw [hslot]⟩, by rw [hslot]⟩
  constructor
  case once =>
    rw [List.Nodup, List.pairwise_flatMap]
    constructor
    · intro s hs
      obtain ⟨i, hi, rfl⟩ := List.mem_iff_getElem.1 hs
      obtain ⟨p, -, hp, heq⟩ := howner (by simpa using hi)
      rw [Array.getElem_toList, ← heq]
      exact hnodup p hp
    · rw [List.pairwise_iff_getElem]
      intro i j hi hj hij a ha b hb hab
      subst hab
      rw [Array.getElem_toList] at ha hb
      obtain ⟨p, rfl, hp, heq⟩ := howner (by simpa using hi)
      obtain ⟨q, rfl, hq, heq'⟩ := howner (by simpa using hj)
      rw [← heq] at ha
      rw [← heq'] at hb
      -- Both owners are named as the one parent
      have hsame := (hn p hp a ha).2.symm.trans (hn q hq a hb).2
      rw [Option.some.inj hsame] at hij
      exact Nat.lt_irrefl _ hij
  case named =>
    intro p c hc
    unfold children at hc
    split at hc
    · next hp =>
      obtain ⟨ho, hparent⟩ := hn p hp c hc
      rw [parent?, if_pos ho, hparent]
    · simp at hc

theorem SingleOwners.nodup_children (hs : t.SingleOwners) (p : Handle) (hp : t.owns p) :
    (t.slotOf p).children.Nodup := by
  have hlt := (owns_iff.1 hp).2.1
  rw [slotOf_getElem hlt rfl]
  have honce := hs.once
  rw [List.flatMap_def] at honce
  rw [List.Nodup, List.pairwise_flatten] at honce
  apply honce.1
  exact List.mem_map_of_mem (Array.mem_toList_iff.2 (Array.getElem_mem hlt))

theorem WellLinked.inUse_of_mem (hl : t.WellLinked) (hp : t.owns p)
    (hc : c ∈ (t.slotOf p).children) : t.InUse p :=
  hl.inUse_of_child (by rwa [children, if_pos hp])

theorem WellLinked.named (hl : t.WellLinked) : t.Named := by
  intro p hp c hc
  obtain ⟨hinUse, hup⟩ := Linked.child hl (hl.inUse_of_mem hp hc) hc
  exact ⟨hinUse.owned, hup⟩

theorem WellLinked.singleOwners (hl : t.WellLinked) : t.SingleOwners := by
  refine hl.named.singleOwners fun p hp => ?_
  by_cases hh : t.InUse p
  · exact Linked.nodup hl hh
  · -- A free slot lists nothing
    have hfree : p.slot ∈ t.free := Decidable.of_not_not fun hnot => hh ⟨hp, hnot⟩
    rw [Linked.free_children hl hfree]
    exact List.nodup_nil

/-! ## The lists after a replacement -/

theorem SameSlots.owns_iff (hs : SameSlots t u) : u.owns x ↔ t.owns x := by
  rw [Tree.owns_iff, Tree.owns_iff, hs.identity, hs.size, hs.generation]

theorem slot_eq_iff (ha : t.owns c) (hb : t.owns x) : c.slot = x.slot ↔ c = x :=
  ⟨eq_of_owns ha hb, fun heq => by rw [heq]⟩

/-- Puts a node below another without listing it there. -/
def adopt (p : Handle) (t : Tree) (c : Handle) : Tree := (t.unlink c).setParent c (some p)

theorem sameSlots_adopt (p : Handle) (t : Tree) (c : Handle) : SameSlots t (t.adopt p c) :=
  (sameSlots_unlink t c).trans (sameSlots_setParent _ _ _)

theorem parent_adopt (hc : t.owns c) (hx : t.owns x) :
    ((adopt p t c).slotOf x).parent = if x = c then some p else (t.slotOf x).parent := by
  have hs := sameSlots_unlink t c
  rw [adopt, setParent, slotOf_modifySlot (Tree.owns_iff.1 (hs.owns_iff.2 hc)).2.1]
  simp only [slot_eq_iff hx hc]
  split
  · rfl
  · next hne =>
    unfold unlink
    split
    · rfl
    · rw [slotOf_modifySlot_eq Slot.parent (by intro; rfl), setParent,
        slotOf_modifySlot (Tree.owns_iff.1 hc).2.1, if_neg (mt (slot_eq_iff hx hc).1 hne)]

/-- The node that is put below another is not listed anywhere then. -/
theorem children_adopt (hn : t.Named) (hx : t.owns x) :
    ((adopt p t c).slotOf x).children = (t.slotOf x).children.filter (· ≠ c) := by
  rw [adopt, children_setParent]
  -- Only the parent that the node names can have listed it
  have hself (hne : (t.slotOf c).parent ≠ some x) :
      (t.slotOf x).children.filter (· ≠ c) = (t.slotOf x).children :=
    filter_ne_of_not_mem fun hmem => hne (hn x hx c hmem).2
  cases hq : (t.slotOf c).parent with
  | none =>
    rw [hself (by simp [hq])]
    simp only [unlink, hq]
  | some q =>
    simp only [unlink, hq]
    by_cases hlt : q.slot < t.slots.size
    · rw [slotOf_modifySlot (by simpa [setParent] using hlt)]
      split
      · simp
      · next hne =>
        rw [children_setParent, hself fun heq => hne (by rw [Option.some.inj (hq.symm.trans heq)])]
    · have hne : (t.slotOf c).parent ≠ some x := by
        rw [hq]
        rintro heq
        exact hlt (Option.some.inj heq ▸ (Tree.owns_iff.1 hx).2.1)
      rw [hself hne, modifySlot_of_not_lt (by simpa [setParent] using hlt), children_setParent]

/-- Whatever is put below `p`, what is still listed elsewhere names who lists it. -/
theorem named_adopt (hn : t.Named) (hc : t.owns c) : (adopt p t c).Named := by
  have hs := sameSlots_adopt p t c
  intro x hx d hd
  have hx := hs.owns_iff.1 hx
  rw [children_adopt hn hx] at hd
  obtain ⟨hd, hne⟩ := List.mem_filter.1 hd
  obtain ⟨ho, hup⟩ := hn x hx d hd
  rw [hs.owns_iff, parent_adopt hc ho, if_neg (by simpa using hne)]
  exact ⟨ho, hup⟩

theorem foldl_adopt (hn : t.Named) (hcs : ∀ c ∈ cs, t.owns c) :
    (cs.foldl (adopt p) t).Named ∧ SameSlots t (cs.foldl (adopt p) t) ∧ ∀ x, t.owns x →
      ((cs.foldl (adopt p) t).slotOf x).parent =
          (if x ∈ cs then some p else (t.slotOf x).parent) ∧
        ((cs.foldl (adopt p) t).slotOf x).children =
          (t.slotOf x).children.filter (· ∉ cs) := by
  induction cs generalizing t with
  | nil => exact ⟨hn, .refl t, fun x _ => ⟨rfl, (List.filter_eq_self.2 (by simp)).symm⟩⟩
  | cons c cs ih =>
    obtain ⟨hc, hcs⟩ := List.forall_mem_cons.1 hcs
    have hs := sameSlots_adopt p t c
    obtain ⟨hnamed, hsame, hslots⟩ :=
      ih (named_adopt (p := p) hn hc) fun d hd => hs.owns_iff.2 (hcs d hd)
    refine ⟨hnamed, hs.trans hsame, fun x hx => ?_⟩
    obtain ⟨hparent, hchildren⟩ := hslots x (hs.owns_iff.2 hx)
    rw [List.foldl_cons, hparent, hchildren, parent_adopt hc hx, children_adopt hn hx,
      List.filter_filter]
    constructor
    · -- A node that comes again is put below `p` again
      by_cases hxc : x = c <;> simp [hxc]
    · refine List.filter_congr fun d _ => ?_
      simp [Bool.and_comm]

theorem slotOf_foldl_setParent (hcs : ∀ c ∈ cs, t.owns c) (hx : t.owns x) :
    (cs.foldl (fun t c => t.setParent c none) t).slotOf x =
      { t.slotOf x with parent := if x ∈ cs then none else (t.slotOf x).parent } := by
  induction cs generalizing t with
  | nil => simp
  | cons c cs ih =>
    obtain ⟨hc, hcs⟩ := List.forall_mem_cons.1 hcs
    have hs := sameSlots_setParent t c none
    rw [List.foldl_cons, ih (fun d hd => hs.owns_iff.2 (hcs d hd)) (hs.owns_iff.2 hx), setParent,
      slotOf_modifySlot (owns_iff.1 hc).2.1]
    simp only [slot_eq_iff hx hc]
    by_cases hxc : x = c <;> simp [hxc]

/-- The tree in which the children of a node stand alone, and it lists none. -/
def emptied (t : Tree) (p : Handle) : Tree :=
  (t.slotOf p).children.foldl (fun t c => t.setParent c none) (t.setChildren p [])

theorem replaced_eq (t : Tree) (p : Handle) (cs : List Handle) :
    t.replaced p cs = (cs.foldl (adopt p) (t.emptied p)).setChildren p cs := rfl

theorem sameSlots_emptied (t : Tree) (p : Handle) : SameSlots t (t.emptied p) :=
  (sameSlots_setChildren t p []).trans
    (SameSlots.foldl (fun t c => sameSlots_setParent t c none) _ _)

theorem slotOf_emptied (hn : t.Named) (hp : t.owns p) (hx : t.owns x) :
    ((t.emptied p).slotOf x).marker = (t.slotOf x).marker ∧
      ((t.emptied p).slotOf x).children = (if x = p then [] else (t.slotOf x).children) ∧
      ((t.emptied p).slotOf x).parent =
        if x ∈ (t.slotOf p).children then none else (t.slotOf x).parent := by
  have hs := sameSlots_setChildren t p []
  rw [emptied, slotOf_foldl_setParent (fun c hc => hs.owns_iff.2 (hn p hp c hc).1)
    (hs.owns_iff.2 hx), setChildren, slotOf_modifySlot (owns_iff.1 hp).2.1]
  simp only [slot_eq_iff hx hp]
  by_cases hxp : x = p <;> simp [hxp]

theorem named_emptied (hn : t.Named) (hp : t.owns p) : (t.emptied p).Named := by
  have hs := sameSlots_emptied t p
  intro x hx c hc
  have hx := hs.owns_iff.1 hx
  rw [(slotOf_emptied hn hp hx).2.1] at hc
  split at hc
  · simp at hc
  · next hxp =>
    obtain ⟨ho, hup⟩ := hn x hx c hc
    -- It names `x`, so it was not below `p`
    have hnot : c ∉ (t.slotOf p).children := fun hmem =>
      hxp (Option.some.inj (hup.symm.trans (hn p hp c hmem).2))
    rw [hs.owns_iff, (slotOf_emptied hn hp ho).2.2, if_neg hnot]
    exact ⟨ho, hup⟩

theorem marker_foldl_adopt (p : Handle) (cs : List Handle) (t : Tree) (x : Handle) :
    ((cs.foldl (adopt p) t).slotOf x).marker = (t.slotOf x).marker := by
  induction cs generalizing t with
  | nil => rfl
  | cons c cs ih =>
    rw [List.foldl_cons, ih, adopt, setParent, slotOf_modifySlot_eq Slot.marker (by intro; rfl),
      marker_unlink]

/-- What the slots hold after the children of `p` have been replaced, whatever the new ones are. -/
theorem slotOf_replaced (hn : t.Named) (hp : t.owns p) (hcs : ∀ c ∈ cs, t.owns c)
    (hx : t.owns x) :
    ((t.replaced p cs).slotOf x).marker = (t.slotOf x).marker ∧
      ((t.replaced p cs).slotOf x).children =
        (if x = p then cs else (t.slotOf x).children.filter (· ∉ cs)) ∧
      ((t.replaced p cs).slotOf x).parent =
        if x ∈ cs then some p else if x ∈ (t.slotOf p).children then none
          else (t.slotOf x).parent := by
  -- First the children lose their parent, then the new ones are adopted one by one
  have hs := sameSlots_emptied t p
  obtain ⟨hmarker, hchildren, hparent⟩ := slotOf_emptied hn hp hx
  obtain ⟨-, hs', hadopted⟩ :=
    foldl_adopt (p := p) (named_emptied hn hp) fun c hc => hs.owns_iff.2 (hcs c hc)
  obtain ⟨hparent', hchildren'⟩ := hadopted x (hs.owns_iff.2 hx)
  have hmarker' := marker_foldl_adopt p cs (t.emptied p) x
  rw [hmarker] at hmarker'
  rw [hparent] at hparent'
  rw [hchildren] at hchildren'
  rw [replaced_eq, setChildren, slotOf_modifySlot (owns_iff.1 (hs'.owns_iff.2
    (hs.owns_iff.2 hp))).2.1]
  simp only [slot_eq_iff hx hp]
  -- Only the parent gets its children at the end
  by_cases hxp : x = p
  · rw [if_pos hxp, if_pos hxp]
    exact ⟨hmarker', rfl, hparent'⟩
  · rw [if_neg hxp, if_neg hxp]
    rw [if_neg hxp] at hchildren'
    exact ⟨hmarker', hchildren', hparent'⟩

/-! ## When nodes keep single owners -/

theorem WellLinked.named_replaced (hl : t.WellLinked) (hp : t.owns p)
    (hcs : ∀ c ∈ cs, t.owns c) : (t.replaced p cs).Named := by
  have hs := sameSlots_replaced t p cs
  intro x hx c hc
  have hx := hs.owns_iff.1 hx
  rw [(slotOf_replaced hl.named hp hcs hx).2.1] at hc
  -- A child of the parent is one of the new ones; a child of any other node was its child before
  split at hc
  · next hxp =>
    rw [hs.owns_iff, (slotOf_replaced hl.named hp hcs (hcs c hc)).2.2, if_pos hc, hxp]
    exact ⟨hcs c hc, rfl⟩
  · next hxp =>
    obtain ⟨hc, hnot⟩ := List.mem_filter.1 hc
    obtain ⟨ho, hup⟩ := hl.named x hx c hc
    have hold : c ∉ (t.slotOf p).children := fun hmem =>
      hxp (Option.some.inj (hup.symm.trans (hl.named p hp c hmem).2))
    rw [hs.owns_iff, (slotOf_replaced hl.named hp hcs ho).2.2, if_neg (by simpa using hnot),
      if_neg hold]
    exact ⟨ho, hup⟩

theorem WellLinked.singleOwners_replaced (hl : t.WellLinked) (hp : t.owns p)
    (hcs : ∀ c ∈ cs, t.owns c) : (t.replaced p cs).SingleOwners ↔ cs.Nodup := by
  have hs := sameSlots_replaced t p cs
  constructor
  · intro hsingle
    have hnodup := hsingle.nodup_children p (hs.owns_iff.2 hp)
    rwa [(slotOf_replaced hl.named hp hcs hp).2.1, if_pos rfl] at hnodup
  · intro hnodup
    refine (hl.named_replaced hp hcs).singleOwners fun x hx => ?_
    have hx := hs.owns_iff.1 hx
    rw [(slotOf_replaced hl.named hp hcs hx).2.1]
    split
    · exact hnodup
    · exact (hl.singleOwners.nodup_children x hx).filter _

/-- A free slot has nothing below it, so nothing is done when its children are taken from it. -/
private theorem sameLinks_replaced_nil (hl : t.WellLinked) (hfree : p.slot ∈ t.free) :
    SameLinks t (t.replaced p []) := by
  have hs := sameSlots_replaced t p []
  have heq : t.replaced p [] = (t.setChildren p []).setChildren p [] := by
    simp only [replaced, Linked.free_children hl hfree, List.foldl_nil]
  refine ⟨hs, fun x => ?_, fun x => ?_⟩
  · rw [heq, setChildren, slotOf_modifySlot_eq Slot.parent (by intro; rfl), setChildren,
      slotOf_modifySlot_eq Slot.parent (by intro; rfl)]
  · have hlt : p.slot < t.slots.size := Linked.free_lt hl _ hfree
    rw [heq, setChildren, slotOf_modifySlot (by simpa [setChildren] using hlt), setChildren,
      slotOf_modifySlot hlt]
    split
    · next hslot =>
      rw [slotOf_congr hslot, Linked.free_children hl hfree]
    · rfl

/-- All links are sound after a replacement if no node is given twice, and none is given or gets
children that a free slot will hold only later. -/
theorem WellLinked.wellLinked_replaced (hl : t.WellLinked) (hp : t.owns p)
    (hcs : ∀ c ∈ cs, t.CanMove p c) :
    (t.replaced p cs).WellLinked ↔ cs.Nodup ∧ ∀ c ∈ cs, t.InUse p ∧ t.InUse c := by
  have hs := sameSlots_replaced t p cs
  have howned : ∀ c ∈ cs, t.owns c := fun c hc => (hcs c hc).child_owned
  constructor
  · intro hwell
    refine ⟨(hl.singleOwners_replaced hp howned).1 hwell.singleOwners, fun c hc => ?_⟩
    have hmem : c ∈ ((t.replaced p cs).slotOf p).children := by
      rwa [(slotOf_replaced hl.named hp howned hp).2.1, if_pos rfl]
    have hp' := hwell.inUse_of_mem (hs.owns_iff.2 hp) hmem
    exact ⟨hs.inUse_iff.1 hp', hs.inUse_iff.1 (Linked.child hwell hp' hmem).1⟩
  · rintro ⟨hnodup, hinUse⟩
    -- A parent that is not in use may only be left without children
    by_cases hh : t.InUse p
    · refine hl.replaced hh (fun c hc => ?_) hnodup
      exact ⟨(hinUse c hc).2, (canMove_iff.1 (hcs c hc)).2.2⟩
    · have hnil : cs = [] := List.eq_nil_iff_forall_not_mem.2 fun c hc => hh (hinUse c hc).1
      have hfree : p.slot ∈ t.free := Decidable.of_not_not fun hnot => hh ⟨hp, hnot⟩
      rw [hnil]
      exact (sameLinks_replaced_nil hl hfree).wellLinked hl

/-! ## What comes of single owners -/

/-- A node that stands alone is released, and each slot of it is free once then. -/
theorem WellLinked.free_released (hl : t.WellLinked) (hh : t.InUse h)
    (hok : (release h).perform t = (.ok (), u)) :
    u.WellLinked ∧ u.free = ((t.walk h).map Handle.slot).reverse ++ t.free ∧ u.free.Nodup := by
  rcases release_cases t h with ⟨-, hroot, hnone, hperform⟩ | ⟨err, hperform⟩
  · obtain ⟨hreleased, hlinked⟩ := Linked.released hl hh (WellLinked.agreesBelow t h) hroot hnone
    obtain rfl : (t.walk h).foldl freeSlot t = u := by simpa [hperform] using hok
    exact ⟨hlinked.wellLinked fun x hx => by rw [hreleased.other x hx], hreleased.trims.free,
      hlinked.free_nodup⟩
  · simp [hperform] at hok

/-- Two new nodes have different handles. -/
theorem WellLinked.alloc_ne_alloc (hl : t.WellLinked) (m m' : Marker) :
    (t.alloc m).1 ≠ ((t.alloc m).2.alloc m').1 := by
  have ha := Linked.allocated hl m
  have ha' := Linked.allocated (ha.wellLinked hl) m'
  intro heq
  apply ha'.fresh
  rw [← heq]
  exact (ha.inUse_iff _).2 (Or.inl rfl)

/-- When the children of a node have been replaced, each node is listed once if and only if no node
has been given twice. All links are sound then, but for nodes that free slots will hold only later;
and so whatever is released is given back once, and two new nodes never get one handle. -/
theorem replaceChildren_singleOwners (hl : t.WellLinked)
    (hok : (replaceChildren p cs).perform t = (.ok (), u)) :
    (u.SingleOwners ↔ cs.Nodup) ∧
      (u.WellLinked ↔ cs.Nodup ∧ ∀ c ∈ cs, t.InUse p ∧ t.InUse c) ∧
      (u.WellLinked →
        (∀ m m', (u.alloc m).1 ≠ ((u.alloc m).2.alloc m').1) ∧
        ∀ h v, u.InUse h → (release h).perform u = (.ok (), v) →
          v.free = ((u.walk h).map Handle.slot).reverse ++ u.free ∧ v.free.Nodup ∧
            ∀ m m', (v.alloc m).1 ≠ ((v.alloc m).2.alloc m').1) := by
  rcases replaceChildren_cases t p cs with ⟨hp, hm, hperform⟩ | ⟨-, err, hperform⟩
  · obtain rfl : t.replaced p cs = u := by simpa [hperform] using hok
    refine ⟨hl.singleOwners_replaced hp fun c hc => (hm c hc).child_owned,
      hl.wellLinked_replaced hp hm, fun hwell => ⟨hwell.alloc_ne_alloc, fun h v hh hrel => ?_⟩⟩
    obtain ⟨hwell', hfree, hnodup⟩ := hwell.free_released hh hrel
    exact ⟨hfree, hnodup, hwell'.alloc_ne_alloc⟩
  · simp [hperform] at hok

/-- A tab stop and a text, each standing alone. -/
def looseText : Tree :=
  (((empty 0 .textMate).alloc (.placeholder { index := .ofNat 1 })).2.alloc (.text "a")).2

/-- The text is given to the tab stop twice, and the tab stop is released. Then the slot of the text
is free twice, and two new nodes get one handle. -/
theorem replaceChildren_singleOwners_twice :
    ((replaceChildren ⟨0, 1, 0⟩ [⟨0, 2, 0⟩, ⟨0, 2, 0⟩]).perform looseText).1 = .ok () ∧
      ¬ ((replaceChildren ⟨0, 1, 0⟩ [⟨0, 2, 0⟩, ⟨0, 2, 0⟩]).after looseText).SingleOwners ∧
      ((release ⟨0, 1, 0⟩).after
        ((replaceChildren ⟨0, 1, 0⟩ [⟨0, 2, 0⟩, ⟨0, 2, 0⟩]).after looseText)).free = [2, 2, 1] := by
  have hl : looseText.WellLinked := by
    have hempty := wellLinked_empty 0 .textMate
    have hplaceholder := (Linked.allocated hempty
      (.placeholder { index := .ofNat 1 })).wellLinked hempty
    exact (Linked.allocated hplaceholder (.text "a")).wellLinked hplaceholder
  have hok : ((replaceChildren ⟨0, 1, 0⟩ [⟨0, 2, 0⟩, ⟨0, 2, 0⟩]).perform looseText).1 = .ok () := by
    cbv
  refine ⟨hok, fun hsingle => ?_, by cbv⟩
  have howners := replaceChildren_singleOwners hl (Prod.ext hok rfl)
  exact absurd (howners.1.1 hsingle) (by simp)

end TabStop.Tree
