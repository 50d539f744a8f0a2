import TabStop.Proofs.Links.Outcomes

/-!
# Who owns whom

In a tree that is sound, each node but the root and those that stand alone is a child of exactly one
node, the one that it names as its parent; and going up from parent to parent comes to an end. That
is said here of given lists of children, which need not be the ones that the slots hold: an edit may
take nodes from the tree before it has corrected the list of their parent.

All searches in a tree are bounded by the number of slots. In a sound tree the bound is never met.
-/

namespace TabStop.Tree

variable {t u : Tree} {a b c h p x : Handle} {as bs cs : List Handle}

/-! ## Nodes in use -/

/-- A handle of a node that has not been released. A handle may be owned without being in use: it
may name the node that a free slot will hold next. -/
structure InUse (t : Tree) (h : Handle) : Prop where
  owned : t.owns h
  kept : h.slot ∉ t.free

theorem slotOf_congr (hs : a.slot = b.slot) : t.slotOf a = t.slotOf b := by
  unfold slotOf
  rw [hs]

theorem InUse.slot_lt (hh : t.InUse h) : h.slot < t.capacity := (owns_iff.1 hh.owned).2.1

/-- Two handles of one slot that are both owned are the same: all that a handle says is of the tree
or of the slot that it names. -/
theorem eq_of_owns (ha : t.owns a) (hb : t.owns b) (hs : a.slot = b.slot) : a = b := by
  obtain ⟨hta, -, hga⟩ := owns_iff.1 ha
  obtain ⟨htb, -, hgb⟩ := owns_iff.1 hb
  have hg : a.generation = b.generation := by rw [← hga, ← hgb, slotOf_congr hs]
  cases a
  cases b
  simp_all

theorem InUse.eq_of_slot (ha : t.InUse a) (hb : t.InUse b) (hs : a.slot = b.slot) : a = b :=
  eq_of_owns ha.owned hb.owned hs

theorem mem_map_slot (hcs : ∀ c ∈ cs, t.InUse c) (hx : t.InUse x) :
    x.slot ∈ cs.map Handle.slot ↔ x ∈ cs := by
  constructor
  · intro hmem
    obtain ⟨c, hc, hslot⟩ := List.mem_map.1 hmem
    rwa [← (hcs c hc).eq_of_slot hx hslot]
  · exact List.mem_map_of_mem

theorem nodup_map_slot (hcs : ∀ c ∈ cs, t.InUse c) (hnodup : cs.Nodup) :
    (cs.map Handle.slot).Nodup := by
  rw [List.Nodup, List.pairwise_map]
  exact hnodup.imp_of_mem fun ha hb hne hslot => hne ((hcs _ ha).eq_of_slot (hcs _ hb) hslot)

/-- Different nodes are in different slots, so there are no more of them than slots. -/
theorem length_le_capacity (hcs : ∀ c ∈ cs, t.InUse c) (hnodup : cs.Nodup) :
    cs.length ≤ t.capacity := by
  have hbound : cs.map Handle.slot ⊆ List.range t.capacity := by
    intro i hi
    obtain ⟨x, hx, rfl⟩ := List.mem_map.1 hi
    exact List.mem_range.2 (hcs x hx).slot_lt
  simpa using (nodup_map_slot hcs hnodup).length_le_of_subset hbound

/-! ## Lineages -/

/-- The nodes above a node, the nearest first, up to one that has no parent. -/
def Lineage (t : Tree) : Handle → List Handle → Prop
  | h, [] => (t.slotOf h).parent = none
  | h, p :: as => (t.slotOf h).parent = some p ∧ Lineage t p as

theorem Lineage.unique (ha : t.Lineage h as) (hb : t.Lineage h bs) : as = bs := by
  induction as generalizing h bs with
  | nil => cases bs with
    | nil => rfl
    | cons => simp [Lineage] at ha hb; simp [ha] at hb
  | cons p as ih => cases bs with
    | nil => simp [Lineage] at ha hb; simp [hb] at ha
    | cons q bs =>
      obtain ⟨hp, ha⟩ := ha
      obtain ⟨hq, hb⟩ := hb
      obtain rfl : p = q := by simpa [hp] using hq
      rw [ih ha hb]

/-- What is above a node of a lineage is the rest of the lineage. -/
theorem Lineage.split (ha : t.Lineage h as) (hx : x ∈ h :: as) :
    ∃ below above, h :: as = below ++ x :: above ∧ t.Lineage x above := by
  induction as generalizing h with
  | nil =>
    obtain rfl : x = h := by simpa using hx
    exact ⟨[], [], rfl, ha⟩
  | cons p as ih =>
    rcases List.mem_cons.1 hx with rfl | hx
    · exact ⟨[], p :: as, rfl, ha⟩
    · obtain ⟨below, above, heq, habove⟩ := ih ha.2 hx
      exact ⟨h :: below, above, by rw [heq]; rfl, habove⟩

/-- No node is above itself: its lineage would be part of itself. -/
theorem Lineage.nodup (ha : t.Lineage h as) : (h :: as).Nodup := by
  induction as generalizing h with
  | nil => simp
  | cons p as ih =>
    refine List.nodup_cons.2 ⟨fun hmem => ?_, ih ha.2⟩
    obtain ⟨below, above, heq, habove⟩ := ha.2.split hmem
    -- What is above it would be as long as itself and longer
    have hlength := congrArg List.length heq
    rw [← ha.unique habove] at hlength
    simp at hlength
    omega

theorem Lineage.congr (ha : t.Lineage h as)
    (hsame : ∀ x ∈ h :: as, (u.slotOf x).parent = (t.slotOf x).parent) : u.Lineage h as := by
  induction as generalizing h with
  | nil => exact (hsame h (List.mem_cons_self ..)).trans ha
  | cons p as ih =>
    exact ⟨(hsame h (List.mem_cons_self ..)).trans ha.1,
      ih ha.2 fun x hx => hsame x (List.mem_cons_of_mem _ hx)⟩

theorem Lineage.upwards_eq {fuel : Nat} (ha : t.Lineage h as) (hfuel : as.length ≤ fuel) :
    t.upwards fuel (t.slotOf h).parent = as := by
  induction as generalizing h fuel with
  | nil =>
    rw [ha]
    cases fuel <;> rfl
  | cons p as ih =>
    cases fuel with
    | zero => simp at hfuel
    | succ fuel => rw [ha.1, upwards, ih ha.2 (by simpa using hfuel)]

/-! ## Sound links -/

/-- The nodes in use are linked both ways, `down` giving the children of each of them; and the slots
that are free are linked to nothing. -/
structure Linked (t : Tree) (down : Handle → List Handle) : Prop where
  root_inUse : t.InUse t.root
  root_parent : (t.slotOf t.root).parent = none
  child {p c : Handle} : t.InUse p → c ∈ down p → t.InUse c ∧ (t.slotOf c).parent = some p
  parent {p c : Handle} : t.InUse c → (t.slotOf c).parent = some p → t.InUse p ∧ c ∈ down p
  nodup {p : Handle} : t.InUse p → (down p).Nodup
  lineage {h : Handle} : t.InUse h → ∃ as, t.Lineage h as
  free_nodup : t.free.Nodup
  free_lt : ∀ i ∈ t.free, i < t.capacity
  free_parent {h : Handle} : h.slot ∈ t.free → (t.slotOf h).parent = none
  free_children {h : Handle} : h.slot ∈ t.free → (t.slotOf h).children = []

/-- The nodes in use are linked both ways as the slots have it. -/
def WellLinked (t : Tree) : Prop := t.Linked fun h => (t.slotOf h).children

variable {down down' : Handle → List Handle}

namespace Linked

theorem lineage_inUse (hl : t.Linked down) (hh : t.InUse h) (ha : t.Lineage h as) :
    ∀ x ∈ as, t.InUse x := by
  induction as generalizing h with
  | nil => simp
  | cons p as ih =>
    have hp := (hl.parent hh ha.1).1
    intro x hx
    rcases List.mem_cons.1 hx with rfl | hx
    · exact hp
    · exact ih hp ha.2 x hx

/-- There are fewer nodes above a node than slots, as it has a slot itself. -/
theorem length_lineage_lt (hl : t.Linked down) (hh : t.InUse h) (ha : t.Lineage h as) :
    as.length < t.capacity := by
  -- The node itself takes one of the slots
  have hinUse : ∀ x ∈ h :: as, t.InUse x := by
    intro x hx
    rcases List.mem_cons.1 hx with rfl | hx
    · exact hh
    · exact hl.lineage_inUse hh ha x hx
  exact length_le_capacity hinUse ha.nodup

theorem ancestors_eq (hl : t.Linked down) (hh : t.InUse h) (ha : t.Lineage h as) :
    t.ancestors h = as := by
  simp only [ancestors, parent?, hh.owned, ↓reduceIte]
  exact ha.upwards_eq (Nat.le_of_lt (hl.length_lineage_lt hh ha))

/-- The nodes above a node are found, all of them. -/
theorem lineage_ancestors (hl : t.Linked down) (hh : t.InUse h) : t.Lineage h (t.ancestors h) := by
  obtain ⟨as, ha⟩ := hl.lineage hh
  rwa [hl.ancestors_eq hh ha]

theorem ancestors_inUse (hl : t.Linked down) (hh : t.InUse h) :
    ∀ x ∈ t.ancestors h, t.InUse x := hl.lineage_inUse hh (hl.lineage_ancestors hh)

/-- No node is above itself. -/
theorem not_mem_ancestors (hl : t.Linked down) (hh : t.InUse h) : h ∉ t.ancestors h :=
  (List.nodup_cons.1 (hl.lineage_ancestors hh).nodup).1

end Linked

theorem isAncestorOrSelf_iff : t.isAncestorOrSelf a h ↔ a ∈ h :: t.ancestors h := by
  simp [isAncestorOrSelf]

theorem canMove_iff : t.CanMove p c ↔
    t.owns p ∧ t.owns c ∧ c ≠ t.root ∧ c ∉ p :: t.ancestors p := by
  have habove : t.isAncestorOrSelf c p = false ↔ c ∉ p :: t.ancestors p := by
    rw [← isAncestorOrSelf_iff, Bool.not_eq_true]
  constructor
  · intro hm
    exact ⟨hm.parent_owned, hm.child_owned, hm.not_root, habove.1 hm.not_above⟩
  · rintro ⟨hp, hc, hroot, hnot⟩
    exact ⟨hp, hc, hroot, habove.2 hnot⟩

/-! ## Above and below -/

namespace Linked

theorem above_split (hl : t.Linked down) (hh : t.InUse h) (ha : t.isAncestorOrSelf a h) :
    ∃ below, h :: t.ancestors h = below ++ a :: t.ancestors a := by
  obtain ⟨below, above, heq, habove⟩ :=
    (hl.lineage_ancestors hh).split (isAncestorOrSelf_iff.1 ha)
  have hinUse : t.InUse a := by
    rcases List.mem_cons.1 (isAncestorOrSelf_iff.1 ha) with rfl | ha
    · exact hh
    · exact hl.ancestors_inUse hh a ha
  exact ⟨below, by rw [heq, hl.ancestors_eq hinUse habove]⟩

theorem above_inUse (hl : t.Linked down) (hh : t.InUse h) (ha : t.isAncestorOrSelf a h) :
    t.InUse a := by
  rcases List.mem_cons.1 (isAncestorOrSelf_iff.1 ha) with rfl | ha
  · exact hh
  · exact hl.ancestors_inUse hh a ha

/-- Nothing changes above a node if no parent changes there. -/
theorem ancestors_congr (hl : t.Linked down) (hu : u.Linked down') (hh : t.InUse h)
    (hhu : u.InUse h) (hparent : ∀ x, t.InUse x → t.isAncestorOrSelf x h →
      (u.slotOf x).parent = (t.slotOf x).parent) : u.ancestors h = t.ancestors h := by
  refine hu.ancestors_eq hhu ((hl.lineage_ancestors hh).congr fun x hx => ?_)
  have habove := isAncestorOrSelf_iff.2 hx
  exact hparent x (hl.above_inUse hh habove) habove

theorem above_trans (hl : t.Linked down) (hh : t.InUse h) (hb : t.isAncestorOrSelf b h)
    (ha : t.isAncestorOrSelf a b) : t.isAncestorOrSelf a h := by
  obtain ⟨below, heq⟩ := hl.above_split hh hb
  rw [isAncestorOrSelf_iff, heq]
  exact List.mem_append.2 (Or.inr (isAncestorOrSelf_iff.1 ha))

theorem ancestors_child (hl : t.Linked down) (hp : t.InUse p) (hc : c ∈ down p) :
    t.ancestors c = p :: t.ancestors p := by
  obtain ⟨hinUse, hparent⟩ := hl.child hp hc
  exact hl.ancestors_eq hinUse ⟨hparent, hl.lineage_ancestors hp⟩

/-- A node is not below its children. -/
theorem not_above_of_child (hl : t.Linked down) (hp : t.InUse p) (hc : c ∈ down p) :
    ¬ t.isAncestorOrSelf c p := by
  have hnodup := (hl.lineage_ancestors (hl.child hp hc).1).nodup
  rw [hl.ancestors_child hp hc] at hnodup
  rw [isAncestorOrSelf_iff]
  exact (List.nodup_cons.1 hnodup).1

/-- A node is below one child of another at most. -/
theorem child_unique (hl : t.Linked down) (hp : t.InUse p) (ha : a ∈ down p) (hb : b ∈ down p)
    (hx : t.InUse x) (hax : t.isAncestorOrSelf a x) (hbx : t.isAncestorOrSelf b x) : a = b := by
  -- Both children end the same lineage, each right below the common parent, so they are in the
  -- same place of it
  obtain ⟨belowA, heqA⟩ := hl.above_split hx hax
  obtain ⟨belowB, heqB⟩ := hl.above_split hx hbx
  rw [hl.ancestors_child hp ha] at heqA
  rw [hl.ancestors_child hp hb] at heqB
  have heq := List.append_inj_right' (heqA.symm.trans heqB) (by simp)
  exact (List.cons_eq_cons.1 heq).1

end Linked

/-! ## Walks

The walk below a node looks at the lists of children in the slots. It is enough that these are right
for the node and for what is below it. -/

/-- The slots have the right children for a node and for all nodes below it. -/
def AgreesBelow (t : Tree) (down : Handle → List Handle) (h : Handle) : Prop :=
  ∀ x, t.InUse x → t.isAncestorOrSelf h x → (t.slotOf x).children = down x

theorem isAncestorOrSelf_self (t : Tree) (h : Handle) : t.isAncestorOrSelf h h := by
  simp [isAncestorOrSelf]

theorem AgreesBelow.child (hd : t.AgreesBelow down p) (hl : t.Linked down) (hp : t.InUse p)
    (hc : c ∈ down p) : t.AgreesBelow down c := by
  intro x hx hcx
  refine hd x hx (hl.above_trans hx hcx ?_)
  rw [isAncestorOrSelf_iff, hl.ancestors_child hp hc]
  simp

theorem WellLinked.agreesBelow (t : Tree) (h : Handle) :
    t.AgreesBelow (fun x => (t.slotOf x).children) h := fun _ _ _ => rfl

namespace Linked

variable {fuel : Nat}

theorem of_mem_walkFrom (hl : t.Linked down) (hh : t.InUse h) (hd : t.AgreesBelow down h)
    (hx : x ∈ t.walkFrom fuel h) : t.InUse x ∧ t.isAncestorOrSelf h x := by
  induction fuel generalizing h with
  | zero => simp [walkFrom] at hx
  | succ fuel ih =>
    rcases List.mem_cons.1 hx with rfl | hx
    · exact ⟨hh, t.isAncestorOrSelf_self x⟩
    · obtain ⟨c, hc, hxc⟩ := List.mem_flatMap.1 hx
      rw [hd h hh (t.isAncestorOrSelf_self h)] at hc
      obtain ⟨hinUse, hbelow⟩ := ih (hl.child hh hc).1 (hd.child hl hh hc) hxc
      refine ⟨hinUse, hl.above_trans hinUse hbelow ?_⟩
      rw [isAncestorOrSelf_iff, hl.ancestors_child hh hc]
      simp

theorem nodup_walkFrom (hl : t.Linked down) (hh : t.InUse h) (hd : t.AgreesBelow down h) :
    (t.walkFrom fuel h).Nodup := by
  induction fuel generalizing h with
  | zero => simp [walkFrom]
  | succ fuel ih =>
    rw [walkFrom, hd h hh (t.isAncestorOrSelf_self h), List.nodup_cons]
    constructor
    · -- A node is not below its children, so it does not come again
      intro hmem
      obtain ⟨c, hc, hxc⟩ := List.mem_flatMap.1 hmem
      have := hl.of_mem_walkFrom (hl.child hh hc).1 (hd.child hl hh hc) hxc
      exact hl.not_above_of_child hh hc this.2
    · -- What is below one child is not below another
      rw [List.Nodup, List.pairwise_flatMap]
      refine ⟨fun c hc => ih (hl.child hh hc).1 (hd.child hl hh hc), ?_⟩
      refine (hl.nodup hh).imp_of_mem fun {a b} ha hb hne x hx y hy hxy => hne ?_
      subst hxy
      obtain ⟨hinUse, hax⟩ := hl.of_mem_walkFrom (hl.child hh ha).1 (hd.child hl hh ha) hx
      obtain ⟨-, hbx⟩ := hl.of_mem_walkFrom (hl.child hh hb).1 (hd.child hl hh hb) hy
      exact hl.child_unique hh ha hb hinUse hax hbx

/-- A walk that may go down as far as there are slots goes down as far as there are nodes. -/
theorem walkFrom_succ (hl : t.Linked down) (hh : t.InUse h) (hd : t.AgreesBelow down h)
    (hfuel : t.capacity ≤ fuel + (t.ancestors h).length) :
    t.walkFrom (fuel + 1) h = t.walkFrom fuel h := by
  induction fuel generalizing h with
  | zero =>
    -- No node is as deep as there are slots
    have := hl.length_lineage_lt hh (hl.lineage_ancestors hh)
    omega
  | succ fuel ih =>
    -- A child is one level deeper, so what is left of the bound is still enough
    have hchild : ∀ c ∈ down h, t.walkFrom (fuel + 1) c = t.walkFrom fuel c := by
      intro c hc
      apply ih (hl.child hh hc).1 (hd.child hl hh hc)
      rw [hl.ancestors_child hh hc]
      simp only [List.length_cons]
      omega
    rw [walkFrom, walkFrom, hd h hh (t.isAncestorOrSelf_self h), List.flatMap_def,
      List.flatMap_def, List.map_congr_left hchild]

theorem walk_eq (hl : t.Linked down) (hh : t.InUse h) (hd : t.AgreesBelow down h) :
    t.walk h = h :: (down h).flatMap t.walk := by
  have hpos : t.capacity ≠ 0 := Nat.ne_of_gt (Nat.lt_of_le_of_lt (Nat.zero_le _) hh.slot_lt)
  obtain ⟨fuel, hfuel⟩ := Nat.exists_eq_succ_of_ne_zero hpos
  have hchild : ∀ c ∈ down h, t.walkFrom fuel c = t.walk c := by
    intro c hc
    have hinUse := (hl.child hh hc).1
    rw [walk, if_pos hinUse.owned, hfuel, hl.walkFrom_succ hinUse (hd.child hl hh hc)]
    rw [hl.ancestors_child hh hc, hfuel]
    simp only [List.length_cons]
    omega
  rw [walk, if_pos hh.owned, hfuel, Nat.succ_eq_add_one, walkFrom,
    hd h hh (t.isAncestorOrSelf_self h), List.flatMap_def, List.flatMap_def,
    List.map_congr_left hchild]

private theorem mem_walkFrom_child {y : Handle} (hy : y ∈ t.walkFrom fuel h)
    (hx : x ∈ (t.slotOf y).children) : x ∈ t.walkFrom (fuel + 1) h := by
  induction fuel generalizing h with
  | zero => simp [walkFrom] at hy
  | succ fuel ih =>
    rw [walkFrom]
    rcases List.mem_cons.1 hy with rfl | hy
    · refine List.mem_cons_of_mem _ (List.mem_flatMap.2 ⟨x, hx, ?_⟩)
      exact List.mem_cons_self ..
    · obtain ⟨c, hc, hyc⟩ := List.mem_flatMap.1 hy
      exact List.mem_cons_of_mem _ (List.mem_flatMap.2 ⟨c, hc, ih hyc⟩)

/-- What is below a node of a walk belongs to the walk. -/
theorem mem_walk_child (hl : t.Linked down) (hh : t.InUse h) (hd : t.AgreesBelow down h)
    (ha : a ∈ t.walk h) (hc : c ∈ down a) : c ∈ t.walk h := by
  rw [walk, if_pos hh.owned] at ha ⊢
  obtain ⟨hinUse, hbelow⟩ := hl.of_mem_walkFrom hh hd ha
  rw [← hd a hinUse hbelow] at hc
  -- One more level costs nothing, and there the child is met
  rw [← hl.walkFrom_succ hh hd (Nat.le_add_right _ _)]
  exact mem_walkFrom_child ha hc

/-- A walk goes through a node and all that is below it. -/
theorem mem_walk_iff (hl : t.Linked down) (hh : t.InUse h) (hd : t.AgreesBelow down h) :
    x ∈ t.walk h ↔ t.InUse x ∧ t.isAncestorOrSelf h x := by
  constructor
  · intro hx
    rw [walk, if_pos hh.owned] at hx
    exact hl.of_mem_walkFrom hh hd hx
  · rintro ⟨hx, hbelow⟩
    obtain ⟨below, heq⟩ := hl.above_split hx hbelow
    -- The way down from `h` to `x` is gone node by node
    induction below generalizing x with
    | nil =>
      obtain ⟨rfl, -⟩ := List.cons_eq_cons.1 heq
      rw [hl.walk_eq hx hd]
      exact List.mem_cons_self ..
    | cons y below ih =>
      obtain ⟨rfl, hrest⟩ := List.cons_eq_cons.1 heq
      have hlin := hl.lineage_ancestors hx
      rw [hrest] at hlin
      cases below with
      | nil =>
        exact hl.mem_walk_child hh hd (ih hh (t.isAncestorOrSelf_self h) rfl)
          (hl.parent hx hlin.1).2
      | cons p below =>
        obtain ⟨hp, hchild⟩ := hl.parent hx hlin.1
        have hrest' : p :: t.ancestors p = p :: below ++ h :: t.ancestors h := by
          rw [hl.ancestors_eq hp hlin.2]
          rfl
        refine hl.mem_walk_child hh hd (ih hp ?_ hrest') hchild
        rw [isAncestorOrSelf_iff, hrest']
        simp

theorem nodup_walk (hl : t.Linked down) (hh : t.InUse h) (hd : t.AgreesBelow down h) :
    (t.walk h).Nodup := by
  rw [walk, if_pos hh.owned]
  exact hl.nodup_walkFrom hh hd

end Linked

/-! ## What can be seen of a sound tree

A handle that is owned without being in use names a node without links. -/

namespace WellLinked

theorem inUse_of_child (hl : t.WellLinked) (hc : c ∈ t.children p) : t.InUse p := by
  unfold children at hc
  split at hc
  · next ho =>
    refine ⟨ho, fun hfree => ?_⟩
    rw [hl.free_children hfree] at hc
    simp at hc
  · simp at hc

theorem inUse_of_parent (hl : t.WellLinked) (hp : t.parent? c = some p) : t.InUse c := by
  unfold parent? at hp
  split at hp
  · next ho =>
    refine ⟨ho, fun hfree => ?_⟩
    rw [hl.free_parent hfree] at hp
    simp at hp
  · simp at hp

theorem parent?_eq (hh : t.InUse h) : t.parent? h = (t.slotOf h).parent := if_pos hh.owned

theorem children_eq (hh : t.InUse h) : t.children h = (t.slotOf h).children := if_pos hh.owned

theorem parent?_eq_some_iff (hl : t.WellLinked) :
    t.parent? c = some p ↔ t.InUse p ∧ c ∈ t.children p := by
  constructor
  · intro hp
    have hc := hl.inUse_of_parent hp
    rw [parent?_eq hc] at hp
    obtain ⟨hinUse, hmem⟩ := hl.parent hc hp
    exact ⟨hinUse, by rwa [children_eq hinUse]⟩
  · rintro ⟨hinUse, hmem⟩
    rw [children_eq hinUse] at hmem
    obtain ⟨hc, hup⟩ := hl.child hinUse hmem
    rw [parent?_eq hc, hup]

theorem ancestors_cons (hl : t.WellLinked) (h : Handle) :
    t.ancestors h = match t.parent? h with
      | some p => p :: t.ancestors p
      | none => [] := by
  cases hp : t.parent? h with
  | none =>
    rw [ancestors, hp]
    cases t.capacity <;> rfl
  | some p =>
    obtain ⟨hinUse, hmem⟩ := hl.parent?_eq_some_iff.1 hp
    rw [children_eq hinUse] at hmem
    exact hl.ancestors_child hinUse hmem

/-- A node with another one above it has a parent, so it is in use. -/
theorem inUse_of_mem_ancestors (hl : t.WellLinked) (ha : a ∈ t.ancestors h) : t.InUse h := by
  cases hp : t.parent? h with
  | none => simp [hl.ancestors_cons, hp] at ha
  | some p => exact hl.inUse_of_parent hp

/-- Who can be reached by going up is above. -/
theorem mem_ancestors_of_transGen (hl : t.WellLinked)
    (hr : Relation.TransGen (fun c p => t.parent? c = some p) h a) : a ∈ t.ancestors h := by
  induction hr with
  | single hp =>
    rw [hl.ancestors_cons, hp]
    exact List.mem_cons_self ..
  | @tail b a hb hp ih =>
    have hh := hl.inUse_of_mem_ancestors ih
    -- What is above `b` is the end of what is above `h`, and `a` comes right behind `b`
    obtain ⟨below, heq⟩ := hl.above_split hh
      (isAncestorOrSelf_iff.2 (List.mem_cons_of_mem _ ih))
    rw [hl.ancestors_cons b, hp] at heq
    have hmem : a ∈ h :: t.ancestors h := by
      rw [heq]
      simp
    rcases List.mem_cons.1 hmem with rfl | hmem
    · -- Then the lineage of `a` would come to `a` again
      have hnodup := (hl.lineage_ancestors hh).nodup
      rw [heq] at hnodup
      cases below with
      | nil =>
        obtain ⟨rfl, -⟩ := List.cons_eq_cons.1 heq
        simp at hnodup
      | cons y below =>
        obtain ⟨rfl, -⟩ := List.cons_eq_cons.1 heq
        simp at hnodup
    · exact hmem

theorem acyclic (hl : t.WellLinked) (h : Handle) :
    ¬ Relation.TransGen (fun c p => t.parent? c = some p) h h := by
  intro hr
  have hmem := hl.mem_ancestors_of_transGen hr
  exact Linked.not_mem_ancestors hl (hl.inUse_of_mem_ancestors hmem) hmem

/-- No slot is linked to one that is free. -/
theorem free_unlinked (hl : t.WellLinked) {s : Slot} (hs : s ∈ t.slots) :
    (∀ p ∈ s.parent, p.slot ∉ t.free) ∧ ∀ c ∈ s.children, c.slot ∉ t.free := by
  obtain ⟨i, hi, rfl⟩ := Array.mem_iff_getElem.1 hs
  have hslot : t.slotOf ⟨t.identity, i, t.slots[i].generation⟩ = t.slots[i] := by
    simp [slotOf, hi]
  rw [← hslot]
  -- A free slot has no links; a slot in use is linked to nodes in use
  by_cases hfree : i ∈ t.free
  · rw [hl.free_parent hfree, hl.free_children hfree]
    simp
  · have hinUse : t.InUse ⟨t.identity, i, t.slots[i].generation⟩ :=
      ⟨owns_iff.2 ⟨rfl, hi, by rw [hslot]⟩, hfree⟩
    exact ⟨fun p hp => (hl.parent hinUse hp).1.kept, fun c hc => (hl.child hinUse hc).1.kept⟩

theorem walk_nodup (hl : t.WellLinked) (h : Handle) : (t.walk h).Nodup := by
  by_cases hh : t.InUse h
  · exact hl.nodup_walk hh (agreesBelow t h)
  · unfold walk
    split
    · next ho =>
      have hfree : h.slot ∈ t.free := Decidable.of_not_not fun hnot => hh ⟨ho, hnot⟩
      cases t.capacity with
      | zero => exact List.nodup_nil
      | succ fuel =>
        rw [walkFrom, hl.free_children hfree]
        simp
    · exact List.nodup_nil

/-! ### Walks -/

theorem walk_eq (hl : t.WellLinked) (hh : t.InUse h) :
    t.walk h = h :: (t.slotOf h).children.flatMap t.walk :=
  Linked.walk_eq hl hh (agreesBelow t h)

theorem mem_walk_iff (hl : t.WellLinked) (hh : t.InUse h) :
    x ∈ t.walk h ↔ t.InUse x ∧ t.isAncestorOrSelf h x :=
  Linked.mem_walk_iff hl hh (agreesBelow t h)

theorem mem_walk_self (hl : t.WellLinked) (hh : t.InUse h) : h ∈ t.walk h :=
  (hl.mem_walk_iff hh).2 ⟨hh, t.isAncestorOrSelf_self h⟩

/-- A walk goes through the node and below its children. -/
theorem mem_walk_cons (hl : t.WellLinked) (hh : t.InUse h) :
    x ∈ t.walk h ↔ x = h ∨ ∃ c ∈ (t.slotOf h).children, x ∈ t.walk c := by
  rw [hl.walk_eq hh, List.mem_cons, List.mem_flatMap]

/-- A node is not in the walk below one of its children. -/
theorem not_mem_walk_child (hl : t.WellLinked) (hp : t.InUse p)
    (hc : c ∈ (t.slotOf p).children) : p ∉ t.walk c := by
  intro hmem
  have hwalk := (hl.mem_walk_iff (Linked.child hl hp hc).1).1 hmem
  exact Linked.not_above_of_child hl hp hc hwalk.2

/-- What is true of a node whenever it is true of its children is true of all nodes: each child has
fewer nodes below it. -/
theorem induction_below (hl : t.WellLinked) {P : Handle → Prop}
    (step : ∀ h, t.InUse h → (∀ c ∈ (t.slotOf h).children, P c) → P h) (hh : t.InUse h) : P h := by
  obtain ⟨n, hn⟩ : ∃ n, (t.walk h).length < n := ⟨_, Nat.lt_succ_self _⟩
  induction n generalizing h with
  | zero => simp at hn
  | succ n ih =>
    refine step h hh fun c hc => ih (Linked.child hl hh hc).1 ?_
    -- The walk below a child is part of the walk below its parent, without the parent
    have hsub : (t.walk c).length ≤ ((t.slotOf h).children.flatMap t.walk).length := by
      rw [List.flatMap_def]
      exact (List.sublist_flatten_of_mem (List.mem_map_of_mem hc)).length_le
    rw [hl.walk_eq hh, List.length_cons] at hn
    omega

/-- The walk below a node stays as it is if no list of children in it is changed. -/
theorem walk_congr (hl : t.WellLinked) (hu : u.WellLinked) (hh : t.InUse h)
    (hsame : ∀ x ∈ t.walk h, u.InUse x ∧ (u.slotOf x).children = (t.slotOf x).children) :
    u.walk h = t.walk h := by
  -- The walks are the same below each child, by induction on what is below
  revert hsame
  refine hl.induction_below (P := fun h => (∀ x ∈ t.walk h, u.InUse x ∧
    (u.slotOf x).children = (t.slotOf x).children) → u.walk h = t.walk h)
    (fun h hh ih hsame => ?_) hh
  obtain ⟨hinUse, hchildren⟩ := hsame h (hl.mem_walk_self hh)
  have hbelow : ∀ c ∈ (t.slotOf h).children, u.walk c = t.walk c := fun c hc =>
    ih c hc fun x hx => hsame x ((hl.mem_walk_cons hh).2 (Or.inr ⟨c, hc, hx⟩))
  rw [hu.walk_eq hinUse, hl.walk_eq hh, hchildren, List.flatMap_def, List.flatMap_def,
    List.map_congr_left hbelow]

theorem length_walk_le (hl : t.WellLinked) (hh : t.InUse h) :
    (t.walk h).length ≤ t.capacity :=
  length_le_capacity (fun _ hx => ((hl.mem_walk_iff hh).1 hx).1) (hl.walk_nodup h)

/-! ### Below the root -/

theorem mem_walk_root_inUse (hl : t.WellLinked) (hx : x ∈ t.walk t.root) : t.InUse x :=
  ((hl.mem_walk_iff (Linked.root_inUse hl)).1 hx).1

theorem mem_walk_root_child (hl : t.WellLinked) (hp : p ∈ t.walk t.root)
    (hc : c ∈ (t.slotOf p).children) : c ∈ t.walk t.root :=
  Linked.mem_walk_child hl (Linked.root_inUse hl) (agreesBelow t t.root) hp hc

theorem mem_walk_root_parent (hl : t.WellLinked) (hx : x ∈ t.walk t.root)
    (hp : (t.slotOf x).parent = some p) :
    p ∈ t.walk t.root ∧ x ∈ (t.slotOf p).children := by
  obtain ⟨hinUse, habove⟩ := (hl.mem_walk_iff (Linked.root_inUse hl)).1 hx
  obtain ⟨hpu, hmem⟩ := Linked.parent hl hinUse hp
  refine ⟨(hl.mem_walk_iff (Linked.root_inUse hl)).2 ⟨hpu, ?_⟩, hmem⟩
  rw [isAncestorOrSelf_iff, Linked.ancestors_child hl hpu hmem] at habove
  rcases List.mem_cons.1 habove with hroot | habove
  · -- The root has no parent
    rw [← hroot, Linked.root_parent hl] at hp
    simp at hp
  · exact isAncestorOrSelf_iff.2 habove

/-- What is below a node, and is not the node, has its parent there. -/
theorem exists_parent_below (hl : t.WellLinked) (hh : t.InUse h) (hx : x ∈ t.walk h)
    (hne : x ≠ h) : ∃ p ∈ t.walk h, x ∈ (t.slotOf p).children := by
  obtain ⟨hinUse, habove⟩ := (hl.mem_walk_iff hh).1 hx
  have habove := (List.mem_cons.1 (isAncestorOrSelf_iff.1 habove)).resolve_left hne.symm
  have hlineage := Linked.lineage_ancestors hl hinUse
  cases has : t.ancestors x with
  | nil => simp [has] at habove
  | cons p as =>
    rw [has] at hlineage
    obtain ⟨hp, hmem⟩ := Linked.parent hl hinUse hlineage.1
    rw [Linked.ancestors_child hl hp hmem] at habove
    exact ⟨p, (hl.mem_walk_iff hh).2 ⟨hp, isAncestorOrSelf_iff.2 habove⟩, hmem⟩

/-- A node of the document that is not its root has a parent there. -/
theorem exists_parent (hl : t.WellLinked) (hx : x ∈ t.walk t.root) (hroot : x ≠ t.root) :
    ∃ p ∈ t.walk t.root, x ∈ (t.slotOf p).children :=
  hl.exists_parent_below (Linked.root_inUse hl) hx hroot

theorem ancestors_root (hl : t.WellLinked) : t.ancestors t.root = [] :=
  Linked.ancestors_eq hl (Linked.root_inUse hl) (Linked.root_parent hl)

theorem isAttached_of_mem (hl : t.WellLinked) (hx : x ∈ t.walk t.root) : t.isAttached x := by
  obtain ⟨hinUse, habove⟩ := (hl.mem_walk_iff (Linked.root_inUse hl)).1 hx
  obtain ⟨below, heq⟩ := Linked.above_split hl hinUse habove
  rw [hl.ancestors_root] at heq
  simp only [isAttached, hinUse.owned, Bool.true_and, Bool.or_eq_true, beq_iff_eq]
  cases below with
  | nil => exact Or.inl (List.cons_eq_cons.1 heq).1
  | cons y below =>
    right
    rw [(List.cons_eq_cons.1 heq).2]
    simp

end WellLinked

end TabStop.Tree
