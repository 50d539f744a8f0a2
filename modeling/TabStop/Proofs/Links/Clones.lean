import TabStop.Proofs.Links.Sessions

/-!
# Trees that have been copied

A tree and its copy go on apart from each other, and each counts the generations of its slots by
itself. A handle of one tree has a counterpart in the other if the generations happen to agree. So
the counterpart of a handle from before the separation is a node, or nothing; but the counterpart of
one that has been got since may point to a slot that is free.
-/

namespace TabStop

/-! ## Handles of another tree -/

namespace Tree

variable {t : Tree} {h p x : Handle} {as : List Handle} {i j : Nat}

@[simp] theorem rebase_rebase (i j : Nat) (h : Handle) : rebase i (rebase j h) = rebase i h := rfl

theorem rebase_self (hi : h.tree = i) : rebase i h = h := by
  rw [← hi]
  rfl

theorem rebase_injective (ha : p.tree = x.tree) (heq : rebase i p = rebase i x) : p = x := by
  have := congrArg (rebase x.tree) heq
  rwa [rebase_rebase, rebase_rebase, rebase_self rfl, rebase_self ha] at this

theorem InUse.tree_eq (hh : t.InUse h) : h.tree = t.identity := (inUse_iff.1 hh).1

@[simp] theorem slotOf_rebase (t : Tree) (i : Nat) (x : Handle) :
    t.slotOf (rebase i x) = t.slotOf x := slotOf_congr rfl

theorem slotOf_copyAs (t : Tree) (i : Nat) (x : Handle) : (t.copyAs i).slotOf x =
    { t.slotOf x with
      parent := (t.slotOf x).parent.map (rebase i)
      children := (t.slotOf x).children.map (rebase i) } := by
  simp only [slotOf, copyAs, Array.getD_eq_getD_getElem?, Array.getElem?_map]
  cases t.slots[x.slot]? <;> rfl

theorem inUse_copyAs : (t.copyAs i).InUse h ↔ h.tree = i ∧ t.InUse (rebase t.identity h) := by
  rw [inUse_iff, inUse_iff, slotOf_copyAs, slotOf_rebase]
  simp [copyAs, rebase]

theorem InUse.copyAs (hh : t.InUse h) (i : Nat) : (t.copyAs i).InUse (rebase i h) := by
  refine inUse_copyAs.2 ⟨rfl, ?_⟩
  rwa [rebase_rebase, rebase_self hh.tree_eq]

theorem Lineage.copyAs (ha : t.Lineage h as) (i : Nat) :
    (t.copyAs i).Lineage (rebase i h) (as.map (rebase i)) := by
  induction as generalizing h with
  | nil =>
    have hnone : (t.slotOf h).parent = none := ha
    simp [Lineage, slotOf_copyAs, hnone]
  | cons p as ih => exact ⟨by simp [slotOf_copyAs, ha.1], ih ha.2⟩

/-- The copy of a sound tree is sound. -/
theorem WellLinked.copyAs (hl : t.WellLinked) (i : Nat) : (t.copyAs i).WellLinked := by
  -- A handle of the copy is the handle of the same slot in the original, with the other identity
  constructor
  case root_inUse =>
    exact (Linked.root_inUse hl).copyAs i
  case root_parent =>
    have hroot : (t.slotOf (t.copyAs i).root).parent = none := Linked.root_parent hl
    rw [slotOf_copyAs, hroot]
    rfl
  case child =>
    intro p c hp hc
    obtain ⟨htree, hp'⟩ := inUse_copyAs.1 hp
    rw [slotOf_copyAs] at hc
    obtain ⟨d, hd, rfl⟩ := List.mem_map.1 hc
    rw [← slotOf_rebase t t.identity] at hd
    obtain ⟨hdu, hup⟩ := Linked.child hl hp' hd
    refine ⟨hdu.copyAs i, ?_⟩
    rw [slotOf_copyAs, slotOf_rebase, hup]
    exact congrArg some ((rebase_rebase ..).trans (rebase_self htree))
  case parent =>
    intro p c hc hup
    obtain ⟨htree, hc'⟩ := inUse_copyAs.1 hc
    rw [slotOf_copyAs] at hup
    obtain ⟨q, hq, rfl⟩ := Option.map_eq_some_iff.1 hup
    rw [← slotOf_rebase t t.identity] at hq
    obtain ⟨hqu, hmem⟩ := Linked.parent hl hc' hq
    refine ⟨hqu.copyAs i, ?_⟩
    rw [slotOf_copyAs, slotOf_rebase]
    exact List.mem_map.2 ⟨_, hmem, (rebase_rebase ..).trans (rebase_self htree)⟩
  case nodup =>
    intro p hp
    obtain ⟨-, hp'⟩ := inUse_copyAs.1 hp
    rw [slotOf_copyAs, ← slotOf_rebase t t.identity, List.Nodup, List.pairwise_map]
    refine (Linked.nodup hl hp').imp_of_mem fun ha hb hne heq => hne (rebase_injective ?_ heq)
    rw [(Linked.child hl hp' ha).1.tree_eq, (Linked.child hl hp' hb).1.tree_eq]
  case lineage =>
    intro h hh
    obtain ⟨htree, hh'⟩ := inUse_copyAs.1 hh
    obtain ⟨as, has⟩ := Linked.lineage hl hh'
    have hlin := has.copyAs i
    rw [rebase_rebase, rebase_self htree] at hlin
    exact ⟨_, hlin⟩
  case free_nodup =>
    show t.free.Nodup
    exact Linked.free_nodup hl
  case free_lt =>
    intro j hj
    have hlt := Linked.free_lt hl j hj
    simpa [capacity, Tree.copyAs] using hlt
  case free_parent =>
    intro h hh
    rw [slotOf_copyAs, Linked.free_parent hl hh]
    rfl
  case free_children =>
    intro h hh
    rw [slotOf_copyAs, Linked.free_children hl hh]
    rfl

end Tree

open TabStop.Tree

/-! ## Sessions apart -/

namespace Session

variable {s l r : Session} {g h : Handle} {i : Nat}

/-- The session of a copy of the tree. The handles known in it are the counterparts of those that
were known. -/
def cloneAs (s : Session) (i : Nat) : Session where
  tree := s.tree.copyAs i
  known h := ∃ g, s.known g ∧ rebase i g = h
  released h := ∃ g, s.released g ∧ rebase i g = h
  releases := s.releases

theorem generation_cloneAs (s : Session) (i : Nat) (h : Handle) :
    (s.cloneAs i).generation h = s.generation h := by
  show ((s.tree.copyAs i).slotOf h).generation.toNat = _
  rw [slotOf_copyAs]
  rfl

theorem Sound.cloneAs (hs : s.Sound) (i : Nat) : (s.cloneAs i).Sound where
  wellLinked := hs.wellLinked.copyAs i
  generation_le h := by
    rw [generation_cloneAs]
    exact hs.generation_le h
  known h hh := by
    obtain ⟨htree, hin⟩ := inUse_copyAs.1 hh
    exact ⟨_, hs.known _ hin, (rebase_rebase ..).trans (rebase_self htree)⟩
  known_tree := by
    rintro _ ⟨g, hg, rfl⟩
    have hlt := (hs.known_tree g hg).2
    exact ⟨rfl, by simpa [Session.cloneAs, copyAs, rebase] using hlt⟩
  known_le := by
    rintro _ ⟨g, hg, rfl⟩
    rw [generation_cloneAs]
    exact hs.known_le g hg
  inUse := by
    rintro _ ⟨g, hg, rfl⟩ hnot
    exact (hs.inUse g hg fun hr => hnot ⟨g, hr, rfl⟩).copyAs i
  released := by
    rintro _ ⟨g, hg, rfl⟩
    -- A copy keeps the generations, so a handle that was released is released in it too
    obtain ⟨hk, hlt⟩ := hs.released g hg
    rw [generation_cloneAs]
    exact ⟨⟨g, hk, rfl⟩, hlt⟩

/-- What two sessions come to that have been one up to `s`. Each goes on with operations that are
given handles known to it, in any interleaving. -/
inductive Apart (s : Session) (i : Nat) : Session → Session → Prop
  | clone : Apart s i s (s.cloneAs i)
  | left {l r : Session} (op : Operation) :
    Apart s i l r → (∀ h ∈ op.arguments, l.known h) → Apart s i (l.step op) r
  | right {l r : Session} (op : Operation) :
    Apart s i l r → (∀ h ∈ op.arguments, r.known h) → Apart s i l (r.step op)

namespace Apart

theorem releases_le (ha : Apart s i l r) : s.releases ≤ l.releases ∧ s.releases ≤ r.releases := by
  induction ha with
  | clone => exact ⟨Nat.le_refl _, Nat.le_refl _⟩
  | @left l _ op _ _ ih => exact ⟨Nat.le_trans ih.1 (l.releases_le_step op), ih.2⟩
  | @right _ r op _ _ ih => exact ⟨ih.1, Nat.le_trans ih.2 (r.releases_le_step op)⟩

theorem known_of_known (ha : Apart s i l r) (hg : s.known g) :
    l.known g ∧ r.known (rebase i g) := by
  induction ha with
  | clone => exact ⟨hg, g, hg, rfl⟩
  | left op _ _ ih => exact ⟨known_step ih.1 op, ih.2⟩
  | right op _ _ ih => exact ⟨ih.1, known_step ih.2 op⟩

/-- Both sessions stay sound, each as long as it has not released too often. -/
theorem sound (ha : Apart s i l r) (hs : s.Sound) (hl : l.releases < 2 ^ 32)
    (hr : r.releases < 2 ^ 32) : l.Sound ∧ r.Sound := by
  induction ha with
  | clone => exact ⟨hs, hs.cloneAs i⟩
  | @left l _ op _ hargs ih =>
    have hsound := ih (Nat.lt_of_le_of_lt (l.releases_le_step op) hl) hr
    exact ⟨hsound.1.step op hargs hl, hsound.2⟩
  | @right _ r op _ hargs ih =>
    have hsound := ih hl (Nat.lt_of_le_of_lt (r.releases_le_step op) hr)
    exact ⟨hsound.1, hsound.2.step op hargs hr⟩

end Apart

/-- A handle that is owned names a node in use just if the session itself has got it. -/
theorem Sound.not_free_iff (hs : s.Sound) (ho : s.tree.owns h) :
    h.slot ∉ s.tree.free ↔ s.known h :=
  ⟨fun hkept => hs.known h ⟨ho, hkept⟩, fun hk => (hs.reliable hk ho).kept⟩

/-- The counterpart of a handle is the handle that the tree would have for it, if that is owned. -/
theorem Sound.counterpart?_kept (hs : s.Sound) (hi : s.tree.identity = i)
    (hk : s.known (rebase i g)) (hc : s.tree.counterpart? g = some h) : h.slot ∉ s.tree.free := by
  subst hi
  by_cases ho : s.tree.owns (rebase s.tree.identity g)
  · simp only [counterpart?, ho, ↓reduceIte, Option.some.injEq] at hc
    exact hc ▸ (hs.not_free_iff ho).2 hk
  · simp [counterpart?, ho] at hc

/-- In two sessions that have been one, a handle that a tree owns names a node in use if and only if
the session of that tree has got it, before the separation or since. So the counterpart of a handle
from before the separation is a node in use if there is one. -/
theorem Apart.kept_iff_known (ha : Apart s i l r) (hs : s.Reached) (hl : l.releases < 2 ^ 32)
    (hr : r.releases < 2 ^ 32) :
    (∀ h, l.tree.owns h → (h.slot ∉ l.tree.free ↔ l.known h)) ∧
      (∀ h, r.tree.owns h → (h.slot ∉ r.tree.free ↔ r.known h)) ∧
      (∀ g h, s.known g → r.tree.counterpart? g = some h → h.slot ∉ r.tree.free) ∧
      ∀ g h, (s.cloneAs i).known g → l.tree.counterpart? g = some h → h.slot ∉ l.tree.free := by
  have hsound := hs.sound (Nat.lt_of_le_of_lt ha.releases_le.1 hl)
  obtain ⟨hleft, hright⟩ := ha.sound hsound hl hr
  -- The root tells the identities of both trees
  have hroot := ha.known_of_known (hsound.known _ (Linked.root_inUse hsound.wellLinked))
  have hl' : l.tree.identity = s.tree.identity := (hleft.known_tree _ hroot.1).1.symm
  have hr' : r.tree.identity = i := (hright.known_tree _ hroot.2).1.symm
  refine ⟨fun h => hleft.not_free_iff, fun h => hright.not_free_iff, fun g h hg => ?_, ?_⟩
  · exact hright.counterpart?_kept hr' (ha.known_of_known hg).2
  · rintro _ h ⟨g, hg, rfl⟩
    refine hleft.counterpart?_kept hl' ?_
    rw [rebase_rebase, rebase_self (hsound.known_tree g hg).1]
    exact (ha.known_of_known hg).1

/-- A text is released, and its slot is taken again. -/
def afterText : Session :=
  (((start 0 .textMate "a").step (.detach ⟨0, 1, 0⟩)).step (.release ⟨0, 1, 0⟩)).step
    (.alloc (.text "x"))

/-- The same text is released in a copy of the tree. -/
def afterRelease : Session :=
  (((start 0 .textMate "a").cloneAs 1).step (.detach ⟨1, 1, 0⟩)).step (.release ⟨1, 1, 0⟩)

/-- The new text has a counterpart in the copy, but its slot is free: the copy never got that handle. -/
theorem kept_iff_known_afterRelease :
    afterRelease.tree.counterpart? ⟨0, 1, 1⟩ = some ⟨1, 1, 1⟩ ∧ afterRelease.tree.free = [1] ∧
      ¬ afterRelease.known ⟨1, 1, 1⟩ := by
  have hfree : afterRelease.tree.free = [1] := by cbv
  have hcounterpart : afterRelease.tree.counterpart? ⟨0, 1, 1⟩ = some ⟨1, 1, 1⟩ := by cbv
  have howned : afterRelease.tree.owns ⟨1, 1, 1⟩ := by cbv
  have hnode : (start 0 .textMate "a").known ⟨0, 1, 0⟩ :=
    ⟨by cbv, by
      have : (ofSource 0 .textMate "a").free = [] := by cbv
      simp [this]⟩
  have hcopy : ((start 0 .textMate "a").cloneAs 1).known ⟨1, 1, 0⟩ := ⟨_, hnode, rfl⟩
  have ha : Apart (start 0 .textMate "a") 1 afterText afterRelease := by
    refine .right _ (.right _ (.left _ (.left _ (.left _ .clone ?_) ?_) ?_) ?_) ?_
    · simpa [Operation.arguments] using hnode
    · simpa [Operation.arguments] using known_step hnode _
    · simp [Operation.arguments]
    · simpa [Operation.arguments] using hcopy
    · simpa [Operation.arguments] using known_step hcopy _
  have hl : afterText.releases = 1 := by cbv
  have hr : afterRelease.releases = 1 := by cbv
  have hkept := (ha.kept_iff_known (.start ..) (by rw [hl]; decide) (by rw [hr]; decide)).2.1 _ howned
  refine ⟨hcounterpart, hfree, fun hk => hkept.2 hk ?_⟩
  simp [hfree]

end Session

end TabStop
