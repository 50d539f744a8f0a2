import TabStop.Proofs.Links.Slots

/-!
# Copies stand alone

A copy is made of new nodes, whichever tree it is a copy from. None of the nodes that were there is
touched, even if the copying stops before it has come to its end.
-/

namespace TabStop.Tree

variable {t u v : Tree} {c h p x : Handle} {hs : List Handle}

/-- A tree that has grown: there are new nodes, and all others are as they were. -/
structure Grown (t u : Tree) : Prop where
  wellLinked : u.WellLinked
  extended : Extends t u
  kept : ∀ x, t.InUse x → u.slotOf x = t.slotOf x

theorem Grown.refl (hl : t.WellLinked) : Grown t t := ⟨hl, .refl t, fun _ _ => rfl⟩

theorem Grown.trans (h : Grown t u) (h' : Grown u v) : Grown t v :=
  ⟨h'.wellLinked, h.extended.trans h'.extended, fun x hx =>
    (h'.kept x (h.extended.inUse hx)).trans (h.kept x hx)⟩

theorem Grown.ancestors_eq (hg : Grown t u) (hl : t.WellLinked) (hh : t.InUse h) :
    u.ancestors h = t.ancestors h :=
  Linked.ancestors_congr hl hg.wellLinked hh (hg.extended.inUse hh) fun x hx _ => by
    rw [hg.kept x hx]

theorem Allocated.grown {m : Marker} (ha : Allocated t m h u) (hl : t.WellLinked) : Grown t u :=
  ⟨ha.wellLinked hl, ha.extended, fun _ hx => ha.slotOf_eq hx⟩

theorem sameSlots_link (t : Tree) (p c : Handle) : SameSlots t (t.link p c) :=
  (sameSlots_setParent t c (some p)).trans (sameSlots_modifySlot (by intro; rfl) _ _)

theorem slotOf_link (hp : t.InUse p) (hc : t.InUse c) (hx : t.InUse x) (hxp : x ≠ p)
    (hxc : x ≠ c) : (t.link p c).slotOf x = t.slotOf x := by
  have hp' := (sameSlots_setParent t c (some p)).inUse_iff.2 hp
  rw [link, slotOf_modifySlot hp'.slot_lt, if_neg (hx.slot_ne hp hxp), setParent,
    slotOf_modifySlot hc.slot_lt, if_neg (hx.slot_ne hc hxc)]

theorem parent_link (hc : t.InUse c) (x : Handle) :
    ((t.link p c).slotOf x).parent = if x.slot = c.slot then some p else (t.slotOf x).parent := by
  rw [link, slotOf_modifySlot_eq Slot.parent (by intro; rfl), parent_setParent hc]

@[simp] theorem marker_link (t : Tree) (p c x : Handle) :
    ((t.link p c).slotOf x).marker = (t.slotOf x).marker := by
  rw [link, slotOf_modifySlot_eq Slot.marker (by intro; rfl), setParent,
    slotOf_modifySlot_eq Slot.marker (by intro; rfl)]

theorem children_link (hp : t.InUse p) (c x : Handle) : ((t.link p c).slotOf x).children =
    if x.slot = p.slot then (t.slotOf x).children ++ [c] else (t.slotOf x).children := by
  have hp' := (sameSlots_setParent t c (some p)).inUse_iff.2 hp
  rw [link, children_modifySlot (f := (· ++ [c])) hp', children_setParent]

theorem WellLinked.link (hl : t.WellLinked) (hp : t.InUse p) (hc : t.InUse c) (hroot : c ≠ t.root)
    (hnone : (t.slotOf c).parent = none) (hnot : c ∉ p :: t.ancestors p) :
    (t.link p c).WellLinked := by
  have hp' := (sameSlots_setParent t c (some p)).inUse_iff.2 hp
  have hjoin := Linked.join hl hc hroot hnone hp (Linked.lineage_ancestors hl hp) hnot
  apply (hjoin.modifySlot hp' (by intro; rfl) (by intro; rfl)).wellLinked
  intro x hx
  have hx' := (sameSlots_link t p c).inUse_iff.1 hx
  apply (List.Perm.of_eq (children_link hp c x)).trans
  by_cases hxp : x = p
  · rw [if_pos (by rw [hxp]), if_pos hxp]
    exact List.perm_append_singleton c _
  · rw [if_neg (hx'.slot_ne hp hxp), if_neg hxp]

/-- What is true of a copy: the tree has grown, and if the copying has succeeded, a new node stands
alone. -/
structure Copied (t : Tree) (r : Except EditError Handle × Tree) : Prop where
  grown : Grown t r.2
  copy : ∀ c, r.1 = .ok c → r.2.InUse c ∧ ¬ t.InUse c ∧ (r.2.slotOf c).parent = none

/-- A tree that has grown by a node which is not below another one, and maybe by others. -/
structure Partial (t : Tree) (copy : Handle) (u : Tree) : Prop where
  grown : Grown t u
  inUse : u.InUse copy
  fresh : ¬ t.InUse copy
  parent : (u.slotOf copy).parent = none

theorem Partial.link {copy : Handle} (hpart : Partial t copy u) (hgrown : Grown u v)
    (hc : v.InUse c) (hfresh : ¬ u.InUse c) (hnone : (v.slotOf c).parent = none) :
    Partial t copy (v.link copy c) := by
  have hcopy := hgrown.extended.inUse hpart.inUse
  have hparent : (v.slotOf copy).parent = none := by
    rw [hgrown.kept copy hpart.inUse]
    exact hpart.parent
  have hroot : u.InUse v.root := by
    rw [hgrown.extended.root_eq]
    exact hpart.grown.wellLinked.root_inUse
  have hne : c ≠ copy := fun heq => hfresh (heq ▸ hpart.inUse)
  have hs := sameSlots_link v copy c
  -- Nothing is above the copy yet, so it is not below its new child
  have hlin : v.ancestors copy = [] := Linked.ancestors_eq hgrown.wellLinked hcopy hparent
  have hlinked : (v.link copy c).WellLinked := by
    apply hgrown.wellLinked.link hcopy hc (fun heq => hfresh (heq ▸ hroot)) hnone
    rw [hlin]
    simpa using hne
  have hkept : ∀ x, t.InUse x → (v.link copy c).slotOf x = t.slotOf x := by
    intro x hx
    have hxu := hpart.grown.extended.inUse hx
    -- The link is between two nodes that are new
    rw [slotOf_link hcopy hc (hgrown.extended.inUse hxu) (fun heq => hpart.fresh (heq ▸ hx))
      (fun heq => hfresh (heq ▸ hxu)), hgrown.kept x hxu, hpart.grown.kept x hx]
  refine ⟨⟨hlinked, (hpart.grown.extended.trans hgrown.extended).trans hs.extends, hkept⟩,
    hs.inUse_iff.2 hcopy, hpart.fresh, ?_⟩
  rw [parent_link hc, if_neg (hcopy.slot_ne hc (Ne.symm hne))]
  exact hparent

/-- Copies the children of a node below its copy. -/
def copyBelow (copy : Handle) (copyChild : Handle → Edit Handle) (c : Handle) :
    Edit PUnit := do
  let child ← copyChild c
  modify (·.link copy child)

private theorem copyBelow_forM {copy : Handle} {copyChild : Handle → Edit Handle}
    (hcopy : ∀ (u : Tree) c, u.WellLinked → Copied u ((copyChild c).perform u)) (cs : List Handle)
    (hpart : Partial t copy u) :
    Grown t ((forM cs (copyBelow copy copyChild)).perform u).2 ∧
      (((forM cs (copyBelow copy copyChild)).perform u).1 = .ok ⟨⟩ →
        Partial t copy ((forM cs (copyBelow copy copyChild)).perform u).2) := by
  induction cs generalizing u with
  | nil => exact ⟨hpart.grown, fun _ => hpart⟩
  | cons c cs ih =>
    obtain ⟨hgrown, hok⟩ := hcopy u c hpart.grown.wellLinked
    -- A copy that fails ends the loop; what has been made by then stays, and is new
    rcases hr : (copyChild c).perform u with ⟨_ | child, v⟩
    · rw [hr] at hgrown
      simpa [copyBelow, hr] using hpart.grown.trans hgrown
    · rw [hr] at hgrown hok
      obtain ⟨hchild, hfresh, hnone⟩ := hok child rfl
      simpa [copyBelow, hr] using ih (hpart.link hgrown hchild hfresh hnone)

/-- The children are all copied if each of them can be, as long as the tree has only grown. -/
private theorem copyBelow_forM_ok {copy : Handle} (copyChild : Handle → Edit Handle)
    (hcopy : ∀ (u : Tree) c, u.WellLinked → Copied u ((copyChild c).perform u)) (cs : List Handle)
    (hok : ∀ c ∈ cs, ∀ u, Grown t u → ∃ d, ((copyChild c).perform u).1 = .ok d)
    (hpart : Partial t copy u) :
    ((forM cs (copyBelow copy copyChild)).perform u).1 = .ok ⟨⟩ := by
  induction cs generalizing u with
  | nil => rfl
  | cons c cs ih =>
    obtain ⟨hokc, hok⟩ := List.forall_mem_cons.1 hok
    obtain ⟨hgrown, hcopied⟩ := hcopy u c hpart.grown.wellLinked
    obtain ⟨d, hd⟩ := hokc u hpart.grown
    rcases hr : (copyChild c).perform u with ⟨_ | child, v⟩
    · simp [hr] at hd
    · rw [hr] at hgrown hcopied
      obtain ⟨hchild, hfresh, hnone⟩ := hcopied child rfl
      simpa [copyBelow, hr] using ih hok (hpart.link hgrown hchild hfresh hnone)

/-- Copying a node is copying what it is, and then its children below the copy. -/
theorem copyFrom_succ (source : Tree → Tree) (fuel : Nat) {h : Handle}
    (ho : (source t).owns h) : (copyFrom source (fuel + 1) h).perform t =
      (forM ((source t).slotOf h).children (copyBelow
        (t.alloc ((source t).slotOf h).marker).1 (copyFrom source fuel)) >>= fun _ =>
          pure (t.alloc ((source t).slotOf h).marker).1 : Edit Handle).perform
            (t.alloc ((source t).slotOf h).marker).2 := by
  simp only [copyFrom, Edit.perform_bind, Edit.perform_get, ho, new, Bool.not_true,
    Bool.false_eq_true, ↓reduceIte, Edit.perform_modifyGet, List.forM_eq_forM]
  unfold copyBelow
  congr 1

theorem partial_alloc (hl : t.WellLinked) (m : Marker) :
    Partial t (t.alloc m).1 (t.alloc m).2 := by
  have ha := Linked.allocated hl m
  exact ⟨ha.grown hl, (ha.inUse_iff _).2 (Or.inl rfl), ha.fresh, ha.parent⟩

theorem copyFrom_copied (source : Tree → Tree) (fuel : Nat) (h : Handle) (hl : t.WellLinked) :
    Copied t ((copyFrom source fuel h).perform t) := by
  induction fuel generalizing t h with
  | zero => exact ⟨Grown.refl hl, fun c hc => by simp [copyFrom] at hc⟩
  | succ fuel ih =>
    by_cases ho : (source t).owns h
    · -- The copy of the node itself, and then those of its children one by one
      have hloop := copyBelow_forM (fun u c hu => ih (t := u) c hu)
        ((source t).slotOf h).children (partial_alloc hl ((source t).slotOf h).marker)
      have hperform := copyFrom_succ source fuel ho
      rw [hperform, Edit.perform_bind]
      rcases hr : (forM ((source t).slotOf h).children (copyBelow
        (t.alloc ((source t).slotOf h).marker).1 (copyFrom source fuel))).perform
          (t.alloc ((source t).slotOf h).marker).2 with ⟨_ | _, u⟩
      · rw [hr] at hloop
        exact ⟨hloop.1, fun c hc => by simp at hc⟩
      · rw [hr] at hloop
        have hpart := hloop.2 rfl
        refine ⟨hpart.grown, fun c hc => ?_⟩
        obtain rfl : (t.alloc ((source t).slotOf h).marker).1 = c := by simpa using hc
        exact ⟨hpart.inUse, hpart.fresh, hpart.parent⟩
    · have hperform : (copyFrom source (fuel + 1) h).perform t = (.error (.foreign h), t) := by
        simp [copyFrom, ho]
      rw [hperform]
      exact ⟨Grown.refl hl, fun c hc => by simp at hc⟩

/-- A node that is there can be copied. It is one of a tree `s`, which may have grown by the time of
the copying; and the bound on the levels is not met. -/
theorem copyFrom_ok {s : Tree} {source : Tree → Tree} (hs : s.WellLinked)
    (hsource : ∀ u, Grown t u → Grown s (source u)) {fuel : Nat} {h : Handle}
    (hh : s.InUse h) (hfuel : s.capacity ≤ fuel + (s.ancestors h).length) (hu : Grown t u) :
    ∃ c, ((copyFrom source fuel h).perform u).1 = .ok c := by
  induction fuel generalizing u h with
  | zero =>
    -- No node is as deep as there are slots
    have := Linked.length_lineage_lt hs hh (Linked.lineage_ancestors hs hh)
    omega
  | succ fuel ih =>
    have hgrown := hsource u hu
    have hpart := partial_alloc hu.wellLinked ((source u).slotOf h).marker
    have hloop := copyBelow_forM_ok (copyFrom source fuel)
      (fun v c hv => copyFrom_copied source fuel c hv) ((source u).slotOf h).children
      (fun c hc v hv => by
        rw [hgrown.kept h hh] at hc
        apply ih (Linked.child hs hh hc).1 _ (hu.trans hv)
        rw [Linked.ancestors_child hs hh hc, List.length_cons]
        omega) hpart
    rw [copyFrom_succ source fuel (hgrown.extended.inUse hh).owned, Edit.perform_bind]
    rcases hr : (forM ((source u).slotOf h).children (copyBelow
      (u.alloc ((source u).slotOf h).marker).1 (copyFrom source fuel))).perform
        (u.alloc ((source u).slotOf h).marker).2 with ⟨_ | _, v⟩
    · simp [hr] at hloop
    · exact ⟨_, rfl⟩

end TabStop.Tree
