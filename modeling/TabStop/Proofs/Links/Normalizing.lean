import TabStop.Proofs.Links.Slots

/-!
# Normalizing keeps the links sound

While the text in a node is brought into order, the node still lists children that have been
released, and so may the nodes around it. The links are sound all the same, if the lists are taken
as they will be in the end.
-/

namespace TabStop.Tree

variable {t u v : Tree} {c h x : Handle} {as hs kept stale : List Handle} {gone : List Nat}
variable {down : Handle → List Handle}

/-- A tree that is sound but for the lists of the nodes `stale`, in which `as` are the nodes above
`h`. -/
structure Pending (t : Tree) (down : Handle → List Handle) (h : Handle)
    (as stale : List Handle) : Prop where
  linked : t.Linked down
  inUse : t.InUse h
  lineage : t.Lineage h as
  agrees : ∀ x, t.InUse x → x ∉ stale → (t.slotOf x).children = down x

/-- What is true of a tree after a step below the nodes `as`: nodes may have been released, and the
lists of `as` still are, and still are to be, what they were before. -/
structure Tidied (t : Tree) (down : Handle → List Handle) (h : Handle) (as stale : List Handle)
    (u : Tree) (down' : Handle → List Handle) : Prop where
  pending : Pending u down' h as stale
  trims : ∃ gone, Trims t gone u
  above : ∀ a ∈ as, down' a = down a ∧ (u.slotOf a).children = (t.slotOf a).children

namespace Tidied

variable {down' down'' : Handle → List Handle}

theorem refl (hp : Pending t down h as stale) : Tidied t down h as stale t down :=
  ⟨hp, ⟨[], (SameSlots.refl t).trims⟩, fun _ _ => ⟨rfl, rfl⟩⟩

theorem trans (hu : Tidied t down h as stale u down') (hv : Tidied u down' h as stale v down'') :
    Tidied t down h as stale v down'' := by
  obtain ⟨gone, hgone⟩ := hu.trims
  obtain ⟨gone', hgone'⟩ := hv.trims
  exact ⟨hv.pending, ⟨_, hgone.trans hgone' hv.pending.linked.free_nodup⟩,
    fun a ha => ⟨(hv.above a ha).1.trans (hu.above a ha).1,
      (hv.above a ha).2.trans (hu.above a ha).2⟩⟩

end Tidied

namespace Pending

theorem child (hp : Pending t down h as (h :: as)) (hc : c ∈ down h) :
    Pending t down c (h :: as) (h :: as) := by
  obtain ⟨hinUse, hup⟩ := hp.linked.child hp.inUse hc
  exact ⟨hp.linked, hinUse, ⟨hup, hp.lineage⟩, hp.agrees⟩

theorem sameLinks (hp : Pending t down h as stale) (hs : SameLinks t u) :
    Tidied t down h as stale u down := by
  refine ⟨⟨hs.linked hp.linked, hs.inUse_iff.2 hp.inUse, hp.lineage.congr fun x _ => hs.parent x,
    fun x hx hnot => ?_⟩, ⟨[], hs.trims⟩, fun a _ => ⟨rfl, hs.children a⟩⟩
  rw [hs.children]
  exact hp.agrees x (hs.inUse_iff.1 hx) hnot

/-- The list of a node is corrected at last. -/
theorem setChildren (hp : Pending t down h as (h :: as)) :
    Tidied t down h as as (t.setChildren h (down h)) down := by
  have hs := sameSlots_setChildren t h (down h)
  have hup := slotOf_modifySlot_eq Slot.parent (f := fun s => { s with children := down h })
    (by intro; rfl) t h
  -- Only the list of `h` is changed
  have hat {x : Handle} (hx : t.InUse x) : ((t.setChildren h (down h)).slotOf x).children =
      if x = h then down h else (t.slotOf x).children := by
    rw [Tree.setChildren, slotOf_modifySlot hp.inUse.slot_lt]
    by_cases hxh : x = h
    · rw [if_pos (by rw [hxh]), if_pos hxh]
    · rw [if_neg (hx.slot_ne hp.inUse hxh), if_neg hxh]
  refine ⟨⟨hp.linked.setChildren hp.inUse _, hs.inUse_iff.2 hp.inUse,
    hp.lineage.congr fun x _ => hup x, fun x hx hnot => ?_⟩, ⟨[], hs.trims⟩, fun a ha => ?_⟩
  · have hx' := hs.inUse_iff.1 hx
    rw [hat hx']
    split
    · next hxh => rw [hxh]
    · next hxh => exact hp.agrees x hx' fun hmem => (List.mem_cons.1 hmem).elim hxh hnot
  · have hne : a ≠ h := fun heq => (List.nodup_cons.1 hp.lineage.nodup).1 (heq ▸ ha)
    rw [hat (hp.linked.lineage_inUse hp.inUse hp.lineage a ha), if_neg hne]
    exact ⟨rfl, rfl⟩

/-- No list but that of its parent has the child. -/
theorem filter_down (hp : Pending t down h as (h :: as)) (hc : c ∈ down h) (hx : t.InUse x)
    (hne : x ≠ h) : (down x).filter (· ≠ c) = down x := by
  refine filter_ne_of_not_mem (hp.linked.not_mem_down hx ?_)
  rw [(hp.linked.child hp.inUse hc).2]
  exact fun heq => hne (Option.some.inj heq).symm

theorem not_mem_above (hp : Pending t down h as (h :: as)) (hc : c ∈ down h) :
    c ∉ h :: as ∧ h ∉ as := by
  have hnodup : (c :: h :: as).Nodup :=
    Lineage.nodup (t := t) ⟨(hp.linked.child hp.inUse hc).2, hp.lineage⟩
  obtain ⟨hnot, hnodup⟩ := List.nodup_cons.1 hnodup
  exact ⟨hnot, (List.nodup_cons.1 hnodup).1⟩

theorem lineage_cut (hp : Pending t down h as (h :: as)) (hc : c ∈ down h) :
    (t.setParent c none).Lineage h as :=
  hp.linked.lineage_setParent hp.inUse hp.lineage (hp.linked.child hp.inUse hc).1
    (hp.not_mem_above hc).1 none

/-- Once it is cut off, the child is not above any of the nodes whose lists are stale. -/
theorem not_above_stale (hp : Pending t down h as (h :: as)) (hc : c ∈ down h)
    (hx : x ∈ h :: as) : ¬ (t.setParent c none).isAncestorOrSelf c x := by
  intro hcx
  have hcut := hp.linked.cut (hp.linked.child hp.inUse hc).1
  have hh := (sameSlots_setParent t c none).inUse_iff.2 hp.inUse
  have hanc := hcut.ancestors_eq hh (hp.lineage_cut hc)
  have hxh : (t.setParent c none).isAncestorOrSelf x h := by
    rw [isAncestorOrSelf_iff, hanc]
    exact hx
  have hch := hcut.above_trans hh hxh hcx
  rw [isAncestorOrSelf_iff, hanc] at hch
  exact (hp.not_mem_above hc).1 hch

/-- So the lists below the child are right. -/
theorem agreesBelow_cut (hp : Pending t down h as (h :: as)) (hc : c ∈ down h) :
    (t.setParent c none).AgreesBelow (fun x => (down x).filter (· ≠ c)) c := by
  intro x hx hcx
  have hstale : x ∉ h :: as := fun hmem => hp.not_above_stale hc hmem hcx
  have hx' := (sameSlots_setParent t c none).inUse_iff.1 hx
  have hne : x ≠ h := fun heq => hstale (heq ▸ List.mem_cons_self ..)
  rw [children_setParent, hp.agrees x hx' hstale]
  exact (hp.filter_down hc hx' hne).symm

/-- A child is released, and its parent is to forget it. -/
theorem dropChild (hp : Pending t down h as (h :: as)) (hc : c ∈ down h) :
    ∃ u, (dropChild c).perform t = (.ok (), u) ∧
      Tidied t down h as (h :: as) u fun x => (down x).filter (· ≠ c) := by
  obtain ⟨hinUse, hup⟩ := hp.linked.child hp.inUse hc
  have hs := sameSlots_setParent t c none
  have hcut := hp.linked.cut hinUse
  have hc' := hs.inUse_iff.2 hinUse
  have hd := hp.agreesBelow_cut hc
  have hnone : ((t.setParent c none).slotOf c).parent = none := by
    rw [parent_setParent hinUse none, if_pos rfl]
  have hroot : c ≠ (t.setParent c none).root := by
    intro heq
    rw [hs.root_eq] at heq
    rw [heq, hp.linked.root_parent] at hup
    simp at hup
  obtain ⟨hreleased, hlinked⟩ := hcut.released hc' hd hroot hnone
  have hperform : (Tree.dropChild c).perform t =
      (.ok (), ((t.setParent c none).walk c).foldl freeSlot (t.setParent c none)) := by
    simp [Tree.dropChild, release_perform hc'.owned hroot hnone]
  -- What is stale is not below the child, so it stays
  have hstays : ∀ x ∈ h :: as, (((t.setParent c none).walk c).foldl freeSlot
      (t.setParent c none)).InUse x := by
    intro x hx
    have hx' : t.InUse x := by
      rcases List.mem_cons.1 hx with rfl | hmem
      · exact hp.inUse
      · exact hp.linked.lineage_inUse hp.inUse hp.lineage x hmem
    exact (hreleased.inUse_iff x).2 ⟨hs.inUse_iff.2 hx', fun hw =>
      hp.not_above_stale hc hx ((hcut.mem_walk_iff hc' hd).1 hw).2⟩
  refine ⟨_, hperform, ⟨hlinked, hstays h (List.mem_cons_self ..), ?_, ?_⟩,
    ⟨_, hs.trims.trans hreleased.trims hlinked.free_nodup⟩, ?_⟩
  · exact (hp.lineage_cut hc).congr fun x hx => by rw [hreleased.other x (hstays x hx)]
  · intro x hx hnot
    have hx' := hs.inUse_iff.1 ((hreleased.inUse_iff x).1 hx).1
    have hne : x ≠ h := fun heq => hnot (heq ▸ List.mem_cons_self ..)
    rw [hreleased.other x hx, children_setParent, hp.agrees x hx' hnot]
    exact (hp.filter_down hc hx' hne).symm
  · intro a ha
    have hne : a ≠ h := fun heq => (hp.not_mem_above hc).2 (heq ▸ ha)
    refine ⟨hp.filter_down hc (hp.linked.lineage_inUse hp.inUse hp.lineage a ha) hne, ?_⟩
    rw [hreleased.other a (hstays a (List.mem_cons_of_mem _ ha)), children_setParent]

end Pending

/-! ## The children of a node one by one -/

/-- What it means to bring the nodes below another one into order. -/
private def TidiesInside (inside : Handle → Edit Unit) : Prop :=
  ∀ (t : Tree) down c as, Pending t down c as as →
    ∃ u down', (inside c).perform t = (.ok (), u) ∧ Tidied t down c as as u down'

private theorem normalizeChild_tidied {inside : Handle → Edit Unit} (hinside : TidiesInside inside)
    (start : Nat) (hp : Pending t down h as (h :: as)) (hdown : down h = kept ++ c :: hs) :
    ∃ u down' kept', (normalizeChild inside start kept c).perform t = (.ok kept', u) ∧
      Tidied t down h as (h :: as) u down' ∧ down' h = kept' ++ hs := by
  have hc : c ∈ down h := by simp [hdown]
  have hnodup := hp.linked.nodup hp.inUse
  have hfilter : (down h).filter (· ≠ c) = kept ++ hs := by
    rw [hdown] at hnodup ⊢
    exact filter_ne_append_cons hnodup
  have hdrop {t : Tree} (hp : Pending t down h as (h :: as)) :
      ∃ u down', (dropChild c).perform t = (.ok (), u) ∧
        Tidied t down h as (h :: as) u down' ∧ down' h = kept ++ hs := by
    obtain ⟨u, hperform, htidied⟩ := hp.dropChild hc
    exact ⟨u, _, hperform, htidied, hfilter⟩
  cases htext : (t.slotOf c).marker.text? with
  | none =>
    -- A node that is no text is brought into order inside and kept
    obtain ⟨u, down', hperform, htidied⟩ := hinside t down c (h :: as) (hp.child hc)
    have hdown' := (htidied.above h (List.mem_cons_self ..)).1
    refine ⟨u, down', kept ++ [c], by simp [normalizeChild, htext, hperform], ?_, ?_⟩
    · have hlin := htidied.pending.lineage
      have hup := htidied.pending.linked.parent htidied.pending.inUse hlin.1
      exact ⟨⟨htidied.pending.linked, hup.1, hlin.2, htidied.pending.agrees⟩, htidied.trims,
        fun a ha => htidied.above a (List.mem_cons_of_mem _ ha)⟩
    · rw [hdown', hdown]
      simp
  | some s =>
    -- Empty text goes; other text goes into the text before it, or else it is kept
    by_cases hs : s = ""
    · obtain ⟨u, down', hperform, htidied, hrest⟩ := hdrop hp
      exact ⟨u, down', kept, by simp [normalizeChild, htext, hs, hperform], htidied, hrest⟩
    · cases hlast : (if start < kept.length then kept.getLast? else none).filter
          (fun l => (t.slotOf l).marker.text?.isSome) with
      | none =>
        refine ⟨t, down, kept ++ [c], by simp [normalizeChild, htext, hs, hlast], .refl hp, ?_⟩
        rw [hdown]
        simp
      | some l =>
        -- The text is added to the text before it, and its own node goes
        have happend := hp.sameLinks (sameLinks_appendText t l s)
        obtain ⟨u, down', hperform, htidied, hrest⟩ := hdrop happend.pending
        exact ⟨u, down', kept, by simp [normalizeChild, htext, hs, hlast, hperform],
          happend.trans htidied, hrest⟩

private theorem normalizeChildren_tidied {inside : Handle → Edit Unit}
    (hinside : TidiesInside inside) (start : Nat) (hp : Pending t down h as (h :: as))
    (hdown : down h = kept ++ hs) :
    ∃ u down', (hs.foldlM (normalizeChild inside start) kept).perform t = (.ok (down' h), u) ∧
      Tidied t down h as (h :: as) u down' := by
  induction hs generalizing t down kept with
  | nil =>
    refine ⟨t, down, ?_, .refl hp⟩
    simp [hdown]
  | cons c hs ih =>
    obtain ⟨u, down', kept', hperform, htidied, hrest⟩ :=
      normalizeChild_tidied hinside start hp hdown
    obtain ⟨v, down'', hperform', htidied'⟩ := ih htidied.pending hrest
    exact ⟨v, down'', by simp [hperform, hperform'], htidied.trans htidied'⟩

/-! ## All nodes below a node -/

theorem normalizeFrom_tidied (fuel : Nat) (start : Nat) (hp : Pending t down h as as) :
    ∃ u down', (normalizeFrom fuel h start).perform t = (.ok (), u) ∧
      Tidied t down h as as u down' := by
  induction fuel generalizing t down h as start with
  | zero => exact ⟨t, down, rfl, .refl hp⟩
  | succ fuel ih =>
    have hnot : h ∉ as := (List.nodup_cons.1 hp.lineage.nodup).1
    have hchildren := hp.agrees h hp.inUse hnot
    -- The list of `h` is stale from now on, until it is set at the end
    have hstart : Pending t down h as (h :: as) :=
      ⟨hp.linked, hp.inUse, hp.lineage, fun x hx hx' =>
        hp.agrees x hx fun hmem => hx' (List.mem_cons_of_mem _ hmem)⟩
    have hinside : TidiesInside fun c => normalizeFrom fuel c 0 :=
      fun t down c as hc => ih 0 hc
    have hsplit : down h = (down h).take (min start (down h).length) ++
        (down h).drop (min start (down h).length) := (List.take_append_drop ..).symm
    obtain ⟨u, down', hperform, htidied⟩ :=
      normalizeChildren_tidied hinside (min start (down h).length) hstart hsplit
    have hset := htidied.pending.setChildren
    obtain ⟨gone, hgone⟩ := htidied.trims
    obtain ⟨gone', hgone'⟩ := hset.trims
    refine ⟨u.setChildren h (down' h), down', ?_, hset.pending,
      ⟨_, hgone.trans hgone' hset.pending.linked.free_nodup⟩, fun a ha => ?_⟩
    · simp only [normalizeFrom, Edit.perform_bind, check_perform, hp.inUse.owned, ↓reduceIte,
        Edit.perform_get, hchildren, hperform, Edit.perform_modify]
    · exact ⟨(htidied.above a ha).1, (hset.above a ha).2.trans (htidied.above a ha).2⟩

/-- Normalizing a node succeeds, and it keeps the links sound. -/
theorem WellLinked.normalize (hl : t.WellLinked) (hh : t.InUse h) (start : Nat) :
    ∃ u gone, (normalize h start).perform t = (.ok (), u) ∧ u.WellLinked ∧ Trims t gone u := by
  obtain ⟨u, down', hperform, htidied⟩ := normalizeFrom_tidied t.capacity start
    (h := h) ⟨hl, hh, Linked.lineage_ancestors hl hh, fun _ _ _ => rfl⟩
  obtain ⟨gone, hgone⟩ := htidied.trims
  refine ⟨u, gone, by simpa [Tree.normalize] using hperform,
    htidied.pending.linked.wellLinked fun x hx => ?_, hgone⟩
  -- The lists above `h` have not been touched, and all others are right
  by_cases hmem : x ∈ t.ancestors h
  · obtain ⟨hdown, hchildren⟩ := htidied.above x hmem
    rw [hdown, hchildren]
  · rw [htidied.pending.agrees x hx hmem]

end TabStop.Tree
