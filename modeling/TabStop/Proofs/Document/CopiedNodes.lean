import TabStop.Proofs.Links.Copying
import TabStop.Proofs.Document.Dialect
import TabStop.Proofs.Links.Evolution
import TabStop.Proofs.Source.Reading
import TabStop.Proofs.Canonical.Returning

/-!
# What a copy shows

A copy of a node shows the outline that the node shows. While the children are copied one by one the
arena grows, and slots that had been given back are taken again in any order; but what a node shows
depends on the nodes below it alone, and none of those that were there is touched. So the children
that have been copied still show what they did when the next one comes, and so does the original,
which may be in the same tree.

All that is computed from the outline is then the same: the text, and the source if the dialect is.
-/

namespace TabStop.Tree

variable {s t u v : Tree} {c h x copy : Handle} {cs hs : List Handle} {m : Marker}
variable {o o' : Outline} {os os' : List Outline} {P : Handle → Prop}

/-! ## Nodes that show the same in two trees -/

/-- Two trees agree on a set of nodes that has with each node the ones below it. -/
structure Agrees (t u : Tree) (P : Handle → Prop) : Prop where
  below : ∀ x, P x → ∀ c ∈ (t.slotOf x).children, P c
  owned : ∀ x, P x → u.owns x
  marker : ∀ x, P x → (u.slotOf x).marker = (t.slotOf x).marker
  children : ∀ x, P x → (u.slotOf x).children = (t.slotOf x).children

mutual

theorem Agrees.shows (ha : Agrees t u P) :
    (o : Outline) → (h : Handle) → P h → t.Shows h o → u.Shows h o
  | .node m os, h, hh, ho => by
    obtain ⟨-, hm, hos⟩ := ho
    refine ⟨ha.owned h hh, (ha.marker h hh).trans hm, ?_⟩
    rw [ha.children h hh]
    exact Agrees.showsAll ha os _ (ha.below h hh) hos

theorem Agrees.showsAll (ha : Agrees t u P) :
    (os : List Outline) → (hs : List Handle) → (∀ h ∈ hs, P h) → t.ShowsAll hs os →
      u.ShowsAll hs os
  | [], [], _, _ => trivial
  | [], _ :: _, _, hos => by simp [ShowsAll] at hos
  | _ :: _, [], _, hos => by simp [ShowsAll] at hos
  | o :: os, h :: hs, hhs, hos => by
    obtain ⟨hh, hhs⟩ := List.forall_mem_cons.1 hhs
    exact ⟨Agrees.shows ha o h hh hos.1, Agrees.showsAll ha os hs hhs hos.2⟩

end

theorem showsAll_concat (hos : t.ShowsAll hs os) (ho : t.Shows h o) :
    t.ShowsAll (hs ++ [h]) (os ++ [o]) :=
  showsAll_iff_forall₂.2 (List.rel_append hos.forall₂ (.cons ho .nil))

/-- A node shows one outline only. -/
theorem Shows.unique (ho : t.Shows h o) (ho' : t.Shows h o') : o = o' := by
  rw [← Shows.outlineFrom_eq o h ho (Nat.le_max_left o.size o'.size),
    Shows.outlineFrom_eq o' h ho' (Nat.le_max_right ..)]

/-- No outline has more nodes than there are slots. -/
theorem WellLinked.size_le (hl : t.WellLinked) (hh : t.InUse h) (ho : t.Shows h o) :
    o.size ≤ t.capacity := by
  obtain ⟨o', ho', hsize, -⟩ := hl.exists_shows hh
  rw [ho.unique ho', hsize]
  exact hl.length_walk_le hh

/-! ## A tree that grows -/

/-- What was there shows what it did. -/
theorem Grown.agrees (hg : Grown t u) (hl : t.WellLinked) : Agrees t u t.InUse where
  below x hx c hc := (Linked.child hl hx hc).1
  owned x hx := (hg.extended.inUse hx).owned
  marker x hx := by rw [hg.kept x hx]
  children x hx := by rw [hg.kept x hx]

/-- A link below a node that stands alone changes what that node shows, but no other. -/
theorem agrees_link (hl : t.WellLinked) (hcopy : t.InUse copy)
    (hnone : (t.slotOf copy).parent = none) (c : Handle) :
    Agrees t (t.link copy c) fun x => t.InUse x ∧ x ≠ copy where
  below x hx d hd := by
    obtain ⟨hinUse, hparent⟩ := Linked.child hl hx.1 hd
    refine ⟨hinUse, ?_⟩
    rintro rfl
    simp [hnone] at hparent
  owned x hx := ((sameSlots_link t copy c).inUse_iff.2 hx.1).owned
  marker x _ := marker_link t copy c x
  children x hx := by rw [children_link hcopy, if_neg (hx.1.slot_ne hcopy hx.2)]

/-- What is below a new node is new: what is above a node that was there was there as well. -/
theorem Grown.fresh_below (hg : Grown t u) (hl : t.WellLinked) (hc : u.InUse c)
    (hfresh : ¬t.InUse c) (hx : x ∈ u.walk c) : u.InUse x ∧ ¬t.InUse x := by
  obtain ⟨hinUse, habove⟩ := (hg.wellLinked.mem_walk_iff hc).1 hx
  refine ⟨hinUse, fun hxt => hfresh ?_⟩
  -- Had the node been there, then so had all that is above it, the new node as well
  rw [isAncestorOrSelf_iff, hg.ancestors_eq hl hxt, ← isAncestorOrSelf_iff] at habove
  exact Linked.above_inUse hl hxt habove

/-! ## Copying -/

/-- A copy that is being made: of the children, those that show the given outlines are copied. -/
structure Built (t : Tree) (copy : Handle) (m : Marker) (os : List Outline) (u : Tree) : Prop
    extends Partial t copy u where
  marker : (u.slotOf copy).marker = m
  showsAll : u.ShowsAll (u.slotOf copy).children os

/-- One more child is copied. -/
theorem Built.link (hb : Built t copy m os u) (hgrown : Grown u v) (hc : v.InUse c)
    (hfresh : ¬u.InUse c) (hnone : (v.slotOf c).parent = none) (ho : v.Shows c o) :
    Built t copy m (os ++ [o]) (v.link copy c) where
  toPartial := hb.toPartial.link hgrown hc hfresh hnone
  marker := by rw [marker_link, hgrown.kept copy hb.inUse, hb.marker]
  showsAll := by
    have hl := hb.grown.wellLinked
    have hcopy := hgrown.extended.inUse hb.inUse
    have hkept := hgrown.kept copy hb.inUse
    have hagrees := agrees_link hgrown.wellLinked hcopy (by rw [hkept]; exact hb.parent) c
    -- The children that have been copied before are neither the copy nor above it
    have hold : ∀ d ∈ (u.slotOf copy).children, v.InUse d ∧ d ≠ copy := by
      intro d hd
      obtain ⟨hinUse, hparent⟩ := Linked.child hl hb.inUse hd
      refine ⟨hgrown.extended.inUse hinUse, ?_⟩
      rintro rfl
      simp [hb.parent] at hparent
    have hne : c ≠ copy := fun heq => hfresh (heq ▸ hb.inUse)
    rw [children_link hcopy, if_pos rfl, hkept]
    apply showsAll_concat
    · apply hagrees.showsAll os _ hold
      apply (hgrown.agrees hl).showsAll os _ _ hb.showsAll
      exact fun d hd => (Linked.child hl hb.inUse hd).1
    · exact hagrees.shows o c ⟨hc, hne⟩ ho

/-- If each child is copied to a node that shows what the child does, the copy shows them all. -/
theorem Built.forM {copyChild : Handle → Edit Handle}
    (hcopied : ∀ (u : Tree) c, u.WellLinked → Copied u ((copyChild c).perform u))
    (hshows : ∀ c ∈ cs, ∀ u, Grown t u → ∀ d v o, (copyChild c).perform u = (.ok d, v) →
      s.Shows c o → v.Shows d o)
    (hos' : s.ShowsAll cs os') (hb : Built t copy m os u)
    (hperform : (forM cs (copyBelow copy copyChild)).perform u = (.ok ⟨⟩, v)) :
    Built t copy m (os ++ os') v := by
  replace hos' := hos'.forall₂
  induction hos' generalizing u os with
  | nil =>
    obtain rfl : u = v := by simpa using hperform
    simpa using hb
  | @cons c o cs os' ho _ ih =>
    obtain ⟨hc, hcs⟩ := List.forall_mem_cons.1 hshows
    obtain ⟨hgrown, hok⟩ := hcopied u c hb.grown.wellLinked
    rcases hr : (copyChild c).perform u with ⟨_ | d, w⟩
    · simp [copyBelow, hr] at hperform
    · -- With the copy of this child linked, one more outline is shown
      rw [hr] at hgrown hok
      obtain ⟨hd, hfresh, hnone⟩ := hok d rfl
      have hnext := hb.link hgrown hd hfresh hnone (hc u hb.grown d w o hr ho)
      have := ih hcs hnext (by simpa [copyBelow, hr] using hperform)
      simpa using this

theorem built_alloc (hl : t.WellLinked) (m : Marker) :
    Built t (t.alloc m).1 m [] (t.alloc m).2 := by
  have ha := Linked.allocated hl m
  refine ⟨partial_alloc hl m, ha.marker, ?_⟩
  rw [ha.children]
  trivial

/-- A copy shows what the node shows that has been copied. -/
theorem copyFrom_shows {source : Tree → Tree} (hs : s.WellLinked)
    (hsource : ∀ u, Grown t u → Grown s (source u)) {fuel : Nat} (hh : s.InUse h)
    (ho : s.Shows h o) (hu : Grown t u)
    (hperform : (copyFrom source fuel h).perform u = (.ok c, v)) : v.Shows c o := by
  -- By the levels that are copied, the children of the node being on the next one
  induction fuel generalizing u v h c o with
  | zero => simp [copyFrom] at hperform
  | succ fuel ih =>
    obtain ⟨m, os⟩ := o
    obtain ⟨-, hm, hos⟩ := ho
    have hgrown := hsource u hu
    have hslot := hgrown.kept h hh
    rw [copyFrom_succ source fuel (hgrown.extended.inUse hh).owned, hslot, hm,
      Edit.perform_bind] at hperform
    rcases hr : (forM (s.slotOf h).children (copyBelow (u.alloc m).1
      (copyFrom source fuel))).perform (u.alloc m).2 with ⟨_ | _, w⟩
    · simp [hr] at hperform
    · obtain ⟨rfl, rfl⟩ : (u.alloc m).1 = c ∧ w = v := by simpa [hr] using hperform
      have hchildren : ∀ d ∈ (s.slotOf h).children, ∀ u', Grown u u' → ∀ e v' p,
          (copyFrom source fuel d).perform u' = (.ok e, v') → s.Shows d p → v'.Shows e p :=
        fun d hd u' hu' e v' p hperform' hp =>
          ih (Linked.child hs hh hd).1 hp (hu.trans hu') hperform'
      -- At first the copy has no children
      have hbuilt := Built.forM (fun w d hw => copyFrom_copied source fuel d hw) hchildren hos
        (built_alloc hu.wellLinked m) hr
      exact ⟨hbuilt.inUse.owned, hbuilt.marker, hbuilt.showsAll⟩

theorem keepsDialect_copyFrom (source : Tree → Tree) (fuel : Nat) (h : Handle) :
    (copyFrom source fuel h).KeepsDialect := by
  induction fuel generalizing h with
  | zero => exact fun _ => rfl
  | succ fuel ih =>
    -- The children of the node are gone through with the rest of the bound
    have hbelow (copy c : Handle) : (copyBelow copy (copyFrom source fuel) c).KeepsDialect :=
      (ih c).bind fun d => Edit.keepsDialect_modify (·.link copy d) fun _ => rfl
    intro t
    by_cases ho : (source t).owns h
    · rw [copyFrom_succ source fuel ho]
      apply Eq.trans _ (dialect_alloc t ((source t).slotOf h).marker)
      exact ((Edit.keepsDialect_forM (hbelow _) _).bind fun _ => Edit.keepsDialect_pure _) _
    · simp [copyFrom, ho]

/-- A node `c` of the tree `u` is a copy of a node `h` of the tree `s`. Before the copy was made the
tree was `t`. -/
structure IsCopy (s : Tree) (h : Handle) (t : Tree) (c : Handle) (u : Tree) : Prop where
  wellLinked : u.WellLinked
  inUse : u.InUse c
  detached : u.parent? c = none
  same : ∃ o, s.Shows h o ∧ u.Shows c o
  fresh : ∀ x ∈ u.walk c, u.InUse x ∧ ¬t.InUse x
  kept : ∀ x, t.InUse x → u.InUse x ∧ u.marker? x = t.marker? x ∧ u.parent? x = t.parent? x ∧
    u.children x = t.children x
  render : u.render c = s.render h
  source : s.dialect = t.dialect → u.sourceOf c = s.sourceOf h

/-- What follows if a new node shows what the node shows that has been copied. -/
theorem Copied.isCopy {r : Except EditError Handle × Tree} (hr : Copied t r) (hl : t.WellLinked)
    (hdialect : r.2.dialect = t.dialect) (hok : r.1 = .ok c) (ho : s.Shows h o)
    (ho' : r.2.Shows c o) (hsize : o.size ≤ s.capacity) : IsCopy s h t c r.2 := by
  obtain ⟨hinUse, hfresh, hnone⟩ := hr.copy c hok
  have hsize' := hr.grown.wellLinked.size_le hinUse ho'
  refine ⟨hr.grown.wellLinked, hinUse, ?_, ⟨o, ho, ho'⟩, ?_, fun x hx => ?_, ?_, fun heq => ?_⟩
  · rw [parent?, if_pos hinUse.owned, hnone]
  · exact fun x hx => hr.grown.fresh_below hl hinUse hfresh hx
  · have hxu := hr.grown.extended.inUse hx
    simp only [marker?, parent?, children, hxu.owned, hx.owned, hr.grown.kept x hx, hxu, and_self]
  · rw [render, render, if_pos ho.owned, if_pos ho'.owned, renderSlot, renderSlot,
      Shows.renderFrom_eq o h ho hsize, Shows.renderFrom_eq o c ho' hsize']
  · rw [sourceOf, sourceOf, if_pos ho.owned, if_pos ho'.owned,
      Shows.sourceFrom_eq o h ho hsize, Shows.sourceFrom_eq o c ho' hsize', hdialect, heq]

theorem exists_isCopy (source : Tree → Tree) (hs : s.WellLinked) (hl : t.WellLinked)
    (hsource : ∀ u, Grown t u → Grown s (source u)) (hself : source t = s) (ho : s.owns h) :
    ∃ c u, (copyFrom source s.capacity h).perform t = (.ok c, u) ∧ IsCopy s h t c u := by
  have hcopied := copyFrom_copied source s.capacity h hl
  have hdialect := keepsDialect_copyFrom source s.capacity h t
  by_cases hfree : h.slot ∈ s.free
  · -- The slot is free, and there is nothing below the node that it will hold
    obtain ⟨fuel, hfuel⟩ : ∃ fuel, s.capacity = fuel + 1 :=
      Nat.exists_eq_succ_of_ne_zero (Nat.ne_of_gt (Nat.zero_lt_of_lt (owns_iff.1 ho).2.1))
    have hchildren := Linked.free_children hs hfree
    have hperform : (copyFrom source s.capacity h).perform t =
        (.ok (t.alloc (s.slotOf h).marker).1, (t.alloc (s.slotOf h).marker).2) := by
      simp [hfuel, copyFrom, hself, ho, new, hchildren]
    have hbuilt := built_alloc hl (s.slotOf h).marker
    rw [hperform] at hcopied hdialect
    have hshows : s.Shows h (.node (s.slotOf h).marker []) :=
      ⟨ho, rfl, by rw [hchildren]; trivial⟩
    have hcopy : (t.alloc (s.slotOf h).marker).2.Shows (t.alloc (s.slotOf h).marker).1
        (.node (s.slotOf h).marker []) :=
      ⟨hbuilt.inUse.owned, hbuilt.marker, hbuilt.showsAll⟩
    refine ⟨_, _, hperform, hcopied.isCopy hl hdialect rfl hshows hcopy ?_⟩
    simp [Outline.size, Outline.sizeAll, hfuel]
  · have hh : s.InUse h := ⟨ho, hfree⟩
    obtain ⟨o, hshows, -⟩ := hs.exists_shows hh
    obtain ⟨c, hok⟩ := copyFrom_ok hs hsource hh (Nat.le_add_right _ _) (Grown.refl hl)
    have hperform : (copyFrom source s.capacity h).perform t =
        (.ok c, ((copyFrom source s.capacity h).perform t).2) := Prod.ext hok rfl
    have hcopy := copyFrom_shows hs hsource hh hshows (Grown.refl hl) hperform
    exact ⟨c, _, hperform,
      hcopied.isCopy hl hdialect hok hshows hcopy (hs.size_le hh hshows)⟩

/-- Any node that a tree owns can be copied, to another tree or within the tree. The copy stands
alone, shows the same outline and is made of new nodes, and all nodes that were there keep their
markers, parents and children; the other tree is only read. So the copy shows the same text, and is
written in the same way if the trees are of one dialect. -/
theorem exists_copy (hs : s.WellLinked) (hl : t.WellLinked) :
    (∀ h, s.owns h → ∃ c u, (copyOf s h).perform t = (.ok c, u) ∧ IsCopy s h t c u) ∧
    ∀ h, t.owns h → ∃ c u, (duplicate h).perform t = (.ok c, u) ∧ IsCopy t h t c u := by
  constructor
  · intro h ho
    exact exists_isCopy (fun _ => s) hs hl (fun _ _ => .refl hs) rfl ho
  · intro h ho
    obtain ⟨c, u, hperform, hcopy⟩ := exists_isCopy id hl hl (fun _ hg => hg) rfl ho
    exact ⟨c, u, by simpa [duplicate] using hperform, hcopy⟩

/-- A tree in which a tab stop has been released with its text. -/
def gapped : Tree :=
  (release ⟨0, 2, 0⟩).after ((detach ⟨0, 2, 0⟩).after (ofSource 0 .textMate "a$\x7b1:b\x7dc"))

theorem wellLinked_gapped : gapped.WellLinked := by
  have hl := (grown_ofSource 0 .textMate "a$\x7b1:b\x7dc").1
  have hnode : (ofSource 0 .textMate "a$\x7b1:b\x7dc").Reliable ⟨0, 2, 0⟩ :=
    fun ho => ⟨ho, by rw [show (ofSource 0 .textMate "a$\x7b1:b\x7dc").free = [] by cbv]; simp⟩
  have hdetached := (hl.evolves_detach hnode).wellLinked
  refine (hdetached.evolves_release fun ho => ⟨ho, ?_⟩).wellLinked
  rw [show ((detach ⟨0, 2, 0⟩).after (ofSource 0 .textMate "a$\x7b1:b\x7dc")).free = [] by cbv]
  simp

/-- The copy of a tab stop and of the two nodes below it takes the free slots, the last one first,
and then a new one. -/
theorem exists_copy_gapped :
    ∃ u, (copyOf (ofSource 1 .textMate "x$\x7b2:y$3\x7d") ⟨1, 2, 0⟩).perform gapped =
        (.ok ⟨0, 3, 1⟩, u) ∧
      IsCopy (ofSource 1 .textMate "x$\x7b2:y$3\x7d") ⟨1, 2, 0⟩ gapped ⟨0, 3, 1⟩ u ∧
      u.walk ⟨0, 3, 1⟩ = [⟨0, 3, 1⟩, ⟨0, 2, 1⟩, ⟨0, 5, 0⟩] ∧
      u.sourceOf ⟨0, 3, 1⟩ = "$\x7b2:y$3\x7d" := by
  have hs := (grown_ofSource 1 .textMate "x$\x7b2:y$3\x7d").1
  obtain ⟨c, u, hperform, hcopy⟩ := (exists_copy hs wellLinked_gapped).1 ⟨1, 2, 0⟩ (by cbv)
  have hresult : ((copyOf (ofSource 1 .textMate "x$\x7b2:y$3\x7d") ⟨1, 2, 0⟩).perform gapped).1 =
      .ok ⟨0, 3, 1⟩ := by cbv
  have hwalk : ((copyOf (ofSource 1 .textMate "x$\x7b2:y$3\x7d") ⟨1, 2, 0⟩).after gapped).walk
      ⟨0, 3, 1⟩ = [⟨0, 3, 1⟩, ⟨0, 2, 1⟩, ⟨0, 5, 0⟩] := by cbv
  rw [Edit.after, hperform] at hwalk
  rw [hperform] at hresult
  obtain rfl : c = ⟨0, 3, 1⟩ := by simpa using hresult
  refine ⟨u, hperform, hcopy, hwalk, ?_⟩
  rw [hcopy.source (by cbv)]
  cbv

end TabStop.Tree
