import TabStop.Proofs.Canonical.Reproducing

/-!
# The first choice is not inside of another one

A node comes before what is inside of it. So no tab stop is the first choice of an index if it is
inside of another tab stop of the index. That tells how the primary tab stop of a snippet and the
first choice of what is written of it are placed, for the primary one has been the first choice of
the source.
-/

namespace TabStop.Tree

variable {t u v : Tree} {h m p x y z : Handle} {i : TabIndex}

/-! ## The order of a walk -/

/-- What comes later in a walk is not above what comes before. -/
theorem WellLinked.pairwise_walk (hl : t.WellLinked) (hh : t.InUse h) :
    (t.walk h).Pairwise fun x y => y ∉ t.ancestors x := by
  refine hl.induction_below (P := fun h => (t.walk h).Pairwise fun x y => y ∉ t.ancestors x)
    (fun h hh ih => ?_) hh
  have hnodup := hl.walk_nodup h
  rw [hl.walk_eq hh] at hnodup ⊢
  have hinside {c x y : Handle} (hc : c ∈ (t.slotOf h).children) (hx : t.InUse x)
      (hy : y ∈ t.walk c) (habove : t.isAncestorOrSelf y x) : t.isAncestorOrSelf c x :=
    Linked.above_trans hl hx habove ((hl.mem_walk_iff (Linked.child hl hh hc).1).1 hy).2
  refine List.pairwise_cons.2 ⟨fun y hy habove => ?_, List.pairwise_flatMap.2 ⟨ih, ?_⟩⟩
  · -- No child is above its parent
    obtain ⟨c, hc, hy⟩ := List.mem_flatMap.1 hy
    have hch := hinside hc hh hy (isAncestorOrSelf_iff.2 (List.mem_cons_of_mem _ habove))
    exact absurd hch (Linked.not_above_of_child hl hh hc)
  · -- Nothing is below two children
    refine (List.nodup_flatMap.1 (List.nodup_cons.1 hnodup).2).2.imp_of_mem
      fun {c d} hc hd hdisjoint x hx y hy habove => ?_
    have hxu := ((hl.mem_walk_iff (Linked.child hl hh hc).1).1 hx).1
    have hdx := hinside hd hxu hy (isAncestorOrSelf_iff.2 (List.mem_cons_of_mem _ habove))
    exact hdisjoint hx ((hl.mem_walk_iff (Linked.child hl hh hd).1).2 ⟨hxu, hdx⟩)

theorem WellLinked.pairwise_placeholdersOf (hl : t.WellLinked) (i : TabIndex) :
    (t.placeholdersOf i).Pairwise fun x y => y ∉ t.ancestors x :=
  (hl.pairwise_walk (Linked.root_inUse hl)).sublist
    ((placeholdersOf_sublist t i).trans (List.filter_sublist.trans (List.drop_sublist ..)))

/-! ## The first choice -/

/-- A tab stop with a transform has nothing but text in it. -/
theorem Writable.bare_of_transform (hw : t.Writable) (hl : t.WellLinked) (hm : m ∈ t.placeholders)
    (hplain : t.isPlain m = false) : t.Bare m := by
  have hwalk := (hl.mem_walk_root_of_placeholder hm).1
  obtain ⟨k, hk, hmarker⟩ := hl.exists_placeholder hm
  have htransform : k.transform.isSome := by
    rw [isPlain, hk] at hplain
    cases htr : k.transform <;> simp [htr] at hplain
    rfl
  have hadmits := hw.admits m (List.mem_filter.1 hm).1
  rw [hmarker] at hadmits
  have htexts : ∀ k ∈ t.childMarkers m, k.text?.isSome := by
    generalize t.childMarkers m = ms at hadmits
    -- Of the nodes that may be written only one has a transform and nodes inside
    cases hadmits with
    | placeholderTransform _ _ hms => exact hms
    | _ => simp at htransform
  intro c hc
  have htext := htexts _ (List.mem_map.2 ⟨c, hc, rfl⟩)
  exact ⟨htext, hw.textLeaves hl c (hl.mem_walk_root_child hwalk hc) htext⟩

/-- The first choice of an index is not inside of another tab stop of the index. -/
theorem Writable.not_above_firstChoice? (hw : t.Writable) (hl : t.WellLinked)
    (hz : t.firstChoice? i = some z) (hm : m ∈ t.placeholdersOf i) : m ∉ t.ancestors z := by
  intro habove
  have hmem := (mem_placeholdersOf_iff.1 hm).1
  have hmu := hl.inUse_of_mem_placeholders hmem
  have hzmem := (firstChoice?_eq_some hz).1
  have hnot : ¬ t.Bare m := fun hbare =>
    hbare.solitary hl hmu z (mem_placeholdersOf_iff.1 hzmem).1 habove
  -- So it has no transform, and there is something in it
  have hplain : t.isPlain m = true := by
    by_contra hplain
    exact hnot (hw.bare_of_transform hl hmem (Bool.eq_false_iff.2 hplain))
  have hinside : (!(t.children m).isEmpty) = true := by
    cases hempty : (t.children m).isEmpty with
    | false => rfl
    | true =>
      rw [WellLinked.children_eq hmu, List.isEmpty_iff] at hempty
      exact absurd (fun c hc => by simp [hempty] at hc) hnot
  have hmplain := List.mem_filter.2 ⟨hm, hplain⟩
  cases hfind : ((t.placeholdersOf i).filter t.isPlain).find? fun h => !(t.children h).isEmpty with
  | none => exact List.find?_eq_none.1 hfind m hmplain hinside
  | some a =>
    obtain rfl : a = z := by simpa [firstChoice?, pick, hfind] using hz
    -- What comes before the first choice is empty, so the tab stop comes after what is inside of it
    obtain ⟨-, before, after, heq, hbefore⟩ := List.find?_eq_some_iff_append.1 hfind
    rw [heq, List.mem_append, List.mem_cons] at hmplain
    have horder := (hl.pairwise_placeholdersOf i).sublist (List.filter_sublist (p := t.isPlain))
    rw [heq, List.pairwise_append, List.pairwise_cons] at horder
    rcases hmplain with hmem | rfl | hmem
    · have hempty := hbefore m hmem
      rw [hinside] at hempty
      simp at hempty
    · exact Linked.not_mem_ancestors hl hmu habove
    · exact horder.2.1.1 m hmem habove

/-! ## The tab stops of an index that are left -/

/-- Of an index some tab stops are left, each as it was and inside of what it was inside of. -/
structure Thinned (u t : Tree) (i : TabIndex) : Prop where
  sublist : (t.placeholdersOf i).Sublist (u.placeholdersOf i)
  placeholder?_eq {x : Handle} : x ∈ t.placeholdersOf i → t.placeholder? x = u.placeholder? x
  ancestors_eq {x : Handle} : x ∈ t.placeholdersOf i → t.ancestors x = u.ancestors x

theorem Thinned.trans (hu : Thinned u t i) (hv : Thinned v u i) : Thinned v t i where
  sublist := hu.sublist.trans hv.sublist
  placeholder?_eq hx := (hu.placeholder?_eq hx).trans (hv.placeholder?_eq (hu.sublist.subset hx))
  ancestors_eq hx := (hu.ancestors_eq hx).trans (hv.ancestors_eq (hu.sublist.subset hx))

theorem thinned_repeatAll (hu : u.Unrepeated) (hcapacity : u.capacity ≤ 2 ^ 32) (i : TabIndex) :
    Thinned u u.repeatAll i := by
  have hremains := (hu.repeatable hcapacity).remains_repeatAll.1
  have hkept {x : Handle} (hx : x ∈ u.repeatAll.placeholdersOf i) : Kept u u.repeatAll x :=
    hremains.kept_of_mem ((placeholdersOf_sublist _ i).subset hx)
  refine ⟨?_, fun hx => (hkept hx).placeholder?_eq, fun hx => (hkept hx).ancestors_eq⟩
  rw [(hu.repeatAll hcapacity).placeholdersOf_eq hu.wellLinked]
  exact List.filter_sublist

theorem WellLinked.thinned_insertFinal (hl : t.WellLinked) (hfinal : i.isFinal = false) :
    Thinned t t.insertFinal.2 i := by
  have hsame := (hl.insertFinal hfinal).1
  have hinUse {x : Handle} (hx : x ∈ t.insertFinal.2.placeholdersOf i) : t.InUse x :=
    hl.inUse_of_mem_placeholders ((placeholdersOf_sublist t i).subset (hsame ▸ hx))
  obtain ⟨-, heq⟩ | ⟨h, ha⟩ := hl.insertFinal_cases
  · rw [heq]
    exact ⟨.refl _, fun _ => rfl, fun _ => rfl⟩
  · exact ⟨hsame ▸ List.Sublist.refl _, fun hx => ha.placeholder?_eq (hinUse hx),
      fun hx => ha.ancestors_eq hl (hinUse hx)⟩

namespace Thinned

variable (ht : Thinned u t i)

include ht

theorem isPlain_eq (hx : x ∈ t.placeholdersOf i) : t.isPlain x = u.isPlain x := by
  rw [isPlain, isPlain, ht.placeholder?_eq hx]

theorem isPrimary_of_primary? (hp : t.primary? i = some p) :
    p ∈ t.placeholdersOf i ∧ u.isPrimary p := by
  have hmem := List.mem_of_find?_eq_some hp
  have hmarked : t.isPrimary p := List.find?_some hp
  rw [isPrimary, ht.placeholder?_eq hmem] at hmarked
  exact ⟨hmem, hmarked⟩

/-- A first choice that is left, and has a transform, is the first choice still. -/
theorem eq_of_firstChoice? (hl : u.WellLinked) (hp : u.firstChoice? i = some p)
    (hmem : p ∈ t.placeholdersOf i) (hplain : t.isPlain p = false)
    (hz : t.firstChoice? i = some z) : z = p := by
  -- Then all tab stops of the index have a transform, and the choice falls on the first one
  have hany := (firstChoice?_eq_some hp).2
  rw [ht.isPlain_eq hmem] at hplain
  have hnone : ∀ x ∈ u.placeholdersOf i, u.isPlain x = false := fun x hx => by
    by_contra hx'
    simp [hany ⟨x, hx, by simpa using hx'⟩] at hplain
  have hhead {w : Tree} (hw : ∀ x ∈ w.placeholdersOf i, w.isPlain x = false) :
      w.firstChoice? i = (w.placeholdersOf i).head? := by
    have hnil : (w.placeholdersOf i).filter w.isPlain = [] := by
      rw [List.filter_eq_nil_iff]
      intro x hx
      simp [hw x hx]
    simp [Tree.firstChoice?, pick, hnil]
  rw [hhead hnone] at hp
  rw [hhead fun x hx => (ht.isPlain_eq hx).trans (hnone x (ht.sublist.subset hx))] at hz
  have hnodup := hl.nodup_placeholdersOf i
  have hsub := ht.sublist
  obtain ⟨rest, hrest⟩ : ∃ rest, u.placeholdersOf i = p :: rest := List.head?_eq_some_iff.1 hp
  obtain ⟨rest', hrest'⟩ : ∃ rest', t.placeholdersOf i = z :: rest' := List.head?_eq_some_iff.1 hz
  rw [hrest, hrest'] at hsub
  rw [hrest', List.mem_cons] at hmem
  rw [hrest] at hnodup
  cases hsub with
  | cons _ hsub =>
    -- It would come after itself
    exact absurd (hsub.subset (List.mem_cons.2 hmem)) (List.nodup_cons.1 hnodup).1
  | cons_cons => rfl

end Thinned

/-! ## Snippets -/

theorem firstChoice?_assignPrimaries (t : Tree) (i : TabIndex) :
    t.assignPrimaries.firstChoice? i = t.firstChoice? i := by
  have hlinks := sameLinks_assignPrimaries t
  rw [firstChoice?, firstChoice?, placeholdersOf_assignPrimaries]
  refine pick_congr (fun x hx => ?_) fun x hx _ => ?_
  · rw [isPlain, isPlain, placeholder?_assignPrimaries]
    split
    · cases t.placeholder? x <;> rfl
    · rfl
  · rw [children, children, hlinks.owns_eq, hlinks.children]

/-- The primary tab stop of an index is not inside of the first choice by what is written, and if it
has a transform it is the first choice. -/
theorem firstChoice?_of_primary? (identity : Nat) (source : String) (final : Bool)
    (hcapacity : (ofSource identity .textMate source).capacity ≤ 2 ^ 32)
    (hfinal : i.isFinal = false)
    (hp : (ofSnippet identity .textMate source final).primary? i = some p)
    (hz : (ofSnippet identity .textMate source final).firstChoice? i = some z) :
    z ∉ (ofSnippet identity .textMate source final).ancestors p ∧
      ((ofSnippet identity .textMate source final).isPlain p ∨ z = p) := by
  have hu := unrepeated_ofSource identity .textMate source
  have hw := writable_assignPrimaries identity source
  have hthin : Thinned (ofSource identity .textMate source).assignPrimaries
      (ofSnippet identity .textMate source final) i := by
    have hrepeat := thinned_repeatAll hu ((capacity_assignPrimaries _).trans_le hcapacity) i
    cases final with
    | false => exact hrepeat
    | true =>
      have hl := (hu.repeatable ((capacity_assignPrimaries _).trans_le
        hcapacity)).remains_repeatAll.1.wellLinked
      exact (hl.thinned_insertFinal hfinal).trans hrepeat
  revert hthin hp hz
  generalize ofSnippet identity .textMate source final = t
  intro hp hz hthin
  obtain ⟨hmem, hprimary⟩ := hthin.isPrimary_of_primary? hp
  have hmemu := hthin.sublist.subset hmem
  rw [placeholdersOf_assignPrimaries] at hmemu
  have hfirst : (ofSource identity .textMate source).assignPrimaries.firstChoice? i = some p := by
    rw [firstChoice?_assignPrimaries]
    refine (isPrimary_assignPrimaries_iff hmemu hfinal fun h hh => ?_).1 hprimary
    exact isPrimary_ofSource identity .textMate source ((placeholdersOf_sublist _ i).subset hh)
  have hzmem := (firstChoice?_eq_some hz).1
  refine ⟨?_, ?_⟩
  · rw [hthin.ancestors_eq hmem]
    exact hw.not_above_firstChoice? hu.wellLinked hfirst (hthin.sublist.subset hzmem)
  -- A tab stop with a transform was the first choice only if there was no plain one
  · cases hplain : t.isPlain p with
    | true => exact Or.inl rfl
    | false => exact Or.inr (hthin.eq_of_firstChoice? hu.wellLinked hfirst hmem hplain hz)

end TabStop.Tree
