import TabStop.Proofs.Canonical.Reproducing

/-!
# When what is written is written again

What is written of a snippet is read as a document that is written in the same way. When the tab
stops of that document have been repeated, it is still written so, if no node has been lost: a tab
stop that repeats another one and has no transform has shown the same text before.
-/

namespace TabStop

/-! ## Outlines that are written alike -/

namespace Outline

/-- Two outlines that are written in the same way, wherever they stand. -/
structure WrittenAlike (o o' : Outline) : Prop where
  source (digitFollows : Bool) : o.source .textMate digitFollows = o'.source .textMate digitFollows
  startsWithDigit : o.startsWithDigit = o'.startsWithDigit
  choice? : o.marker.choice? = o'.marker.choice?

variable {o o' : Outline} {os os' cs cs' : List Outline} {m m' : Marker} {p : Placeholder}

theorem source_unmarked (m : Marker) (cs : List Outline) (digitFollows : Bool) :
    (node m.unmarked cs).source .textMate digitFollows =
      (node m cs).source .textMate digitFollows := by
  cases m <;> rfl

theorem sourceAll_congr (hos : List.Forall₂ WrittenAlike os os') :
    sourceAll .textMate os = sourceAll .textMate os' ∧
      (os.findSome? fun c => c.marker.choice?) = (os'.findSome? fun c => c.marker.choice?) ∧
      os.isEmpty = os'.isEmpty := by
  induction hos with
  | nil => exact ⟨rfl, rfl, rfl⟩
  | @cons o o' os os' ho hos ih =>
    have hdigit : os.head?.any startsWithDigit = os'.head?.any startsWithDigit := by
      cases hos with
      | nil => rfl
      | cons h _ => simpa using h.startsWithDigit
    refine ⟨?_, ?_, rfl⟩
    · rw [sourceAll, sourceAll, hdigit, ho.source, ih.1]
    · rw [List.findSome?_cons, List.findSome?_cons, ho.choice?, ih.2.1]

theorem WrittenAlike.of_unmarked (hm : m'.unmarked = m.unmarked)
    (hsource : ∀ digitFollows, (node m.unmarked cs).source .textMate digitFollows =
      (node m.unmarked cs').source .textMate digitFollows) :
    WrittenAlike (node m cs) (node m' cs') := by
  refine ⟨fun digitFollows => ?_, ?_, ?_⟩
  · rw [← source_unmarked, ← source_unmarked m', hm, hsource]
  · have htext : m'.text? = m.text? := by
      rw [← Marker.text?_unmarked, hm, Marker.text?_unmarked]
    simp only [Outline.startsWithDigit, marker, htext]
  · show m.choice? = m'.choice?
    rw [← Marker.choice?_unmarked m', hm, Marker.choice?_unmarked]

/-- A node is written alike if what is below it is. -/
theorem WrittenAlike.node (hm : m'.unmarked = m.unmarked) (hcs : List.Forall₂ WrittenAlike cs cs') :
    WrittenAlike (node m cs) (node m' cs') := by
  obtain ⟨hsource, hchoice, hempty⟩ := sourceAll_congr hcs
  refine .of_unmarked hm fun digitFollows => ?_
  cases m <;>
    simp [Marker.unmarked, Outline.source, placeholderContent, content, hsource, hchoice, hempty]

/-- What is below a node with a transform is not written. -/
theorem WrittenAlike.transform (hm : m'.unmarked = m.unmarked) (htransform : m.transform?.isSome) :
    WrittenAlike (Outline.node m cs) (Outline.node m' cs') := by
  refine .of_unmarked hm fun digitFollows => ?_
  cases m <;> simp [Marker.transform?] at htransform
  · next p =>
    obtain ⟨tr, htr⟩ := Option.isSome_iff_exists.1 htransform
    simp [Marker.unmarked, Outline.source, placeholderContent, content, htr]
  · next v =>
    obtain ⟨tr, htr⟩ := Option.isSome_iff_exists.1 htransform
    simp [Marker.unmarked, Outline.source, content, htr]

/-- A row of nothing but text is written as the text. -/
theorem sourceAll_texts (hos : ∀ o ∈ os, o.marker.text?.isSome) :
    sourceAll .textMate os = escapeText .textMate (weave os []) ∧
      (os.findSome? fun c => c.marker.choice?) = none := by
  induction os with
  | nil => exact ⟨rfl, rfl⟩
  | cons o os ih =>
    obtain ⟨ho, hos⟩ := List.forall_mem_cons.1 hos
    obtain ⟨hsource, hchoice⟩ := ih hos
    obtain ⟨m, cs⟩ := o
    cases m <;> simp [marker, Marker.text?] at ho
    refine ⟨?_, ?_⟩
    · rw [sourceAll, hsource, weave]
      simp [Outline.source, marker, Marker.text?, escapeText_append]
    · rw [List.findSome?_cons, hchoice]
      rfl

theorem isEmpty_eq_weave (hos : ∀ o ∈ os, ∃ s, s ≠ "" ∧ o.marker.text? = some s) :
    os.isEmpty = (weave os []).isEmpty := by
  cases os with
  | nil => rfl
  | cons o os =>
    obtain ⟨s, hne, hs⟩ := hos o (List.mem_cons_self ..)
    simp [weave, hs, String.append_eq_empty_iff, hne]

/-- Tab stops with nothing but text in them are written alike if they show the same text. -/
theorem WrittenAlike.texts (hm : m'.unmarked = m.unmarked)
    (hcs : ∀ c ∈ cs, ∃ s, s ≠ "" ∧ c.marker.text? = some s)
    (hcs' : ∀ c ∈ cs', ∃ s, s ≠ "" ∧ c.marker.text? = some s)
    (hweave : weave cs [] = weave cs' []) :
    WrittenAlike (Outline.node m cs) (Outline.node m' cs') := by
  have hsome {cs : List Outline} (h : ∀ c ∈ cs, ∃ s, s ≠ "" ∧ c.marker.text? = some s) :
      ∀ c ∈ cs, c.marker.text?.isSome := fun c hc => by
    obtain ⟨s, -, hs⟩ := h c hc
    rw [hs]
    rfl
  obtain ⟨hsource, hchoice⟩ := sourceAll_texts (hsome hcs)
  obtain ⟨hsource', hchoice'⟩ := sourceAll_texts (hsome hcs')
  have hempty : cs.isEmpty = cs'.isEmpty := by
    rw [isEmpty_eq_weave hcs, isEmpty_eq_weave hcs', hweave]
  refine .of_unmarked hm fun digitFollows => ?_
  cases m <;> simp [Marker.unmarked, Outline.source, placeholderContent, content, hsource, hchoice,
    hsource', hchoice', hempty, hweave]

end Outline

namespace Tree

open TabStop.Outline (WrittenAlike)

variable {t u v : Tree} {c h m p q x y : Handle} {hs : List Handle} {i : TabIndex} {o o' : Outline}
  {os os' : List Outline} {ps : List (Handle × Handle)}

/-! ## Trees that are written alike -/

theorem ShowsAll.writtenAlike (hos : t.ShowsAll hs os) (hos' : u.ShowsAll hs os')
    (hall : ∀ h ∈ hs, ∀ o o', t.Shows h o → u.Shows h o' → WrittenAlike o o') :
    List.Forall₂ WrittenAlike os os' := by
  replace hos := hos.forall₂
  replace hos' := hos'.forall₂
  induction hos generalizing os' with
  | nil =>
    cases hos'
    exact .nil
  | cons ho _ ih =>
    cases hos' with
    | cons ho' hrest' =>
      obtain ⟨hh, hhs⟩ := List.forall_mem_cons.1 hall
      exact .cons (hh _ _ ho ho') (ih hhs hrest')

/-- A tree is written as the outline that its root shows. -/
theorem WellLinked.exists_source (hl : t.WellLinked) :
    ∃ o, t.Shows t.root o ∧ t.source = o.source t.dialect false := by
  have hroot := Linked.root_inUse hl
  obtain ⟨o, ho, hsize, -⟩ := hl.exists_shows hroot
  exact ⟨o, ho, ho.source_eq (hsize ▸ hl.length_walk_le hroot)⟩

/-- What two trees have in the same places is written alike, down to nodes that are known to be. -/
theorem WellLinked.writtenAlike (hl : t.WellLinked) {P : Handle → Prop}
    (hstep : ∀ x, t.InUse x → P x →
      ((u.slotOf x).marker.unmarked = (t.slotOf x).marker.unmarked ∧
        (u.slotOf x).children = (t.slotOf x).children ∧ ∀ c ∈ (t.slotOf x).children, P c) ∨
      ∀ o o', t.Shows x o → u.Shows x o' → WrittenAlike o o') (hx : t.InUse x) (hP : P x) :
    ∀ o o', t.Shows x o → u.Shows x o' → WrittenAlike o o' := by
  revert hP
  refine hl.induction_below (P := fun x => P x → ∀ o o', t.Shows x o → u.Shows x o' →
    WrittenAlike o o') (fun x hx ih hP => ?_) hx
  rcases hstep x hx hP with ⟨hmarker, hchildren, hbelow⟩ | hknown
  · rintro ⟨k, os⟩ ⟨k', os'⟩ ⟨-, rfl, hos⟩ ⟨-, rfl, hos'⟩
    rw [hchildren] at hos'
    exact .node hmarker (hos.writtenAlike hos' fun c hc => ih c hc (hbelow c hc))
  · exact hknown

theorem WellLinked.source_congr (hl : t.WellLinked) (hu : u.WellLinked) (hroot : u.root = t.root)
    (ht : t.dialect = .textMate) (hdialect : u.dialect = .textMate) {P : Handle → Prop}
    (hstep : ∀ x, t.InUse x → P x →
      ((u.slotOf x).marker.unmarked = (t.slotOf x).marker.unmarked ∧
        (u.slotOf x).children = (t.slotOf x).children ∧ ∀ c ∈ (t.slotOf x).children, P c) ∨
      ∀ o o', t.Shows x o → u.Shows x o' → WrittenAlike o o') (hP : P t.root) :
    u.source = t.source := by
  obtain ⟨o, ho, hsource⟩ := hl.exists_source
  obtain ⟨o', ho', hsource'⟩ := hu.exists_source
  rw [hroot] at ho'
  rw [hsource, hsource', ht, hdialect]
  exact ((hl.writtenAlike hstep (Linked.root_inUse hl) hP o o' ho ho').source false).symm

theorem WellLinked.source_assignPrimaries (hl : t.WellLinked) (hd : t.dialect = .textMate) :
    t.assignPrimaries.source = t.source := by
  have hlinks := sameLinks_assignPrimaries t
  refine hl.source_congr (hlinks.wellLinked hl) hlinks.root_eq hd (by simpa using hd)
    (P := fun _ => True) (fun x _ _ => Or.inl ?_) trivial
  exact ⟨unmarked_assignPrimaries t x, hlinks.children x, fun _ _ => trivial⟩

/-! ## What is repeated is written alike -/

/-- What a node shows that has nothing but text in it. -/
theorem ShowsAll.weave_eq_render (hos : t.ShowsAll (t.slotOf h).children os) (hl : t.WellLinked)
    (hh : t.InUse h) (hown : (t.slotOf h).marker.ownText? = none) (hbare : t.Bare h) :
    Outline.weave os [] = t.render h := by
  have hnil : (t.slotOf h).children.filter t.isNode = [] := by
    rw [List.filter_eq_nil_iff]
    intro c hc
    simpa [isNode, Option.isSome_iff_ne_none] using (hbare c hc).1
  rw [hl.render_eq_spell hh hown, spell, hos.join_eq_weave, hnil]
  rfl

/-- The text in a tab stop of a document that can be written is not empty. -/
theorem Writable.texts (hw : t.Writable) (hl : t.WellLinked) (hh : h ∈ t.walk t.root)
    (hbare : t.Bare h) (hos : t.ShowsAll (t.slotOf h).children os) :
    ∀ o ∈ os, ∃ s, s ≠ "" ∧ o.marker.text? = some s := by
  intro o ho
  have hmem : o.marker ∈ os.map Outline.marker := List.mem_map_of_mem ho
  rw [hos.markers_eq_map, List.mem_map] at hmem
  obtain ⟨c, hc, heq⟩ := hmem
  have hhu := hl.mem_walk_root_inUse hh
  have hcd : c ∈ t.descendants t.root := by
    rw [hl.mem_descendants_iff, Linked.ancestors_child hl hhu hc]
    refine ⟨(Linked.child hl hhu hc).1, ?_⟩
    have habove := ((hl.mem_walk_iff (Linked.root_inUse hl)).1 hh).2
    exact isAncestorOrSelf_iff.1 habove
  have hadmits := hw.admits c hcd
  have htext := (hbare c hc).1
  rw [heq] at hadmits htext
  generalize o.marker = k at hadmits htext
  generalize t.childMarkers c = ks at hadmits
  -- A text that may be written is not empty
  cases hadmits <;> simp [Marker.text?] at htext
  next s hs => exact ⟨s, hs, rfl⟩

namespace Recovers

variable (hr : Recovers t v ps)

include hr

/-- What follows a primary tab stop now has nothing but text in it. -/
theorem bare_of_follows (hchosen : t.Rechoosable t.Bare) (hq : q ∈ v.leaders)
    (hf : v.Follows m q) : v.Bare m := by
  obtain ⟨x, hxm, -⟩ := hr.exists_left_of_placeholder hf.mem
  rw [hr.bare_iff hr.before hr.after hr.leaves (fun _ => hr.unrepeated.text) hxm]
  exact (hr.follows_or hchosen hq hf hxm).elim
    (fun ⟨p, hp, hfp⟩ => hr.steady.calm p hp x hfp) id

/-- What repeats a primary tab stop is written as it was. -/
theorem writtenAlike_of_follows (hchosen : t.Rechoosable t.Bare) (hw : v.Writable)
    (hw' : v.repeatAll.Writable) (hq : q ∈ v.leaders) (hf : v.Follows y q) :
    ∀ o o', v.Shows y o → v.repeatAll.Shows y o' → WrittenAlike o o' := by
  rintro ⟨k, os⟩ ⟨k', os'⟩ ⟨-, hk, hos⟩ ⟨-, hk', hos'⟩
  have hclear := hr.clear_of_placeholder hf.mem
  have hbelow := isBelow_eq_false hclear
  have hwalk := (hr.after.mem_walk_root_of_placeholder hf.mem).1
  have hyu := hr.after.inUse_of_mem_placeholders hf.mem
  have hyu' := hr.cleared.inUse hwalk hbelow
  have hmarker : k' = k := by rw [← hk, ← hk', hr.cleared.marker hwalk hbelow]
  subst hmarker
  cases htransform : k'.transform? with
  | some tr => exact .transform rfl (by simp [htransform])
  | none =>
    obtain ⟨x, hxy, hx⟩ := hr.exists_left_of_placeholder hf.mem
    have hbare := hr.bare_of_follows hchosen hq hf
    obtain ⟨hsteady, -⟩ := hr.unrepeated.steady_repeatAll hr.capacity
    obtain ⟨hq', hf'⟩ := hr.follows_repeatAll hq hf
    have hbare' := hsteady.calm q hq' y hf'
    have hwalk' := (hsteady.wellLinked.mem_walk_root_of_placeholder hf'.mem).1
    have hxtransform : (t.slotOf x).marker.transform? = none := by
      rw [← Marker.transform?_unmarked, ← hr.unmarked hxy, Marker.transform?_unmarked, hk,
        htransform]
    -- It shows the text that the document has shown, before and after
    have hrender : v.render y = t.render x := by
      rw [hr.after.render_eq_spell hyu (hr.after.ownText?_of_placeholder hf.mem),
        hr.before.render_eq_spell (hr.before.inUse_of_mem_placeholders hx)
          (hr.before.ownText?_of_placeholder hx)]
      refine (hr.spell hxy hxtransform fun c d hcd _ hd => ?_).symm
      have hnode := (List.mem_filter.1 (hr.mem_right hcd)).2
      rw [isNode, Option.isNone_iff_eq_none] at hnode
      simpa [hnode] using (hbare d hd).1
    refine .texts rfl (hw.texts hr.after hwalk hbare hos)
      (hw'.texts hsteady.wellLinked hwalk' hbare' hos') ?_
    rw [hos.weave_eq_render hr.after hyu (hr.after.ownText?_of_placeholder hf.mem) hbare,
      hos'.weave_eq_render hsteady.wellLinked hyu'
        (hsteady.wellLinked.ownText?_of_placeholder hf'.mem) hbare', hrender,
      hr.render_right hxy hclear]

/-- When the tab stops have been repeated, the document is written as it was. -/
theorem source_repeatAll (hchosen : t.Rechoosable t.Bare) (hw : v.Writable)
    (hw' : v.repeatAll.Writable) : v.repeatAll.source = v.source := by
  refine hr.after.source_congr hr.cleared.wellLinked hr.cleared.root_eq hw.dialect hw'.dialect
    (P := fun y => y ∈ v.walk v.root ∧ ∀ m ∈ v.ancestors y, ∀ q ∈ v.leaders, ¬ v.Follows m q)
    (fun y hyu hy => ?_)
    ⟨hr.after.mem_walk_self (Linked.root_inUse hr.after), by simp [hr.after.ancestors_root]⟩
  obtain ⟨hwalk, hclear⟩ := hy
  -- A node below none that is overwritten is as it was, and one that is overwritten is written
  -- alike
  by_cases hfollows : ∃ q ∈ v.leaders, v.Follows y q
  · obtain ⟨q, hq, hf⟩ := hfollows
    exact Or.inr (hr.writtenAlike_of_follows hchosen hw hw' hq hf)
  · have hbelow := isBelow_eq_false hclear
    have hnot : y ∉ v.overwritten := fun hmem => hfollows (exists_follows_of_overwritten hmem)
    refine Or.inl ⟨by rw [hr.cleared.marker hwalk hbelow], hr.cleared.children hwalk hbelow hnot,
      fun c hc => ⟨hr.after.mem_walk_root_child hwalk hc, fun m hm q hq hf => ?_⟩⟩
    rw [Linked.ancestors_child hr.after hyu hc] at hm
    rcases List.mem_cons.1 hm with rfl | hm
    · exact hfollows ⟨q, hq, hf⟩
    · exact hclear m hm q hq hf

/-- A final tab stop is there still. -/
theorem any_isFinal (hfinal : t.placeholders.any t.isFinal) :
    v.repeatAll.placeholders.any v.repeatAll.isFinal := by
  obtain ⟨x, hx, hxfinal⟩ := List.any_eq_true.1 hfinal
  obtain ⟨y, hxy⟩ := hr.exists_right (hr.before.mem_nodes_of_placeholder hx)
  obtain ⟨i, hi⟩ := exists_index?_of_mem hx
  have hy : y ∈ v.placeholders :=
    (mem_placeholdersOf_iff.1 ((hr.mem_placeholdersOf_iff hr.before hr.after hxy).2
      (mem_placeholdersOf_iff.2 ⟨hx, hi⟩))).1
  refine List.any_eq_true.2 ⟨y, hr.placeholders_repeatAll ▸ hy, ?_⟩
  rw [(hr.kept hy).isFinal_eq, isFinal, hr.index_eq hxy]
  exact hxfinal

end Recovers

/-! ## Snippets -/

theorem WellLinked.any_isFinal_insertFinal (hl : t.WellLinked) :
    t.insertFinal.2.placeholders.any t.insertFinal.2.isFinal := by
  obtain ⟨hany, heq⟩ | ⟨h, ha⟩ := hl.insertFinal_cases
  · rwa [heq]
  · refine List.any_eq_true.2 ⟨h, by simp [ha.placeholders_eq hl], ?_⟩
    rw [isFinal, ha.index?_new]
    rfl

/-- What is written of a snippet is read as a snippet that is written in the same way, if no indexes
of the snippet hold each other in a circle, and if the same primary tab stops are chosen again,
unless there is nothing but text in all tab stops of the index. A tree never has more slots than the
numbers of 32 bits can tell apart. -/
theorem source_ofSnippet_source (identity : Nat) (source : String) (final : Bool)
    (hcapacity : (ofSource identity .textMate source).capacity < 2 ^ 32)
    (hacyclic : ∀ i, ¬ Relation.TransGen (ofSnippet identity .textMate source final).Holds i i)
    (hchosen : (ofSnippet identity .textMate source final).Rechoosable
      (ofSnippet identity .textMate source final).Bare) (identity' : Nat)
    (hcapacity' : (ofSource identity' .textMate
      (ofSnippet identity .textMate source final).source).capacity ≤ 2 ^ 32) :
    (ofSnippet identity' .textMate (ofSnippet identity .textMate source final).source
        final).source =
      (ofSnippet identity .textMate source final).source := by
  obtain ⟨ht, htold⟩ := steady_ofSnippet identity .textMate source final hcapacity
  obtain ⟨hw, hc⟩ := writable_ofSnippet identity source final hcapacity.le
  have hfinal : final = true → (ofSnippet identity .textMate source final).placeholders.any
      (ofSnippet identity .textMate source final).isFinal := by
    rintro rfl
    have hu := unrepeated_ofSource identity .textMate source
    have hrepeatable := hu.repeatable ((capacity_assignPrimaries _).trans_le hcapacity.le)
    exact hrepeatable.remains_repeatAll.1.wellLinked.any_isFinal_insertFinal
  revert ht htold hw hc hfinal hacyclic hchosen hcapacity'
  generalize ofSnippet identity .textMate source final = t
  intro hacyclic hchosen hcapacity' ht htold hw hc hfinal
  have hl := ht.wellLinked
  have hleg : t.Legible := ⟨hc, hchosen.solitary hl⟩
  obtain ⟨ps, hr⟩ := ht.recovers htold hw hacyclic hleg identity' hcapacity'
  have hwritable := writable_assignPrimaries identity' t.source
  -- What is written is read, gets its primaries and is repeated, and none of this changes the
  -- source
  have hsource : (ofSource identity' .textMate t.source).settle.source = t.source := by
    have hread := (hw.returns hl identity').1
    rw [settle, hr.source_repeatAll hchosen hwritable (hwritable.repeatAll hr.repeatable),
      WellLinked.source_assignPrimaries (grown_ofSource identity' .textMate t.source).1
        (ofSource_dialect ..), hread]
  cases final with
  | false => exact hsource
  | true =>
    -- A final tab stop that was inserted is read back, so none is inserted again
    have hany := hr.any_isFinal (hfinal rfl)
    rw [ofSnippet, if_pos rfl, insertFinal, settle, if_pos hany]
    exact hsource

end Tree

end TabStop
