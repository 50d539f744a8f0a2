import TabStop.Proofs.Document.Dialect
import TabStop.Proofs.Canonical.Echoing
import TabStop.Proofs.Repeat.FinalStop
import TabStop.Proofs.Document.Positions
import TabStop.Proofs.Canonical.Returning

/-!
# What can be written can be written at any time

A document that comes from a source can be written in a way that is read as what is written. That
stays so when its tab stops are repeated: what is put into a tab stop is text, which any tab stop
may hold, and it is not empty.
-/

namespace TabStop

/-- What is read from a source can be written. -/
theorem Outline.Readable.writable {o : Outline} (ho : o.Readable .textMate) :
    o.Writable ∧ o.marker.choice? = none := by
  have hrow {cs : List Outline} (hcs : ∀ o ∈ cs, o.Writable ∧ o.marker.choice? = none) :
      ∀ m ∈ cs.map marker, m.choice? = none := by
    intro m hm
    obtain ⟨o, ho, rfl⟩ := List.mem_map.1 hm
    exact (hcs o ho).2
  -- A choice is read only as the one node inside a tab stop, so it never stands in a row
  induction ho with
  | text hs => exact ⟨.node (.text hs) (by simp), rfl⟩
  | placeholder hn _ _ ih => exact ⟨.node (.placeholder hn (hrow ih)) fun o ho => (ih o ho).1, rfl⟩
  | choice hn hfinal hne hos =>
    refine ⟨.node (.choice hn hfinal) fun o ho => ?_, rfl⟩
    rw [List.mem_singleton.1 ho]
    exact .node (.options hne hos) (by simp)
  | placeholderTransform hn ht =>
    exact ⟨.node (.placeholderTransform hn ht (by simp)) (by simp), rfl⟩
  | var hname haccepts _ _ ih =>
    exact ⟨.node (.var hname haccepts (hrow ih)) fun o ho => (ih o ho).1, rfl⟩
  | varTransform hname haccepts ht => exact ⟨.node (.varTransform hname haccepts ht) (by simp), rfl⟩
  | code hd => simp [Dialect.isUltiSnips] at hd

/-- What is read from a source, or is a part of that: the options of a choice are not read for
themselves. -/
inductive Outline.Element (d : Dialect) : Outline → Prop
  | readable {o : Outline} (ho : o.Readable d) : Element d o
  | options {os : List String} (hne : os ≠ []) (hos : ∀ o ∈ os, o ≠ "") :
      Element d (.node (.choice ⟨os⟩) [])

namespace Outline.Element

variable {d : Dialect} {o : Outline}

theorem children (ho : o.Element d) : ∀ c ∈ o.children, c.Element d := by
  intro c hc
  cases ho with
  | options => simp [Outline.children] at hc
  | readable ho =>
    cases ho with
    | placeholder _ hcs => exact .readable (hcs c hc)
    | var _ _ hcs => exact .readable (hcs c hc)
    | choice _ _ hne hos =>
      rw [List.mem_singleton.1 hc]
      exact .options hne hos
    | _ => simp [Outline.children] at hc

theorem writable (ho : o.Element .textMate) : o.Writable := by
  cases ho with
  | readable ho => exact ho.writable.1
  | options hne hos => exact .node (.options hne hos) (by simp)

/-- No tab stop is marked. -/
theorem unmarked (ho : o.Element d) : o.marker.placeholder?.any (·.primary) = false := by
  cases ho with
  | options => rfl
  | readable ho => cases ho <;> rfl

/-- There is nothing in what has a transform. -/
theorem children_of_transform (ho : o.Element d) (htransform : o.marker.transform?.isSome) :
    o.children = [] := by
  cases ho with
  | options => rfl
  | readable ho => cases ho <;> simp [Outline.marker, Marker.transform?] at htransform <;> rfl

end Outline.Element

namespace Tree

open Grammar

variable {t u v : Tree} {c h m p q x : Handle} {hs done : List Handle} {o : Outline}
  {os : List Outline} {i : TabIndex} {s : String}

/-! ## Documents that come from a source -/

/-- What is below a node shows what is below its outline. -/
theorem Shows.exists_of_walk {P : Outline → Prop} {fuel : Nat} (ho : t.Shows h o)
    (hP : ∀ o, P o → ∀ c ∈ o.children, P c) (hPo : P o) (hx : x ∈ t.walkFrom fuel h) :
    ∃ o', P o' ∧ t.Shows x o' := by
  induction fuel generalizing h o with
  | zero => simp [walkFrom] at hx
  | succ fuel ih =>
    rcases List.mem_cons.1 hx with rfl | hx
    · exact ⟨o, hPo, ho⟩
    · obtain ⟨k, cs⟩ := o
      obtain ⟨-, -, hall⟩ := ho
      obtain ⟨c, hc, hxc⟩ := List.mem_flatMap.1 hx
      obtain ⟨o, ho, hshows⟩ := hall.exists_of_mem hc
      exact ih hshows (hP _ hPo o ho) hxc

theorem Shows.admits (ho : t.Shows h o) (hw : o.Writable) :
    (t.slotOf h).marker.Admits (t.childMarkers h) := by
  obtain ⟨k, cs⟩ := o
  obtain ⟨-, hmarker, hall⟩ := ho
  rw [hmarker, childMarkers, ← hall.markers_eq_map]
  exact hw.admits

theorem exists_element (identity : Nat) (d : Dialect) (source : String)
    (hx : x ∈ (ofSource identity d source).descendants (ofSource identity d source).root) :
    ∃ o : Outline, o.Element d ∧ (ofSource identity d source).Shows x o := by
  obtain ⟨row, hrow, htells⟩ := readable_ofSource d source
  obtain ⟨-, -, hall⟩ := (shows_ofSource identity htells).1
  have hl := (grown_ofSource identity d source).1
  rw [hl.descendants_eq (Linked.root_inUse hl), List.mem_flatMap] at hx
  obtain ⟨c, hc, hx⟩ := hx
  obtain ⟨o, ho, hco⟩ := hall.exists_of_mem hc
  rw [walk, if_pos hco.owned] at hx
  exact hco.exists_of_walk (fun _ ho => ho.children) (.readable (hrow.readable o ho)) hx

theorem writable_ofSource (identity : Nat) (source : String) :
    (ofSource identity .textMate source).Writable := by
  obtain ⟨row, hrow, htells⟩ := readable_ofSource .textMate source
  obtain ⟨-, hroot, hall⟩ := (shows_ofSource identity htells).1
  refine ⟨ofSource_dialect .., hroot, fun m hm => ?_, fun x hx => ?_⟩
  · rw [childMarkers, ← hall.markers_eq_map] at hm
    obtain ⟨o, ho, rfl⟩ := List.mem_map.1 hm
    exact (hrow.readable o ho).writable.2
  · obtain ⟨o, ho, hshows⟩ := exists_element identity .textMate source hx
    exact hshows.admits ho.writable

theorem isPrimary_ofSource (identity : Nat) (d : Dialect) (source : String)
    (hx : x ∈ (ofSource identity d source).placeholders) :
    (ofSource identity d source).isPrimary x = false := by
  have hl := (grown_ofSource identity d source).1
  obtain ⟨o, ho, hshows⟩ := exists_element identity d source (List.mem_filter.1 hx).1
  rw [isPrimary, (hl.inUse_of_mem_placeholders hx).placeholder?_eq, hshows.marker_eq]
  exact ho.unmarked

/-- What has a transform is read with nothing in it. -/
theorem children_of_transform (identity : Nat) (d : Dialect) (source : String)
    (hx : x ∈ (ofSource identity d source).descendants (ofSource identity d source).root)
    (htransform : ((ofSource identity d source).slotOf x).marker.transform?.isSome) :
    ((ofSource identity d source).slotOf x).children = [] := by
  obtain ⟨o, ho, hshows⟩ := exists_element identity d source hx
  rw [hshows.marker_eq] at htransform
  exact hshows.children_eq_nil (ho.children_of_transform htransform)

/-! ## What makes no difference -/

/-- It makes no difference which tab stops are primary ones. -/
theorem Writable.sameLinks (hw : t.Writable) (hs : SameLinks t u) (hdialect : u.dialect = t.dialect)
    (hunmarked : ∀ x, (u.slotOf x).marker.unmarked = (t.slotOf x).marker.unmarked) :
    u.Writable := by
  have hchildren (x : Handle) :
      (u.childMarkers x).map Marker.unmarked = (t.childMarkers x).map Marker.unmarked := by
    rw [childMarkers, childMarkers, hs.children, List.map_map, List.map_map]
    exact List.map_congr_left fun c _ => hunmarked c
  -- Whether a node may be written does not depend on the mark of a primary tab stop
  refine ⟨hdialect.trans hw.dialect, ?_, fun k hk => ?_, fun x hx => ?_⟩
  · have hroot := hunmarked t.root
    rw [hw.root] at hroot
    rw [hs.root_eq]
    cases hm : (u.slotOf t.root).marker <;> simp [hm, Marker.unmarked] at hroot
    rfl
  · have hmem : k.unmarked ∈ (u.childMarkers u.root).map Marker.unmarked := List.mem_map_of_mem hk
    rw [hchildren, hs.root_eq] at hmem
    obtain ⟨k', hk', heq⟩ := List.mem_map.1 hmem
    rw [← Marker.choice?_unmarked, ← heq, Marker.choice?_unmarked]
    exact hw.top k' hk'
  · rw [descendants, hs.walk_eq, hs.root_eq] at hx
    exact (hw.admits x hx).congr (hunmarked x) (hchildren x)

/-! ## Text in a tab stop -/

/-- What is outside of a tab stop that comes to show a text was there before. -/
theorem Shown.outside (hs : Shown t m u) (hl : t.WellLinked) (hm : m ∈ t.placeholders)
    (hx : x ∈ u.walk u.root) : x ∈ u.walk m ∨ x ∈ t.walk t.root ∧ x ∉ t.walk m := by
  have hmu := hl.inUse_of_mem_placeholders hm
  have hmu' := hs.inUse hmu (Or.inl rfl)
  have hroot : u.root = t.root := by simp [Tree.root, hs.identity]
  refine hs.wellLinked.walk_induction (Linked.root_inUse hs.wellLinked)
    (P := fun x => x ∈ u.walk m ∨ x ∈ t.walk t.root ∧ x ∉ t.walk m) ?_ (fun p _ c hc ih => ?_) hx
  · rw [hroot]
    exact Or.inr ⟨hl.mem_walk_self (Linked.root_inUse hl), hl.root_not_mem_walk hm⟩
  · rcases ih with hp | ⟨hp, hout⟩
    · exact Or.inl (Linked.mem_walk_child hs.wellLinked hmu' (WellLinked.agreesBelow u m) hp hc)
    · have hpu := hl.mem_walk_root_inUse hp
      rw [hs.children hpu hout] at hc
      rcases hl.outside_child hmu hpu hout hc with rfl | hcout
      · exact Or.inl (hs.wellLinked.mem_walk_self hmu')
      · exact Or.inr ⟨hl.mem_walk_root_child hp hc, hcout⟩

/-- A tab stop comes to show a text. -/
theorem Writable.shown (hw : t.Writable) (hl : t.WellLinked) (hm : m ∈ t.placeholders)
    (hs : Shown t m u) (hflat : u.Flat m s) (hdialect : u.dialect = t.dialect) : u.Writable := by
  have hmu := hl.inUse_of_mem_placeholders hm
  have hmu' := hs.inUse hmu (Or.inl rfl)
  have hroot : u.root = t.root := by simp [Tree.root, hs.identity]
  have hrootu := Linked.root_inUse hl
  have hrootOut := hl.root_not_mem_walk hm
  -- A node outside of the tab stop is what it was, and holds what it held
  have hsame {x : Handle} (hx : t.InUse x) (hout : x ∉ t.walk m) :
      u.childMarkers x = t.childMarkers x := by
    rw [childMarkers, childMarkers, hs.children hx hout]
    exact List.map_congr_left fun c hc =>
      hs.marker (Linked.child hl hx hc).1 (hl.outside_child hmu hx hout hc)
  refine ⟨hdialect.trans hw.dialect, ?_, ?_, fun x hx => ?_⟩
  · rw [hroot, hs.marker hrootu (Or.inr hrootOut), hw.root]
  · rw [hroot, hsame hrootu hrootOut]
    exact hw.top
  · obtain ⟨hxu, habove⟩ := hs.wellLinked.mem_descendants_iff.1 hx
    have hmarkers : ∀ k ∈ u.childMarkers m, k.text?.isSome := by
      intro k hk
      obtain ⟨c, hc, rfl⟩ := List.mem_map.1 hk
      exact (hs.texts c hc).1
    rcases hs.outside hl hm (List.mem_of_mem_drop hx) with hin | ⟨hxt, hout⟩
    · rcases (hs.wellLinked.mem_walk_bare hmu' hs.texts).1 hin with rfl | hc
      · -- It may hold any text
        have hadmits := hw.admits x (List.mem_filter.1 hm).1
        obtain ⟨k, -, hk⟩ := hl.exists_placeholder hm
        rw [hs.marker hmu (Or.inl rfl), hk]
        rw [hk] at hadmits
        exact hadmits.overwritten hmarkers
      · -- The text is not empty
        rcases hflat with ⟨-, hnil⟩ | ⟨hne, d, hone, hmarker⟩
        · simp [hnil] at hc
        · obtain rfl : x = d := by simpa [hone] using hc
          rw [hmarker, childMarkers, (hs.texts x hc).2]
          exact .text hne
    · have hxtu := hl.mem_walk_root_inUse hxt
      rw [hs.marker hxtu (Or.inr hout), hsame hxtu hout]
      refine hw.admits x (hl.mem_descendants_iff.2 ⟨hxtu, ?_⟩)
      rwa [← (hs.kept hl hmu hxtu (Or.inr hout)).ancestors_eq, ← hroot]

/-- A node that stands alone is not written. -/
theorem Writable.grown (hw : t.Writable) (hl : t.WellLinked) (hg : Grown t u)
    (hdialect : u.dialect = t.dialect) : u.Writable := by
  have hroot : u.root = t.root := by simp [Tree.root, hg.extended.identity]
  have hrootu := Linked.root_inUse hl
  have hmarkers {x : Handle} (hx : t.InUse x) : u.childMarkers x = t.childMarkers x := by
    rw [childMarkers, childMarkers, hg.kept x hx]
    exact List.map_congr_left fun c hc => by rw [hg.kept c (Linked.child hl hx hc).1]
  refine ⟨hdialect.trans hw.dialect, ?_, ?_, fun x hx => ?_⟩
  · rw [hroot, hg.kept _ hrootu, hw.root]
  · rw [hroot, hmarkers hrootu]
    exact hw.top
  · rw [descendants, hroot, hg.walk_eq hl hrootu] at hx
    have hxu := (hl.mem_descendants_iff.1 hx).1
    rw [hg.kept x hxu, hmarkers hxu]
    exact hw.admits x hx

/-! ## Repeating -/

theorem TextLeaves.shown (hleaves : t.TextLeaves) (hl : t.WellLinked) (hm : m ∈ t.placeholders)
    (hs : Shown t m u) : u.TextLeaves := by
  have hmu := hl.inUse_of_mem_placeholders hm
  intro x hx htext
  rcases hs.outside hl hm hx with hin | ⟨hxt, hout⟩
  · rcases (hs.wellLinked.mem_walk_bare (hs.inUse hmu (Or.inl rfl)) hs.texts).1 hin with rfl | hc
    · -- It is a tab stop and no text
      rw [hs.marker hmu (Or.inl rfl), (hl.mem_walk_root_of_placeholder hm).2] at htext
      simp at htext
    · exact (hs.texts x hc).2
  · have hxu := hl.mem_walk_root_inUse hxt
    rw [hs.marker hxu (Or.inr hout)] at htext
    rw [hs.children hxu hout]
    exact hleaves x hxt htext

theorem TextLeaves.grown (hleaves : t.TextLeaves) (hl : t.WellLinked) (hg : Grown t u) :
    u.TextLeaves := by
  have hroot : u.root = t.root := by simp [Tree.root, hg.extended.identity]
  intro x hx htext
  rw [hroot, hg.walk_eq hl (Linked.root_inUse hl)] at hx
  rw [hg.kept x (hl.mem_walk_root_inUse hx)] at htext ⊢
  exact hleaves x hx htext

/-- If text has nothing below it, then a tab stop can come to show a text without losing anything else
than what is in it. -/
theorem TextLeaves.shown_showText (hleaves : t.TextLeaves) (hl : t.WellLinked)
    (hm : m ∈ t.placeholders) (s : String) : Shown t m (t.showText m s).2 := by
  refine Tree.shown_showText hl (hl.inUse_of_mem_placeholders hm) (fun c hc htext => ?_) s
  exact hleaves c (hl.mem_walk_root_child (hl.mem_walk_root_of_placeholder hm).1 hc) htext

theorem TextLeaves.turn (hleaves : t.TextLeaves) (ht : t.Repeatable) (hp : p ∈ t.leaders) :
    (t.turn p).TextLeaves :=
  ht.turn_induction hp hleaves
    (fun r hu hm hleaves => hleaves.shown hu hm (hleaves.shown_showText hu hm r))
    (fun hu _ _ hleaves => hleaves.grown hu ((Linked.allocated hu _).grown hu))

theorem TextLeaves.repeatAll (hleaves : t.TextLeaves) (ht : t.Repeatable) :
    t.repeatAll.TextLeaves :=
  ht.repeatAll_induction hleaves fun _ hu hp hleaves => hleaves.turn hu hp

theorem TextLeaves.assignPrimaries (hleaves : t.TextLeaves) : t.assignPrimaries.TextLeaves := by
  have hlinks := sameLinks_assignPrimaries t
  intro x hx htext
  rw [hlinks.walk_eq, hlinks.root_eq] at hx
  rw [text?_assignPrimaries] at htext
  rw [hlinks.children]
  exact hleaves x hx htext

/-- A tab stop that shows a text has nothing else in it. -/
theorem TextLeaves.bare (hleaves : t.TextLeaves) (hl : t.WellLinked) (hm : m ∈ t.placeholders)
    (hflat : t.Flat m s) : t.Bare m := fun c hc => by
  have hwalk := (hl.mem_walk_root_of_placeholder hm).1
  exact ⟨hflat.text hc, hleaves c (hl.mem_walk_root_child hwalk hc) (hflat.text hc)⟩

/-- If text has nothing below it, then the first pass makes the document calm. -/
theorem TextLeaves.calm_repeatPass (hleaves : t.TextLeaves) (ht : t.Repeatable) :
    t.repeatPass.2.Calm := by
  have hleaves : t.repeatPass.2.TextLeaves :=
    (ht.pass_induction (P := fun _ u => u.TextLeaves) hleaves (fun _ _ hu => hu)
      fun _ hu hp hleaves => hleaves.turn hu hp).2
  intro p hp m hf
  obtain ⟨s, hflat⟩ := ht.flat_repeatPass hp hf
  exact hleaves.bare ht.remains_repeatPass.wellLinked hf.mem hflat

/-- Then tab stops can be kept up to date after the first pass. -/
theorem TextLeaves.steady_repeatAll (hleaves : t.TextLeaves) (ht : t.Repeatable) :
    t.repeatAll.Steady ∧ t.repeatAll.UpToDate :=
  (ht.steady_repeatAll (hleaves.calm_repeatPass ht)).2

theorem Writable.turn (hw : t.Writable) (ht : t.Repeatable) (hp : p ∈ t.leaders) :
    (t.turn p).Writable :=
  ht.turn_induction hp hw
    (fun r hu hm hw => hw.shown hu hm ((hw.textLeaves hu).shown_showText hu hm r)
      (wrote_showText hu (hu.inUse_of_mem_placeholders hm) r).flat (dialect_showText ..))
    (fun hu _ _ hw => hw.grown hu ((Linked.allocated hu _).grown hu) (dialect_alloc ..))

theorem Writable.repeatAll (hw : t.Writable) (ht : t.Repeatable) : t.repeatAll.Writable :=
  ht.repeatAll_induction hw fun _ hu hp hw => hw.turn hu hp

/-! ## The final tab stop -/

/-- There is a final tab stop, or one is added at the end. -/
theorem WellLinked.insertFinal_cases (hl : t.WellLinked) :
    t.placeholders.any t.isFinal ∧ t.insertFinal.2 = t ∨
      ∃ h, Appended t (.placeholder { index := .final, primary := true }) h t.insertFinal.2 := by
  obtain ⟨h, u, hperform, ha⟩ := hl.appendNew (.placeholder { index := .final, primary := true })
  unfold Tree.insertFinal
  split
  · next hany => exact Or.inl ⟨hany, rfl⟩
  · simp only [hperform]
    exact Or.inr ⟨h, ha⟩

theorem Writable.insertFinal (hw : t.Writable) (hl : t.WellLinked) : t.insertFinal.2.Writable := by
  have hdialect := dialect_insertFinal t
  obtain ⟨-, heq⟩ | ⟨h, ha⟩ := hl.insertFinal_cases
  · rwa [heq]
  generalize t.insertFinal.2 = u at hdialect ha
  have hrootu := Linked.root_inUse hl
  have hold (x : Handle) (hx : t.InUse x) :
      (t.slotOf x).children.map (fun c => (u.slotOf c).marker) = t.childMarkers x :=
    List.map_congr_left fun c hc => ha.marker (Linked.child hl hx hc).1
  refine ⟨hdialect.trans hw.dialect, ?_, fun k hk => ?_, fun x hx => ?_⟩
  · rw [ha.root_eq, ha.marker hrootu, hw.root]
  · rw [ha.root_eq, childMarkers, ha.children hrootu, if_pos rfl, List.map_append, hold _ hrootu,
      List.mem_append] at hk
    rcases hk with hk | hk
    · exact hw.top k hk
    · rw [List.map_singleton, List.mem_singleton, ha.marker_new] at hk
      rw [hk]
      rfl
  · rw [ha.descendants_eq hl, List.mem_append, List.mem_singleton] at hx
    -- A node that was there is as it was, and the new one is an empty tab stop
    rcases hx with hx | rfl
    · obtain ⟨hxu, habove⟩ := hl.mem_descendants_iff.1 hx
      have hne : x ≠ t.root := by
        rintro rfl
        simp [hl.ancestors_root] at habove
      rw [ha.marker hxu, childMarkers, ha.children hxu, if_neg hne, hold x hxu]
      exact hw.admits x hx
    · rw [ha.marker_new, childMarkers, ha.children_new]
      exact .placeholder (n := 0) (by decide) (by simp)

end Tree

end TabStop
