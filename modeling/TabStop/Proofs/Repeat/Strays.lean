import TabStop.Proofs.Repeat.FirstPass
import TabStop.Proofs.Canonical.FirstChoice

/-!
# What goes astray when tab stops are repeated

A tab stop may be inside of another one that has the same index. When that one comes to show the
text of the primary tab stop, the inner one is lost, though it is still to be come to in that turn. A
text is made for it then, and stands alone. Nothing else goes astray.
-/

namespace TabStop.Tree

variable {t u v : Tree} {h m n p x : Handle} {i : TabIndex} {s : String}

/-! ## Nodes outside of the document -/

/-- A node in use that is not in the document: the way up from it does not come to the root. -/
structure Astray (t : Tree) (x : Handle) : Prop where
  inUse : t.InUse x
  outside : t.root ∉ x :: t.ancestors x

/-- A text that stands alone. -/
structure LeftOver (t : Tree) (x : Handle) : Prop where
  text : (t.slotOf x).marker.text?.isSome
  parent : (t.slotOf x).parent = none
  children : (t.slotOf x).children = []

/-- What has gone astray stays so, and what is new there is text that is left over. -/
structure Strays (t u : Tree) : Prop where
  stays {x : Handle} : t.Astray x → u.Astray x
  leftOver {x : Handle} : t.Astray x → t.LeftOver x → u.LeftOver x
  fresh {x : Handle} : u.Astray x → t.Astray x ∨ u.LeftOver x

namespace Strays

theorem refl (t : Tree) : Strays t t := ⟨id, fun _ => id, Or.inl⟩

theorem trans (hu : Strays t u) (hv : Strays u v) : Strays t v where
  stays hx := hv.stays (hu.stays hx)
  leftOver hx hleft := hv.leftOver (hu.stays hx) (hu.leftOver hx hleft)
  fresh hx := (hv.fresh hx).elim (fun hx => (hu.fresh hx).imp_right (hv.leftOver hx)) Or.inr

end Strays

theorem WellLinked.isAttached_or_astray (hl : t.WellLinked) (hx : t.InUse x) :
    t.isAttached x ∨ t.Astray x :=
  Decidable.or_iff_not_imp_left.2 fun hnot =>
    ⟨hx, fun habove => hnot (hl.isAttached_iff_above.2 ⟨hx, habove⟩)⟩

theorem Astray.not_isAttached (ha : t.Astray x) (hl : t.WellLinked) : ¬ t.isAttached x :=
  fun hx => ha.outside (hl.isAttached_iff_above.1 hx).2

/-- What has gone astray is not inside of a tab stop of the document. -/
theorem Astray.not_mem_walk (ha : t.Astray x) (hl : t.WellLinked) (hm : m ∈ t.placeholders) :
    x ∉ t.walk m := by
  obtain ⟨hmu, -, habove⟩ := hl.mem_placeholders_iff.1 hm
  intro hmem
  have hmx := ((hl.mem_walk_iff hmu).1 hmem).2
  exact ha.outside (isAncestorOrSelf_iff.1 (Linked.above_trans hl ha.inUse hmx
    (isAncestorOrSelf_iff.2 (List.mem_cons_of_mem _ habove))))

theorem astray_congr (hinUse : u.InUse x ↔ t.InUse x) (hroot : u.root = t.root)
    (habove : t.InUse x → u.ancestors x = t.ancestors x) : u.Astray x ↔ t.Astray x := by
  constructor
  · intro hx
    have hxt := hinUse.1 hx.inUse
    exact ⟨hxt, by rw [← hroot, ← habove hxt]; exact hx.outside⟩
  · exact fun hx => ⟨hinUse.2 hx.inUse, by rw [hroot, habove hx.inUse]; exact hx.outside⟩

theorem Kept.astray_iff (hk : Kept t u x) (hroot : u.root = t.root) : u.Astray x ↔ t.Astray x :=
  astray_congr (iff_of_true hk.inUse hk.before) hroot fun _ => hk.ancestors_eq

theorem SameLinks.astray_iff (hs : SameLinks t u) (hl : t.WellLinked) : u.Astray x ↔ t.Astray x :=
  astray_congr hs.inUse_iff hs.root_eq (hs.ancestors_eq hl)

theorem LeftOver.congr (hleft : t.LeftOver x) (hmarker : (u.slotOf x).marker = (t.slotOf x).marker)
    (hparent : (u.slotOf x).parent = (t.slotOf x).parent)
    (hchildren : (u.slotOf x).children = (t.slotOf x).children) : u.LeftOver x :=
  ⟨hmarker ▸ hleft.text, hparent.trans hleft.parent, hchildren.trans hleft.children⟩

/-! ## Showing a text -/

theorem Overwritten.astray_iff (ho : Overwritten t m s u) (hl : t.WellLinked)
    (hm : m ∈ t.placeholders) : u.Astray x ↔ t.Astray x := by
  obtain ⟨hmu, -, habove⟩ := hl.mem_placeholders_iff.1 hm
  have hroot : u.root = t.root := by simp [root, ho.identity]
  constructor
  · intro hx
    by_cases hchild : x ∈ (u.slotOf m).children
    · -- The new text is in the document
      have hkm := ho.kept hl hmu hmu (Or.inl rfl)
      refine absurd ?_ hx.outside
      rw [Linked.ancestors_child ho.wellLinked hkm.inUse hchild, hkm.ancestors_eq, hroot]
      exact List.mem_cons_of_mem _ (List.mem_cons_of_mem _ habove)
    · obtain ⟨hxt, hleft⟩ := ho.old hx.inUse hchild
      exact ((ho.kept hl hmu hxt hleft).astray_iff hroot).1 hx
  · intro hx
    have hkx := ho.kept hl hmu hx.inUse (Or.inr (hx.not_mem_walk hl hm))
    exact (hkx.astray_iff hroot).2 hx

/-- When a tab stop of the document comes to show a text, nothing goes astray, and what is astray is
left as it is. -/
theorem WellLinked.astray_showText (hl : t.WellLinked) (hm : m ∈ t.placeholders) (s : String)
    (x : Handle) : ((t.showText m s).2.Astray x ↔ t.Astray x) ∧
      (t.Astray x → t.LeftOver x → (t.showText m s).2.LeftOver x) := by
  have hmu := hl.inUse_of_mem_placeholders hm
  rcases showText_cases hl hmu s with ⟨hshow, -⟩ | ⟨c, old, hone, -, -, hshow⟩ | ⟨u, hshow, ho⟩
  · rw [hshow]
    exact ⟨Iff.rfl, fun _ => id⟩
  · have hlinks := sameLinks_setMarker t c (.text s)
    rw [hshow]
    refine ⟨hlinks.astray_iff hl, fun hx hleft => hleft.congr ?_ (hlinks.parent x)
      (hlinks.children x)⟩
    have hc : c ∈ (t.slotOf m).children := by simp [hone]
    have hcu := (Linked.child hl hmu hc).1
    have hne : x ≠ c := by
      -- The text that is changed is in the document
      rintro rfl
      exact hx.not_mem_walk hl hm
        ((hl.mem_walk_cons hmu).2 (Or.inr ⟨x, hc, hl.mem_walk_self hcu⟩))
    rw [marker_setMarker hcu hx.inUse, if_neg hne]
  · rw [hshow]
    refine ⟨ho.astray_iff hl hm, fun hx hleft => ?_⟩
    have hout := hx.not_mem_walk hl hm
    exact hleft.congr (ho.marker hx.inUse (Or.inr hout)) (ho.parent hx.inUse (Or.inr hout))
      (ho.children hx.inUse hout)

theorem Strays.of_astray (h : ∀ x, (u.Astray x ↔ t.Astray x) ∧
    (t.Astray x → t.LeftOver x → u.LeftOver x)) : Strays t u :=
  ⟨fun hx => (h _).1.2 hx, (h _).2, fun hx => Or.inl ((h _).1.1 hx)⟩

/-- A text that is made stands alone. -/
theorem WellLinked.strays_alloc (hl : t.WellLinked) (s : String) :
    Strays t (t.alloc (.text s)).2 ∧ (t.alloc (.text s)).2.Astray (t.alloc (.text s)).1 := by
  have ha := Linked.allocated hl (.text s)
  have hg := ha.grown hl
  have hroot := ha.extended.root_eq
  have hkept {x : Handle} (hx : t.InUse x) : Kept t (t.alloc (.text s)).2 x :=
    (touched_alloc hl s).kept hx (hg.extended.inUse hx)
  have hnew := (ha.inUse_iff _).2 (Or.inl rfl)
  refine ⟨⟨fun hx => ((hkept hx.inUse).astray_iff hroot).2 hx, fun {x} hx hleft => ?_,
    fun {x} hx => ?_⟩, hnew, ?_⟩
  · have hsame := hg.kept x hx.inUse
    exact hleft.congr (by rw [hsame]) (by rw [hsame]) (by rw [hsame])
  · rcases (ha.inUse_iff x).1 hx.inUse with rfl | hxt
    · exact Or.inr ⟨by rw [ha.marker]; rfl, ha.parent, ha.children⟩
    · exact Or.inl (((hkept hxt).astray_iff hroot).1 hx)
  -- The new text has no parent, so the root is not above it
  · have hnone : (t.alloc (.text s)).2.ancestors (t.alloc (.text s)).1 = [] :=
      Linked.ancestors_eq hg.wellLinked hnew ha.parent
    rw [hnone, hroot, List.mem_singleton]
    exact fun heq => ha.fresh (heq ▸ Linked.root_inUse hl)

/-! ## A turn -/

/-- Of two tab stops of an index, the outer one is come to before the inner one. -/
theorem WellLinked.placeholdersOf_split (hl : t.WellLinked) (hm : m ∈ t.placeholdersOf i)
    (hn : n ∈ t.placeholdersOf i) (habove : m ∈ t.ancestors n) :
    ∃ before after, t.placeholdersOf i = before ++ n :: after ∧ m ∈ before := by
  obtain ⟨before, after, hsplit⟩ := List.append_of_mem hn
  have horder := hl.pairwise_placeholdersOf i
  rw [hsplit, List.pairwise_append, List.pairwise_cons] at horder
  have hnu := hl.inUse_of_mem_placeholders (mem_placeholdersOf_iff.1 hn).1
  refine ⟨before, after, hsplit, ?_⟩
  rw [hsplit, List.mem_append, List.mem_cons] at hm
  rcases hm with hm | rfl | hm
  · exact hm
  · exact absurd habove (Linked.not_mem_ancestors hl hnu)
  · exact absurd habove (horder.2.1.1 m hm)

/-- When a tab stop that follows the primary one has been come to, what was inside of it is lost: it
shows a text and nothing else, unless it has been lost as well. -/
theorem Turning.not_kept_of_inside {done : List Handle} (ht : Turning t p s done u)
    (hl : t.WellLinked) (hdone : done.length < 2 ^ 32) (hleaves : u.TextLeaves) (hm : m ∈ done)
    (hf : t.Follows m p) (hn : n ∈ t.placeholders) (habove : m ∈ t.ancestors n) : ¬ Kept t u n := by
  intro hkn
  have hremains := ht.writes.remains hl
  have hu := hremains.wellLinked
  rw [← hkn.ancestors_eq] at habove
  have hmu : u.InUse m :=
    Linked.above_inUse hu hkn.inUse (isAncestorOrSelf_iff.2 (List.mem_cons_of_mem _ habove))
  have hkm : Kept t u m :=
    (ht.kept_or_stale hdone (hl.inUse_of_mem_placeholders hf.mem)).resolve_right fun hstale =>
      hstale (owns_iff.1 hmu.owned).2.2
  have hmem := hremains.mem_of_kept hl hkm hf.mem
  have hflat := ht.flat hm hf hmu (isSome_of_mem_placeholders hmem)
  exact (hleaves.bare hu hmem hflat).solitary hu hmu n (hremains.mem_of_kept hl hkn hn) habove

namespace Repeatable

theorem strays_turn (ht : t.Repeatable) (hp : p ∈ t.leaders) : Strays t (t.turn p) :=
  ht.turn_induction hp (.refl t) (fun r hu hm hs => hs.trans (.of_astray (hu.astray_showText hm r)))
    fun hu _ _ hs => hs.trans (hu.strays_alloc _).1

/-- Nothing goes astray unless of two tab stops that follow the primary one, one is inside of the
other, and there is some text to be repeated. -/
theorem astray_turn (ht : t.Repeatable) (hp : p ∈ t.leaders) (hx : (t.turn p).Astray x) :
    t.Astray x ∨ t.render p ≠ "" ∧ t.Nests p :=
  ht.turn_induction (P := fun u => u.Astray x → t.Astray x ∨ t.render p ≠ "" ∧ t.Nests p) hp Or.inl
    (fun r hu hm hP hx => hP ((hu.astray_showText hm r x).1.1 hx))
    (fun _ hs hnests _ _ => Or.inr ⟨hs, hnests⟩) hx

/-- In that case a text is left over. -/
theorem exists_astray_turn (ht : t.Repeatable) (hleaves : t.TextLeaves) (hp : p ∈ t.leaders)
    (hs : t.render p ≠ "") (hnests : t.Nests p) : ∃ x, (t.turn p).Astray x := by
  have hl := ht.wellLinked
  obtain ⟨m, n, hfm, hfn, habove⟩ := hnests
  obtain ⟨i, hi, hturn, hstart, hlength, hmem⟩ := ht.turn_start hp
  have hof {x : Handle} (hf : t.Follows x p) : x ∈ t.placeholdersOf i :=
    mem_placeholdersOf_iff.2 ⟨hf.mem, hf.index?_eq.trans hi⟩
  obtain ⟨before, after, hsplit, hm⟩ := hl.placeholdersOf_split (hof hfm) (hof hfn) habove
  rw [hsplit, List.length_append, List.length_cons] at hlength
  rw [hsplit, List.forall_mem_append, List.forall_mem_cons] at hmem
  obtain ⟨hbefore, -, hafter⟩ := hmem
  have hbound : before.length + ([] : List Handle).length ≤ 2 ^ 32 := by
    rw [List.length_nil]
    omega
  -- Up to the inner one, text has nothing below it
  have hleaves : (before.foldl (followed p (t.render p)) t).TextLeaves :=
    hstart.foldl_induction hl hbound hbefore hleaves
      (fun r hu hm hleaves => hleaves.shown hu hm (hleaves.shown_showText hu hm r))
      fun hu _ _ hleaves => hleaves.grown hu ((Linked.allocated hu _).grown hu)
  have hturning := hstart.foldl_followed hl hbound hbefore
  rw [hturn, hsplit, List.foldl_append, List.foldl_cons]
  generalize before.foldl (followed p (t.render p)) t = u at hturning hleaves
  have hdone : (before.reverse ++ []).length < 2 ^ 32 := by
    rw [List.append_nil, List.length_reverse]
    omega
  have hastray : ∃ x, (u.followed p (t.render p) n).Astray x := by
    rcases hturning.followed_cases hl hdone hfn.mem hfn.index?_eq with ⟨habove, -⟩ | ⟨-, hk, -⟩ |
      ⟨-, -, -, heq⟩
    · simp [hfn.not_above] at habove
    · exact absurd hk (hturning.not_kept_of_inside hl hdone hleaves (by simpa using hm) hfm hfn.mem
        habove)
    · rw [heq, if_neg hs]
      exact ⟨_, ((hturning.writes.remains hl).wellLinked.strays_alloc _).2⟩
  -- From there on, it stays astray
  refine (hturning.followed hl hdone hfn.mem hfn.index?_eq).foldl_induction
    (P := fun v => ∃ x, v.Astray x) hl ?_ hafter hastray
    (fun r hu hm ⟨x, hx⟩ => ⟨x, (hu.astray_showText hm r x).1.2 hx⟩)
    fun hu _ _ ⟨x, hx⟩ => ⟨x, (hu.strays_alloc _).1.stays hx⟩
  rw [List.length_cons, List.append_nil, List.length_reverse]
  omega

/-! ## All turns -/

end Repeatable

theorem Remains.nests (hr : Remains t u) (hl : t.WellLinked) (hp : p ∈ u.placeholders)
    (hn : u.Nests p) : t.Nests p := by
  obtain ⟨m, n, hfm, hfn, habove⟩ := hn
  rw [(hr.kept_of_mem hfn.mem).ancestors_eq] at habove
  exact ⟨m, n, hr.follows hl hp hfm, hr.follows hl hp hfn, habove⟩

/-- In a calm document no tab stop that follows a primary one is inside of another one. -/
theorem Calm.not_nests (hc : t.Calm) (hl : t.WellLinked) (hp : p ∈ t.leaders) : ¬ t.Nests p := by
  rintro ⟨m, n, hfm, hfn, habove⟩
  exact (hc p hp m hfm).solitary hl (hl.inUse_of_mem_placeholders hfm.mem) n hfn.mem habove

namespace Repeatable

theorem strays_repeatAll (ht : t.Repeatable) : Strays t t.repeatAll :=
  ht.repeatAll_induction (.refl t) fun _ hu hp hs => hs.trans (hu.strays_turn hp)

/-- When all tab stops have been repeated, something is astray if that was so before, or if there was some
text to be repeated in a turn of the first pass, and one tab stop that followed the primary one was inside
of another one. -/
theorem exists_astray_repeatAll_iff (ht : t.Repeatable) (hleaves : t.TextLeaves) :
    (∃ x, t.repeatAll.Astray x) ↔
      (∃ x, t.Astray x) ∨ ∃ p v, t.HasTurn p v ∧ v.render p ≠ "" ∧ v.Nests p := by
  constructor
  · rintro ⟨x, hx⟩
    refine ht.turns_induction (P := fun u => u.Astray x → (∃ x, t.Astray x) ∨
      ∃ p v, t.HasTurn p v ∧ v.render p ≠ "" ∧ v.Nests p) (fun hx => Or.inl ⟨x, hx⟩) ?_ ?_ hx
    · intro p v hturn hP hx
      rcases (hturn.repeatable ht).astray_turn hturn.leader hx with hx | ⟨hs, hnests⟩
      · exact hP hx
      · exact Or.inr ⟨p, v, hturn, hs, hnests⟩
    · -- After the first pass the document is calm
      intro p v hr hv hp hP hx
      have hpass := ht.remains_repeatPass.wellLinked
      refine (hv.astray_turn hp hx).elim hP fun ⟨_, hnests⟩ => ?_
      exact absurd (hr.nests hpass (mem_leaders_iff.1 hp).1 hnests)
        ((hleaves.calm_repeatPass ht).not_nests hpass (hr.mem_leaders hpass hp))
  · rintro (⟨x, hx⟩ | ⟨p, v, hturn, hs, hnests⟩)
    · exact ⟨x, ht.strays_repeatAll.stays hx⟩
    · have hvleaves : v.TextLeaves :=
        hturn.induction ht hleaves fun hu hq hleaves => hleaves.turn hu hq
      exact hturn.induction_later (P := fun u => ∃ x, u.Astray x) ht
        ((hturn.repeatable ht).exists_astray_turn hvleaves hturn.leader hs hnests)
        fun hu hq ⟨x, hx⟩ => ⟨x, (hu.strays_turn hq).stays hx⟩

end Repeatable

/-! ## Snippets -/

/-- Where only the root has no parent, nothing is astray. -/
theorem WellLinked.not_astray (hl : t.WellLinked)
    (htop : ∀ x, t.InUse x → (t.slotOf x).parent = none → x = t.root) (x : Handle) :
    ¬ t.Astray x := by
  intro hx
  refine hx.outside ?_
  have hxu := hx.inUse
  have ha := Linked.lineage_ancestors hl hxu
  clear hx
  generalize t.ancestors x = as at ha
  induction as generalizing x with
  | nil => simp [htop x hxu ha]
  | cons p as ih => exact List.mem_cons_of_mem _ (ih p (Linked.parent hl hxu ha.1).1 ha.2)

/-- Of the nodes of a source only the root has no parent. -/
theorem eq_root_of_ofSource {identity : Nat} {d : Dialect} {source : String}
    (hx : (ofSource identity d source).InUse x)
    (hnone : ((ofSource identity d source).slotOf x).parent = none) :
    x = (ofSource identity d source).root := by
  have hl := (grown_ofSource identity d source).1
  refine hx.eq_of_slot (Linked.root_inUse hl) ?_
  have hlt := hx.slot_lt
  rw [ofSource, ofEvents_eq] at hnone hlt
  generalize (Draft.start.run (Event.ofSource d source)).close = o at hnone hlt
  obtain ⟨m, cs⟩ := o
  rw [Outline.slots] at hnone hlt
  cases hslot : x.slot with
  | zero => rfl
  | succ k =>
    -- Its slot comes after that of the root
    rw [capacity, ofSlots, List.size_toArray, List.length_cons, hslot, Nat.succ_lt_succ_iff] at hlt
    have hsome := Outline.parent_isSome_of_mem_slotsAll cs rfl (List.getElem_mem hlt)
    have hparent : (Outline.slotsAll identity (some ⟨identity, 0, 0⟩) (0 + 1) cs)[k].parent = none := by
      simpa [slotOf, ofSlots, hslot, hlt] using hnone
    simp [hparent] at hsome

namespace Appended

variable {k : Marker}

theorem astray (ha : Appended t k h u) (hl : t.WellLinked) (x : Handle) :
    (u.Astray x ↔ t.Astray x) ∧ (t.Astray x → t.LeftOver x → u.LeftOver x) := by
  have hcongr (hx : t.InUse x) : u.Astray x ↔ t.Astray x :=
    astray_congr (iff_of_true (ha.inUse hx) hx) ha.root_eq (ha.ancestors_eq hl)
  refine ⟨⟨fun hx => ?_, fun hx => (hcongr hx.inUse).2 hx⟩, fun hx hleft => ?_⟩
  · rcases (ha.inUse_iff x).1 hx.inUse with rfl | hxt
    · -- The new node is below the root
      have houtside := hx.outside
      simp [ha.ancestors_new hl] at houtside
    · exact (hcongr hxt).1 hx
  · have hne : x ≠ t.root := fun heq => hx.outside (heq ▸ List.mem_cons_self ..)
    exact hleft.congr (ha.marker hx.inUse) (ha.parent hx.inUse)
      ((ha.children hx.inUse).trans (if_neg hne))

end Appended

/-- When a final tab stop is put at the end of the document, nothing goes astray. -/
theorem WellLinked.astray_insertFinal (hl : t.WellLinked) : t.insertFinal.2.WellLinked ∧
    ∀ x, (t.insertFinal.2.Astray x ↔ t.Astray x) ∧
      (t.Astray x → t.LeftOver x → t.insertFinal.2.LeftOver x) := by
  obtain ⟨-, heq⟩ | ⟨h, ha⟩ := hl.insertFinal_cases
  · rw [heq]
    exact ⟨hl, fun _ => ⟨Iff.rfl, fun _ => id⟩⟩
  · exact ⟨ha.wellLinked, ha.astray hl⟩

/-- In a snippet that comes from a source, each slot is free, or has a node of the document or a text that
stands alone. There are no such texts if and only if in no turn of the first pass with some text to be
repeated, one tab stop that followed the primary one was inside of another one. The tree of a source has
no more slots than there are numbers of 32 bits. -/
theorem ofSnippet_free_or_attached (identity : Nat) (d : Dialect) (source : String) (final : Bool)
    (hcapacity : (ofSource identity d source).capacity ≤ 2 ^ 32) :
    (∀ x, (ofSnippet identity d source final).owns x →
      x.slot ∈ (ofSnippet identity d source final).free ∨
        (ofSnippet identity d source final).isAttached x ∨
          (ofSnippet identity d source final).LeftOver x) ∧
      ((∀ x, (ofSnippet identity d source final).owns x →
        x.slot ∈ (ofSnippet identity d source final).free ∨
          (ofSnippet identity d source final).isAttached x) ↔
        ∀ p v, (ofSource identity d source).assignPrimaries.HasTurn p v → v.render p ≠ "" →
          ¬ v.Nests p) := by
  have hu := unrepeated_ofSource identity d source
  have ht := hu.repeatable ((capacity_assignPrimaries _).trans_le hcapacity)
  have hleaves : (ofSource identity d source).assignPrimaries.TextLeaves :=
    TextLeaves.assignPrimaries fun x hx => text_children_ofSource identity d source hx
  have hnone (x : Handle) : ¬ (ofSource identity d source).assignPrimaries.Astray x := by
    have hl := (grown_ofSource identity d source).1
    rw [(sameLinks_assignPrimaries _).astray_iff hl]
    exact hl.not_astray (fun x => eq_root_of_ofSource) x
  -- No node of a source is astray, so nodes are astray only after a turn that writes into itself
  have hiff := ht.exists_astray_repeatAll_iff hleaves
  rw [or_iff_right fun ⟨x, hx⟩ => hnone x hx] at hiff
  obtain ⟨hl, hstrays, hastray⟩ : (ofSnippet identity d source final).WellLinked ∧
      Strays (ofSource identity d source).assignPrimaries (ofSnippet identity d source final) ∧
        ∀ x, (ofSnippet identity d source final).Astray x ↔
          (ofSource identity d source).assignPrimaries.repeatAll.Astray x := by
    have hl := ht.remains_repeatAll.1.wellLinked
    cases final with
    | false => exact ⟨hl, ht.strays_repeatAll, fun _ => Iff.rfl⟩
    | true =>
      obtain ⟨hl, hastray⟩ := hl.astray_insertFinal
      exact ⟨hl, ht.strays_repeatAll.trans (.of_astray hastray), fun x => (hastray x).1⟩
  simp only [← hastray] at hiff
  generalize ofSnippet identity d source final = u at hl hstrays hiff
  -- A slot is free, or what it holds is attached or astray
  have hslot {x : Handle} (hx : u.owns x) : x.slot ∈ u.free ∨ u.isAttached x ∨ u.Astray x :=
    Decidable.or_iff_not_imp_left.2 fun hfree => hl.isAttached_or_astray ⟨hx, hfree⟩
  refine ⟨fun x hx => (hslot hx).imp_right (Or.imp_right fun ha =>
    (hstrays.fresh ha).resolve_left (hnone x)), ?_, ?_⟩
  · intro hall p v hturn hs hnests
    obtain ⟨x, hx⟩ := hiff.2 ⟨p, v, hturn, hs, hnests⟩
    rcases hall x hx.inUse.owned with hfree | hattached
    · exact hx.inUse.kept hfree
    · exact hx.not_isAttached hl hattached
  · intro hall x hx
    refine (hslot hx).imp_right fun hor => hor.resolve_right fun ha => ?_
    obtain ⟨p, v, hturn, hs, hnests⟩ := hiff.1 ⟨x, ha⟩
    exact hall p v hturn hs hnests

/-- The second tab stop shows the text of the first one, and the third one is lost by that. What it was
to show stands alone, in a slot that has been given back before. -/
theorem ofSnippet_free_or_attached_inside :
    (ofSnippet 0 .textMate "$\x7b1:a\x7d$\x7b1:b$\x7b1:c\x7d\x7d" false).owns ⟨0, 6, 1⟩ ∧
      (ofSnippet 0 .textMate "$\x7b1:a\x7d$\x7b1:b$\x7b1:c\x7d\x7d" false).LeftOver ⟨0, 6, 1⟩ ∧
        ∃ p v, (ofSource 0 .textMate
          "$\x7b1:a\x7d$\x7b1:b$\x7b1:c\x7d\x7d").assignPrimaries.HasTurn p v ∧
            v.render p ≠ "" ∧ v.Nests p := by
  have hsource : (ofSource 0 .textMate "$\x7b1:a\x7d$\x7b1:b$\x7b1:c\x7d\x7d").capacity = 7 := by cbv
  obtain ⟨hslots, hiff⟩ := ofSnippet_free_or_attached 0 .textMate
    "$\x7b1:a\x7d$\x7b1:b$\x7b1:c\x7d\x7d" false (by rw [hsource]; decide)
  -- The text that was to be shown inside the tab stop hangs nowhere
  have htree : ((ofSnippet 0 .textMate "$\x7b1:a\x7d$\x7b1:b$\x7b1:c\x7d\x7d" false).owns ⟨0, 6, 1⟩,
      (ofSnippet 0 .textMate "$\x7b1:a\x7d$\x7b1:b$\x7b1:c\x7d\x7d" false).free,
      (ofSnippet 0 .textMate "$\x7b1:a\x7d$\x7b1:b$\x7b1:c\x7d\x7d" false).isAttached ⟨0, 6, 1⟩) =
    (true, [5, 4], false) := by cbv
  simp only [Prod.mk.injEq] at htree
  obtain ⟨howned, hfree, hattached⟩ := htree
  refine ⟨howned, ?_, ?_⟩
  · simpa [hfree, hattached] using hslots ⟨0, 6, 1⟩ howned
  · by_contra hnone
    push Not at hnone
    simpa [hfree, hattached] using hiff.2 hnone ⟨0, 6, 1⟩ howned

end TabStop.Tree
