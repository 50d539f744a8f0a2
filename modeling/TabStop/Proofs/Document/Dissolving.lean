import TabStop.Proofs.Document.NormalTexts
import TabStop.Proofs.Document.Splicing

/-!
# A node that gives way to its children

When the children of a variable without a value take its place, the document shows the same text as
before and has the same nodes in the same order, but for the variable and for texts: the texts that
get next to each other are joined, and empty ones are dropped.

It is done in two steps. First the variable is taken out, which changes two lists of children; then
its parent is normalized. What is above or beside the parent only has to do with what the parent
shows and with the order of what is below it.
-/

namespace TabStop.Tree

variable {t u v : Tree} {c h k p q x y : Handle} {as bs cs run : List Handle}

/-! ## Rows of texts -/

/-- A text in a list belongs to a row of texts. -/
theorem exists_isRun (t : Tree) (hx : x ∈ cs) (htext : t.isText x) :
    ∃ as run bs, cs = as ++ run ++ bs ∧ t.IsRun as run bs ∧ x ∈ run := by
  induction cs with
  | nil => simp at hx
  | cons c cs ih =>
    by_cases hxcs : x ∈ cs
    · obtain ⟨as, run, bs, rfl, hr, hmem⟩ := ih hxcs
      cases as with
      | cons a as => exact ⟨c :: a :: as, run, bs, rfl, ⟨hr.texts, hr.before, hr.behind⟩, hmem⟩
      | nil =>
        by_cases hc : t.isText c
        · -- The row begins one place before
          refine ⟨[], c :: run, bs, rfl, ⟨?_, by simp, hr.behind⟩, List.mem_cons_of_mem c hmem⟩
          exact List.forall_mem_cons.2 ⟨hc, hr.texts⟩
        · exact ⟨[c], run, bs, rfl, ⟨hr.texts, by simpa using hc, hr.behind⟩, hmem⟩
    · obtain rfl : x = c := (List.mem_cons.1 hx).resolve_right hxcs
      refine ⟨[], x :: cs.takeWhile t.isText, cs.dropWhile t.isText,
        by simp [List.takeWhile_append_dropWhile], ⟨?_, by simp, fun b hb => ?_⟩,
        List.mem_cons_self ..⟩
      · exact List.forall_mem_cons.2 ⟨htext, fun d hd => List.mem_takeWhile_imp hd⟩
      · have hfirst := List.head?_dropWhile_not t.isText cs
        rw [Option.mem_def] at hb
        rw [hb] at hfirst
        simpa using hfirst

/-- The first one of a list that does not show the empty text. -/
theorem exists_first_shown (t : Tree) (hx : x ∈ run) (hshown : t.render x ≠ "") :
    ∃ es k rs, run = es ++ k :: rs ∧ (∀ e ∈ es, t.render e = "") ∧ t.render k ≠ "" := by
  cases hfind : run.find? fun c => decide (t.render c ≠ "") with
  | none => exact absurd hshown (by simpa using List.find?_eq_none.1 hfind x hx)
  | some k =>
    obtain ⟨hk, es, rs, rfl, hes⟩ := List.find?_eq_some_iff_append.1 hfind
    exact ⟨es, k, rs, rfl, by simpa using hes, by simpa using hk⟩

/-- A text `x` of a list has been joined with those next to it: another one of them shows what all
of them have shown. -/
def TakenOver (t : Tree) (cs : List Handle) (x : Handle) (u : Tree) : Prop :=
  ∃ as run bs k, cs = as ++ run ++ bs ∧ t.IsRun as run bs ∧ x ∈ run ∧ k ∈ run ∧ k ≠ x ∧
    u.marker? k = some (.text (String.join (run.map t.render)))

theorem TakenOver.congr (hx : TakenOver u cs x v) (htext : ∀ c ∈ cs, u.isText c = t.isText c)
    (hshown : ∀ c ∈ cs, u.render c = t.render c) : TakenOver t cs x v := by
  obtain ⟨as, run, bs, k, rfl, hr, hmem, hk, hne, hmarker⟩ := hx
  simp only [List.forall_mem_append] at htext hshown
  obtain ⟨⟨has, hrun⟩, hbs⟩ := htext
  refine ⟨as, run, bs, k, rfl, ⟨fun c hc => ?_, fun a ha => ?_, fun b hb => ?_⟩, hmem, hk, hne, ?_⟩
  · rw [← hrun c hc]
    exact hr.texts c hc
  · rw [← has a (List.mem_of_getLast? ha)]
    exact hr.before a ha
  · rw [← hbs b (List.mem_of_head? hb)]
    exact hr.behind b hb
  · rw [hmarker, List.map_congr_left hshown.1.2]

/-! ## What is above or beside a node -/

/-- What is true of a node `p`, and of each node that is not below `p` if it is true of its children,
is true of all that is not below `p`. -/
theorem WellLinked.induction_outside (hl : t.WellLinked) (hp : t.InUse p) {P : Handle → Prop}
    (self : P p) (step : ∀ y, t.InUse y → y ∉ t.walk p → (∀ c ∈ (t.slotOf y).children, P c) → P y)
    (hy : t.InUse y) (hout : y = p ∨ y ∉ t.walk p) : P y := by
  revert hout
  refine hl.induction_below (P := fun y => y = p ∨ y ∉ t.walk p → P y) (fun y hy ih hout => ?_) hy
  rcases hout with rfl | hout
  · exact self
  refine step y hy hout fun c hc => ih c hc (Decidable.or_iff_not_imp_left.2 fun hne hmem => hout ?_)
  -- A child that is below `p` is `p` or has its parent below `p`
  obtain ⟨-, habove⟩ := (hl.mem_walk_iff hp).1 hmem
  rw [isAncestorOrSelf_iff, Linked.ancestors_child hl hy hc, List.mem_cons] at habove
  exact (hl.mem_walk_iff hp).2 ⟨hy, isAncestorOrSelf_iff.2 (habove.resolve_left (Ne.symm hne))⟩

/-! ## What is shown without the node -/

theorem childrenPast_flatMap (f : Handle → List Handle) (h x : Handle) :
    (t.childrenPast h x).flatMap f = (t.slotOf x).children.flatMap fun c =>
      if c = h then (t.slotOf h).children.flatMap f else f c := by
  rw [childrenPast, List.flatMap_assoc]
  refine List.flatMap_congr fun c _ => ?_
  split
  · rfl
  · exact List.flatMap_singleton ..

theorem join_childrenPast (f : Handle → String) (h x : Handle) :
    String.join ((t.childrenPast h x).map f) = String.join ((t.slotOf x).children.map fun c =>
      if c = h then String.join ((t.slotOf h).children.map f) else f c) := by
  rw [childrenPast]
  induction (t.slotOf x).children with
  | nil => rfl
  | cons c cs ih =>
    rw [List.flatMap_cons, List.map_append, String.join_append, ih, List.map_cons, String.join_cons]
    split
    · rfl
    · simp

namespace Pulled

variable (hu : Pulled t p h u)

include hu

theorem isText_eq (hx : u.InUse x) : u.isText x = t.isText x := by
  rw [isText, isText, hu.marker hx]

/-- The nodes below a node are in the order in which they were. -/
theorem walk_eq (hl : t.WellLinked) (hx : u.InUse x) : u.walk x = (t.walk x).filter (· ≠ h) := by
  obtain ⟨hxt, hne⟩ := (hu.inUse_iff x).1 hx
  -- For the node that is gone its children are looked at
  have hbelow : (if x = h then (t.slotOf h).children.flatMap u.walk else u.walk x) =
      (t.walk x).filter (· ≠ h) := by
    refine hl.induction_below (P := fun x => (if x = h then (t.slotOf h).children.flatMap u.walk
      else u.walk x) = (t.walk x).filter (· ≠ h)) (fun x hx ih => ?_) hxt
    rw [hl.walk_eq hx]
    split
    · next heq =>
      subst heq
      rw [List.filter_cons_of_neg (by simp), List.filter_flatMap]
      refine List.flatMap_congr fun c hc => ?_
      have hch : c ≠ x := fun heq => Linked.not_above_of_child hl hx hc
        (heq ▸ isAncestorOrSelf_self t x)
      rw [← ih c hc, if_neg hch]
    · next hne =>
      have hxu := (hu.inUse_iff x).2 ⟨hx, hne⟩
      rw [List.filter_cons_of_pos (by simpa using hne), List.filter_flatMap,
        hu.wellLinked.walk_eq hxu, hu.children hxu, childrenPast_flatMap, List.flatMap_congr ih]
  rwa [if_neg hne] at hbelow

/-- Nothing is shown otherwise if the node has shown what its children show. -/
theorem render_eq (hl : t.WellLinked) (hown : (t.slotOf h).marker.ownText? = none)
    (hx : u.InUse x) : u.render x = t.render x := by
  obtain ⟨hxt, hne⟩ := (hu.inUse_iff x).1 hx
  -- Induction from below. For the node itself the text is that of its children, which stand
  -- elsewhere now
  have hshown : (if x = h then String.join ((t.slotOf h).children.map u.render) else u.render x) =
      t.render x := by
    refine hl.induction_below (P := fun x => (if x = h then
      String.join ((t.slotOf h).children.map u.render) else u.render x) = t.render x)
      (fun x hx ih => ?_) hxt
    rw [hl.render_eq hx]
    split
    · next heq =>
      subst heq
      rw [hown, Option.getD_none]
      refine congrArg String.join (List.map_congr_left fun c hc => ?_)
      have hch : c ≠ x := fun heq => Linked.not_above_of_child hl hx hc
        (heq ▸ isAncestorOrSelf_self t x)
      rw [← ih c hc, if_neg hch]
    · next hne =>
      have hxu := (hu.inUse_iff x).2 ⟨hx, hne⟩
      rw [hu.wellLinked.render_eq hxu, hu.marker hxu, hu.children hxu, join_childrenPast,
        List.map_congr_left ih]
  rwa [if_neg hne] at hshown

end Pulled

/-! ## What is shown once the parent is in order -/

namespace Normalized

variable (hn : Normalized u p 0 v)

include hn

/-- What is not below a node that is normalized shows what it has shown, and has the same nodes below
it, but for texts. -/
theorem outside_eq (hl : u.WellLinked) (hp : u.InUse p) (hnode : u.isText p = false)
    (hx : u.InUse x) (hout : x = p ∨ x ∉ u.walk p) : v.render x = u.render x ∧
      (v.walk x).filter (! v.isText ·) = (u.walk x).filter (! u.isText ·) := by
  refine hl.induction_outside hp (P := fun x => v.render x = u.render x ∧
    (v.walk x).filter (! v.isText ·) = (u.walk x).filter (! u.isText ·)) ?_
    (fun y hy hnot ih => ?_) hx hout
  · exact ⟨(hn.same p (hl.mem_walk_self hp) hnode).2, hn.nodes⟩
  · obtain ⟨hyv, hslot⟩ := hn.outside y hy (by
      rwa [List.drop_zero, WellLinked.children_eq hp, ← hl.walk_eq hp])
    have hself : v.isText y = u.isText y := by rw [isText, isText, hslot]
    constructor
    · rw [hn.wellLinked.render_eq hyv, hl.render_eq hy, hslot,
        List.map_congr_left fun c hc => (ih c hc).1]
    · rw [hn.wellLinked.walk_eq hyv, hl.walk_eq hy, hslot, List.filter_cons, List.filter_cons, hself,
        List.filter_flatMap, List.filter_flatMap, List.flatMap_congr fun c hc => (ih c hc).2]

/-- What is gone is a text that was empty or in a row with another one, which stands for it. -/
theorem gone (hl : u.WellLinked) (hp : u.InUse p) (hnode : u.isText p = false)
    (hleaves : u.Childless (u.walk p)) (hpv : v.InUse p) (hx : u.InUse x) (hnot : ¬v.InUse x) :
    u.isText x ∧ (u.render x = "" ∨ ∃ y, u.InUse y ∧ TakenOver u (u.slotOf y).children x v) := by
  -- All that is elsewhere is kept, and so is each node of another kind
  have hxp : x ∈ u.walk p := Decidable.of_not_not fun hxp => hnot (hn.outside x hx (by
    rwa [List.drop_zero, WellLinked.children_eq hp, ← hl.walk_eq hp])).1
  have htext : u.isText x := by
    by_contra hno
    have hmem : x ∈ (u.walk p).filter (! u.isText ·) := List.mem_filter.2 ⟨hxp, by simp [hno]⟩
    rw [← hn.nodes] at hmem
    exact hnot ((hn.wellLinked.mem_walk_iff hpv).1 (List.mem_filter.1 hmem).1).1
  refine ⟨htext, Decidable.or_iff_not_imp_left.2 fun hshown => ?_⟩
  -- The text is a child of a node of another kind
  have hne : x ≠ p := by
    rintro rfl
    simp [htext] at hnode
  obtain ⟨y, hy, hxy⟩ := hl.exists_parent_below hp hxp hne
  have hyu := ((hl.mem_walk_iff hp).1 hy).1
  have hynode : u.isText y = false := by
    rw [← Bool.not_eq_true]
    intro hytext
    simp [hleaves y hy hytext] at hxy
  obtain ⟨as, run, bs, hsplit, hr, hmem⟩ := u.exists_isRun hxy htext
  have hmerged : Merged u y run v := by
    have hchildren := WellLinked.children_eq hyu
    by_cases hyp : y = p
    · subst hyp
      exact hn.merged as run bs (by rw [List.drop_zero, hchildren, hsplit]) hr
    · refine hn.merged_below y ?_ hynode as run bs (by rw [hchildren, hsplit]) hr
      rw [hl.walk_eq hp] at hy
      rw [List.drop_zero, WellLinked.children_eq hp]
      exact (List.mem_cons.1 hy).resolve_left hyp
  obtain ⟨es, k, rs, hrun, hes, hk⟩ := u.exists_first_shown hmem hshown
  obtain ⟨hky, hmarker, -⟩ := hmerged.kept es k rs hrun hes hk
  refine ⟨y, hyu, as, run, bs, k, hsplit, hr, hmem, by simp [hrun], ?_, hmarker⟩
  rintro rfl
  have hyv := hn.wellLinked.inUse_of_child hky
  rw [WellLinked.children_eq hyv] at hky
  exact hnot (Linked.child hn.wellLinked hyv hky).1

end Normalized

/-! ## The variable gives way -/

/-- What is true of a tree in which the variable `h` below `p` has given way to its children. -/
structure Dissolved (t : Tree) (h p : Handle) (u : Tree) : Prop where
  wellLinked : u.WellLinked
  text : u.text = t.text
  /-- The nodes that are no texts are in the order in which they were, -/
  order : (u.walk u.root).filter (! u.isText ·) =
    ((t.walk t.root).filter (! t.isText ·)).filter (· ≠ h)
  /-- and each of them is what it was. -/
  marker : ∀ x, t.InUse x → t.isText x = false → x ≠ h → u.marker? x = t.marker? x
  /-- The children of the variable have got its parent, and the others keep theirs. -/
  parent : ∀ x, t.InUse x → t.isText x = false → x ≠ h →
    u.parent? x = if x ∈ t.children h then some p else t.parent? x
  released : u.IsReleased h
  /-- Besides the variable, empty texts are released and those that another text stands for. -/
  others : ∀ x, t.InUse x → ¬u.InUse x → x ≠ h → u.IsReleased x ∧ t.isText x ∧
    (t.render x = "" ∨ ∃ y, t.InUse y ∧ TakenOver t (t.childrenPast h y) x u)

/-- A tree `u` from which the node `h` has been taken, and the tree `v` that it is once the parent
of `h` has been normalized. -/
private structure PulledInOrder (t : Tree) (h p : Handle) (u v : Tree) : Prop where
  pulled : Pulled t p h u
  parent : u.InUse p
  node : u.isText p = false
  childless : u.Childless (u.walk p)
  normalized : Normalized u p 0 v
  trims : ∃ gone, Trims u gone v
  spares : Spares (fun x => x ∈ t.walk t.root ∧ x ≠ h) u v

private theorem exists_pulledInOrder (hl : t.WellLinked) (hleaves : t.TextLeaves)
    (hh : h ∈ t.walk t.root) (hup : (t.slotOf h).parent = some p) :
    ∃ u v, (splice h).perform t = (.ok (), v) ∧ PulledInOrder t h p u v := by
  obtain ⟨hpu, hmem⟩ := Linked.parent hl (hl.mem_walk_root_inUse hh) hup
  have hroot := hl.mem_walk_iff (Linked.root_inUse hl) (x := p)
  have hproot := (hl.mem_walk_root_parent hh hup).1
  have hpne : p ≠ h := by
    rintro rfl
    exact Linked.not_above_of_child hl hpu hmem (isAncestorOrSelf_self t p)
  -- The children take the place of the node, and then the texts of its parent are joined
  obtain ⟨u, hu, hsplice⟩ := hl.exists_pulled hpu hmem
  have hpu' := (hu.inUse_iff p).2 ⟨hpu, hpne⟩
  have horderly := hu.orderly hl hleaves hh hup
  -- No text below the parent has children, neither before nor after
  have hchildless : u.Childless (u.walk p) := by
    intro x hx
    rw [hu.walk_eq hl hpu', List.mem_filter] at hx
    obtain ⟨hxu, habove⟩ := (hl.mem_walk_iff hpu).1 hx.1
    have hxroot := (hl.mem_walk_iff (Linked.root_inUse hl)).2
      ⟨hxu, Linked.above_trans hl hxu habove (hroot.1 hproot).2⟩
    exact (horderly x ⟨hxroot, by simpa using hx.2⟩).2
  have hnode : (u.slotOf p).marker.text? = none := by
    rw [hu.marker hpu']
    refine hleaves.above hl hh ?_
    rw [Linked.ancestors_child hl hpu hmem]
    exact List.mem_cons_self ..
  obtain ⟨v, hnormalize, -, hn⟩ := exists_normalized hu.wellLinked hpu' hchildless 0
  obtain ⟨v', gone, hnormalize', -, htrims⟩ := hu.wellLinked.normalize hpu' 0
  obtain rfl : v = v' := (Prod.mk.inj (hnormalize.symm.trans hnormalize')).2
  have hs := spares_normalizeFrom u.capacity 0 horderly ⟨hproot, hpne⟩ hnode
  have hnormal : (normalizeFrom u.capacity p 0).perform u = (.ok (), v) := by
    simpa [Tree.normalize] using hnormalize
  rw [hnormal] at hs
  exact ⟨u, v, hsplice.trans hnormalize, hu, hpu', isText_eq_false.2 hnode, hchildless, hn,
    ⟨gone, htrims⟩, hs⟩

namespace PulledInOrder

variable (hv : PulledInOrder t h p u v)

include hv

/-- A node of another kind than text is left, with its marker and its parent. -/
private theorem kept (hx : t.InUse x) (hnode : t.isText x = false) (hne : x ≠ h) :
    v.InUse x ∧ (v.slotOf x).marker = (t.slotOf x).marker ∧ (v.slotOf x).parent =
      if (t.slotOf x).parent = some h then some p else (t.slotOf x).parent := by
  have hxu := (hv.pulled.inUse_iff x).2 ⟨hx, hne⟩
  obtain ⟨gone, htrims⟩ := hv.trims
  obtain ⟨hmarker, hparent, hgeneration⟩ := (hv.spares.slot x).node (by
    rw [hv.pulled.marker hxu, isText_eq_false.1 hnode])
  exact ⟨htrims.inUse_of_generation hxu hgeneration, hmarker.trans (hv.pulled.marker hxu),
    hparent.trans (hv.pulled.parent hxu)⟩

/-- The document shows what it has shown, with its nodes in the order in which they were. -/
private theorem document (hl : t.WellLinked) (hown : (t.slotOf h).marker.ownText? = none)
    (hup : (t.slotOf h).parent = some p) : v.text = t.text ∧
      (v.walk v.root).filter (! v.isText ·) =
        ((t.walk t.root).filter (! t.isText ·)).filter (· ≠ h) := by
  obtain ⟨gone, htrims⟩ := hv.trims
  have hu := hv.pulled
  have hroot : v.root = t.root := by simp [root, htrims.identity, hu.trims.identity]
  have hne : t.root ≠ h := by
    rintro rfl
    simp [Linked.root_parent hl] at hup
  have hrootu := (hu.inUse_iff t.root).2 ⟨Linked.root_inUse hl, hne⟩
  -- Nothing is above the root, so that it is the parent or not below it
  have hout : t.root = p ∨ t.root ∉ u.walk p := by
    refine Decidable.or_iff_not_imp_left.2 fun hrp hmem => hrp ?_
    rw [hu.walk_eq hl hv.parent, List.mem_filter] at hmem
    have hpu := ((hu.inUse_iff p).1 hv.parent).1
    have habove := ((hl.mem_walk_iff hpu).1 hmem.1).2
    rw [isAncestorOrSelf_iff, hl.ancestors_root, List.mem_singleton] at habove
    exact habove.symm
  obtain ⟨hrender, hnodes⟩ := hv.normalized.outside_eq hu.wellLinked hv.parent hv.node hrootu hout
  constructor
  · rw [text, text, hroot, hrender, hu.render_eq hl hown hrootu]
  · rw [hroot, hnodes, hu.walk_eq hl hrootu, List.filter_filter, List.filter_filter]
    refine List.filter_congr fun x hx => ?_
    by_cases hxh : x = h
    · simp [hxh]
    · have hxu := (hu.inUse_iff x).2 ⟨((hl.mem_walk_iff (Linked.root_inUse hl)).1 hx).1, hxh⟩
      simp [hxh, hu.isText_eq hxu]

/-- Besides the node itself only texts are gone, for which others stand if they were not empty. -/
private theorem others (hl : t.WellLinked) (hown : (t.slotOf h).marker.ownText? = none)
    (hx : t.InUse x) (hnot : ¬v.InUse x) (hne : x ≠ h) : v.IsReleased x ∧ t.isText x ∧
      (t.render x = "" ∨ ∃ y, t.InUse y ∧ TakenOver t (t.childrenPast h y) x v) := by
  obtain ⟨gone, htrims⟩ := hv.trims
  have hu := hv.pulled
  have hxu := (hu.inUse_iff x).2 ⟨hx, hne⟩
  have hpt := (hu.inUse_iff p).1 hv.parent
  have hpv := (hv.kept hpt.1 (by rw [← hu.isText_eq hv.parent, hv.node]) hpt.2).1
  obtain ⟨htext, hshown⟩ := hv.normalized.gone hu.wellLinked hv.parent hv.node hv.childless hpv hxu
    hnot
  rw [hu.isText_eq hxu] at htext
  rw [hu.render_eq hl hown hxu] at hshown
  -- The row that took the text over is in the original the one without the node
  refine ⟨htrims.isReleased_of_not_inUse hxu hnot, htext, ?_⟩
  refine hshown.imp_right fun ⟨y, hyu, htaken⟩ => ⟨y, ((hu.inUse_iff y).1 hyu).1, ?_⟩
  have hchild {c : Handle} (hc : c ∈ (u.slotOf y).children) := (Linked.child hu.wellLinked hyu hc).1
  rw [← hu.children hyu]
  exact htaken.congr (fun c hc => hu.isText_eq (hchild hc))
    fun c hc => hu.render_eq hl hown (hchild hc)

end PulledInOrder

/-- A variable of the document that has no value gives way to its children. -/
theorem splice_dissolved {r : Variable} (hl : t.WellLinked) (hleaves : t.TextLeaves)
    (ha : t.isAttached h) (hp : t.parent? h = some p) (hvar : t.var? h = some r)
    (hvalue : r.value = none) : ∃ u, (splice h).perform t = (.ok (), u) ∧ Dissolved t h p u := by
  have hh := hl.isAttached_iff.1 ha
  have hhu := hl.mem_walk_root_inUse hh
  rw [WellLinked.parent?_eq hhu] at hp
  rw [hhu.var?_eq] at hvar
  -- A variable without a value shows the nodes inside it
  have hown : (t.slotOf h).marker.ownText? = none := by
    cases hm : (t.slotOf h).marker <;> simp_all [Marker.var?, Marker.ownText?]
  obtain ⟨u, v, hperform, hv⟩ := exists_pulledInOrder hl hleaves hh hp
  refine ⟨v, hperform, ?_⟩
  obtain ⟨htext, horder⟩ := hv.document hl hown hp
  constructor
  case wellLinked => exact hv.normalized.wellLinked
  case text => exact htext
  case order => exact horder
  case marker =>
    intro x hx hnode hne
    obtain ⟨hxv, hmarker, -⟩ := hv.kept hx hnode hne
    rw [marker?, marker?, if_pos hxv.owned, if_pos hx.owned, hmarker]
  case parent =>
    intro x hx hnode hne
    obtain ⟨hxv, -, hparent⟩ := hv.kept hx hnode hne
    have hchild : x ∈ t.children h ↔ (t.slotOf x).parent = some h := by
      rw [WellLinked.children_eq hhu]
      exact ⟨fun hc => (Linked.child hl hhu hc).2, fun hxh => (Linked.parent hl hx hxh).2⟩
    rw [WellLinked.parent?_eq hxv, WellLinked.parent?_eq hx, hparent]
    simp only [hchild]
  case released =>
    obtain ⟨gone, htrims⟩ := hv.trims
    have hgone := hv.pulled.trims.trans htrims (Linked.free_nodup hv.normalized.wellLinked)
    -- What is released while texts are joined does not bring the node back
    refine hgone.isReleased_of_not_inUse hhu fun hhv => ?_
    exact ((hv.pulled.inUse_iff h).1 (htrims.inUse_iff.1 hhv).1).2 rfl
  case others => exact fun x hx hnot hne => hv.others hl hown hx hnot hne

/-- A variable with a tab stop in its default, between two texts. -/
def wrapped : Tree := ofSource 0 .ultiSnips "x$\x7bVISUAL:a$1b\x7dy"

/-- The texts are joined to those of the default, and the tab stop gets the root as parent. -/
theorem splice_dissolved_wrapped : ∃ u, (splice ⟨0, 2, 0⟩).perform wrapped = (.ok (), u) ∧
    Dissolved wrapped ⟨0, 2, 0⟩ ⟨0, 0, 0⟩ u ∧ u.text = "xaby" ∧
      u.parent? ⟨0, 4, 0⟩ = some ⟨0, 0, 0⟩ := by
  have hfacts : (wrapped.isAttached ⟨0, 2, 0⟩, wrapped.parent? ⟨0, 2, 0⟩,
      (wrapped.var? ⟨0, 2, 0⟩).map (·.value), wrapped.children ⟨0, 2, 0⟩, wrapped.text,
      wrapped.isText ⟨0, 4, 0⟩, wrapped.owns ⟨0, 4, 0⟩, wrapped.free) =
      (true, some ⟨0, 0, 0⟩, some none, [⟨0, 3, 0⟩, ⟨0, 4, 0⟩, ⟨0, 5, 0⟩], "xaby", false, true,
        []) := by cbv
  simp only [Prod.mk.injEq, Option.map_eq_some_iff] at hfacts
  obtain ⟨hattached, hparent, ⟨r, hvar, hvalue⟩, hchildren, htext, hnode, howned, hfree⟩ := hfacts
  have hl : wrapped.WellLinked := (grown_ofSource ..).1
  have hleaves : wrapped.TextLeaves := fun _ hx => text_children_ofSource _ _ _ hx
  obtain ⟨u, hperform, hu⟩ := splice_dissolved hl hleaves hattached hparent hvar hvalue
  refine ⟨u, hperform, hu, hu.text.trans htext, ?_⟩
  rw [hu.parent ⟨0, 4, 0⟩ ⟨howned, by simp [hfree]⟩ hnode (by decide), hchildren]
  simp

end TabStop.Tree
