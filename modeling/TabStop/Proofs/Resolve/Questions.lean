import TabStop.Proofs.Resolve.Cursor

/-!
# What a resolver is asked

The variables of a document are gone through in its order. The resolver is asked for the name of each
one, unless the variable is inside of one that has got an answer; what is inside of that is hidden. For
until its turn comes a variable is left where it was: others around it may have become tab stops or
have left their children in their place, but these stay what they were. After its turn it is no variable
any more, or one with a value. So in the end each variable that is not hidden has a value, also if some
variables had got values before.
-/

namespace TabStop.Tree

variable {t u : Tree} {h x y : Handle} {hs seen asked : List Handle} {r : Resolver}
  {st st' : Resolution}

/-! ## Answers -/

/-- The name of a variable. -/
def nameOf (t : Tree) (h : Handle) : String := ((t.var? h).map (·.name)).getD ""

/-- The resolver has an answer for a variable of a list when it is asked for the names of the list, one
after the other. -/
def Answered (t : Tree) (r : Resolver) (hs : List Handle) (y : Handle) : Prop :=
  ∃ pre post, hs = pre ++ y :: post ∧ (r (pre.map t.nameOf).reverse (t.nameOf y)).isSome

theorem Answered.mem (hy : t.Answered r hs y) : y ∈ hs := by
  obtain ⟨pre, post, rfl, -⟩ := hy
  simp

/-- What has been answered before is not changed by another question. -/
theorem answered_concat_iff : t.Answered r (hs ++ [h]) y ↔
    t.Answered r hs y ∨ y = h ∧ (r (hs.map t.nameOf).reverse (t.nameOf h)).isSome := by
  constructor
  · rintro ⟨pre, post, hsplit, hsome⟩
    rcases List.eq_nil_or_concat post with rfl | ⟨rest, z, rfl⟩
    · obtain ⟨rfl, heq⟩ := List.append_inj' hsplit rfl
      obtain rfl := List.singleton_inj.1 heq
      exact Or.inr ⟨rfl, hsome⟩
    · rw [List.concat_eq_append, ← List.cons_append, ← List.append_assoc] at hsplit
      exact Or.inl ⟨pre, rest, (List.append_inj' hsplit rfl).1, hsome⟩
  · rintro (⟨pre, post, rfl, hsome⟩ | ⟨rfl, hsome⟩)
    · exact ⟨pre, post ++ [h], by simp, hsome⟩
    · exact ⟨hs, [], rfl, hsome⟩

/-! ## One node of the frame changes -/

/-- The other nodes of the frame are left when one has become something else, or has left its children
in its place. -/
structure Changed (t : Tree) (h : Handle) (u : Tree) : Prop where
  frame {x : Handle} : x ∈ u.frame → x ∈ t.frame
  kept {x : Handle} : x ∈ t.frame → x ≠ h →
    x ∈ u.frame ∧ (u.slotOf x).marker = (t.slotOf x).marker

theorem WellLinked.changed_setMarker (hl : t.WellLinked) (hh : h ∈ t.frame) (m : Marker) :
    Changed t h (t.setMarker h m) := by
  have hlinks := sameLinks_setMarker t h m
  refine ⟨fun hx => hl.mem_frame_of_setMarker hh hx, fun {x} hx hne => ?_⟩
  obtain ⟨hxu, habove, htext⟩ := hl.mem_frame_iff.1 hx
  have hmarker := marker_setMarker (hl.inUse_of_mem_frame hh) hxu m
  rw [if_neg hne] at hmarker
  refine ⟨(hlinks.wellLinked hl).mem_frame_iff.2 ⟨hlinks.inUse_iff.2 hxu, ?_, ?_⟩, hmarker⟩
  · rwa [hlinks.ancestors_eq hl hxu, hlinks.root_eq]
  · rw [hmarker, htext]

theorem WellLinked.mem_frame_setMarker (hl : t.WellLinked) (hh : h ∈ t.frame)
    (hm : m.text? = none) : h ∈ (t.setMarker h m).frame := by
  have hlinks := sameLinks_setMarker t h m
  obtain ⟨hhu, habove, -⟩ := hl.mem_frame_iff.1 hh
  refine (hlinks.wellLinked hl).mem_frame_iff.2 ⟨hlinks.inUse_iff.2 hhu, ?_, ?_⟩
  · rwa [hlinks.ancestors_eq hl hhu, hlinks.root_eq]
  · rw [marker_setMarker hhu hhu, if_pos rfl, hm]

theorem InUse.var?_setMarker (hh : t.InUse h) (m : Marker) : (t.setMarker h m).var? h = m.var? := by
  rw [((sameLinks_setMarker t h m).inUse_iff.2 hh).var?_eq, marker_setMarker hh hh, if_pos rfl]

theorem Spliced.changed (hs : Spliced t h u) : Changed t h u where
  frame hx := ((hs.mem_frame_iff _).1 hx).1
  kept hx hne := by
    have hxu := (hs.mem_frame_iff _).2 ⟨hx, hne⟩
    exact ⟨hxu, hs.marker hxu⟩

/-! ## Variables one by one -/

/-- What is true when the variables `seen` of a tree `t` have had their turn, and `hs` are still to come.
The resolver has been asked for the variables `asked`. -/
structure Asking (r : Resolver) (t : Tree) (seen hs asked : List Handle) (st : Resolution) : Prop where
  reduced : ∃ gone, Reduced t gone st.tree ∧ ∀ x ∈ gone, x ∉ st.tree.frame
  pending {x : Handle} : x ∈ hs →
    x ∈ st.tree.frame ∧ (st.tree.slotOf x).marker = (t.slotOf x).marker
  names : st.asked = (asked.map t.nameOf).reverse
  resolved_iff {y : Handle} : y ∈ st.resolved ↔ t.Answered r asked y
  sublist : asked.Sublist seen
  skipped {x : Handle} : x ∈ seen → (x ∉ asked ↔ ∃ y ∈ t.ancestors x, t.Answered r asked y)
  valued {y : Handle} : t.Answered r asked y → y ∈ st.tree.frame ∧ st.tree.HasValue y
  settled {x : Handle} : x ∈ asked → x ∈ st.tree.frame → (st.tree.var? x).isSome →
    st.tree.HasValue x

/-- What a turn of a variable does in which the resolver is asked for its name. -/
structure Turn (r : Resolver) (t : Tree) (h : Handle) (st st' : Resolution) : Prop where
  reduced : ∃ gone, Reduced t gone st'.tree ∧ ∀ x ∈ gone, x ∉ st'.tree.frame
  changed : Changed st.tree h st'.tree
  names : st'.asked = t.nameOf h :: st.asked
  resolved_iff {y : Handle} : y ∈ st'.resolved ↔
    y ∈ st.resolved ∨ y = h ∧ (r st.asked (t.nameOf h)).isSome
  valued : (r st.asked (t.nameOf h)).isSome → h ∈ st'.tree.frame ∧ st'.tree.HasValue h
  settled : h ∈ st'.tree.frame → (st'.tree.var? h).isSome → st'.tree.HasValue h

namespace Turn

variable {gone : List Handle} {k : Variable}

/-- A variable that gets a value stays where it is. -/
theorem of_answer (hreduced : Reduced t gone st.tree) (hgone : ∀ x ∈ gone, x ∉ st.tree.frame)
    (hh : h ∈ st.tree.frame) (hv : h ∈ t.variableNodes) (hname : t.nameOf h = k.name)
    (hs : r st.asked k.name = some s) (value : String) :
    Turn r t h st { st with
      asked := k.name :: st.asked
      tree := st.tree.setMarker h (.var { k with value := some value })
      resolved := st.resolved ++ [h] } := by
  have hls := hreduced.wellLinked
  have hvalue : (st.tree.setMarker h (.var { k with value := some value })).HasValue h := by
    rw [HasValue, (hls.inUse_of_mem_frame hh).var?_setMarker]
    rfl
  exact
    { reduced := ⟨gone, hreduced.setMarker hh hv (by simp [Marker.text?]),
        fun x hx hxf => hgone x hx (hls.mem_frame_of_setMarker hh hxf)⟩
      changed := hls.changed_setMarker hh _
      names := by rw [hname]
      resolved_iff := by simp [hname, hs]
      valued := fun _ => ⟨hls.mem_frame_setMarker hh rfl, hvalue⟩
      settled := fun _ _ => hvalue }

/-- One that gets none is a variable no more. -/
theorem of_no_answer (hreduced : ∃ gone, Reduced t gone u ∧ ∀ x ∈ gone, x ∉ u.frame)
    (hchanged : Changed st.tree h u) (hname : t.nameOf h = k.name)
    (hnone : r st.asked k.name = none) (hleft : h ∈ u.frame → u.var? h = none) (ps : Promotions) :
    Turn r t h st { st with asked := k.name :: st.asked, promotions := ps, tree := u } where
  reduced := hreduced
  changed := hchanged
  names := by rw [hname]
  resolved_iff := by simp [hname, hnone]
  valued := by simp [hname, hnone]
  settled := fun hh hsome => by simp [hleft hh] at hsome

/-- In each way in which a variable is left without value it becomes something else, or it goes. -/
theorem of_leaveUnresolved (hreduced : Reduced t gone st.tree)
    (hgone : ∀ x ∈ gone, x ∉ st.tree.frame) (hh : h ∈ st.tree.frame) (hv : h ∈ t.variableNodes)
    (hname : t.nameOf h = k.name) (hnone : r st.asked k.name = none) {ps : Promotions}
    (hleave : leaveUnresolved st.promotions h k st.tree = some (ps, u)) :
    Turn r t h st { st with asked := k.name :: st.asked, promotions := ps, tree := u } := by
  have hls := hreduced.wellLinked
  -- The variable becomes text or a tab stop, or its children take its place
  have hset {m : Marker} (hm : m.text?.isSome → (st.tree.slotOf h).children = [])
      (hnovar : m.var? = none) : Turn r t h st
        { st with asked := k.name :: st.asked, promotions := ps, tree := st.tree.setMarker h m } := by
    refine .of_no_answer ⟨gone, hreduced.setMarker hh hv hm, fun x hx hxf => ?_⟩
      (hls.changed_setMarker hh m) hname hnone (fun _ => ?_) ps
    · exact hgone x hx (hls.mem_frame_of_setMarker hh hxf)
    · rw [(hls.inUse_of_mem_frame hh).var?_setMarker, hnovar]
  rcases leaveUnresolved_cases hls hreduced.leaves hh hleave with
    ⟨s, hnil, -, rfl⟩ | ⟨i, -, rfl⟩ | ⟨-, hspliced⟩
  · exact hset (fun _ => hnil) rfl
  · exact hset (by simp [Marker.text?]) rfl
  · refine .of_no_answer ⟨h :: gone, hreduced.splice hv hspliced, fun x hx hxu => ?_⟩
      hspliced.changed hname hnone (fun hhu => absurd rfl ((hspliced.mem_frame_iff h).1 hhu).2) ps
    obtain ⟨hxf, hne⟩ := (hspliced.mem_frame_iff x).1 hxu
    rcases List.mem_cons.1 hx with rfl | hx
    · exact hne rfl
    · exact hgone x hx hxf

end Turn

namespace Asking

theorem start (hl : t.WellLinked) (hleaves : t.TextLeaves) (ps : Promotions) :
    Asking r t [] t.variableNodes [] ⟨t, [], [], ps⟩ where
  reduced := ⟨[], .refl hl hleaves, by simp⟩
  pending hx := by
    obtain ⟨hmem, hsome⟩ := List.mem_filter.1 hx
    have hxu := (hl.mem_descendants_iff.1 hmem).1
    exact ⟨List.mem_filter.2 ⟨hmem, by rw [hxu.text?_of_var hsome]; rfl⟩, rfl⟩
  names := rfl
  resolved_iff := ⟨fun hy => by simp at hy, fun hy => by simpa using hy.mem⟩
  sublist := .slnil
  skipped hx := by simp at hx
  valued hy := by simpa using hy.mem
  settled hx := by simp at hx

/-- What is above a variable whose turn comes is above it still if it has got a value. -/
theorem above_of_answered (ha : Asking r t seen hs asked st) (hx : x ∈ st.tree.frame)
    (hy : t.Answered r asked y) (habove : y ∈ t.ancestors x) : y ∈ st.tree.ancestors x := by
  obtain ⟨gone, hreduced, hgone⟩ := ha.reduced
  rw [hreduced.ancestors_eq hx, List.mem_filter]
  exact ⟨habove, by simpa using fun hmem => hgone y hmem (ha.valued hy).1⟩

/-- The next variable is inside of one that has got an answer. -/
theorem skip (ha : Asking r t seen (h :: hs) asked st) (hnot : h ∉ seen)
    (hhidden : ∃ y ∈ t.ancestors h, t.Answered r asked y) :
    Asking r t (seen ++ [h]) hs asked st :=
  { ha with
    pending := fun hx => ha.pending (List.mem_cons_of_mem _ hx)
    sublist := ha.sublist.trans (List.sublist_append_left ..)
    skipped := fun {x} hx => by
      rcases List.mem_append.1 hx with hx | hx
      · exact ha.skipped hx
      · obtain rfl := List.mem_singleton.1 hx
        exact iff_of_true (fun hmem => hnot (ha.sublist.subset hmem)) hhidden }

/-- The resolver is asked for the next variable. -/
theorem ask (ha : Asking r t seen (h :: hs) asked st) (hl : t.WellLinked) (hh : t.InUse h)
    (hnodup : (seen ++ h :: hs).Nodup) (hlater : ∀ x ∈ seen, h ∉ t.ancestors x)
    (hfree : ¬∃ y ∈ t.ancestors h, t.Answered r asked y) (hturn : Turn r t h st st') :
    Asking r t (seen ++ [h]) hs (asked ++ [h]) st' := by
  obtain ⟨gone, hr, hgone⟩ := hturn.reduced
  obtain ⟨gone', hrt, -⟩ := ha.reduced
  have hc := hturn.changed
  rw [List.nodup_append', List.nodup_cons] at hnodup
  obtain ⟨-, ⟨hnext, -⟩, hdisjoint⟩ := hnodup
  have hnot : h ∉ seen := fun hmem => hdisjoint hmem (List.mem_cons_self ..)
  have hasked {y : Handle} (hy : y ∈ asked) : y ≠ h := fun heq =>
    hnot (heq ▸ ha.sublist.subset hy)
  have hanswered {y : Handle} : t.Answered r (asked ++ [h]) y ↔
      t.Answered r asked y ∨ y = h ∧ (r st.asked (t.nameOf h)).isSome := by
    rw [answered_concat_iff, ha.names]
  constructor
  case reduced => exact hturn.reduced
  case pending =>
    intro x hx
    obtain ⟨hxf, hmarker⟩ := ha.pending (List.mem_cons_of_mem _ hx)
    obtain ⟨hxu, hsame⟩ := hc.kept hxf fun heq => hnext (heq ▸ hx)
    exact ⟨hxu, hsame.trans hmarker⟩
  case names => simp [hturn.names, ha.names]
  case resolved_iff =>
    intro y
    rw [hanswered, hturn.resolved_iff, ha.resolved_iff]
  case sublist => exact ha.sublist.append (.refl _)
  case skipped =>
    intro x hx
    rcases List.mem_append.1 hx with hxs | hx
    · -- The variable is not above those before it
      have hne : x ≠ h := fun heq => hnot (heq ▸ hxs)
      rw [List.mem_append, List.mem_singleton, or_iff_left hne, ha.skipped hxs]
      refine exists_congr fun y => and_congr_right fun hy => ?_
      rw [hanswered, or_iff_left]
      exact fun ⟨heq, _⟩ => hlater x hxs (heq ▸ hy)
    · obtain rfl := List.mem_singleton.1 hx
      refine iff_of_false (by simp) ?_
      rintro ⟨y, hy, hyanswered⟩
      rcases hanswered.1 hyanswered with hold | ⟨rfl, -⟩
      · exact hfree ⟨y, hy, hold⟩
      · exact Linked.not_mem_ancestors hl hh hy
  case valued =>
    intro y hy
    rcases hanswered.1 hy with hold | ⟨rfl, hsome⟩
    · obtain ⟨hyf, hv⟩ := ha.valued hold
      obtain ⟨hyu, hsame⟩ := hc.kept hyf (hasked hold.mem)
      refine ⟨hyu, ?_⟩
      exact ((hrt.wellLinked.inUse_of_mem_frame hyf).hasValue_congr
        (hr.wellLinked.inUse_of_mem_frame hyu) hsame).2 hv
    · exact hturn.valued hsome
  case settled =>
    intro x hx hxu hvar
    rcases List.mem_append.1 hx with hx | hx
    · have hxf := hc.frame hxu
      have hxt := hrt.wellLinked.inUse_of_mem_frame hxf
      have hxuse := hr.wellLinked.inUse_of_mem_frame hxu
      have hsame := (hc.kept hxf (hasked hx)).2
      rw [hxuse.var?_eq, hsame, ← hxt.var?_eq] at hvar
      exact (hxt.hasValue_congr hxuse hsame).2 (ha.settled hx hxf hvar)
    · obtain rfl := List.mem_singleton.1 hx
      exact hturn.settled hxu hvar

/-- The next variable is still what it was. So either it is hidden in one that has got an answer, and
nothing is done, or the resolver is asked for its name. -/
theorem turn (ha : Asking r t seen (h :: hs) asked st) (hl : t.WellLinked)
    (hv : h ∈ t.variableNodes) (hstep : st.step r h = some st') :
    (st' = st ∧ ∃ a ∈ st.resolved, st.tree.isAncestorOrSelf a h) ∨
      (∀ a ∈ st.resolved, ¬st.tree.isAncestorOrSelf a h) ∧ Turn r t h st st' := by
  obtain ⟨gone, hreduced, hgone⟩ := ha.reduced
  have hls := hreduced.wellLinked
  -- A variable whose turn is still to come is there as it was in the original
  obtain ⟨hh, hmarker⟩ := ha.pending (List.mem_cons_self ..)
  have hvar : st.tree.var? h = t.var? h := by
    rw [(hls.inUse_of_mem_frame hh).var?_eq, (hl.inUse_of_mem_variableNodes hv).var?_eq, hmarker]
  rcases step_cases hstep with ⟨rfl, hskip⟩ | ⟨k, hk, -, hfree, hdone⟩
  · rcases hskip (hls.isAttached_of_mem (mem_walk_of_mem_frame hh)) with hhidden | hnone
    · exact Or.inl ⟨rfl, List.any_eq_true.1 hhidden⟩
    · have hsome := isSome_of_mem_variableNodes hv
      simp [← hvar, hnone] at hsome
  · have hname : t.nameOf h = k.name := by
      rw [nameOf, ← hvar, hk]
      rfl
    refine Or.inr ⟨hfree, ?_⟩
    rcases hdone with ⟨s, hs, rfl⟩ | ⟨hnone, ps, u, hleave, rfl⟩
    · exact .of_answer hreduced hgone hh hv hname hs _
    · exact .of_leaveUnresolved hreduced hgone hh hv hname hnone hleave

/-- A variable has its turn. -/
theorem step (ha : Asking r t seen (h :: hs) asked st) (hl : t.WellLinked)
    (hv : h ∈ t.variableNodes) (hnodup : (seen ++ h :: hs).Nodup)
    (hlater : ∀ x ∈ seen, h ∉ t.ancestors x) (hstep : st.step r h = some st') :
    ∃ asked', Asking r t (seen ++ [h]) hs asked' st' := by
  obtain ⟨gone, hreduced, -⟩ := ha.reduced
  obtain ⟨hh, -⟩ := ha.pending (List.mem_cons_self ..)
  have hnot : h ∉ seen := fun hmem =>
    (List.nodup_append'.1 hnodup).2.2 hmem (List.mem_cons_self ..)
  rcases ha.turn hl hv hstep with ⟨rfl, a, hamem, habove⟩ | ⟨hfree, hturn⟩
  · have hanswered := ha.resolved_iff.1 hamem
    have hne : a ≠ h := fun heq => hnot (heq ▸ ha.sublist.subset hanswered.mem)
    exact ⟨asked, ha.skip hnot ⟨a, hreduced.ancestors_subset hh
      ((List.mem_cons.1 (isAncestorOrSelf_iff.1 habove)).resolve_left hne), hanswered⟩⟩
  -- An answer above the variable would have hidden it
  · have hnone : ¬∃ y ∈ t.ancestors h, t.Answered r asked y := by
      rintro ⟨y, hy, hanswered⟩
      refine hfree y (ha.resolved_iff.2 hanswered) (isAncestorOrSelf_iff.2 ?_)
      exact List.mem_cons_of_mem _ (ha.above_of_answered hh hanswered hy)
    exact ⟨_, ha.ask hl (hl.inUse_of_mem_variableNodes hv) hnodup hlater hnone hturn⟩

/-- All variables have their turns. -/
theorem run (ha : Asking r t seen hs asked st) (hl : t.WellLinked)
    (hsplit : t.variableNodes = seen ++ hs) (hrun : hs.foldlM (Resolution.step r) st = some st') :
    ∃ asked', Asking r t t.variableNodes [] asked' st' := by
  induction hs generalizing seen asked st with
  | nil =>
    rw [List.append_nil] at hsplit
    exact ⟨asked, hsplit ▸ Option.some.inj hrun ▸ ha⟩
  | cons h hs ih =>
    have hnodup := hl.nodup_variableNodes
    have hv : h ∈ t.variableNodes := by simp [hsplit]
    have hsub : t.variableNodes.Sublist (t.walk t.root) :=
      List.filter_sublist.trans (List.drop_sublist ..)
    have horder := (hl.pairwise_walk (Linked.root_inUse hl)).sublist hsub
    rw [hsplit] at hnodup horder
    -- In the order of the document a node stands behind those above it
    have hlater : ∀ x ∈ seen, h ∉ t.ancestors x := fun x hx =>
      (List.pairwise_append.1 horder).2.2 x hx h (List.mem_cons_self ..)
    rw [List.foldlM_cons] at hrun
    obtain ⟨st₁, hstep, hrun⟩ := Option.bind_eq_some_iff.1 hrun
    obtain ⟨asked₁, hnext⟩ := ha.step hl hv hnodup hlater hstep
    exact ih hnext (by rw [hsplit, List.append_assoc]; rfl) hrun

/-- When all variables have had their turn, each one that is left has a value or is hidden. -/
theorem hasValue_or_isHidden (ha : Asking r t t.variableNodes [] asked st) (hl : t.WellLinked)
    (hx : x ∈ st.tree.variableNodes) : st.tree.HasValue x ∨ st.tree.isHidden x := by
  obtain ⟨gone, hreduced, -⟩ := ha.reduced
  have hls := hreduced.wellLinked
  obtain ⟨hmem, hsome⟩ := List.mem_filter.1 hx
  have hxu := (hls.mem_descendants_iff.1 hmem).1
  have hxf : x ∈ st.tree.frame :=
    List.mem_filter.2 ⟨hmem, by rw [hxu.text?_of_var hsome]; rfl⟩
  have hxt := hreduced.before hxf
  -- It was a variable
  have hvar : x ∈ t.variableNodes := by
    refine List.mem_filter.2 ⟨(List.mem_filter.1 hxt).1, ?_⟩
    by_contra hnone
    rw [Option.not_isSome_iff_eq_none] at hnone
    have hsame := (hreduced.left hxt hnone).2
    rw [hxu.var?_eq, hsame, ← (hl.inUse_of_mem_frame hxt).var?_eq, hnone] at hsome
    simp at hsome
  by_cases hasked : x ∈ asked
  · exact Or.inl (ha.settled hasked hxf hsome)
  · obtain ⟨y, hy, hanswered⟩ := (ha.skipped hvar).1 hasked
    exact Or.inr (isHidden_iff.2 ⟨y, ha.above_of_answered hxf hanswered hy,
      (ha.valued hanswered).2⟩)

end Asking

/-! ## After the last variable -/

/-- What is no text when a document has been brought up to date was there before, below the same nodes,
and it was the same variable if it is one. -/
theorem WellLinked.left_settle (hl : t.WellLinked) (hcapacity : t.capacity ≤ 2 ^ 32)
    (hx : t.settle.InUse x) (htext : (t.settle.slotOf x).marker.text? = none) :
    t.InUse x ∧ t.settle.ancestors x = t.ancestors x ∧ t.settle.var? x = t.var? x := by
  have hlinks := sameLinks_assignPrimaries t
  have hrepeatable := hl.repeatable_assignPrimaries hcapacity
  obtain ⟨hk, hmarker⟩ :=
    hrepeatable.writes_repeatAll.kept_of_node hrepeatable.wellLinked hx htext
  have hxt := hlinks.inUse_iff.1 hk.before
  refine ⟨hxt, hk.ancestors_eq.trans (hlinks.ancestors_eq hl hxt), ?_⟩
  calc t.settle.var? x
      = (t.settle.slotOf x).marker.var? := hx.var?_eq
    _ = (t.assignPrimaries.slotOf x).marker.var? := congrArg Marker.var? hmarker
    _ = t.assignPrimaries.var? x := hk.before.var?_eq.symm
    _ = t.var? x := var?_assignPrimaries hxt

/-- If each variable has a value or is hidden, that stays so when the document is brought up to date. -/
theorem WellLinked.settle_valued (hl : t.WellLinked) (hleaves : t.TextLeaves)
    (hcapacity : t.capacity ≤ 2 ^ 32)
    (hall : ∀ x ∈ t.variableNodes, t.HasValue x ∨ t.isHidden x) :
    ∀ x ∈ t.settle.variableNodes, t.settle.HasValue x ∨ t.settle.isHidden x := by
  obtain ⟨hsteady, -, hleaves⟩ := hleaves.settle hl hcapacity
  have hlu := hsteady.wellLinked
  have hremains := (hl.repeatable_assignPrimaries hcapacity).remains_repeatAll.1
  have hroot : t.settle.root = t.root :=
    hremains.root_eq.trans (sameLinks_assignPrimaries t).root_eq
  intro x hx
  obtain ⟨hmem, hsome⟩ := List.mem_filter.1 hx
  obtain ⟨hxu, hbelow⟩ := hlu.mem_descendants_iff.1 hmem
  obtain ⟨hxt, hancestors, hvar⟩ := hl.left_settle hcapacity hxu (hxu.text?_of_var hsome)
  rw [hroot, hancestors] at hbelow
  rw [hvar] at hsome
  have hold : x ∈ t.variableNodes :=
    List.mem_filter.2 ⟨hl.mem_descendants_iff.2 ⟨hxt, hbelow⟩, hsome⟩
  rcases hall x hold with hv | hhidden
  · left
    rw [HasValue, hvar]
    exact hv
  · right
    -- What is above the variable is no text, so it was above it before and had the value
    obtain ⟨y, hy, hv⟩ := isHidden_iff.1 hhidden
    rw [← hancestors] at hy
    have hyu := Linked.ancestors_inUse hlu hxu y hy
    have hytext := hleaves.above hlu (List.mem_of_mem_drop hmem) hy
    obtain ⟨-, -, hyvar⟩ := hl.left_settle hcapacity hyu hytext
    refine isHidden_iff.2 ⟨y, hy, ?_⟩
    rw [HasValue, hyvar]
    exact hv

/-- When the variables of a tree are resolved, all of them have their turns, and then the tree is brought
up to date. -/
theorem WellLinked.resolveVariables?_asks (hl : t.WellLinked) (hleaves : t.TextLeaves)
    {names : List String} (hresolve : t.resolveVariables? r = some (names, u)) :
    ∃ st asked, Asking r t t.variableNodes [] asked st ∧ names = asked.map t.nameOf ∧
      u = st.tree.settle := by
  obtain ⟨-, st, hrun, rfl, rfl⟩ := resolveVariables?_cases hresolve
  obtain ⟨asked, ha⟩ := (Asking.start hl hleaves _).run hl rfl hrun
  exact ⟨st, asked, ha, by rw [ha.names, List.reverse_reverse], rfl⟩

end TabStop.Tree
