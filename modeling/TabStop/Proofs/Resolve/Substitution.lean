import TabStop.Proofs.Canonical.FixedPoint
import TabStop.Proofs.Resolve.Room
import TabStop.Proofs.Document.Splicing

/-!
# The tab stops of a tree whose variables have been resolved

Resolving leaves all nodes of the frame but variables what they are and where they are; of what is
above them, some variables may be gone. A variable with a value hides what is in it. But a tab stop
that has come to stand for a variable is never hidden: the variables around it have been asked for
before, and have got no value. Nor has it the index of a tab stop that was there before.
-/

namespace TabStop.Tree

variable {t u v : Tree} {h p q x : Handle} {hs gone : List Handle} {m : Marker} {r : Resolver}
  {st st' : Resolution}

/-! ## Variables with values -/

theorem HasValue.isSome (hv : t.HasValue x) : (t.var? x).isSome := by
  cases hx : t.var? x with
  | none => simp [HasValue, hx] at hv
  | some v => rfl

theorem InUse.text?_of_var (hx : t.InUse x) (hv : (t.var? x).isSome) :
    (t.slotOf x).marker.text? = none := by
  rw [hx.var?_eq] at hv
  cases hm : (t.slotOf x).marker <;> simp [hm, Marker.var?] at hv
  rfl

theorem InUse.var?_of_placeholder (hx : t.InUse x) (hp : (t.placeholder? x).isSome) :
    t.var? x = none := by
  rw [hx.placeholder?_eq] at hp
  rw [hx.var?_eq]
  cases hm : (t.slotOf x).marker <;> simp [hm, Marker.placeholder?, Marker.var?] at hp ⊢

theorem isHidden_setMarker (hl : t.WellLinked) (hh : t.InUse h) (hx : t.InUse x)
    (hnot : h ∉ t.ancestors x) (m : Marker) : (t.setMarker h m).isHidden x = t.isHidden x := by
  have hlinks := sameLinks_setMarker t h m
  rw [Bool.eq_iff_iff, isHidden_iff, isHidden_iff, hlinks.ancestors_eq hl hx]
  refine exists_congr fun a => and_congr_right fun ha => ?_
  have hau := Linked.ancestors_inUse hl hx a ha
  have hah : a ≠ h := fun heq => hnot (heq ▸ ha)
  exact hau.hasValue_congr (hlinks.inUse_iff.2 hau) (by rw [marker_setMarker hh hau, if_neg hah])

/-- What is above a node of the frame is the root or of the frame. -/
theorem WellLinked.above_frame (hl : t.WellLinked) (hleaves : t.TextLeaves) (hx : x ∈ t.frame)
    (hp : p ∈ t.ancestors x) : p = t.root ∨ p ∈ t.frame := by
  have hxwalk := mem_walk_of_mem_frame hx
  have hpwalk := hl.mem_walk_root_of_above hxwalk (isAncestorOrSelf_iff.2 (List.mem_cons_of_mem _ hp))
  have hroot := Linked.root_inUse hl
  refine Decidable.or_iff_not_imp_left.2 fun hne => hl.mem_frame_iff.2 ⟨?_, ?_, ?_⟩
  · exact hl.mem_walk_root_inUse hpwalk
  · exact (hl.mem_walk_of_ne hroot (hl.mem_walk_root_inUse hpwalk) hne).1 hpwalk
  · exact hleaves.above hl hxwalk hp

theorem WellLinked.mem_frame_of_isAttached (hl : t.WellLinked) (ha : t.isAttached h)
    (hne : h ≠ t.root) (htext : t.InUse h → (t.slotOf h).marker.text? = none) : h ∈ t.frame := by
  have habove : t.root ∈ t.ancestors h := by
    simp only [isAttached, Bool.and_eq_true, Bool.or_eq_true, beq_iff_eq, hne, false_or] at ha
    exact List.mem_of_getLast? ha.2
  have hinUse := hl.inUse_of_mem_ancestors habove
  exact hl.mem_frame_iff.2 ⟨hinUse, habove, htext hinUse⟩

theorem WellLinked.mem_frame_of_setMarker (hl : t.WellLinked) (hh : h ∈ t.frame)
    (hx : x ∈ (t.setMarker h m).frame) : x ∈ t.frame := by
  have hlinks := sameLinks_setMarker t h m
  obtain ⟨hxu, habove, htext⟩ := (hlinks.wellLinked hl).mem_frame_iff.1 hx
  have hxt := hlinks.inUse_iff.1 hxu
  by_cases hxh : x = h
  · exact hxh ▸ hh
  · rw [marker_setMarker (hl.inUse_of_mem_frame hh) hxt, if_neg hxh] at htext
    rw [hlinks.ancestors_eq hl hxt, hlinks.root_eq] at habove
    exact hl.mem_frame_iff.2 ⟨hxt, habove, htext⟩

/-! ## What resolving leaves -/

/-- What is true of a tree in which variables of `t` have been made into something else. The
variables `gone` have left their children in their place. -/
structure Reduced (t : Tree) (gone : List Handle) (u : Tree) : Prop where
  wellLinked : u.WellLinked
  identity : u.identity = t.identity
  capacity : u.capacity = t.capacity
  leaves : u.TextLeaves
  root_marker : (u.slotOf t.root).marker = (t.slotOf t.root).marker
  subset : gone ⊆ t.variableNodes
  before {x : Handle} : x ∈ u.frame → x ∈ t.frame
  left {x : Handle} : x ∈ t.frame → t.var? x = none →
    x ∈ u.frame ∧ (u.slotOf x).marker = (t.slotOf x).marker
  ancestors_eq {x : Handle} : x ∈ u.frame → u.ancestors x = (t.ancestors x).filter (· ∉ gone)

theorem isSome_of_mem_variableNodes (hx : x ∈ t.variableNodes) : (t.var? x).isSome :=
  (List.mem_filter.1 hx).2

namespace Reduced

theorem refl (hl : t.WellLinked) (hleaves : t.TextLeaves) : Reduced t [] t where
  wellLinked := hl
  identity := rfl
  capacity := rfl
  leaves := hleaves
  root_marker := rfl
  subset := List.nil_subset _
  before := id
  left hx _ := ⟨hx, rfl⟩
  ancestors_eq _ := by simp

theorem root_eq (hr : Reduced t gone u) : u.root = t.root := by simp [root, hr.identity]

/-- A variable has been made into something else, which is text only if there is nothing in it. -/
theorem setMarker (hr : Reduced t gone u) (hh : h ∈ u.frame) (hv : h ∈ t.variableNodes)
    (hm : m.text?.isSome → (u.slotOf h).children = []) : Reduced t gone (u.setMarker h m) := by
  have hl := hr.wellLinked
  have hlinks := sameLinks_setMarker u h m
  have hlv := hlinks.wellLinked hl
  obtain ⟨hhu, habove, htext⟩ := hl.mem_frame_iff.1 hh
  have hmarker {x : Handle} (hx : u.InUse x) :
      ((u.setMarker h m).slotOf x).marker = if x = h then m else (u.slotOf x).marker :=
    marker_setMarker hhu hx m
  -- The variable is not the root, so the marker of the root stays
  have hrooth : u.root ≠ h := by
    rintro rfl
    simp [hl.ancestors_root] at habove
  constructor
  case wellLinked => exact hlv
  case identity => exact hlinks.identity.trans hr.identity
  case capacity => exact hlinks.size.trans hr.capacity
  case leaves =>
    intro x hx hxtext
    rw [hlinks.walk_eq, hlinks.root_eq] at hx
    rw [hmarker (hl.mem_walk_root_inUse hx)] at hxtext
    rw [hlinks.children]
    split at hxtext
    · next hxh => exact hxh ▸ hm hxtext
    · exact hr.leaves x hx hxtext
  case root_marker =>
    rw [← hr.root_marker, ← hr.root_eq, hmarker (Linked.root_inUse hl), if_neg hrooth]
  case subset => exact hr.subset
  case before => exact fun hx => hr.before (hl.mem_frame_of_setMarker hh hx)
  case left =>
    intro x hx hnone
    obtain ⟨hxu, hsame⟩ := hr.left hx hnone
    have hxh : x ≠ h := by
      rintro rfl
      simpa [hnone] using isSome_of_mem_variableNodes hv
    obtain ⟨hxuse, hxabove, hxtext⟩ := hl.mem_frame_iff.1 hxu
    have hxmarker := hmarker hxuse
    rw [if_neg hxh] at hxmarker
    refine ⟨hlv.mem_frame_iff.2 ⟨hlinks.inUse_iff.2 hxuse, ?_, by rw [hxmarker, hxtext]⟩,
      hxmarker.trans hsame⟩
    rwa [hlinks.ancestors_eq hl hxuse, hlinks.root_eq]
  case ancestors_eq =>
    intro x hx
    have hxu := hl.mem_frame_of_setMarker hh hx
    rw [hlinks.ancestors_eq hl (hl.inUse_of_mem_frame hxu), hr.ancestors_eq hxu]

/-- A variable has left its children in its place. -/
theorem splice (hr : Reduced t gone u) (hv : h ∈ t.variableNodes) (hs : Spliced u h v) :
    Reduced t (h :: gone) v where
  wellLinked := hs.wellLinked
  identity := hs.identity.trans hr.identity
  capacity := hs.capacity.trans hr.capacity
  leaves := hs.leaves
  root_marker := by
    rw [← hr.root_marker, ← hr.root_eq]
    exact hs.root_marker
  subset := List.cons_subset.2 ⟨hv, hr.subset⟩
  before hx := hr.before ((hs.mem_frame_iff _).1 hx).1
  left {x} hx hnone := by
    obtain ⟨hxu, hsame⟩ := hr.left hx hnone
    have hxh : x ≠ h := by
      rintro rfl
      simpa [hnone] using isSome_of_mem_variableNodes hv
    have hxv := (hs.mem_frame_iff x).2 ⟨hxu, hxh⟩
    exact ⟨hxv, (hs.marker hxv).trans hsame⟩
  ancestors_eq {x} hx := by
    -- Left out on the way up are the nodes that went before, and now this one
    rw [hs.ancestors_eq hx, hr.ancestors_eq ((hs.mem_frame_iff x).1 hx).1, List.filter_filter]
    exact List.filter_congr fun y _ => by simp [not_or]

theorem ancestors_subset (hr : Reduced t gone u) (hx : x ∈ u.frame) :
    u.ancestors x ⊆ t.ancestors x := by
  rw [hr.ancestors_eq hx]
  exact List.filter_subset_self _

/-- A variable with a value above a node of the frame is of the frame. -/
theorem mem_frame_of_hasValue (hr : Reduced t gone u) (hroot : ¬ t.HasValue t.root)
    (hl : t.WellLinked) (hx : x ∈ u.frame) (hp : p ∈ u.ancestors x) (hv : u.HasValue p) :
    p ∈ u.frame := by
  refine (hr.wellLinked.above_frame hr.leaves hx hp).resolve_left ?_
  rintro rfl
  rw [hr.root_eq] at hv
  exact hroot (((Linked.root_inUse hl).hasValue_congr
    (hr.root_eq ▸ Linked.root_inUse hr.wellLinked) hr.root_marker).1 hv)

end Reduced

/-! ## Variables one by one -/

/-- In TextMate a variable without value is made into a text if there is nothing in it, or a tab stop. -/
theorem leaveUnresolved_textMate (hd : u.dialect = .textMate) {ps ps' : Promotions} {k : Variable}
    (hleft : leaveUnresolved ps h k u = some (ps', v)) :
    (∃ s, u.children h = [] ∧ ps' = ps ∧ v = u.setMarker h (.text s)) ∨
      ∃ i, ps.indexFor? k.name = some (i, ps') ∧
        v = u.setMarker h (.placeholder { index := i, transform := k.transform }) := by
  simp only [leaveUnresolved, hd] at hleft
  split at hleft
  · obtain ⟨⟨i, qs⟩, hi, heq⟩ := Option.map_eq_some_iff.1 hleft
    obtain ⟨rfl, rfl⟩ := Prod.mk.inj heq
    exact Or.inr ⟨i, hi, rfl⟩
  · next hempty =>
    obtain ⟨rfl, rfl⟩ := Prod.mk.inj (Option.some.inj hleft)
    rw [Bool.or_eq_true, not_or] at hempty
    exact Or.inl ⟨_, by simpa using hempty.1, rfl, rfl⟩

/-- What a variable without value is made into: a text if there is nothing in it, or a tab stop; or its
children take its place. -/
theorem leaveUnresolved_cases (hl : u.WellLinked) (hleaves : u.TextLeaves) (hh : h ∈ u.frame)
    {ps ps' : Promotions} {k : Variable} (hleft : leaveUnresolved ps h k u = some (ps', v)) :
    (∃ s, (u.slotOf h).children = [] ∧ ps' = ps ∧ v = u.setMarker h (.text s)) ∨
      (∃ i, ps.indexFor? k.name = some (i, ps') ∧
        v = u.setMarker h (.placeholder { index := i, transform := k.transform })) ∨
      ps' = ps ∧ Spliced u h v := by
  have hchildren := WellLinked.children_eq (hl.inUse_of_mem_frame hh)
  -- UltiSnips puts the default in place of the variable, or its name as text. TextMate makes a tab
  -- stop of it, or the same text
  cases hd : u.dialect with
  | ultiSnips =>
    simp only [leaveUnresolved, hchildren, hd] at hleft
    split at hleft
    · obtain ⟨rfl, rfl⟩ := Prod.mk.inj (Option.some.inj hleft)
      obtain ⟨w, hperform, hspliced⟩ := hl.splice hleaves hh
      rw [after_of_perform hperform]
      exact Or.inr (Or.inr ⟨rfl, hspliced⟩)
    · next hempty =>
      obtain ⟨rfl, rfl⟩ := Prod.mk.inj (Option.some.inj hleft)
      exact Or.inl ⟨_, by simpa using hempty, rfl, rfl⟩
  | textMate =>
    rcases leaveUnresolved_textMate hd hleft with htext | hplaceholder
    · rw [hchildren] at htext
      exact Or.inl htext
    · exact Or.inr (Or.inl hplaceholder)

/-- What a step does: nothing, or the resolver is asked for a variable that is not hidden in one that has
been resolved, and the variable gets the answer or is made into something else. -/
theorem step_cases (hstep : st.step r h = some st') :
    (st' = st ∧ (st.tree.isAttached h →
        st.resolved.any (st.tree.isAncestorOrSelf · h) ∨ st.tree.var? h = none)) ∨
      ∃ k, st.tree.var? h = some k ∧ st.tree.isAttached h ∧
        (∀ a ∈ st.resolved, ¬ st.tree.isAncestorOrSelf a h) ∧
        ((∃ s, r st.asked k.name = some s ∧
            st' = ⟨st.tree.setMarker h (.var { k with
              value := some (Transform.resolveBy k.transform s) }), k.name :: st.asked,
                st.resolved ++ [h], st.promotions⟩) ∨
          (r st.asked k.name = none ∧ ∃ ps u,
            leaveUnresolved st.promotions h k st.tree = some (ps, u) ∧
              st' = ⟨u, k.name :: st.asked, st.resolved, ps⟩)) := by
  unfold Resolution.step at hstep
  dsimp only at hstep
  -- A variable is passed over if it is not attached or is hidden by an answer
  split at hstep
  · next hskip =>
    refine Or.inl ⟨(Option.some.inj hstep).symm, fun hattached => Or.inl ?_⟩
    simpa [hattached] using hskip
  next hturn =>
  rw [Bool.or_eq_true, not_or, Bool.not_eq_true', Bool.not_eq_false] at hturn
  obtain ⟨hattached, hfree⟩ := hturn
  split at hstep
  · next hnone => exact Or.inl ⟨(Option.some.inj hstep).symm, fun _ => Or.inr hnone⟩
  next k hk =>
  refine Or.inr ⟨k, hk, hattached, fun a ha habove => hfree (List.any_eq_true.2 ⟨a, ha, habove⟩), ?_⟩
  split at hstep
  · next s hs => exact Or.inl ⟨s, hs, (Option.some.inj hstep).symm⟩
  · next hnone =>
    obtain ⟨⟨ps, u⟩, hleft, rfl⟩ := Option.map_eq_some_iff.1 hstep
    exact Or.inr ⟨hnone, ps, u, hleft, rfl⟩

/-- An index is above those of the tab stops of a tree. -/
def IsNew (t : Tree) (i : TabIndex) : Prop :=
  ∃ n, t.highestIndex < n ∧ n < TabIndex.maxWhole ∧ i = .ofNat n

/-- The indexes that have been given out, and those that will be, are new in a tree. -/
structure GivesNew (t : Tree) (ps : Promotions) : Prop where
  next : t.highestIndex < ps.next
  given : ∀ i ∈ ps.given, t.IsNew i.2

/-- A name has an index already, or it gets the next one. -/
theorem indexFor?_cases {ps ps' : Promotions} {name : String} {i : TabIndex}
    (hi : ps.indexFor? name = some (i, ps')) :
    (ps.given.lookup name = some i ∧ ps' = ps) ∨
      (ps.given.lookup name = none ∧ ps.next < TabIndex.maxWhole ∧ i = .ofNat ps.next ∧
        ps' = ⟨(name, i) :: ps.given, ps.next + 1⟩) := by
  unfold Promotions.indexFor? at hi
  split at hi
  · next hlookup =>
    obtain ⟨rfl, rfl⟩ := Prod.mk.inj (Option.some.inj hi)
    exact Or.inl ⟨hlookup, rfl⟩
  · next hlookup =>
    split at hi
    · next hlt =>
      obtain ⟨rfl, rfl⟩ := Prod.mk.inj (Option.some.inj hi)
      exact Or.inr ⟨hlookup, hlt, rfl, rfl⟩
    · simp at hi

theorem GivesNew.indexFor? {ps ps' : Promotions} {name : String} {i : TabIndex}
    (hps : t.GivesNew ps) (hi : ps.indexFor? name = some (i, ps')) : t.IsNew i ∧ t.GivesNew ps' := by
  rcases indexFor?_cases hi with ⟨hlookup, rfl⟩ | ⟨-, hlt, rfl, rfl⟩
  · exact ⟨hps.given _ (Counted.mem_of_lookup hlookup), hps⟩
  · have hnew : t.IsNew (.ofNat ps.next) := ⟨ps.next, hps.next, hlt, rfl⟩
    exact ⟨hnew, Nat.lt_succ_of_lt hps.next, List.forall_mem_cons.2 ⟨hnew, hps.given⟩⟩

/-- A tab stop that has come to stand for a variable of `t` is not hidden, and its index is new. -/
structure Promoted (t : Tree) (q : Handle) (u : Tree) : Prop where
  shown : u.isHidden q = false
  index : ∃ i, u.index? q = some i ∧ t.IsNew i

/-- What is true when the variables `hs` of a tree `t` are still to be resolved. -/
structure Resolving (t : Tree) (hs : List Handle) (st : Resolution) : Prop where
  reduced : ∃ gone, Reduced t gone st.tree
  valued {x : Handle} : x ∈ st.tree.frame → st.tree.HasValue x → x ∈ st.resolved
  promoted {q : Handle} : q ∈ st.tree.frame → (t.var? q).isSome → (st.tree.placeholder? q).isSome →
    (∀ h ∈ hs, h ∉ t.ancestors q) ∧ Promoted t q st.tree
  givesNew : t.GivesNew st.promotions

namespace Resolving

/-- Nothing is done about the next variable. -/
theorem skip (hr : Resolving t (h :: hs) st) : Resolving t hs st :=
  { hr with
    promoted := fun hq hvar hp => by
      obtain ⟨habove, hpromoted⟩ := hr.promoted hq hvar hp
      exact ⟨fun k hk => habove k (List.mem_cons_of_mem _ hk), hpromoted⟩ }

/-- The next variable becomes something else: one with a value is remembered, and a tab stop has a new
index and is not hidden. -/
theorem become (hr : Resolving t (h :: hs) st) (hh : h ∈ st.tree.frame) (hv : h ∈ t.variableNodes)
    (hlater : ∀ k ∈ hs, k ∉ t.ancestors h) (hshown : st.tree.isHidden h = false)
    (htext : m.text?.isSome → (st.tree.slotOf h).children = [])
    (hindex : ∀ k, m.placeholder? = some k → t.IsNew k.index) {resolved : List Handle}
    (hsub : st.resolved ⊆ resolved) (hvalue : (m.var?.bind (·.value)).isSome → h ∈ resolved)
    {promotions : Promotions} (hnew : t.GivesNew promotions) (asked : List String) :
    Resolving t hs ⟨st.tree.setMarker h m, asked, resolved, promotions⟩ := by
  obtain ⟨gone, hreduced⟩ := hr.reduced
  have hl := hreduced.wellLinked
  have hlinks := sameLinks_setMarker st.tree h m
  have hhu := hl.inUse_of_mem_frame hh
  have hmarker {x : Handle} (hx : st.tree.InUse x) :
      ((st.tree.setMarker h m).slotOf x).marker = if x = h then m else (st.tree.slotOf x).marker :=
    marker_setMarker hhu hx m
  have hbecame := hreduced.setMarker hh hv htext
  have hself : h ∉ st.tree.ancestors h := Linked.not_mem_ancestors hl hhu
  have hframe {x : Handle} (hx : x ∈ (st.tree.setMarker h m).frame) : x ∈ st.tree.frame :=
    hl.mem_frame_of_setMarker hh hx
  have hinUse {x : Handle} (hx : x ∈ (st.tree.setMarker h m).frame) : st.tree.InUse x :=
    hl.inUse_of_mem_frame (hframe hx)
  refine ⟨⟨gone, hbecame⟩, fun {x} hx hxv => ?_, fun {q} hq hvar hp => ?_, hnew⟩
  · by_cases hxh : x = h
    · subst hxh
      rw [HasValue, (hlinks.inUse_iff.2 hhu).var?_eq, hmarker hhu, if_pos rfl] at hxv
      exact hvalue hxv
    · refine hsub (hr.valued (hframe hx) ?_)
      exact ((hinUse hx).hasValue_congr (hlinks.inUse_iff.2 (hinUse hx))
        (by rw [hmarker (hinUse hx), if_neg hxh])).1 hxv
  · have hqu := hinUse hq
    have hplaceholder := (hlinks.inUse_iff.2 hqu).placeholder?_eq
    rw [hmarker hqu] at hplaceholder
    by_cases hqh : q = h
    · subst hqh
      rw [if_pos rfl] at hplaceholder
      rw [hplaceholder] at hp
      obtain ⟨k, hk⟩ := Option.isSome_iff_exists.1 hp
      refine ⟨hlater, ?_, k.index, ?_, hindex k hk⟩
      · rw [isHidden_setMarker hl hhu hqu hself, hshown]
      · rw [index?, hplaceholder, hk, Option.map_some]
    · rw [if_neg hqh, ← hqu.placeholder?_eq] at hplaceholder
      rw [hplaceholder] at hp
      obtain ⟨habove, hpromoted⟩ := hr.promoted (hframe hq) hvar hp
      have hnot : h ∉ st.tree.ancestors q := fun hmem =>
        habove h (List.mem_cons_self ..) (hreduced.ancestors_subset (hframe hq) hmem)
      refine ⟨fun k hk => habove k (List.mem_cons_of_mem _ hk), ?_, ?_⟩
      · rw [isHidden_setMarker hl hhu hqu hnot, hpromoted.shown]
      · rw [index?, hplaceholder]
        exact hpromoted.index

/-- The next variable leaves its children in its place. -/
theorem splice (hr : Resolving t (h :: hs) st) (hl : t.WellLinked) (hroot : ¬ t.HasValue t.root)
    (hv : h ∈ t.variableNodes) (hs' : Spliced st.tree h u) (asked : List String) :
    Resolving t hs ⟨u, asked, st.resolved, st.promotions⟩ := by
  obtain ⟨gone, hreduced⟩ := hr.reduced
  have hlt := hreduced.wellLinked
  have hspliced := hreduced.splice hv hs'
  have hframe {x : Handle} (hx : x ∈ u.frame) : x ∈ st.tree.frame := ((hs'.mem_frame_iff x).1 hx).1
  have hvalue {x : Handle} (hx : x ∈ u.frame) (hxv : u.HasValue x) : st.tree.HasValue x :=
    ((hlt.inUse_of_mem_frame (hframe hx)).hasValue_congr (hs'.wellLinked.inUse_of_mem_frame hx)
      (hs'.marker hx)).1 hxv
  refine ⟨⟨_, hspliced⟩, fun hx hxv => hr.valued (hframe hx) (hvalue hx hxv),
    fun {q} hq hvar hp => ?_, hr.givesNew⟩
  have hplaceholder : u.placeholder? q = st.tree.placeholder? q := by
    rw [(hs'.wellLinked.inUse_of_mem_frame hq).placeholder?_eq,
      (hlt.inUse_of_mem_frame (hframe hq)).placeholder?_eq, hs'.marker hq]
  rw [hplaceholder] at hp
  obtain ⟨habove, hpromoted⟩ := hr.promoted (hframe hq) hvar hp
  refine ⟨fun k hk => habove k (List.mem_cons_of_mem _ hk), ?_, ?_⟩
  · rw [Bool.eq_false_iff, Ne, isHidden_iff]
    rintro ⟨a, ha, hav⟩
    have haf := hspliced.mem_frame_of_hasValue hroot hl hq ha hav
    rw [hs'.ancestors_eq hq, List.mem_filter] at ha
    have hhidden : st.tree.isHidden q := isHidden_iff.2 ⟨a, ha.1, hvalue haf hav⟩
    simp [hpromoted.shown] at hhidden
  · rw [index?, hplaceholder]
    exact hpromoted.index

/-- The next variable has no value. -/
theorem leave (hr : Resolving t (h :: hs) st) (hl : t.WellLinked) (hroot : ¬ t.HasValue t.root)
    (hh : h ∈ st.tree.frame) (hv : h ∈ t.variableNodes) (hlater : ∀ k ∈ hs, k ∉ t.ancestors h)
    (hshown : st.tree.isHidden h = false) {k : Variable} {promotions : Promotions}
    (hleft : leaveUnresolved st.promotions h k st.tree = some (promotions, u)) (asked : List String) :
    Resolving t hs ⟨u, asked, st.resolved, promotions⟩ := by
  obtain ⟨gone, hreduced⟩ := hr.reduced
  rcases leaveUnresolved_cases hreduced.wellLinked hreduced.leaves hh hleft with
    ⟨s, hnil, rfl, rfl⟩ | ⟨i, hi, rfl⟩ | ⟨rfl, hspliced⟩
  · exact hr.become hh hv hlater hshown (fun _ => hnil) (by simp [Marker.placeholder?])
      (List.Subset.refl _) (by simp [Marker.var?]) hr.givesNew asked
  · obtain ⟨hnew, hps⟩ := hr.givesNew.indexFor? hi
    refine hr.become hh hv hlater hshown (by simp [Marker.text?]) ?_ (List.Subset.refl _)
      (by simp [Marker.var?]) hps asked
    rintro k hk
    obtain rfl := Option.some.inj hk
    exact hnew
  · exact hr.splice hl hroot hv hspliced asked

theorem step (hr : Resolving t (h :: hs) st) (hl : t.WellLinked) (hroot : ¬ t.HasValue t.root)
    (hv : h ∈ t.variableNodes) (hlater : ∀ k ∈ hs, k ∉ t.ancestors h)
    (hstep : st.step r h = some st') : Resolving t hs st' := by
  obtain ⟨gone, hreduced⟩ := hr.reduced
  have hlt := hreduced.wellLinked
  have hne : h ≠ st.tree.root := by
    rw [hreduced.root_eq]
    rintro rfl
    have habove := (hl.mem_descendants_iff.1 (List.mem_filter.1 hv).1).2
    simp [hl.ancestors_root] at habove
  rcases step_cases hstep with ⟨rfl, -⟩ | ⟨k, hk, hattached, hfree, hdone⟩
  · exact hr.skip
  -- It is a variable still, and none around it has a value
  have hh : h ∈ st.tree.frame := hlt.mem_frame_of_isAttached hattached hne
    fun hhu => hhu.text?_of_var (by rw [hk]; rfl)
  have hshown : st.tree.isHidden h = false := by
    rw [Bool.eq_false_iff, Ne, isHidden_iff]
    rintro ⟨a, ha, hav⟩
    have haf := hreduced.mem_frame_of_hasValue hroot hl hh ha hav
    exact hfree a (hr.valued haf hav) (isAncestorOrSelf_iff.2 (List.mem_cons_of_mem _ ha))
  rcases hdone with ⟨s, -, rfl⟩ | ⟨-, promotions, u, hleft, rfl⟩
  · exact hr.become hh hv hlater hshown (by simp [Marker.text?]) (by simp [Marker.placeholder?])
      (List.subset_append_left ..) (by simp) hr.givesNew _
  · exact hr.leave hl hroot hh hv hlater hshown hleft _

/-- What is true at the start, when no variable has a value. -/
theorem start (hl : t.WellLinked) (hleaves : t.TextLeaves)
    (hnone : ∀ x ∈ t.walk t.root, ¬ t.HasValue x) :
    Resolving t t.variableNodes ⟨t, [], [], ⟨[], t.highestIndex + 1⟩⟩ where
  reduced := ⟨[], .refl hl hleaves⟩
  valued hx hxv := absurd hxv (hnone _ (mem_walk_of_mem_frame hx))
  promoted {q} hq hvar hp := by
    simp [(hl.inUse_of_mem_frame hq).var?_of_placeholder hp] at hvar
  givesNew := ⟨Nat.lt_succ_self _, by simp⟩

/-- What all steps do. -/
theorem run (hr : Resolving t hs st) (hl : t.WellLinked) (hroot : ¬ t.HasValue t.root)
    (hsub : hs ⊆ t.variableNodes) (horder : hs.Pairwise fun x y => y ∉ t.ancestors x)
    (hrun : hs.foldlM (Resolution.step r) st = some st') : Resolving t [] st' := by
  induction hs generalizing st with
  | nil => exact Option.some.inj hrun ▸ hr
  | cons h hs ih =>
    obtain ⟨hv, hsub⟩ := List.cons_subset.1 hsub
    obtain ⟨hlater, horder⟩ := List.pairwise_cons.1 horder
    rw [List.foldlM_cons] at hrun
    obtain ⟨st₁, hstep, hrun⟩ := Option.bind_eq_some_iff.1 hrun
    exact ih (hr.step hl hroot hv hlater hstep) hsub horder hrun

end Resolving

/-! ## Whole snippets -/

/-- A tree as it is before any variable is resolved: text has nothing below it, and no variable has a
value. -/
structure Unresolved (t : Tree) : Prop where
  root : (t.slotOf t.root).marker = .root
  leaves : t.TextLeaves
  novalue : ∀ x ∈ t.walk t.root, ¬ t.HasValue x

end TabStop.Tree

namespace TabStop

open Grammar

/-- What is read from a source has no values. -/
theorem Outline.Readable.value_eq_none {d : Dialect} {o : Outline} (ho : o.Readable d) :
    ∀ m ∈ o.markers, m.var?.bind (·.value) = none :=
  ho.forall_markers (fun h => by cases h <;> rfl) fun _ => rfl

namespace Tree

variable {t u : Tree} {c x : Handle} {ms : List Handle}

theorem unresolved_ofSource (identity : Nat) (d : Dialect) (source : String) :
    (ofSource identity d source).Unresolved := by
  obtain ⟨row, hrow, htells⟩ := readable_ofSource d source
  obtain ⟨hshows, hsize⟩ := shows_ofSource identity htells
  have hmarkers := hshows.descendants_markers hsize
  have hleaves : (ofSource identity d source).TextLeaves := fun x hx =>
    text_children_ofSource identity d source hx
  have hl := (grown_ofSource identity d source).1
  revert hshows hmarkers hleaves hl
  generalize ofSource identity d source = t
  rintro ⟨-, hroot, -⟩ hmarkers hleaves hl
  have hrootu := Linked.root_inUse hl
  refine ⟨hroot, hleaves, fun x hx => ?_⟩
  rw [hl.walk_eq hrootu, ← hl.descendants_eq hrootu, List.mem_cons] at hx
  -- The root is no variable, and the grammar gives no variable a value
  rcases hx with rfl | hx
  · rw [HasValue, hrootu.var?_eq, hroot]
    simp [Marker.var?]
  · have hmem : t.marker? x ∈ ((Outline.node .root row).markers.drop 1).map some :=
      hmarkers ▸ List.mem_map_of_mem hx
    obtain ⟨m, hm, hmx⟩ := List.mem_map.1 hmem
    obtain ⟨o, ho, hmo⟩ := Outline.mem_markersAll.1 hm
    rw [HasValue, var?, ← hmx, Option.bind_some, (hrow.readable o ho).value_eq_none m hmo]
    simp

theorem var?_assignPrimaries (hx : t.InUse x) : t.assignPrimaries.var? x = t.var? x := by
  have hvar (m : Marker) : m.unmarked.var? = m.var? := by cases m <;> rfl
  have hxu := (sameLinks_assignPrimaries t).inUse_iff.2 hx
  rw [hx.var?_eq, hxu.var?_eq, ← hvar, unmarked_assignPrimaries, hvar]

theorem hasValue_assignPrimaries (hx : t.InUse x) : t.assignPrimaries.HasValue x ↔ t.HasValue x := by
  rw [HasValue, HasValue, var?_assignPrimaries hx]

theorem marker_root_assignPrimaries (hroot : (t.slotOf t.root).marker = .root) :
    (t.assignPrimaries.slotOf t.root).marker = .root := by
  have heq := unmarked_assignPrimaries t t.root
  rw [hroot] at heq
  generalize (t.assignPrimaries.slotOf t.root).marker = m at heq
  cases m <;> simp [Marker.unmarked] at heq
  rfl

namespace Unresolved

theorem assignPrimaries (hu : t.Unresolved) (hl : t.WellLinked) : t.assignPrimaries.Unresolved := by
  have hlinks := sameLinks_assignPrimaries t
  refine ⟨?_, hu.leaves.assignPrimaries, fun x hx hv => ?_⟩
  · rw [hlinks.root_eq]
    exact marker_root_assignPrimaries hu.root
  · rw [hlinks.walk_eq, hlinks.root_eq] at hx
    exact hu.novalue x hx ((hasValue_assignPrimaries (hl.mem_walk_root_inUse hx)).1 hv)

theorem cleared (hu : t.Unresolved) (hc : Cleared t ms u) (hl : t.WellLinked) : u.Unresolved := by
  have hroot := hl.mem_walk_self (Linked.root_inUse hl)
  have hbelow : t.isBelow ms t.root = false := by
    rw [isBelow, hl.ancestors_root]
    rfl
  refine ⟨by rw [hc.root_eq, hc.marker hroot hbelow, hu.root], fun x hx htext => ?_,
    fun x hx hv => ?_⟩
  · rcases hc.mem_walk hl hx with ⟨hxt, hxbelow⟩ | ⟨-, hnil⟩
    · rw [hc.marker hxt hxbelow] at htext
      -- Text is no tab stop, so it has not been overwritten
      have hnot : x ∉ ms := fun hmem => by
        simp [(hl.mem_walk_root_of_placeholder (hc.subset hmem)).2] at htext
      rw [hc.children hxt hxbelow hnot]
      exact hu.leaves x hxt htext
    · exact hnil
  · have hxu := hc.wellLinked.mem_walk_root_inUse hx
    rcases hc.mem_walk hl hx with ⟨hxt, hxbelow⟩ | ⟨htext, -⟩
    · exact hu.novalue x hxt
        (((hl.mem_walk_root_inUse hxt).hasValue_congr hxu (hc.marker hxt hxbelow)).1 hv)
    · simp [hxu.text?_of_var hv.isSome] at htext

theorem insertFinal (hu : t.Unresolved) (hl : t.WellLinked) : t.insertFinal.2.Unresolved := by
  obtain ⟨-, heq⟩ | ⟨h, ha⟩ := hl.insertFinal_cases
  · rwa [heq]
  have hrootu := Linked.root_inUse hl
  -- The only other node is the final tab stop, which is a leaf and no variable
  have hmem {x : Handle} (hx : x ∈ t.insertFinal.2.walk t.insertFinal.2.root) :
      x ∈ t.walk t.root ∨ x = h := by
    rwa [ha.walk_root hl, List.mem_append, List.mem_singleton] at hx
  refine ⟨by rw [ha.root_eq, ha.marker hrootu, hu.root], fun x hx htext => ?_, fun x hx hv => ?_⟩
  · rcases hmem hx with hxt | rfl
    · have hxu := hl.mem_walk_root_inUse hxt
      rw [ha.marker hxu] at htext
      have hxroot : x ≠ t.root := by
        rintro rfl
        simp [hu.root, Marker.text?] at htext
      rw [ha.children hxu, if_neg hxroot]
      exact hu.leaves x hxt htext
    · exact ha.children_new
  · rcases hmem hx with hxt | rfl
    · have hxu := hl.mem_walk_root_inUse hxt
      exact hu.novalue x hxt ((hxu.hasValue_congr (ha.inUse hxu) (ha.marker hxu)).1 hv)
    · rw [HasValue, ha.inUse_new.var?_eq, ha.marker_new] at hv
      simp [Marker.var?] at hv

end Unresolved

/-- A snippet as it comes from a source. A tree never has more slots than the numbers of 32 bits can
tell apart. -/
theorem unresolved_ofSnippet (identity : Nat) (d : Dialect) (source : String) (final : Bool)
    (hcapacity : (ofSource identity d source).capacity ≤ 2 ^ 32) :
    (ofSnippet identity d source final).Unresolved := by
  have ht := unrepeated_ofSource identity d source
  have hcleared := ht.repeatAll ((capacity_assignPrimaries _).trans_le hcapacity)
  have hl := (grown_ofSource identity d source).1
  have hu := ((unresolved_ofSource identity d source).assignPrimaries hl).cleared hcleared
    ht.wellLinked
  cases final with
  | false => exact hu
  | true => exact hu.insertFinal hcleared.wellLinked

end Tree

end TabStop
