import TabStop.Proofs.Canonical.Rechoosing
import TabStop.Proofs.Repeat.Passes

/-!
# When the text comes back

A document that is up to date comes back with its text if what has been written tells enough: a tab
stop with a transform shows nothing but what it repeats, and if another tab stop of an index is
chosen than before, nothing but text is lost by that.

What comes back shows the same text node by node: a node that repeats no other one shows what its
nodes show, and the text between them; one that does shows what the primary tab stop shows. So it is
enough to go through the primary tab stops in an order in which each comes after those that it
holds.
-/

namespace TabStop.Tree

variable {t u v w : Tree} {m n p q x y z : Handle} {ms : List Handle} {i j k : TabIndex}
  {ps : List (Handle × Handle)}

/-! ## What has to be told -/

/-- There is no tab stop inside of a node. -/
def Solitary (t : Tree) (m : Handle) : Prop := ∀ x ∈ t.placeholders, m ∉ t.ancestors x

/-- There is nothing in a tab stop with a transform that does not repeat another one. -/
def Concealed (t : Tree) : Prop :=
  ∀ x ∈ t.placeholders, ((t.placeholder? x).bind (·.transform)).isSome →
    (t.isPrimary x || t.isFinal x) → (t.slotOf x).children = []

/-- Each index has a primary tab stop. It is the one that is chosen by what is written; or else it
has no transform, and all tab stops of the index are `P`. -/
def Rechoosable (t : Tree) (P : Handle → Prop) : Prop :=
  ∀ i : TabIndex, i.isFinal = false → t.placeholdersOf i ≠ [] → ∃ p, t.primary? i = some p ∧
    (t.firstChoice? i = some p ∨ t.isPlain p ∧ ∀ m ∈ t.placeholdersOf i, P m)

/-- What is written of a document tells its text: if another primary tab stop of an index is chosen,
no other tab stop gets lost by that. -/
structure Legible (t : Tree) : Prop where
  concealed : t.Concealed
  chosen : t.Rechoosable t.Solitary

/-! ## Primary tab stops -/

theorem mem_placeholdersOf_iff :
    x ∈ t.placeholdersOf i ↔ x ∈ t.placeholders ∧ t.index? x = some i := by
  rw [placeholdersOf, List.mem_filter, beq_iff_eq]

theorem mem_leaders_of_primary? (hp : t.primary? i = some p) (hfinal : i.isFinal = false) :
    p ∈ t.leaders ∧ t.index? p = some i := by
  obtain ⟨hmem, hi⟩ := mem_placeholdersOf_iff.1 (List.mem_of_find?_eq_some hp)
  exact ⟨mem_leaders_iff.2 ⟨hmem, List.find?_some hp, by simp [isFinal, hi, hfinal]⟩, hi⟩

theorem Repeatable.eq_of_primary? (ht : t.Repeatable) (hp : p ∈ t.leaders)
    (hi : t.index? p = some i) (hq : t.primary? i = some q) : p = q := by
  obtain ⟨i', hi', hfinal⟩ := exists_index?_of_mem_leaders hp
  obtain rfl := Option.some.inj (hi.symm.trans hi')
  obtain ⟨hleader, hqi⟩ := mem_leaders_of_primary? hq hfinal
  exact ht.single p hp q hleader (hi.trans hqi.symm)

theorem Bare.solitary (hb : t.Bare m) (hl : t.WellLinked) (hm : t.InUse m) : t.Solitary m := by
  intro x hx habove
  have htext := (hl.mem_walk_root_of_placeholder hx).2
  have hxu := hl.inUse_of_mem_placeholders hx
  have hne : x ≠ m := by
    rintro rfl
    exact Linked.not_mem_ancestors hl hxu habove
  have hmem := (hl.mem_walk_of_ne hm hxu hne).2 habove
  exact (hl.outside_of_bare hm hb htext).elim hne fun hnot => hnot hmem

/-- If there is nothing but text in tab stops, there is no tab stop in them. -/
theorem Rechoosable.solitary (hchosen : t.Rechoosable t.Bare) (hl : t.WellLinked) :
    t.Rechoosable t.Solitary := by
  intro i hi hne
  obtain ⟨p, hp, hcases⟩ := hchosen i hi hne
  refine ⟨p, hp, hcases.imp_right fun ⟨hplain, hall⟩ => ⟨hplain, fun m hm => ?_⟩⟩
  exact (hall m hm).solitary hl (hl.inUse_of_mem_placeholders (mem_placeholdersOf_iff.1 hm).1)

/-- A tab stop of the index of a primary one is that one, or around it, or follows it. -/
theorem follows_or_above (hp : t.index? p = some i) (hm : m ∈ t.placeholdersOf i) (hne : m ≠ p) :
    m ∈ t.ancestors p ∨ t.Follows m p := by
  obtain ⟨hmem, hi⟩ := mem_placeholdersOf_iff.1 hm
  by_cases habove : m ∈ t.ancestors p
  · exact Or.inl habove
  · refine Or.inr ⟨hmem, hi.trans hp.symm, Bool.eq_false_iff.2 fun h => ?_⟩
    exact (List.mem_cons.1 (isAncestorOrSelf_iff.1 h)).elim hne habove

/-- What an index holds is inside of its primary tab stop. -/
theorem WellLinked.inside_of_index (hl : t.WellLinked) (hq : q ∈ t.placeholders) (hm : m ∈ t.walk q)
    (hi : t.index? q = some i) (hj : t.index? m = some j) (hne : j ≠ i) :
    m ∈ t.placeholders ∧ q ∈ t.ancestors m := by
  have hqu := hl.inUse_of_mem_placeholders hq
  have hmq : m ≠ q := by
    rintro rfl
    exact hne (Option.some.inj (hj.symm.trans hi))
  have hmu := ((hl.mem_walk_iff hqu).1 hm).1
  refine ⟨List.mem_filter.2 ⟨?_, ?_⟩, (hl.mem_walk_of_ne hqu hmu hmq).1 hm⟩
  · exact hl.mem_descendants_of_walk (List.mem_filter.1 hq).1 hm
  · rw [← index?_isSome, hj]
    rfl

/-- What is overwritten when the tab stops are repeated follows a primary one. -/
theorem exists_follows_of_overwritten (hm : m ∈ t.overwritten) :
    ∃ p ∈ t.leaders, t.Follows m p := by
  have hone {p : Handle} {i : TabIndex} (hp : p ∈ t.leaders) (hi : t.index? p = some i)
      (hs ms : List Handle) (hhs : hs ⊆ t.placeholdersOf i)
      (hms : ∀ m ∈ ms, ∃ p ∈ t.leaders, t.Follows m p) :
      ∀ m ∈ hs.foldl (t.overwriteBy p) ms, ∃ p ∈ t.leaders, t.Follows m p := by
    induction hs generalizing ms with
    | nil => exact hms
    | cons h hs ih =>
      obtain ⟨hh, hhs⟩ := List.cons_subset.1 hhs
      refine ih _ hhs fun m hm => ?_
      rw [overwriteBy] at hm
      split at hm
      · exact hms m hm
      next hcond =>
      rcases List.mem_cons.1 hm with rfl | hm
      · obtain ⟨hmem, hindex⟩ := mem_placeholdersOf_iff.1 hh
        rw [Bool.or_eq_true, not_or, Bool.not_eq_true, Bool.not_eq_true] at hcond
        exact ⟨p, hp, hmem, hindex.trans hi.symm, hcond.2⟩
      · exact hms m hm
  -- Two inductions: on the tab stops of one index, and on the primaries
  have hall (qs ms : List Handle) (hqs : qs ⊆ t.primaries)
      (hms : ∀ m ∈ ms, ∃ p ∈ t.leaders, t.Follows m p) :
      ∀ m ∈ qs.foldl t.overwrittenBy ms, ∃ p ∈ t.leaders, t.Follows m p := by
    induction qs generalizing ms with
    | nil => exact hms
    | cons q qs ih =>
      obtain ⟨hq, hqs⟩ := List.cons_subset.1 hqs
      refine ih _ hqs ?_
      rw [overwrittenBy]
      split
      · next i hi =>
        split
        · exact hms
        next hcond =>
        rw [Bool.or_eq_true, not_or, Bool.not_eq_true] at hcond
        have hleader : q ∈ t.leaders :=
          List.mem_filter.2 ⟨hq, by simp [isFinal, hi, hcond.1]⟩
        exact hone hleader hi _ ms (fun _ h => h) hms
      · exact hms
  exact hall t.primaries [] (fun _ h => h) (by simp) m hm

/-- A node stays if it is not inside of one that follows a primary one. -/
theorem isBelow_eq_false (hclear : ∀ m ∈ t.ancestors y, ∀ q ∈ t.leaders, ¬ t.Follows m q) :
    t.isBelow t.overwritten y = false := by
  apply Bool.eq_false_iff.2
  intro hbelow
  obtain ⟨m, hm, hmem⟩ := List.any_eq_true.1 hbelow
  obtain ⟨q, hq, hf⟩ := exists_follows_of_overwritten (List.contains_iff_mem.1 hmem)
  exact hclear m hm q hq hf

/-! ## Two documents that are to show the same -/

/-- A document and the one that comes back, before its tab stops have been repeated. -/
structure Recovers (t v : Tree) (ps : List (Handle × Handle)) : Prop extends Rechosen t v ps where
  steady : t.Steady
  settled : ∀ p ∈ t.leaders, t.Settled p
  acyclic : ∀ i, ¬ Relation.TransGen t.Holds i i
  leaves : t.TextLeaves
  legible : t.Legible
  hidden : ∀ x ∈ t.nodes, (t.slotOf x).marker.transform?.isSome →
    (∀ p ∈ t.leaders, ¬ t.Follows x p) → (t.slotOf x).children = []
  unrepeated : v.Unrepeated
  capacity : v.capacity ≤ 2 ^ 32

namespace Recovers

variable (hr : Recovers t v ps)

include hr

theorem before : t.WellLinked := hr.steady.wellLinked

theorem after : v.WellLinked := hr.unrepeated.wellLinked

theorem repeatable : v.Repeatable := hr.unrepeated.repeatable hr.capacity

theorem index_eq (hxy : (x, y) ∈ ps) : v.index? y = t.index? x :=
  hr.index?_eq hr.before hr.after hxy

theorem ancestors_iff {a b : Handle} (hxy : (x, y) ∈ ps) (hab : (a, b) ∈ ps) :
    b ∈ v.ancestors y ↔ a ∈ t.ancestors x :=
  hr.mem_ancestors_iff hr.before hr.after hr.leaves hxy hab

theorem mem_placeholdersOf (hxy : (x, y) ∈ ps) (hi : v.index? y = some i) :
    x ∈ t.placeholdersOf i := by
  rw [hr.before.placeholdersOf_eq_nodes hr.marker_root]
  exact List.mem_filter.2 ⟨hr.mem_left hxy, by simp [← hr.index_eq hxy, hi]⟩

theorem exists_left_of_placeholder (hy : y ∈ v.placeholders) :
    ∃ x, (x, y) ∈ ps ∧ x ∈ t.placeholders := by
  obtain ⟨x, hxy⟩ := hr.exists_left (hr.after.mem_nodes_of_placeholder hy)
  obtain ⟨i, hi⟩ := exists_index?_of_mem hy
  exact ⟨x, hxy, (mem_placeholdersOf_iff.1 (hr.mem_placeholdersOf hxy hi)).1⟩

theorem solitary_right (hxy : (x, y) ∈ ps) (hs : t.Solitary x) : v.Solitary y := by
  intro z hz habove
  obtain ⟨a, haz, ha⟩ := hr.exists_left_of_placeholder hz
  exact hs a ha ((hr.ancestors_iff haz hxy).1 habove)

/-- The primary tab stops of an index: the old one, and the one that is chosen again. -/
theorem leader {P : Handle → Prop} (hchosen : t.Rechoosable P) (hq : q ∈ v.leaders)
    (hi : v.index? q = some i) : ∃ x p, (x, q) ∈ ps ∧
      x ∈ t.placeholdersOf i ∧ t.primary? i = some p ∧ p ∈ t.leaders ∧ t.index? p = some i ∧
        (p = x ∨ t.isPlain p ∧ t.isPlain x ∧ ∀ m ∈ t.placeholdersOf i, P m) := by
  obtain ⟨i', hi', hfinal⟩ := exists_index?_of_mem_leaders hq
  obtain rfl := Option.some.inj (hi.symm.trans hi')
  obtain ⟨hmem, hprimary, -⟩ := mem_leaders_iff.1 hq
  obtain ⟨x, hxq, -⟩ := hr.exists_left_of_placeholder hmem
  have hx := hr.mem_placeholdersOf hxq hi
  have hne := List.ne_nil_of_mem hx
  have hfirst := (hr.chosen hxq (hr.index_eq hxq ▸ hi) hfinal).1 hprimary
  obtain ⟨p, hp, hcases⟩ := hchosen i hfinal hne
  obtain ⟨hleader, hpi⟩ := mem_leaders_of_primary? hp hfinal
  refine ⟨x, p, hxq, hx, hp, hleader, hpi, hcases.imp (fun h => ?_) fun ⟨hplain, hall⟩ => ?_⟩
  · exact Option.some.inj (h.symm.trans hfirst)
  · have hany := (firstChoice?_eq_some hfirst).2
    exact ⟨hplain, hany ⟨p, List.mem_of_find?_eq_some hp, hplain⟩, hall⟩

/-- What follows a primary tab stop now has followed one before, or it is `P`. -/
theorem follows_or {P : Handle → Prop} (hchosen : t.Rechoosable P) (hq : q ∈ v.leaders)
    (hf : v.Follows m q) (hxm : (x, m) ∈ ps) : (∃ p ∈ t.leaders, t.Follows x p) ∨ P x := by
  obtain ⟨i, hi, -⟩ := exists_index?_of_mem_leaders hq
  obtain ⟨z, p, hzq, -, -, hp, hpi, hcases⟩ := hr.leader hchosen hq hi
  have hx := hr.mem_placeholdersOf hxm (hf.index?_eq.trans hi)
  rcases hcases with rfl | ⟨-, -, hall⟩
  · refine Or.inl ⟨p, hp, (follows_or_above hpi hx fun heq => ?_).resolve_left fun habove => ?_⟩
    · exact hf.ne (hr.right_unique hr.before hxm (heq ▸ hzq))
    · have habove := (hr.ancestors_iff hzq hxm).2 habove
      have := hf.not_above
      simp [isAncestorOrSelf_iff.2 (List.mem_cons_of_mem _ habove)] at this
  · exact Or.inr (hall x hx)

/-- No tab stop is lost when the others are repeated. -/
theorem solitary_of_follows (hq : q ∈ v.leaders) (hf : v.Follows m q) : v.Solitary m := by
  obtain ⟨x, hxm, hx⟩ := hr.exists_left_of_placeholder hf.mem
  refine hr.solitary_right hxm ?_
  rcases hr.follows_or hr.legible.chosen hq hf hxm with ⟨p, hp, hfp⟩ | hs
  · exact (hr.steady.calm p hp x hfp).solitary hr.before (hr.before.inUse_of_mem_placeholders hx)
  · exact hs

/-! ### Circles -/

/-- What has another tab stop inside is a primary one still. -/
theorem leader_of_holds (hjk : v.Holds j k) (hfinal : j.isFinal = false) :
    ∃ p q, (p, q) ∈ ps ∧ t.primary? j = some p ∧ q ∈ v.leaders ∧ v.index? q = some j := by
  obtain ⟨-, hne, q, hq, hj, m, hm, -, hk⟩ := hjk
  obtain ⟨hqmem, hprimary⟩ := List.mem_filter.1 hq
  have hleader : q ∈ v.leaders := mem_leaders_iff.2 ⟨hqmem, hprimary, by simp [isFinal, hj, hfinal]⟩
  obtain ⟨x, p, hxq, hx, hp, -, -, hcases⟩ := hr.leader hr.legible.chosen hleader hj
  obtain ⟨hmmem, habove⟩ := hr.after.inside_of_index hqmem hm hj hk hne
  rcases hcases with rfl | ⟨-, -, hall⟩
  · exact ⟨p, q, hxq, hp, hleader, hj⟩
  · exact absurd habove (hr.solitary_right hxq (hall x hx) m hmmem)

/-- An index that holds another one holds it before, if that one holds any. -/
theorem holds (hij : v.Holds i j) (hjk : v.Holds j k) (hfinal : i.isFinal = false) :
    t.Holds i j := by
  obtain ⟨p, q, hpq, hp, hq, hi⟩ := hr.leader_of_holds hij hfinal
  obtain ⟨hjfinal, hne, q', hq', hi', m, hm, hprimary, hj⟩ := hij
  have hq'mem := (List.mem_filter.1 hq').1
  obtain rfl : q' = q := hr.repeatable.single q' (mem_leaders_iff.2 ⟨hq'mem,
    (List.mem_filter.1 hq').2, by simp [isFinal, hi', hfinal]⟩) q hq (hi'.trans hi.symm)
  obtain ⟨hmmem, habove⟩ := hr.after.inside_of_index hq'mem hm hi hj hne
  obtain ⟨a, ham, ha⟩ := hr.exists_left_of_placeholder hmmem
  have haj : t.index? a = some j := hr.index_eq ham ▸ hj
  obtain ⟨hleader, hpi⟩ := mem_leaders_of_primary? hp hfinal
  refine ⟨hjfinal, hne, p, (List.mem_filter.1 hleader).1, hpi, a, ?_, ?_, haj⟩
  · have hau := hr.before.inUse_of_mem_placeholders ha
    have habove := (hr.ancestors_iff ham hpq).1 habove
    have hpu := hr.before.inUse_of_mem_placeholders (mem_leaders_iff.1 hleader).1
    exact (hr.before.mem_walk_iff hpu).2
      ⟨hau, isAncestorOrSelf_iff.2 (List.mem_cons_of_mem _ habove)⟩
  · -- If it was the primary one of its index, it would be one still
    apply Bool.eq_false_iff.2
    intro hmarked
    obtain ⟨p', q', hpq', hp', hq', -⟩ := hr.leader_of_holds hjk hjfinal
    have haleader : a ∈ t.leaders :=
      mem_leaders_iff.2 ⟨ha, hmarked, by simp [isFinal, haj, hjfinal]⟩
    have heq := hr.steady.eq_of_primary? haleader haj hp'
    obtain rfl := hr.right_unique hr.before ham (heq ▸ hpq')
    rw [(mem_leaders_iff.1 hq').2.1] at hprimary
    exact absurd hprimary (by simp)

/-- No index comes to hold itself. -/
theorem acyclic_right (i : TabIndex) : ¬ Relation.TransGen v.Holds i i := by
  have hpath {i j : TabIndex} (hij : Relation.TransGen v.Holds i j) (hfinal : i.isFinal = false)
      (hj : ∃ k, v.Holds j k) : Relation.TransGen t.Holds i j := by
    revert hfinal
    induction hij using Relation.TransGen.head_induction_on with
    | single hij => exact fun hfinal => .single (hr.holds hij hj.choose_spec hfinal)
    | head him hmj ih =>
      obtain ⟨k, hmk, -⟩ := Relation.TransGen.head'_iff.1 hmj
      exact fun hfinal => .head (hr.holds him hmk hfinal) (ih him.1)
  intro hi
  obtain ⟨k, hik, -⟩ := Relation.TransGen.head'_iff.1 hi
  obtain ⟨m, -, hmi⟩ := Relation.TransGen.tail'_iff.1 hi
  exact hr.acyclic i (hpath hi hmi.1 ⟨k, hik⟩)

/-! ### Repeating -/

theorem clear_of_placeholder (hy : y ∈ v.placeholders) :
    ∀ m ∈ v.ancestors y, ∀ q ∈ v.leaders, ¬ v.Follows m q := fun _ hm _ hq hf =>
  hr.solitary_of_follows hq hf y hy hm

theorem cleared : Cleared v v.overwritten v.repeatAll := hr.unrepeated.repeatAll hr.capacity

theorem kept (hy : y ∈ v.placeholders) : Kept v v.repeatAll y := by
  have hbelow := isBelow_eq_false (hr.clear_of_placeholder hy)
  have hwalk := (hr.after.mem_walk_root_of_placeholder hy).1
  exact ⟨hr.after.inUse_of_mem_placeholders hy, hr.cleared.inUse hwalk hbelow,
    hr.cleared.placeholder?_eq hr.after hwalk hbelow, hr.cleared.ancestors_eq hr.after hwalk hbelow⟩

theorem placeholders_repeatAll : v.repeatAll.placeholders = v.placeholders := by
  rw [hr.cleared.placeholders_eq hr.after, List.filter_eq_self]
  intro y hy
  simp [isBelow_eq_false (hr.clear_of_placeholder hy)]

/-- What follows a primary tab stop goes on to do so. -/
theorem follows_repeatAll (hq : q ∈ v.leaders) (hf : v.Follows m q) :
    q ∈ v.repeatAll.leaders ∧ v.repeatAll.Follows m q := by
  obtain ⟨hqmem, hprimary, hfinal⟩ := mem_leaders_iff.1 hq
  have hkq := hr.kept hqmem
  refine ⟨mem_leaders_iff.2 ⟨?_, hkq.isPrimary_eq.trans hprimary, hkq.isFinal_eq.trans hfinal⟩,
    hr.repeatable.remains_repeatAll.1.follows_of_kept hr.after (hr.kept hf.mem) hkq hf⟩
  rw [hr.placeholders_repeatAll]
  exact hqmem

/-- What follows a primary tab stop shows what is repeated. -/
theorem render_of_follows (hq : q ∈ v.leaders) (hf : v.Follows m q) :
    v.repeatAll.render m = v.repeatedText q m (v.repeatAll.render q) := by
  obtain ⟨hremains, hsettled⟩ := hr.repeatable.settled_repeatAll hr.acyclic_right
  obtain ⟨hleader, hfollows⟩ := hr.follows_repeatAll hq hf
  have hkm := hr.kept hf.mem
  have hflat := hsettled q hleader m hfollows
  rw [hkm.repeatedText_eq] at hflat
  refine hflat.render hremains.wellLinked hkm.inUse ?_
  rw [hkm.placeholder?_eq]
  exact isSome_of_mem_placeholders hf.mem

/-- What does not follow any shows what its nodes show, and the text between them. -/
theorem render_of_free (hy : y ∈ v.nodes)
    (hclear : ∀ m ∈ v.ancestors y, ∀ q ∈ v.leaders, ¬ v.Follows m q)
    (hfree : ∀ q ∈ v.leaders, ¬ v.Follows y q) (hown : (v.slotOf y).marker.ownText? = none) :
    v.repeatAll.render y = v.spell v.repeatAll.render y := by
  have hbelow := isBelow_eq_false hclear
  have hwalk := (List.mem_filter.1 hy).1
  have hnot : y ∉ v.overwritten := by
    intro hmem
    obtain ⟨q, hq, hf⟩ := exists_follows_of_overwritten hmem
    exact hfree q hq hf
  have hmarker := hr.cleared.marker hwalk hbelow
  rw [hr.cleared.wellLinked.render_eq_spell (hr.cleared.inUse hwalk hbelow) (hmarker ▸ hown), spell,
    spell, hr.cleared.children hwalk hbelow hnot]
  refine congrArg String.join (List.map_congr_left fun c hc => ?_)
  -- A child of a node that is kept is not below one that is overwritten
  have hcbelow : v.isBelow v.overwritten c = false := by
    rw [isBelow_child hr.after (hr.after.mem_walk_root_inUse hwalk) hc, hbelow, Bool.or_false]
    simpa using hnot
  rw [hr.cleared.marker (hr.after.mem_walk_root_child hwalk hc) hcbelow]

/-! ### The text of a node -/

theorem render_before (hp : p ∈ t.leaders) (hf : t.Follows m p) :
    t.render m = t.repeatedText p m (t.render p) :=
  (hr.settled p hp m hf).render hr.before (hr.before.inUse_of_mem_placeholders hf.mem)
    (isSome_of_mem_placeholders hf.mem)

/-- What follows a primary tab stop that shows what it showed shows what it showed. -/
theorem render_of_agrees (hxy : (x, y) ∈ ps) (hq : q ∈ v.leaders) (hf : v.Follows y q)
    (hagrees : q ∉ v.ancestors y → ∀ i p, v.index? q = some i → t.primary? i = some p →
      t.render p = v.repeatAll.render q) : t.render x = v.repeatAll.render y := by
  obtain ⟨i, hi, -⟩ := exists_index?_of_mem_leaders hq
  obtain ⟨z, p, hzq, hz, hp, hleader, hpi, hcases⟩ := hr.leader hr.legible.chosen hq hi
  have hx := hr.mem_placeholdersOf hxy (hf.index?_eq.trans hi)
  obtain ⟨hxmem, hxi⟩ := mem_placeholdersOf_iff.1 hx
  have hnot : x ∉ t.ancestors z := fun habove => by
    have := isAncestorOrSelf_iff.2 (List.mem_cons_of_mem _ ((hr.ancestors_iff hzq hxy).2 habove))
    simp [hf.not_above] at this
  have hfollows (hne : x ≠ p) : t.Follows x p := by
    refine (follows_or_above hpi hx hne).resolve_left fun habove => ?_
    rcases hcases with rfl | ⟨-, -, hall⟩
    · exact hnot habove
    · exact hall x hx p (mem_leaders_iff.1 hleader).1 habove
  rw [hr.render_of_follows hq hf]
  by_cases hinside : q ∈ v.ancestors y
  · -- It is inside of the primary one, which is the same as before, and is empty
    rcases hcases with rfl | ⟨-, -, hall⟩
    · have habove := (hr.ancestors_iff hxy hzq).1 hinside
      have hne : x ≠ p := by
        rintro rfl
        exact (List.nodup_cons.1 (Linked.lineage_ancestors hr.before
          (hr.before.inUse_of_mem_placeholders hxmem)).nodup).1 habove
      rw [hr.render_before hleader (hfollows hne), repeatedText_of_inside hinside,
        repeatedText_of_inside habove]
    · exact absurd hinside (hr.solitary_right hzq (hall z hz) y hf.mem)
  · have htext : v.repeatedText q y (v.repeatAll.render q) = Transform.resolveBy
        ((t.placeholder? x).bind (·.transform)) (t.render p) := by
      rw [repeatedText, if_neg, hr.transform_eq hr.before hr.after hxy, hagrees hinside i p hi hp]
      rw [isAncestorOrSelf_iff, List.mem_cons, not_or]
      exact ⟨hf.ne.symm, hinside⟩
    rw [htext]
    by_cases hxp : x = p
    · -- It was the primary one before, and has no transform
      subst hxp
      rcases hcases with rfl | ⟨hplain, -, -⟩
      · exact absurd (hr.right_unique hr.before hxy hzq) hf.ne
      · rw [bind_transform_of_isPlain hplain]
        rfl
    · have hpx : p ∉ t.ancestors x := by
        rcases hcases with rfl | ⟨-, -, hall⟩
        · exact fun habove => hinside ((hr.ancestors_iff hxy hzq).2 habove)
        · exact hall p (mem_placeholdersOf_iff.2 ⟨(mem_leaders_iff.1 hleader).1, hpi⟩) x hxmem
      rw [hr.render_before hleader (hfollows hxp), repeatedText, if_neg]
      rw [isAncestorOrSelf_iff, List.mem_cons, not_or]
      exact ⟨fun heq => hxp heq.symm, hpx⟩

/-- An index has a primary tab stop in what comes back. -/
theorem exists_leader (hx : x ∈ t.placeholdersOf i) (hfinal : i.isFinal = false) :
    ∃ q ∈ v.leaders, v.index? q = some i := by
  obtain ⟨z, hfirst⟩ := exists_firstChoice? (List.ne_nil_of_mem hx)
  have hz := (firstChoice?_eq_some hfirst).1
  obtain ⟨hzmem, hzi⟩ := mem_placeholdersOf_iff.1 hz
  obtain ⟨q, hzq⟩ := hr.exists_right (hr.before.mem_nodes_of_placeholder hzmem)
  have hq := (hr.mem_placeholdersOf_iff hr.before hr.after hzq).2 hz
  obtain ⟨hqmem, hqi⟩ := mem_placeholdersOf_iff.1 hq
  exact ⟨q, mem_leaders_iff.2 ⟨hqmem, (hr.chosen hzq hzi hfinal).2 hfirst,
    by simp [isFinal, hqi, hfinal]⟩, hqi⟩

/-- What followed a primary tab stop and does not follow one any more is the one that is chosen now.
It shows the text that has been written. -/
theorem render_of_followed (hxy : (x, y) ∈ ps) (hp : p ∈ t.leaders) (hf : t.Follows x p)
    (hfree : ∀ q ∈ v.leaders, ¬ v.Follows y q) : t.render x = v.repeatAll.render y := by
  obtain ⟨i, hi, hfinal⟩ := exists_index?_of_mem_leaders hp
  have hx : x ∈ t.placeholdersOf i := mem_placeholdersOf_iff.2 ⟨hf.mem, hf.index?_eq.trans hi⟩
  have hy := (hr.mem_placeholdersOf_iff hr.before hr.after hxy).2 hx
  have hymem := (mem_placeholdersOf_iff.1 hy).1
  obtain ⟨q, hq, hqi⟩ := hr.exists_leader hx hfinal
  obtain ⟨z, p', hzq, hz, hp', -, -, hcases⟩ := hr.leader hr.legible.chosen hq hqi
  obtain rfl := hr.steady.eq_of_primary? hp hi hp'
  have hyq : y = q := by
    by_contra hne
    refine (follows_or_above hqi hy hne).elim (fun habove => ?_) (hfree q hq)
    have habove := (hr.ancestors_iff hzq hxy).1 habove
    rcases hcases with rfl | ⟨-, -, hall⟩
    · have := isAncestorOrSelf_iff.2 (List.mem_cons_of_mem _ habove)
      simp [hf.not_above] at this
    · exact hall x hx z (mem_placeholdersOf_iff.1 hz).1 habove
  subst hyq
  obtain rfl := hr.left_unique hr.after hxy hzq
  have hplain : t.isPlain x := by
    rcases hcases with rfl | ⟨-, hplain, -⟩
    · exact absurd rfl hf.ne
    · exact hplain
  have hxu := hr.before.inUse_of_mem_placeholders hf.mem
  rw [hr.before.render_eq_spell hxu (hr.before.ownText?_of_placeholder hf.mem),
    hr.render_of_free (hr.mem_right hxy) (hr.clear_of_placeholder hymem) hfree
      (hr.after.ownText?_of_placeholder hymem)]
  refine hr.spell hxy (hxu.transform?_of_isPlain hplain) fun c d hcd hc _ => ?_
  -- There is nothing but text in it
  have htext := (hr.steady.calm p hp x hf c hc).1
  have hnode := (List.mem_filter.1 (hr.mem_left hcd)).2
  rw [isNode, Option.isNone_iff_eq_none] at hnode
  simp [hnode] at htext

/-- What does not follow any shows what it showed if its nodes do. -/
theorem render_of_children (hxy : (x, y) ∈ ps) (hfree : ∀ p ∈ t.leaders, ¬ t.Follows x p)
    (hclear : ∀ m ∈ v.ancestors y, ∀ q ∈ v.leaders, ¬ v.Follows m q)
    (hyfree : ∀ q ∈ v.leaders, ¬ v.Follows y q)
    (hinside : ∀ c d, (c, d) ∈ ps → d ∈ (v.slotOf y).children →
      t.render c = v.repeatAll.render d) : t.render x = v.repeatAll.render y := by
  have hx := hr.mem_left hxy
  have hy := hr.mem_right hxy
  have hxu := hr.before.inUse_of_mem_nodes hx
  have hown : (v.slotOf y).marker.ownText? = (t.slotOf x).marker.ownText? := by
    rw [← Marker.ownText?_unmarked, hr.unmarked hxy, Marker.ownText?_unmarked]
  -- The text is the node's own, or that of its children; with a transform they are hidden
  cases htext : (t.slotOf x).marker.ownText? with
  | some s =>
    have hwalk := (List.mem_filter.1 hy).1
    have hbelow := isBelow_eq_false hclear
    rw [hr.before.render_eq hxu, hr.cleared.wellLinked.render_eq (hr.cleared.inUse hwalk hbelow),
      hr.cleared.marker hwalk hbelow, hown, htext]
    rfl
  | none =>
    rw [hr.before.render_eq_spell hxu htext, hr.render_of_free hy hclear hyfree (hown.trans htext)]
    cases htransform : (t.slotOf x).marker.transform? with
    | none => exact hr.spell hxy htransform fun c d hcd _ hd => hinside c d hcd hd
    | some tr =>
      have hsome : (t.slotOf x).marker.transform?.isSome := by simp [htransform]
      simp [Tree.spell, hr.hidden x hx hsome hfree, hr.nil hxy hsome]

/-- A node shows what it showed if the primary tab stops do that are repeated in it. -/
theorem render_eq (hxy : (x, y) ∈ ps)
    (hclear : ∀ m ∈ v.ancestors y, ∀ q ∈ v.leaders, ¬ v.Follows m q)
    (hagrees : ∀ m ∈ v.walk y, ∀ q ∈ v.leaders, v.Follows m q → q ∉ v.ancestors m →
      ∀ i p, v.index? q = some i → t.primary? i = some p → t.render p = v.repeatAll.render q) :
    t.render x = v.repeatAll.render y := by
  have hyu := hr.after.inUse_of_mem_nodes (hr.mem_right hxy)
  revert x
  revert hclear hagrees
  refine hr.after.induction_below (P := fun y =>
    (∀ m ∈ v.ancestors y, ∀ q ∈ v.leaders, ¬ v.Follows m q) →
    (∀ m ∈ v.walk y, ∀ q ∈ v.leaders, v.Follows m q → q ∉ v.ancestors m →
      ∀ i p, v.index? q = some i → t.primary? i = some p → t.render p = v.repeatAll.render q) →
    ∀ {x}, (x, y) ∈ ps → t.render x = v.repeatAll.render y)
    (fun y hyu ih hclear hagrees x hxy => ?_) hyu
  -- Induction from below. A node repeats a primary in the tree that was read, or in the original,
  -- or it is shown by its children
  by_cases hfollows : ∃ q ∈ v.leaders, v.Follows y q
  · obtain ⟨q, hq, hf⟩ := hfollows
    exact hr.render_of_agrees hxy hq hf (hagrees y (hr.after.mem_walk_self hyu) q hq hf)
  · have hyfree : ∀ q ∈ v.leaders, ¬ v.Follows y q := fun q hq hf => hfollows ⟨q, hq, hf⟩
    by_cases hfollowed : ∃ p ∈ t.leaders, t.Follows x p
    · obtain ⟨p, hp, hf⟩ := hfollowed
      exact hr.render_of_followed hxy hp hf hyfree
    · refine hr.render_of_children hxy (fun p hp hf => hfollowed ⟨p, hp, hf⟩) hclear hyfree
        fun c d hcd hd => ih d hd (fun m hm => ?_) (fun m hm => ?_) hcd
      · rw [Linked.ancestors_child hr.after hyu hd] at hm
        rcases List.mem_cons.1 hm with rfl | hm
        · exact hyfree
        · exact hclear m hm
      · exact hagrees m ((hr.after.mem_walk_cons hyu).2 (Or.inr ⟨d, hd, hm⟩))

/-- Each index has the text that it had. -/
theorem agrees (hq : q ∈ v.leaders) (hi : v.index? q = some i) (hp : t.primary? i = some p) :
    t.render p = v.repeatAll.render q := by
  obtain ⟨n, hn⟩ : ∃ n, (v.held q).card = n := ⟨_, rfl⟩
  induction n using Nat.strong_induction_on generalizing q i p with
  | _ n ih =>
    obtain ⟨hqmem, hprimary, -⟩ := mem_leaders_iff.1 hq
    obtain ⟨z, p', hzq, hz, hp', hleader, hpi, hcases⟩ := hr.leader hr.legible.chosen hq hi
    obtain rfl := Option.some.inj (hp.symm.trans hp')
    have hrender : t.render z = v.repeatAll.render q := by
      refine hr.render_eq hzq (hr.clear_of_placeholder hqmem)
        fun m hm q' hq' hf hout j p' hj hp' => ?_
      -- What is repeated in it is of another index, which it holds
      have hmu := ((hr.after.mem_walk_iff (hr.after.inUse_of_mem_placeholders hqmem)).1 hm).1
      have hne : j ≠ i := by
        rintro rfl
        obtain rfl := hr.repeatable.single q' hq' q hq (hj.trans hi.symm)
        exact hout ((hr.after.mem_walk_of_ne (hr.after.inUse_of_mem_placeholders hqmem) hmu
          hf.ne).1 hm)
      obtain ⟨j', hj', hfinal⟩ := exists_index?_of_mem_leaders hq'
      obtain rfl := Option.some.inj (hj.symm.trans hj')
      have hholds : v.Holds i j := ⟨hfinal, hne, q, (List.mem_filter.1 hq).1, hi, m, hm,
        hr.repeatable.not_primary hq' hf, hf.index?_eq.trans hj⟩
      have hlt := Finset.card_lt_card (held_ssubset hholds hq' hi hj fun k _ => hr.acyclic_right k)
      exact ih _ (hn ▸ hlt) hq' hj hp' rfl
    rw [← hrender]
    rcases hcases with rfl | ⟨hplain, hzplain, hall⟩
    · rfl
    · by_cases hzp : z = p
      · rw [hzp]
      · -- It repeated the old one, and shows that text
        have hf : t.Follows z p := (follows_or_above hpi hz hzp).resolve_left
          (hall z hz p (mem_leaders_iff.1 hleader).1)
        rw [hr.render_before hleader hf, repeatedText, if_neg, bind_transform_of_isPlain hzplain]
        · rfl
        · rw [isAncestorOrSelf_iff, List.mem_cons, not_or]
          exact ⟨fun heq => hzp heq.symm,
            hall p (mem_placeholdersOf_iff.2 ⟨(mem_leaders_iff.1 hleader).1, hpi⟩) z hf.mem⟩

/-- The document comes back with the text of each node. -/
theorem render_right (hxy : (x, y) ∈ ps)
    (hclear : ∀ m ∈ v.ancestors y, ∀ q ∈ v.leaders, ¬ v.Follows m q) :
    v.repeatAll.render y = t.render x :=
  (hr.render_eq hxy hclear fun _ _ _ hq _ _ _ _ hi hp => hr.agrees hq hi hp).symm

theorem text_eq : v.repeatAll.text = t.text := by
  rw [text, text, hr.cleared.root_eq]
  exact hr.render_right hr.root (by simp [hr.after.ancestors_root])

end Recovers

end TabStop.Tree
