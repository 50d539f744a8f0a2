import TabStop.Proofs.Repeat.Consistency

/-!
# Typing into a tab stop

What is typed into a primary tab stop takes the place of all that was in it. No index gets a second
primary tab stop by that. But an index whose primary tab stop was inside has lost it, and other tab
stops of that index may be left. Typing only brings texts up to date, so none of these is chosen.
-/

namespace TabStop.Tree

variable {t u : Tree} {p q x : Handle} {i : TabIndex}

/-! ## The tab stops that are left -/

theorem eq_singleton_of_nodup {α : Type} [DecidableEq α] {a : α} {as : List α} (hnodup : as.Nodup)
    (hall : ∀ b ∈ as, b = a) : as = if a ∈ as then [a] else [] := by
  match as with
  | [] => rfl
  | [b] =>
    obtain rfl := hall b (List.mem_singleton_self b)
    simp
  | b :: c :: as =>
    -- The first two would be the same
    have hb := hall b (by simp)
    have hc := hall c (by simp)
    simp [hb, hc] at hnodup

namespace Remains

theorem mem_primaries_iff (hr : Remains t u) (hq : q ∈ t.primaries) :
    q ∈ u.primaries ↔ q ∈ u.placeholders := by
  rw [primaries, List.mem_filter]
  refine ⟨And.left, fun hmem => ⟨hmem, ?_⟩⟩
  rw [(hr.kept_of_mem hmem).isPrimary_eq]
  exact (List.mem_filter.1 hq).2

/-- An index that had one primary tab stop has this one still, or none. -/
theorem filter_isPrimary (hr : Remains t u) (hl : t.WellLinked)
    (hone : (t.placeholdersOf i).filter t.isPrimary = [q]) :
    (u.placeholdersOf i).filter u.isPrimary = if q ∈ u.placeholders then [q] else [] := by
  have hq : q ∈ (t.placeholdersOf i).filter t.isPrimary := by simp [hone]
  obtain ⟨hqi, hqp⟩ := List.mem_filter.1 hq
  obtain ⟨hqmem, hqindex⟩ := List.mem_filter.1 hqi
  -- What remains has kept its index and its mark
  have hall : ∀ x ∈ (u.placeholdersOf i).filter u.isPrimary, x = q := by
    intro x hx
    obtain ⟨hxi, hxp⟩ := List.mem_filter.1 hx
    obtain ⟨hxmem, hxindex⟩ := List.mem_filter.1 hxi
    have hk := hr.kept_of_mem hxmem
    rw [hk.isPrimary_eq] at hxp
    rw [hk.index?_eq] at hxindex
    have hmem : x ∈ (t.placeholdersOf i).filter t.isPrimary :=
      List.mem_filter.2 ⟨List.mem_filter.2 ⟨hr.mem_placeholders hl hxmem, hxindex⟩, hxp⟩
    simpa [hone] using hmem
  have hmem : q ∈ (u.placeholdersOf i).filter u.isPrimary ↔ q ∈ u.placeholders := by
    constructor
    · exact fun h => (List.mem_filter.1 (List.mem_filter.1 h).1).1
    · intro h
      have hk := hr.kept_of_mem h
      rw [← hk.isPrimary_eq] at hqp
      rw [← hk.index?_eq] at hqindex
      exact List.mem_filter.2 ⟨List.mem_filter.2 ⟨h, hqindex⟩, hqp⟩
  have hnodup := (hr.wellLinked.nodup_placeholdersOf i).filter u.isPrimary
  rw [eq_singleton_of_nodup hnodup hall]
  simp only [hmem]

end Remains

/-! ## What typing does -/

theorem checkPrimary_perform (hl : t.WellLinked) (hp : p ∈ t.primaries) :
    (checkPrimary p).perform t = (.ok (), t) := by
  obtain ⟨hmem, hprimary⟩ := List.mem_filter.1 hp
  have howns := (hl.inUse_of_mem_placeholders hmem).owned
  have hattached := hl.isAttached_of_mem (hl.mem_walk_root_of_placeholder hmem).1
  obtain ⟨k, hk⟩ := exists_placeholder?_of_mem hmem
  rw [isPrimary, hk, Option.any_some] at hprimary
  simp [checkPrimary, placeholderOrFail, check_perform, howns, hattached, hk, hprimary]

/-- A text has taken the place of all that was in a node. -/
structure Overtyped (t : Tree) (p : Handle) (s : String) (u : Tree) : Prop where
  perform : (overwrite p [(t.alloc (.text s)).1]).perform (t.alloc (.text s)).2 = (.ok (), u)
  shown : Shown t p u
  children : (u.slotOf p).children = [(t.alloc (.text s)).1]
  left : ∀ x, u.InUse x → x = (t.alloc (.text s)).1 ∨ t.InUse x ∧ (x = p ∨ x ∉ t.walk p)

theorem WellLinked.exists_overtyped (hl : t.WellLinked) (hp : t.InUse p) (s : String) :
    ∃ u, Overtyped t p s u := by
  have ha := Linked.allocated hl (.text s)
  obtain ⟨u, hperform, hshown, hchildren, hleft⟩ := overwrite_shown hl (ha.grown hl) hp
    (Or.inr rfl) fun d hd => List.mem_singleton.1 hd ▸ freshText_alloc hl s
  refine ⟨u, hperform, hshown, hchildren, fun x hx => ?_⟩
  obtain ⟨hxv, hout⟩ := hleft x hx
  exact ((ha.inUse_iff x).1 hxv).imp_right fun hxt => ⟨hxt, hout⟩

theorem WellLinked.not_below_iff (hl : t.WellLinked) (hp : t.InUse p) (hx : t.InUse x) :
    p ∉ t.ancestors x ↔ x = p ∨ x ∉ t.walk p := by
  by_cases hne : x = p
  · subst hne
    have hnot : x ∉ t.ancestors x := Linked.not_mem_ancestors hl hx
    simp [hnot]
  · rw [hl.mem_walk_of_ne hp hx hne]
    simp [hne]

namespace Overtyped

variable {s : String}

theorem kept (hu : Overtyped t p s u) (hl : t.WellLinked) (hp : t.InUse p) (hx : t.InUse x)
    (hnot : p ∉ t.ancestors x) : Kept t u x :=
  hu.shown.kept hl hp hx ((hl.not_below_iff hp hx).1 hnot)

theorem lost (hu : Overtyped t p s u) (hl : t.WellLinked) (hp : t.InUse p) (hx : t.InUse x)
    (hbelow : p ∈ t.ancestors x) : ¬ u.InUse x := by
  intro hxu
  rcases hu.left x hxu with rfl | ⟨-, hout⟩
  · exact (Linked.allocated hl (.text s)).fresh hx
  · exact (hl.not_below_iff hp hx).2 hout hbelow

theorem remains (hu : Overtyped t p s u) (hl : t.WellLinked) (hp : t.InUse p) : Remains t u := by
  refine ⟨hu.shown.wellLinked, hu.shown.identity, fun {x} hx hsome => ?_⟩
  rcases hu.left x hx with rfl | ⟨hxt, hout⟩
  · -- The text is no tab stop
    have htext := (hu.shown.texts (t.alloc (.text s)).1 (by simp [hu.children])).1
    rw [hx.placeholder?_eq, placeholder?_of_text htext] at hsome
    simp at hsome
  · exact hu.shown.kept hl hp hxt hout

/-- The tab stop that is typed into is not inside itself, so it stays a primary one. -/
theorem mem_primaries (hu : Overtyped t p s u) (hl : t.WellLinked) (hp : p ∈ t.primaries) :
    p ∈ u.primaries := by
  have hpmem := (List.mem_filter.1 hp).1
  have hpu := hl.inUse_of_mem_placeholders hpmem
  have hr := hu.remains hl hpu
  have hk := hu.shown.kept hl hpu hpu (Or.inl rfl)
  exact (hr.mem_primaries_iff hp).2 (hr.mem_of_kept hl hk hpmem)

/-- Once the text is there, the tab stop is brought up to date. -/
theorem typeText_perform (hu : Overtyped t p s u) (hl : t.WellLinked) (hp : p ∈ t.primaries) :
    (typeText p s).perform t = (.ok (), u.repeatAll) := by
  have hcheck := checkPrimary_perform hu.shown.wellLinked (hu.mem_primaries hl hp)
  simp [typeText, update, new, hu.perform, hcheck]

end Overtyped

/-- Typing is not refused. A tab stop that was inside of the one typed into is lost; one that is
neither inside of it nor of one that repeats another is left. -/
theorem Repeatable.typeText (ht : t.Repeatable) (hp : p ∈ t.primaries) (s : String) :
    ∃ u, (typeText p s).perform t = (.ok (), u) ∧ Remains t u ∧
      (∀ x ∈ u.placeholders, p ∉ t.ancestors x) ∧
      ∀ x, t.InUse x → p ∉ t.ancestors x →
        (∀ m ∈ t.ancestors x, ∀ r ∈ t.leaders, ¬ t.Follows m r) → Kept t u x := by
  have hl := ht.wellLinked
  have hpu := hl.inUse_of_mem_placeholders (List.mem_filter.1 hp).1
  obtain ⟨v, hv⟩ := hl.exists_overtyped hpu s
  have hr := hv.remains hl hpu
  obtain ⟨hremains, hkept⟩ := (hr.repeatable ht).remains_repeatAll
  refine ⟨v.repeatAll, hv.typeText_perform hl hp, hr.trans hremains, fun x hx hbelow => ?_,
    fun x hx hxp hfree => ?_⟩
  · have hxt := (hr.trans hremains).kept_of_mem hx
    exact hv.lost hl hpu hxt.before hbelow (hremains.kept_of_mem hx).before
  · have hkx := hv.kept hl hpu hx hxp
    refine hkx.trans (hkept x hkx.inUse fun m hm r hleader hf => ?_)
    rw [hkx.ancestors_eq] at hm
    exact hfree m hm r (hr.mem_leaders hl hleader) (hr.follows hl (mem_leaders_iff.1 hleader).1 hf)

/-- Typing into a primary tab stop of a document in which each index has just one: no index gets a
second one, and an index has its old one if that is still in the document, else none. It is not if it
was inside of the tab stop typed into; it is if it was neither inside of that one nor inside of one
that repeats another. A tree never has more slots than the numbers of 32 bits can tell apart. -/
theorem typeText_primaries (hl : t.WellLinked) (hcapacity : t.capacity ≤ 2 ^ 32)
    (hone : ∀ i : TabIndex, i.isFinal = false → t.placeholdersOf i ≠ [] →
      ∃ q, (t.placeholdersOf i).filter t.isPrimary = [q]) (hp : p ∈ t.primaries) (s : String) :
    ∃ u, (typeText p s).perform t = (.ok (), u) ∧
      ∀ i : TabIndex, i.isFinal = false → u.placeholdersOf i ≠ [] →
        ∃ q, t.primary? i = some q ∧
          (u.placeholdersOf i).filter u.isPrimary = (if q ∈ u.placeholders then [q] else []) ∧
          (q ∈ u.placeholders → p ∉ t.ancestors q) ∧
          (p ∉ t.ancestors q → (∀ m ∈ t.ancestors q, ∀ r ∈ t.leaders, ¬ t.Follows m r) →
            q ∈ u.placeholders) := by
  have hsingle (i : TabIndex) (hi : i.isFinal = false) :
      ((t.placeholdersOf i).filter t.isPrimary).length ≤ 1 := by
    by_cases hne : t.placeholdersOf i = []
    · simp [hne]
    · obtain ⟨q, hq⟩ := hone i hi hne
      simp [hq]
  obtain ⟨u, hperform, hremains, hlost, hkept⟩ :=
    (hl.repeatable hcapacity hsingle).typeText hp s
  refine ⟨u, hperform, fun i hi hne => ?_⟩
  -- A tab stop that is left of the index was there before
  obtain ⟨x, hx⟩ := List.exists_mem_of_ne_nil _ hne
  obtain ⟨hxmem, hxindex⟩ := List.mem_filter.1 hx
  rw [(hremains.kept_of_mem hxmem).index?_eq] at hxindex
  have hxt : x ∈ t.placeholdersOf i :=
    List.mem_filter.2 ⟨hremains.mem_placeholders hl hxmem, hxindex⟩
  obtain ⟨q, hq⟩ := hone i hi (List.ne_nil_of_mem hxt)
  have hqmem : q ∈ (t.placeholdersOf i).filter t.isPrimary := by simp [hq]
  have hqt := (List.mem_filter.1 (List.mem_filter.1 hqmem).1).1
  refine ⟨q, ?_, hremains.filter_isPrimary hl hq, hlost q, fun hqp hfree => ?_⟩
  · rw [primary?, ← List.head?_filter, hq]
    rfl
  · have hk := hkept q (hl.inUse_of_mem_placeholders hqt) hqp hfree
    exact hremains.mem_of_kept hl hk hqt

/-- The primary tab stop of index 2 is inside of that of index 1, and another one is behind it. -/
def enclosing : Tree := ofSnippet 0 .textMate "$\x7b1:$\x7b2:a\x7d\x7d $2" false

/-- Typing into index 1 loses the primary tab stop of index 2. The other one is left, and is no
primary one. -/
theorem typeText_primaries_enclosing :
    (∀ i : TabIndex, i.isFinal = false → enclosing.placeholdersOf i ≠ [] →
      ∃ q, (enclosing.placeholdersOf i).filter enclosing.isPrimary = [q]) ∧
      ∃ u, (typeText ⟨0, 1, 0⟩ "x").perform enclosing = (.ok (), u) ∧
        u.placeholdersOf (.ofNat 2) = [⟨0, 5, 0⟩] ∧
        (u.placeholdersOf (.ofNat 2)).filter u.isPrimary = [] := by
  have hstart : (ofSource 0 .textMate "$\x7b1:$\x7b2:a\x7d\x7d $2").assignPrimaries.capacity = 6 := by
    cbv
  have hl : enclosing.WellLinked :=
    ((unrepeated_ofSource 0 .textMate _).repeatAll (by rw [hstart]; decide)).wellLinked
  have htree : (enclosing.capacity, enclosing.placeholders, enclosing.primaries,
      enclosing.placeholders.map enclosing.index?, enclosing.primary? (.ofNat 2),
      enclosing.ancestors ⟨0, 2, 0⟩,
      ((typeText ⟨0, 1, 0⟩ "x").after enclosing).placeholdersOf (.ofNat 2)) =
    (7, [⟨0, 1, 0⟩, ⟨0, 2, 0⟩, ⟨0, 5, 0⟩], [⟨0, 1, 0⟩, ⟨0, 2, 0⟩],
      [some (.ofNat 1), some (.ofNat 2), some (.ofNat 2)], some ⟨0, 2, 0⟩,
      [⟨0, 1, 0⟩, ⟨0, 0, 0⟩], [⟨0, 5, 0⟩]) := by cbv
  simp only [Prod.mk.injEq] at htree
  obtain ⟨hcapacity, hplaceholders, hprimaries, hindexes, hprimary, habove, hleft⟩ := htree
  simp only [hplaceholders, List.map_cons, List.map_nil, List.cons.injEq, and_true] at hindexes
  obtain ⟨hfirst, hsecond, hthird⟩ := hindexes
  -- One of the two primary tab stops is of index 1, and one of index 2
  have hone : ∀ i : TabIndex, i.isFinal = false → enclosing.placeholdersOf i ≠ [] →
      ∃ q, (enclosing.placeholdersOf i).filter enclosing.isPrimary = [q] := by
    intro i _ hne
    have hswap : (enclosing.placeholdersOf i).filter enclosing.isPrimary =
        enclosing.primaries.filter fun h => enclosing.index? h == some i := by
      rw [placeholdersOf, primaries, List.filter_filter, List.filter_filter]
      exact List.filter_congr fun x _ => Bool.and_comm ..
    rw [hswap, hprimaries]
    have hne12 : TabIndex.ofNat 1 ≠ .ofNat 2 := by decide
    by_cases h1 : i = .ofNat 1
    · refine ⟨⟨0, 1, 0⟩, ?_⟩
      simp [hfirst, hsecond, h1, hne12.symm]
    · by_cases h2 : i = .ofNat 2
      · refine ⟨⟨0, 2, 0⟩, ?_⟩
        simp [hfirst, hsecond, h2, hne12]
      · simp [placeholdersOf, hplaceholders, hfirst, hsecond, hthird, Ne.symm h1,
          Ne.symm h2] at hne
  obtain ⟨u, hperform, hall⟩ := typeText_primaries hl (by rw [hcapacity]; decide) hone
    (p := ⟨0, 1, 0⟩) (by simp [hprimaries]) "x"
  rw [Edit.after, hperform] at hleft
  obtain ⟨q, hq, hprimaries, hkept, -⟩ := hall (.ofNat 2) (by decide) (by simp [hleft])
  obtain rfl := Option.some.inj (hprimary.symm.trans hq)
  refine ⟨hone, u, hperform, hleft, ?_⟩
  rw [hprimaries, if_neg fun hmem => hkept hmem (by simp [habove])]

end TabStop.Tree
