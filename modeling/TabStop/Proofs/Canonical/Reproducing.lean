import TabStop.Proofs.Canonical.Persisting
import TabStop.Proofs.Canonical.Recovering

/-!
# A snippet that is written and read again

A snippet that is up to date shows the same text when what is written of it is read as a snippet, if
what is written tells enough. In particular that is so after typing.
-/

namespace TabStop.Tree

open Grammar

variable {t u v : Tree} {c h m p q x : Handle} {hs : List Handle} {i j : TabIndex} {s : String}

/-! ## What is told by lists -/

/-- The pairs of an index and one that it holds. -/
def holdings (t : Tree) : List (TabIndex × TabIndex) :=
  t.primaries.flatMap fun q => (t.index? q).toList.flatMap fun i =>
    (((t.walk q).filter (!t.isPrimary ·)).filterMap t.index?).filterMap fun j =>
      if j.isFinal || j == i then none else some (i, j)

theorem mem_holdings_iff : (i, j) ∈ t.holdings ↔ t.Holds i j := by
  simp only [holdings, Holds, List.mem_flatMap, List.mem_filterMap, List.mem_filter,
    Option.mem_toList]
  constructor
  · rintro ⟨q, hq, i', hi, j', ⟨m, ⟨hm, hprimary⟩, hj⟩, heq⟩
    split at heq
    · cases heq
    next hcond =>
    cases heq
    rw [Bool.or_eq_true, not_or, Bool.not_eq_true, beq_iff_eq] at hcond
    exact ⟨hcond.1, hcond.2, q, hq, hi, m, hm, by simpa using hprimary, hj⟩
  · rintro ⟨hfinal, hne, q, hq, hi, m, hm, hprimary, hj⟩
    exact ⟨q, hq, i, hi, j, ⟨m, ⟨hm, by simp [hprimary]⟩, hj⟩, by simp [hfinal, hne]⟩

/-- No index holds itself in a circle if each is of a higher rank than what it holds. -/
theorem acyclic_of_holdings (rank : TabIndex → Nat) (hrank : ∀ p ∈ t.holdings, rank p.2 < rank p.1)
    (i : TabIndex) : ¬ Relation.TransGen t.Holds i i := by
  intro hi
  have hlt {j : TabIndex} (hij : Relation.TransGen t.Holds i j) : rank j < rank i := by
    induction hij with
    | single hij => exact hrank _ (mem_holdings_iff.2 hij)
    | tail _ hjk ih => exact (hrank _ (mem_holdings_iff.2 hjk)).trans ih
  exact lt_irrefl _ (hlt hi)

/-- It is enough to look at the indexes that there are. -/
theorem rechoosable_of_indexes {P : Handle → Prop}
    (hchosen : ∀ i ∈ t.placeholders.filterMap t.index?, i.isFinal = false → ∃ p,
      t.primary? i = some p ∧
        (t.firstChoice? i = some p ∨ t.isPlain p ∧ ∀ m ∈ t.placeholdersOf i, P m)) :
    t.Rechoosable P := by
  intro i hfinal hne
  obtain ⟨x, hx⟩ := List.exists_mem_of_ne_nil _ hne
  obtain ⟨hmem, hi⟩ := mem_placeholdersOf_iff.1 hx
  exact hchosen i (List.mem_filterMap.2 ⟨x, hmem, hi⟩) hfinal

/-! ## The final tab stop -/

theorem WellLinked.wellLinked_insertFinal (hl : t.WellLinked) : t.insertFinal.2.WellLinked := by
  obtain ⟨-, heq⟩ | ⟨h, ha⟩ := hl.insertFinal_cases
  · rwa [heq]
  · exact ha.wellLinked

/-- A final tab stop that is added shows nothing. -/
theorem text_insertFinal (hl : t.WellLinked) (hroot : (t.slotOf t.root).marker = .root) :
    t.insertFinal.2.text = t.text := by
  obtain ⟨-, heq⟩ | ⟨h, ha⟩ := hl.insertFinal_cases
  · rw [heq]
  generalize t.insertFinal.2 = u at ha
  have hrootu := Linked.root_inUse hl
  have hnew : u.render h = "" := by
    rw [ha.wellLinked.render_eq ha.inUse_new, ha.marker_new, ha.children_new]
    rfl
  have hold : (t.slotOf t.root).children.map u.render = (t.slotOf t.root).children.map t.render :=
    List.map_congr_left fun c hc =>
      ha.render_eq hl (Linked.child hl hrootu hc).1 (hl.not_mem_walk_child hrootu hc)
  rw [text, text, ha.root_eq, ha.wellLinked.render_eq (ha.inUse hrootu), hl.render_eq hrootu,
    ha.marker hrootu, hroot, ha.children hrootu, if_pos rfl, List.map_append, hold,
    List.map_singleton, hnew]
  simp [Marker.ownText?, String.join_append]

/-! ## Text that comes back -/

/-- There is nothing in a node with a transform that does not repeat another one. -/
theorem Writable.hidden (hw : t.Writable) (hl : t.WellLinked) (hleg : t.Legible) (hx : x ∈ t.nodes)
    (htransform : (t.slotOf x).marker.transform?.isSome)
    (hfree : ∀ p ∈ t.leaders, ¬ t.Follows x p) : (t.slotOf x).children = [] := by
  have hrootu := Linked.root_inUse hl
  have hxwalk := (List.mem_filter.1 hx).1
  have hxu := hl.mem_walk_root_inUse hxwalk
  have hxmem := hxwalk
  rw [hl.walk_eq hrootu, ← hl.descendants_eq hrootu, List.mem_cons] at hxmem
  rcases hxmem with rfl | hxmem
  · simp [hw.root, Marker.transform?] at htransform
  have hadmits := hw.admits x hxmem
  cases hsome : (t.placeholder? x).isSome with
  | true =>
    have hmem : x ∈ t.placeholders := List.mem_filter.2 ⟨hxmem, hsome⟩
    refine hleg.concealed x hmem (hxu.transform?_eq hsome ▸ htransform) ?_
    obtain ⟨i, hi⟩ := Option.isSome_iff_exists.1 (index?_isSome (t := t) ▸ hsome)
    cases hfinal : i.isFinal with
    | true => simp [isFinal, hi, hfinal]
    | false =>
      have hxi : x ∈ t.placeholdersOf i := mem_placeholdersOf_iff.2 ⟨hmem, hi⟩
      obtain ⟨p, hp, -⟩ := hleg.chosen i hfinal (List.ne_nil_of_mem hxi)
      obtain ⟨hleader, hpi⟩ := mem_leaders_of_primary? hp hfinal
      by_cases hxp : x = p
      · rw [hxp, (mem_leaders_iff.1 hleader).2.1, Bool.true_or]
      -- There is nothing but text in it, so it is not around the primary one
      have hbare : t.Bare x := by
        intro c hc
        have hctext : (t.slotOf c).marker.text?.isSome := by
          have hcm : (t.slotOf c).marker ∈ t.childMarkers x := List.mem_map.2 ⟨c, hc, rfl⟩
          generalize (t.slotOf x).marker = k at hadmits htransform
          generalize t.childMarkers x = ks at hadmits hcm
          cases hadmits <;> simp [Marker.transform?] at htransform
          · next hks => exact hks _ hcm
          · simp at hcm
        exact ⟨hctext, hw.textLeaves hl c (hl.mem_walk_root_child hxwalk hc) hctext⟩
      have habove := hbare.solitary hl hxu p (mem_leaders_iff.1 hleader).1
      exact absurd ((follows_or_above hpi hxi hxp).resolve_left habove) (hfree p hleader)
  | false =>
    -- A variable with a transform holds nothing
    rw [hxu.placeholder?_eq] at hsome
    generalize hk : (t.slotOf x).marker = k at hadmits htransform hsome
    generalize hks : t.childMarkers x = ks at hadmits
    cases hadmits <;> simp [Marker.transform?, Marker.placeholder?] at htransform hsome
    simpa [childMarkers] using hks

/-- A tree of a source with its primary tab stops chosen. -/
theorem writable_assignPrimaries (identity : Nat) (source : String) :
    (ofSource identity .textMate source).assignPrimaries.Writable :=
  (writable_ofSource identity source).sameLinks (sameLinks_assignPrimaries _)
    (dialect_assignPrimaries _) (unmarked_assignPrimaries _)

theorem capacity_assignPrimaries (t : Tree) : t.assignPrimaries.capacity = t.capacity :=
  (sameLinks_assignPrimaries t).size

/-- What is written of a snippet that is up to date is to show the same when it is read. -/
theorem Steady.recovers (ht : t.Steady) (htold : t.UpToDate) (hw : t.Writable)
    (hacyclic : ∀ i, ¬ Relation.TransGen t.Holds i i) (hleg : t.Legible) (identity : Nat)
    (hcapacity : (ofSource identity .textMate t.source).capacity ≤ 2 ^ 32) :
    ∃ ps, Recovers t (ofSource identity .textMate t.source).assignPrimaries ps := by
  have hl := ht.wellLinked
  obtain ⟨ps, hr⟩ := hw.rechosen hl identity
  exact ⟨ps, { hr with
    steady := ht
    settled := fun p hp => by
      obtain ⟨i, hi, -⟩ := exists_index?_of_mem_leaders hp
      exact htold p hp i hi fun j _ => hacyclic j
    acyclic := hacyclic
    leaves := hw.textLeaves hl
    legible := hleg
    hidden := fun x hx htransform hfree => hw.hidden hl hleg hx htransform hfree
    unrepeated := unrepeated_ofSource identity .textMate t.source
    capacity := (capacity_assignPrimaries _).trans_le hcapacity }⟩

/-- A snippet that is up to date comes back with its text, if no indexes hold each other in a circle
and what is written of it tells its text. A tree never has more slots than the numbers of 32 bits
can tell apart. -/
theorem Steady.text_ofSnippet (ht : t.Steady) (htold : t.UpToDate) (hw : t.Writable)
    (hacyclic : ∀ i, ¬ Relation.TransGen t.Holds i i) (hleg : t.Legible) (identity : Nat)
    (final : Bool) (hcapacity : (ofSource identity .textMate t.source).capacity ≤ 2 ^ 32) :
    (ofSnippet identity .textMate t.source final).text = t.text := by
  obtain ⟨ps, hr⟩ := ht.recovers htold hw hacyclic hleg identity hcapacity
  have hws := (writable_assignPrimaries identity t.source).repeatAll hr.repeatable
  cases final with
  | false => exact hr.text_eq
  | true => exact (text_insertFinal hr.cleared.wellLinked hws.root).trans hr.text_eq

/-! ## Snippets -/

theorem concealed_assignPrimaries (identity : Nat) (d : Dialect) (source : String) :
    (ofSource identity d source).assignPrimaries.Concealed := by
  intro x hx htransform _
  have hlinks := sameLinks_assignPrimaries (ofSource identity d source)
  have hl := hlinks.wellLinked (grown_ofSource identity d source).1
  have hxu := hl.inUse_of_mem_placeholders hx
  rw [← hxu.transform?_eq (isSome_of_mem_placeholders hx), ← Marker.transform?_unmarked,
    unmarked_assignPrimaries, Marker.transform?_unmarked] at htransform
  have hxmem := (List.mem_filter.1 hx).1
  rw [descendants, hlinks.walk_eq, hlinks.root_eq] at hxmem
  rw [hlinks.children]
  exact children_of_transform identity d source hxmem htransform

/-! ### Repeating -/

/-- A tab stop that does not follow any primary one goes on to show the same text. -/
theorem Repeatable.flat_repeatPass_of_free (ht : t.Repeatable)
    (hfree : ∀ p ∈ t.leaders, ¬ t.Follows x p) (hf : t.Flat x s)
    (hx : t.repeatPass.2.InUse x) (hsome : (t.repeatPass.2.placeholder? x).isSome) :
    t.repeatPass.2.Flat x s := by
  refine (ht.pass_induction (P := fun _ u => u.InUse x → (u.placeholder? x).isSome → u.Flat x s)
    (fun _ _ => hf) (fun _ _ hu => hu) ?_).2 hx hsome
  intro _ u p hur hu hp ih hxv hsome
  obtain ⟨_, hturning, -⟩ := hu.turning hp
  have hk := (hu.remains_turn hp).kept hxv hsome
  rw [hk.placeholder?_eq] at hsome
  refine hturning.writes.flat hu.wellLinked hxv (hk.placeholder?_eq ▸ hsome) ?_ (ih hk.before hsome)
  rintro m _ ⟨hfm, -⟩ rfl
  exact hfree p (hur.mem_leaders ht.wellLinked hp)
    (hur.follows ht.wellLinked (mem_leaders_iff.1 hp).1 hfm)

theorem Repeatable.flat_repeatPasses_of_free (ht : t.Repeatable) (n : Nat)
    (hfree : ∀ p ∈ t.leaders, ¬ t.Follows x p) (hf : t.Flat x s)
    (hx : (repeatPasses n t).InUse x) (hsome : ((repeatPasses n t).placeholder? x).isSome) :
    (repeatPasses n t).Flat x s := by
  induction n generalizing t with
  | zero => exact hf
  | succ n ih =>
    have hl := ht.wellLinked
    have hpass := ht.remains_repeatPass
    have hrest := ((hpass.repeatable ht).remains_repeatPasses n).1
    rw [repeatPasses_eq hl] at hx hsome ⊢
    have hk := hrest.kept hx hsome
    refine ih (hpass.repeatable ht) (fun p hp hfp => ?_) ?_ hx hsome
    · exact hfree p (hpass.mem_leaders hl hp) (hpass.follows hl (mem_leaders_iff.1 hp).1 hfp)
    · exact ht.flat_repeatPass_of_free hfree hf hk.before (hk.placeholder?_eq ▸ hsome)

/-- What is in a primary tab stop stays there. -/
theorem Concealed.repeatAll (hc : t.Concealed) (ht : t.Repeatable) : t.repeatAll.Concealed := by
  intro x hx htransform hkind
  have hl := ht.wellLinked
  have hremains := ht.remains_repeatAll.1
  have hk := hremains.kept_of_mem hx
  have hxt := hremains.mem_placeholders hl hx
  rw [hk.placeholder?_eq] at htransform
  rw [hk.isPrimary_eq, hk.isFinal_eq] at hkind
  -- A primary or final tab stop follows nothing, so nothing is written to it
  have hfree : ∀ p ∈ t.leaders, ¬ t.Follows x p := by
    intro p hp hf
    have hfinal : t.isFinal x = false := by
      rw [isFinal, hf.index?_eq]
      exact (mem_leaders_iff.1 hp).2.2
    simp [ht.not_primary hp hf, hfinal] at hkind
  have hflat : t.Flat x "" := Or.inl ⟨rfl, hc x hxt htransform hkind⟩
  rcases ht.flat_repeatPasses_of_free _ hfree hflat hk.inUse (isSome_of_mem_placeholders hx) with
    ⟨-, hnil⟩ | ⟨hne, -⟩
  · exact hnil
  · exact absurd rfl hne

theorem Concealed.insertFinal (hc : t.Concealed) (hl : t.WellLinked) :
    t.insertFinal.2.Concealed := by
  obtain ⟨-, heq⟩ | ⟨h, ha⟩ := hl.insertFinal_cases
  · rwa [heq]
  intro x hx htransform hkind
  rw [ha.placeholders_eq hl, List.mem_append, List.mem_singleton] at hx
  rcases hx with hx | rfl
  · have hxu := hl.inUse_of_mem_placeholders hx
    rw [(ha.children_eq hl hx).1]
    rw [ha.placeholder?_eq hxu] at htransform
    rw [ha.isPrimary_eq hxu, isFinal, ha.index?_eq hxu] at hkind
    exact hc x hx htransform hkind
  · exact ha.children_new

/-- A snippet that comes from a source can be written, and there is nothing in a tab stop with a
transform that does not repeat another one. -/
theorem writable_ofSnippet (identity : Nat) (source : String) (final : Bool)
    (hcapacity : (ofSource identity .textMate source).capacity ≤ 2 ^ 32) :
    (ofSnippet identity .textMate source final).Writable ∧
      (ofSnippet identity .textMate source final).Concealed := by
  have hu := unrepeated_ofSource identity .textMate source
  have ht := hu.repeatable ((capacity_assignPrimaries _).trans_le hcapacity)
  have hl := ht.remains_repeatAll.1.wellLinked
  have hw := (writable_assignPrimaries identity source).repeatAll ht
  have hc := (concealed_assignPrimaries identity .textMate source).repeatAll ht
  cases final with
  | false => exact ⟨hw, hc⟩
  | true => exact ⟨hw.insertFinal hl, hc.insertFinal hl⟩

end TabStop.Tree
