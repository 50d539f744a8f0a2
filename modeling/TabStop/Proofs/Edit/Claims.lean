import TabStop.Proofs.Edit.Refilling

/-!
# Replacing takes no primary tab stop away

A tab stop that comes in may be marked as a primary one. Then its index must not be claimed: by a
primary tab stop that stays, or by another one that comes in. So no index has two when the primary
tab stops are chosen anew, and each is chosen again.
-/

namespace TabStop.Tree

variable {t u : Tree} {h q r : Handle} {cs : List Handle} {i : TabIndex}
  {around claimed : List TabIndex} {ps : List Placeholder}

/-! ## Claims -/

/-- Of the tab stops that may come in, no primary one has an index that is claimed, and no two have the
same. -/
theorem checkIncoming_ok (hok : checkIncoming around claimed ps = .ok ()) :
    (∀ p ∈ ps, p.index.isFinal = false → p.primary → p.index ∉ claimed) ∧
      ps.Pairwise fun p q =>
        p.index.isFinal = false → p.primary → q.primary → p.index ≠ q.index := by
  induction ps generalizing claimed with
  | nil => simp
  | cons p ps ih =>
    rw [List.forall_mem_cons, List.pairwise_cons]
    rw [checkIncoming] at hok
    split at hok
    · next hfinal =>
      obtain ⟨hclaimed, hpairs⟩ := ih hok
      exact ⟨⟨by simp [hfinal], hclaimed⟩, by simp [hfinal], hpairs⟩
    split at hok
    · simp at hok
    split at hok
    · split at hok
      · simp at hok
      · next hnot =>
        -- It claims its index, so that the others must have other ones
        obtain ⟨hclaimed, hpairs⟩ := ih hok
        have hothers {q : Placeholder} (hq : q ∈ ps) (hfinal : q.index.isFinal = false)
            (hprimary : q.primary) : q.index ≠ p.index ∧ q.index ∉ claimed := by
          simpa using hclaimed q hq hfinal hprimary
        refine ⟨⟨fun _ _ => by simpa using hnot, fun q hq hfinal hprimary =>
          (hothers hq hfinal hprimary).2⟩, fun q hq hfinal _ hprimary heq => ?_, hpairs⟩
        exact (hothers hq (heq ▸ hfinal) hprimary).1 heq.symm
    · next hprimary =>
      obtain ⟨hclaimed, hpairs⟩ := ih hok
      exact ⟨⟨fun _ h => absurd h hprimary, hclaimed⟩, fun _ _ _ h => absurd h hprimary, hpairs⟩

theorem exists_placeholder_of_primary (hq : t.isPrimary q) (hi : t.index? q = some i) :
    ∃ k, t.placeholder? q = some k ∧ k.primary ∧ k.index = i := by
  cases hk : t.placeholder? q with
  | none => simp [isPrimary, hk] at hq
  | some k =>
    rw [isPrimary, hk, Option.any_some] at hq
    rw [index?, hk, Option.map_some, Option.some.injEq] at hi
    exact ⟨k, rfl, hq, hi⟩

/-- Two marked tab stops that come in have different indexes. -/
theorem Replaceable.eq_of_incoming (hr : t.Replaceable h cs) (hi : i.isFinal = false)
    (hqin : q ∈ t.placeholdersIn cs) (hrin : r ∈ t.placeholdersIn cs) (hq : t.isPrimary q)
    (hrp : t.isPrimary r) (hqi : t.index? q = some i) (hri : t.index? r = some i) : q = r := by
  have hpairs : (t.placeholdersIn cs).Pairwise fun x y =>
      t.isPrimary x → t.index? x = some i → t.isPrimary y → t.index? y ≠ some i := by
    refine (List.pairwise_filterMap.1 (checkIncoming_ok hr.incoming).2).imp ?_
    intro x y hxy hx hxi hy hyi
    obtain ⟨j, hj, hjp, rfl⟩ := exists_placeholder_of_primary hx hxi
    obtain ⟨k, hk, hkp, heq⟩ := exists_placeholder_of_primary hy hyi
    exact hxy j hj k hk hi hjp hkp heq.symm
  -- The order in which they come in is of no account
  have : Std.Symm fun x y => t.isPrimary x → t.index? x = some i → t.isPrimary y →
      t.index? y ≠ some i := ⟨fun x y hxy hy hyi hx hxi => hxy hx hxi hy hyi⟩
  apply Decidable.byContradiction
  intro hne
  exact hpairs.forall hqin hrin hne hq hqi hrp hri

/-- A marked tab stop that comes in has no index of a primary one that stays. -/
theorem Replaceable.not_stays (hr : t.Replaceable h cs) (hi : i.isFinal = false)
    (hqin : q ∈ t.placeholdersIn cs) (hrin : r ∉ t.placeholdersIn cs) (hq : t.isPrimary q)
    (hrp : r ∈ t.primaries) (hout : h ∉ t.ancestors r) (hqi : t.index? q = some i) :
    t.index? r ≠ some i := by
  intro hri
  obtain ⟨j, hj, hjp, rfl⟩ := exists_placeholder_of_primary hq hqi
  refine (checkIncoming_ok hr.incoming).1 j (List.mem_filterMap.2 ⟨q, hqin, hj⟩) hi hjp ?_
  refine List.mem_filterMap.2 ⟨r, List.mem_filter.2 ⟨hrp, ?_⟩, hri⟩
  have hnot : t.isAncestorOrSelf h r = false ∨ r = h := by
    refine Decidable.or_iff_not_imp_right.2 fun hne => ?_
    rw [← Bool.not_eq_true, isAncestorOrSelf_iff, List.mem_cons, eq_comm (a := h)]
    simp [hne, hout]
  simpa [hrin] using hnot

/-! ## Choosing again -/

/-- When the content of a node has been replaced, no index is marked twice that was not before. -/
theorem Refilled.length_primaries_le (hu : Refilled t h cs u) (hl : t.WellLinked)
    (hcs : ∀ c ∈ cs, t.InUse c) (hr : t.Replaceable h cs) (hi : i.isFinal = false)
    (hsingle : ((t.placeholdersOf i).filter t.isPrimary).length ≤ 1) :
    ((u.placeholdersOf i).filter u.isPrimary).length ≤ 1 := by
  have hwas {q : Handle} (hq : q ∈ (u.placeholdersOf i).filter u.isPrimary) :
      t.isPrimary q ∧ t.index? q = some i ∧
        (q ∈ t.placeholdersIn cs ∨ q ∈ t.primaries ∧ h ∉ t.ancestors q) := by
    obtain ⟨hqi, hprimary⟩ := List.mem_filter.1 hq
    obtain ⟨hmem, hindex⟩ := mem_placeholdersOf_iff.1 hqi
    have hqu := hu.wellLinked.inUse_of_mem_placeholders hmem
    rw [hu.isPrimary_eq hqu] at hprimary
    rw [hu.index?_eq hqu] at hindex
    refine ⟨hprimary, hindex, (hu.placeholders_cases hl hcs hmem).imp_right ?_⟩
    exact fun ⟨hmem, hout⟩ => ⟨List.mem_filter.2 ⟨hmem, hprimary⟩, hout⟩
  refine length_le_one_of_nodup ((hu.wellLinked.nodup_placeholdersOf i).filter _) ?_
  intro q hq r hr'
  obtain ⟨hqp, hqi, hqcases⟩ := hwas hq
  obtain ⟨hrp, hri, hrcases⟩ := hwas hr'
  -- A primary has come in with the new nodes or was there before, and none of the one kind has the
  -- index of the other
  by_cases hqin : q ∈ t.placeholdersIn cs <;> by_cases hrin : r ∈ t.placeholdersIn cs
  · exact hr.eq_of_incoming hi hqin hrin hqp hrp hqi hri
  · obtain ⟨hrt, hout⟩ := hrcases.resolve_left hrin
    exact absurd hri (hr.not_stays hi hqin hrin hqp hrt hout hqi)
  · obtain ⟨hqt, hout⟩ := hqcases.resolve_left hqin
    exact absurd hqi (hr.not_stays hi hrin hqin hrp hqt hout hri)
  · exact eq_of_primaries hsingle (hqcases.resolve_left hqin).1 (hrcases.resolve_left hrin).1 hqi hri

/-- A tab stop that is marked is chosen again if no other one of its index is marked. -/
theorem isPrimary_assignPrimaries (hsingle : ∀ i : TabIndex, i.isFinal = false →
    ((t.placeholdersOf i).filter t.isPrimary).length ≤ 1) (hq : q ∈ t.primaries) :
    t.assignPrimaries.isPrimary q := by
  obtain ⟨hmem, hprimary⟩ := List.mem_filter.1 hq
  obtain ⟨k, hk⟩ := exists_placeholder?_of_mem hmem
  have hindex : t.index? q = some k.index := by simp [index?, hk]
  rw [isPrimary, placeholder?_assignPrimaries, if_pos hmem, hk]
  simp only [Option.map_some, Option.any_some, marked, becomesPrimary, hindex]
  cases hfinal : k.index.isFinal with
  | true => rfl
  | false =>
    -- There is only one that is marked, so it is chosen again
    have hone : (t.placeholdersOf k.index).filter t.isPrimary = [q] := by
      have hmem : q ∈ (t.placeholdersOf k.index).filter t.isPrimary :=
        List.mem_filter.2 ⟨mem_placeholdersOf_iff.2 ⟨hmem, hindex⟩, hprimary⟩
      obtain ⟨r, hr⟩ := List.length_eq_one_iff.1
        (Nat.le_antisymm (hsingle _ hfinal) (List.length_pos_of_mem hmem))
      rw [hr, List.mem_singleton] at hmem
      rw [hr, hmem]
    simp [choosePrimary, hone]

/-- Replacing what is in a node takes no primary tab stop away, in a document that has one of an index at
most. Nodes that come in may be from anywhere, but none is given twice. If that is not refused, no index
has two primary tab stops afterwards; and a tab stop that was marked as a primary one, be it one of the
document or one that has come in, is one still, if it is in the document. A tree never has more slots
than the numbers of 32 bits can tell apart. -/
theorem replaceSubtree_primaries (hl : t.WellLinked) (hcapacity : t.capacity ≤ 2 ^ 32)
    (hsingle : ∀ i : TabIndex, i.isFinal = false →
      ((t.placeholdersOf i).filter t.isPrimary).length ≤ 1)
    (hnodup : cs.Nodup) (hcs : ∀ c ∈ cs, t.InUse c)
    (hok : (replaceSubtree h cs).perform t = (.ok (), u)) :
    (∀ i : TabIndex, i.isFinal = false →
      ((u.placeholdersOf i).filter u.isPrimary).length ≤ 1) ∧
      ∀ q, t.isPrimary q → q ∈ u.placeholders → q ∈ u.primaries := by
  obtain ⟨hreplaceable, -, v, hv, hafter, rfl⟩ := hl.replaceSubtree_ok hnodup hcs hok
  have hlv := hv.wellLinked
  have hsinglev (i : TabIndex) (hi : i.isFinal = false) :
      ((v.placeholdersOf i).filter v.isPrimary).length ≤ 1 :=
    hv.length_primaries_le hl hcs hreplaceable hi (hsingle i hi)
  have hrepeatable := hlv.repeatable_assignPrimaries
    (by rw [hafter, capacity_overwrite]; exact hcapacity)
  obtain ⟨hremains, -⟩ := hrepeatable.remains_repeatAll
  refine ⟨fun i hi => (hremains.repeatable hrepeatable).length_primaries_le hi,
    fun q hq hmem => List.mem_filter.2 ⟨hmem, ?_⟩⟩
  have hmemv := hremains.mem_placeholders hrepeatable.wellLinked hmem
  rw [placeholders_assignPrimaries] at hmemv
  have hqv := hlv.inUse_of_mem_placeholders hmemv
  -- Repeating keeps the marks, and assigning keeps those that are there
  rw [settle, (hremains.kept_of_mem hmem).isPrimary_eq]
  apply isPrimary_assignPrimaries hsinglev
  exact List.mem_filter.2 ⟨hmemv, by rwa [hv.isPrimary_eq hqv]⟩

/-- The content of index 1 is replaced by both tab stops of index 2. The one that repeats the other one
comes first, and the other one stays the primary one. -/
theorem replaceSubtree_primaries_enclosing :
    ∃ u, (replaceSubtree ⟨0, 1, 0⟩ [⟨0, 5, 0⟩, ⟨0, 2, 0⟩]).perform enclosing = (.ok (), u) ∧
      u.placeholders = [⟨0, 1, 0⟩, ⟨0, 5, 0⟩, ⟨0, 2, 0⟩] ∧ ⟨0, 2, 0⟩ ∈ u.primaries := by
  have hsource : (ofSource 0 .textMate "$\x7b1:$\x7b2:a\x7d\x7d $2").capacity = 6 := by cbv
  have ht : enclosing.Repeatable :=
    (Usable.ofSnippet 0 .textMate _ false (by rw [hsource]; decide)).toRepeatable
  have htree : (enclosing.capacity, enclosing.free, enclosing.isPrimary ⟨0, 2, 0⟩,
      ((replaceSubtree ⟨0, 1, 0⟩ [⟨0, 5, 0⟩, ⟨0, 2, 0⟩]).after enclosing).placeholders) =
    (7, [], true, [⟨0, 1, 0⟩, ⟨0, 5, 0⟩, ⟨0, 2, 0⟩]) := by cbv
  have hok : ((replaceSubtree ⟨0, 1, 0⟩ [⟨0, 5, 0⟩, ⟨0, 2, 0⟩]).perform enclosing).1 = .ok () := by
    cbv
  have howned : (enclosing.owns ⟨0, 5, 0⟩, enclosing.owns ⟨0, 2, 0⟩) = (true, true) := by cbv
  simp only [Prod.mk.injEq] at htree howned
  obtain ⟨hcapacity, hfree, hprimary, hplaceholders⟩ := htree
  have hinUse {x : Handle} (hx : enclosing.owns x) : enclosing.InUse x := ⟨hx, by simp [hfree]⟩
  obtain ⟨-, hkept⟩ := replaceSubtree_primaries ht.wellLinked (by rw [hcapacity]; decide)
    (fun _ hi => ht.length_primaries_le hi) (by decide)
    (by simpa using ⟨hinUse howned.1, hinUse howned.2⟩) (Prod.ext hok rfl)
  have hmem : ⟨0, 2, 0⟩ ∈
      ((replaceSubtree ⟨0, 1, 0⟩ [⟨0, 5, 0⟩, ⟨0, 2, 0⟩]).after enclosing).placeholders := by
    simp [hplaceholders]
  exact ⟨_, Prod.ext hok rfl, hplaceholders, hkept _ hprimary hmem⟩

end TabStop.Tree
