import TabStop.Proofs.Canonical.Unvalued
import TabStop.Proofs.Edit.Updating

/-!
# Replacing what is in a node

The nodes that a node gets for its children may come from anywhere: they may have stood alone, or been
in another place of the snippet, or below that very node. Wherever a node is found afterwards, it is
among what has come in, or it is where it was and has not been below the node.
-/

namespace TabStop

namespace Tree

variable {t u : Tree} {h x : Handle} {cs : List Handle}

/-! ## Where nodes are afterwards -/

namespace Refilled

theorem before (hu : Refilled t h cs u) (hx : u.InUse x) : t.InUse x := ((hu.inUse_iff x).1 hx).1

theorem identity_eq (hu : Refilled t h cs u) : u.identity = t.identity := by
  obtain ⟨_, htrims⟩ := hu.trims
  exact htrims.identity

theorem root_eq (hu : Refilled t h cs u) : u.root = t.root := by
  simp [root, hu.identity_eq]

theorem placeholder?_eq (hu : Refilled t h cs u) (hx : u.InUse x) :
    u.placeholder? x = t.placeholder? x := by
  rw [hx.placeholder?_eq, (hu.before hx).placeholder?_eq, hu.marker hx]

theorem isPrimary_eq (hu : Refilled t h cs u) (hx : u.InUse x) :
    u.isPrimary x = t.isPrimary x := by
  rw [isPrimary, isPrimary, hu.placeholder?_eq hx]

theorem index?_eq (hu : Refilled t h cs u) (hx : u.InUse x) : u.index? x = t.index? x := by
  rw [index?, index?, hu.placeholder?_eq hx]

/-- A node is in what has come in, or it is where it was and has not been inside of the node. -/
theorem cases (hu : Refilled t h cs u) (hl : t.WellLinked) (hx : u.InUse x) :
    (∃ c ∈ cs, t.isAncestorOrSelf c x) ∨ u.ancestors x = t.ancestors x ∧ h ∉ t.ancestors x := by
  -- The way up is gone until it comes to what has come in, or to its end
  obtain ⟨as, ha⟩ := Linked.lineage hu.wellLinked hx
  induction as generalizing x with
  | nil =>
    by_cases hxcs : x ∈ cs
    · exact Or.inl ⟨x, hxcs, isAncestorOrSelf_self t x⟩
    · have hnone : t.Lineage x [] := by
        have hparent := hu.parent hx
        rwa [if_neg hxcs, ha, eq_comm] at hparent
      rw [Linked.ancestors_eq hu.wellLinked hx ha, Linked.ancestors_eq hl (hu.before hx) hnone]
      exact Or.inr ⟨rfl, by simp⟩
  | cons p as ih =>
    by_cases hxcs : x ∈ cs
    · exact Or.inl ⟨x, hxcs, isAncestorOrSelf_self t x⟩
    · have hup : (t.slotOf x).parent = some p := by
        have hparent := hu.parent hx
        rwa [if_neg hxcs, ha.1, eq_comm] at hparent
      obtain ⟨hpu, hmem⟩ := Linked.parent hu.wellLinked hx ha.1
      obtain ⟨hpt, hmemt⟩ := Linked.parent hl (hu.before hx) hup
      have hne : h ≠ p := by
        rintro rfl
        rw [hu.children_self] at hmem
        exact hxcs hmem
      rw [Linked.ancestors_child hl hpt hmemt, Linked.ancestors_child hu.wellLinked hpu hmem]
      rcases ih hpu ha.2 with ⟨c, hc, habove⟩ | ⟨heq, hnot⟩
      · refine Or.inl ⟨c, hc, isAncestorOrSelf_iff.2 ?_⟩
        rw [Linked.ancestors_child hl hpt hmemt]
        exact List.mem_cons_of_mem _ (isAncestorOrSelf_iff.1 habove)
      · exact Or.inr ⟨by rw [heq], by simp [hne, hnot]⟩

/-- The tab stops of the document are those that have come in and others that were there. -/
theorem placeholders_cases (hu : Refilled t h cs u) (hl : t.WellLinked)
    (hcs : ∀ c ∈ cs, t.InUse c) (hx : x ∈ u.placeholders) :
    x ∈ t.placeholdersIn cs ∨ x ∈ t.placeholders ∧ h ∉ t.ancestors x := by
  obtain ⟨hxu, hsome, habove⟩ := hu.wellLinked.mem_placeholders_iff.1 hx
  have hxt := hu.before hxu
  rw [hu.placeholder?_eq hxu] at hsome
  rcases hu.cases hl hxu with ⟨c, hc, hcx⟩ | ⟨heq, hnot⟩
  · refine Or.inl (List.mem_filter.2 ⟨List.mem_flatMap.2 ⟨c, hc, ?_⟩, hsome⟩)
    exact (hl.mem_walk_iff (hcs c hc)).2 ⟨hxt, hcx⟩
  · rw [heq, hu.root_eq] at habove
    exact Or.inr ⟨hl.mem_placeholders_iff.2 ⟨hxt, hsome, habove⟩, hnot⟩

/-- The node itself stays where it was. -/
theorem ancestors_self (hu : Refilled t h cs u) (hl : t.WellLinked)
    (hcs : ∀ c ∈ cs, t.CanMove h c) : u.ancestors h = t.ancestors h := by
  rcases hu.cases hl hu.self with ⟨c, hc, habove⟩ | ⟨heq, -⟩
  · exact absurd (isAncestorOrSelf_iff.1 habove) (canMove_iff.1 (hcs c hc)).2.2.2
  · exact heq

end Refilled

/-! ## Replacements that are not refused -/

/-- What has been checked before anything is replaced. -/
structure Replaceable (t : Tree) (h : Handle) (cs : List Handle) : Prop where
  attached : t.isAttached h
  incoming : checkIncoming (t.indexesAround h) (t.claimedIndexes h (t.placeholdersIn cs))
    ((t.placeholdersIn cs).filterMap t.placeholder?) = .ok ()

theorem replaceable_of_checkReplace {a : Unit}
    (hok : ((checkReplace h cs).perform t).1 = .ok a) : t.Replaceable h cs := by
  simp only [checkReplace, Edit.perform_bind, check_perform] at hok
  by_cases ho : t.owns h
  case neg =>
    simp [ho] at hok
  by_cases hattached : t.isAttached h
  case neg =>
    simp [ho, hattached] at hok
  simp only [ho, hattached, Bool.not_true, Bool.false_eq_true, ↓reduceIte, Edit.perform_get,
    Edit.perform_bind] at hok
  have hread : ((cs.forM check).perform t).2 = t := Edit.ReadOnly.forM readOnly_check cs t
  rcases hr : (cs.forM check).perform t with ⟨err | _, w⟩
  · rw [hr] at hok
    simp at hok
  · rw [hr] at hread hok
    obtain rfl : w = t := hread
    refine ⟨hattached, ?_⟩
    -- The last of the checks is the one for the indexes that come in
    cases hcheck : checkIncoming (w.indexesAround h) (w.claimedIndexes h (w.placeholdersIn cs))
        ((w.placeholdersIn cs).filterMap w.placeholder?) with
    | error err => simp [hcheck] at hok
    | ok _ => rfl

/-- If a replacement succeeds, it has been checked and done, and the tree brought up to date. The node
was in the document. -/
theorem WellLinked.replaceSubtree_ok (hl : t.WellLinked) (hnodup : cs.Nodup)
    (hcs : ∀ c ∈ cs, t.InUse c) (hok : (replaceSubtree h cs).perform t = (.ok (), u)) :
    t.Replaceable h cs ∧ (∀ c ∈ cs, t.CanMove h c) ∧ ∃ v, Refilled t h cs v ∧
      v = (overwrite h cs).after t ∧ u = v.settle := by
  have hread := readOnly_checkReplace h cs t
  rw [replaceSubtree, Edit.perform_bind] at hok
  rcases hr : (checkReplace h cs).perform t with ⟨err | a, w⟩
  · simp [hr] at hok
  rw [hr] at hok hread
  -- Checks change nothing
  obtain rfl : w = t := hread
  have hreplaceable := replaceable_of_checkReplace (congrArg Prod.fst hr)
  have hhu := hl.mem_walk_root_inUse (hl.isAttached_iff.1 hreplaceable.attached)
  have hmodified := Edit.modify_ok hok
  rcases overwrite_cases w h cs with ⟨-, hmove, -⟩ | ⟨-, err, hrefused⟩
  · obtain ⟨v, hperform, hv⟩ := overwrite_refilled hl hhu hnodup fun c hc =>
      ⟨hcs c hc, hmove c hc⟩
    rw [after_of_perform hperform] at hmodified ⊢
    exact ⟨hreplaceable, hmove, v, hv, rfl, hmodified⟩
  · simp [hrefused] at hok

end Tree

end TabStop
