import TabStop.Proofs.Edit.Use

/-!
# Updating again

When a primary tab stop has been edited, all tab stops are brought up to date, whichever of them has
been edited. If that leaves nothing to do, it makes no difference how often it is done. It may leave
something to do: so many passes are made as are enough when no indexes hold each other in a circle.
-/

namespace TabStop.Tree

variable {t : Tree} {p q : Handle} {i j : TabIndex}

/-! ## Updating -/

theorem update_perform (hl : t.WellLinked) (hp : p ∈ t.primaries) :
    (update p).perform t = (.ok (), t.repeatAll) := by
  simp [update, checkPrimary_perform hl hp]

theorem update_after (t : Tree) (p : Handle) :
    (update p).after t = t.repeatAll ∨ (update p).after t = t := by
  have hread := readOnly_checkPrimary p t
  rw [Edit.after, update, Edit.perform_bind]
  rcases hr : (checkPrimary p).perform t with ⟨err | _, u⟩
  · rw [hr] at hread
    exact Or.inr hread
  · rw [hr] at hread
    obtain rfl : u = t := hread
    exact Or.inl rfl

theorem length_le_one_of_nodup {α : Type} {as : List α} (hnodup : as.Nodup)
    (hall : ∀ a ∈ as, ∀ b ∈ as, a = b) : as.length ≤ 1 := by
  match as with
  | [] => simp
  | [_] => simp
  | a :: b :: as =>
    -- The first two would be the same
    have heq := hall a (by simp) b (by simp)
    simp [heq] at hnodup

namespace Repeatable

/-- An index that is repeated has one primary tab stop at most. -/
theorem length_primaries_le (ht : t.Repeatable) (hi : i.isFinal = false) :
    ((t.placeholdersOf i).filter t.isPrimary).length ≤ 1 := by
  have hleader {q : Handle} (hq : q ∈ (t.placeholdersOf i).filter t.isPrimary) :
      q ∈ t.leaders ∧ t.index? q = some i := by
    obtain ⟨hqi, hprimary⟩ := List.mem_filter.1 hq
    obtain ⟨hmem, hindex⟩ := List.mem_filter.1 hqi
    have hindex : t.index? q = some i := by simpa using hindex
    exact ⟨mem_leaders_iff.2 ⟨hmem, hprimary, by simp [isFinal, hindex, hi]⟩, hindex⟩
  refine length_le_one_of_nodup ((ht.wellLinked.nodup_placeholdersOf i).filter _) fun q hq r hr => ?_
  exact ht.single q (hleader hq).1 r (hleader hr).1 ((hleader hq).2.trans (hleader hr).2.symm)

/-- There is nothing left to do when the primary tab stops are settled. -/
theorem repeatAll_eq (ht : t.Repeatable) (hs : ∀ q ∈ t.leaders, t.Settled q) :
    t.repeatAll = t := by
  rw [repeatAll, repeatPasses_succ, ht.repeatPass_eq hs]
  rfl

/-- There is nothing left to do when all has been repeated, if no indexes hold each other in a circle
after the first pass. -/
theorem repeatAll_repeatAll (ht : t.Repeatable)
    (hacyclic : ∀ i, ¬ Relation.TransGen t.repeatPass.2.Holds i i) :
    t.repeatAll.repeatAll = t.repeatAll := by
  obtain ⟨hremains, hsettled⟩ := ht.settled_of_repeatPass
  exact (hremains.repeatable ht).repeatAll_eq fun q hq => hsettled q hq fun _ _ j _ => hacyclic j

end Repeatable

/-- Updating twice is updating once. A primary tab stop is updated in a document that has one primary
tab stop of an index at most, and in which no indexes hold each other in a circle when the first pass
has been made. That succeeds, and to update again, this tab stop or any other, then changes nothing. A
tree never has more slots than the numbers of 32 bits can tell apart. -/
theorem update_update (hl : t.WellLinked) (hcapacity : t.capacity ≤ 2 ^ 32)
    (hsingle : ∀ i : TabIndex, i.isFinal = false →
      ((t.placeholdersOf i).filter t.isPrimary).length ≤ 1)
    (hacyclic : ∀ i, ¬ Relation.TransGen t.repeatPass.2.Holds i i) (hp : p ∈ t.primaries) :
    ∃ u, (update p).perform t = (.ok (), u) ∧ ∀ q, (update q).after u = u := by
  have hagain := (hl.repeatable hcapacity hsingle).repeatAll_repeatAll hacyclic
  refine ⟨t.repeatAll, update_perform hl hp, fun q => ?_⟩
  rcases update_after t.repeatAll q with hu | hu
  · rw [hu, hagain]
  · exact hu

/-! ### A tab stop that needs a second pass -/

/-- The indexes of the tab stops inside of a node that are no primary ones. -/
def repeatedIn (t : Tree) (q : Handle) : List TabIndex :=
  (t.walk q).filterMap fun m => if t.isPrimary m then none else t.index? m

theorem Holds.mem_repeatedIn (hij : t.Holds i j) :
    ∃ q ∈ t.primaries, t.index? q = some i ∧ j ∈ t.repeatedIn q := by
  obtain ⟨-, -, q, hq, hi, m, hm, hprimary, hj⟩ := hij
  exact ⟨q, hq, hi, List.mem_filterMap.2 ⟨m, hm, by simp [hprimary, hj]⟩⟩

/-- A text has been typed over that of index 1, which index 2 holds. -/
def retyped : Tree :=
  ((ofSnippet 0 .textMate "$\x7b2:<$1>\x7d $\x7b1:a\x7d $2" false).overwriteText ⟨0, 6, 0⟩ "bc").2

theorem usable_retyped : retyped.Usable := by
  have hsource : ((ofSource 0 .textMate "$\x7b2:<$1>\x7d $\x7b1:a\x7d $2").capacity,
      (ofSnippet 0 .textMate "$\x7b2:<$1>\x7d $\x7b1:a\x7d $2" false).primaries) =
    (10, [⟨0, 1, 0⟩, ⟨0, 6, 0⟩]) := by cbv
  simp only [Prod.mk.injEq] at hsource
  obtain ⟨hcapacity, hprimaries⟩ := hsource
  exact (Usable.ofSnippet 0 .textMate _ false (by rw [hcapacity]; decide)).overwriteText
    (by simp [hprimaries]) "bc"

theorem retyped_acyclic (i : TabIndex) : ¬ Relation.TransGen retyped.repeatPass.2.Holds i i := by
  have htree : (retyped.repeatPass.2.primaries, retyped.repeatPass.2.index? ⟨0, 1, 0⟩,
      retyped.repeatPass.2.repeatedIn ⟨0, 1, 0⟩, retyped.repeatPass.2.repeatedIn ⟨0, 6, 0⟩) =
    ([⟨0, 1, 0⟩, ⟨0, 6, 0⟩], some (.ofNat 2), [.ofNat 1], []) := by cbv
  simp only [Prod.mk.injEq] at htree
  obtain ⟨hprimaries, hindex, hfirst, hsecond⟩ := htree
  -- Index 2 holds index 1, and that is all
  have hholds {i j : TabIndex} (hij : retyped.repeatPass.2.Holds i j) :
      i = .ofNat 2 ∧ j = .ofNat 1 := by
    obtain ⟨q, hq, hi, hj⟩ := hij.mem_repeatedIn
    rw [hprimaries] at hq
    rcases List.mem_pair.1 hq with rfl | rfl
    · rw [hfirst] at hj
      exact ⟨Option.some.inj (hi.symm.trans hindex), List.mem_singleton.1 hj⟩
    · simp [hsecond] at hj
  intro hi
  obtain ⟨j, hij, -⟩ := Relation.TransGen.head'_iff.1 hi
  obtain ⟨k, -, hki⟩ := Relation.TransGen.tail'_iff.1 hi
  have heq := (hholds hij).1.symm.trans (hholds hki).2
  exact absurd heq (by decide)

/-- The first pass leaves something to do, for index 2 has its turn before index 1, which it holds. -/
theorem update_update_retyped :
    retyped.repeatPass.2.render retyped.root = "<bc> bc <a>" ∧
      (∀ i, ¬ Relation.TransGen retyped.repeatPass.2.Holds i i) ∧
      ∃ u, (update ⟨0, 6, 0⟩).perform retyped = (.ok (), u) ∧
        u.render retyped.root = "<bc> bc <bc>" ∧ ∀ q, (update q).after u = u := by
  have ht := usable_retyped
  have htree : (retyped.capacity, retyped.primaries,
      retyped.repeatPass.2.render retyped.root, retyped.repeatAll.render retyped.root) =
    (13, [⟨0, 1, 0⟩, ⟨0, 6, 0⟩], "<bc> bc <a>", "<bc> bc <bc>") := by cbv
  simp only [Prod.mk.injEq] at htree
  obtain ⟨hcapacity, hprimaries, hpass, hafter⟩ := htree
  have hp : ⟨0, 6, 0⟩ ∈ retyped.primaries := by simp [hprimaries]
  obtain ⟨u, hperform, hagain⟩ := update_update ht.wellLinked (by rw [hcapacity]; decide)
    (fun _ hi => ht.length_primaries_le hi) retyped_acyclic hp
  have hu := (Prod.mk.inj (hperform.symm.trans (update_perform ht.wellLinked hp))).2
  exact ⟨hpass, retyped_acyclic, u, hperform, hu ▸ hafter, hagain⟩

/-! ### When there is no end -/

/-- Each of two indexes holds the other one. -/
def circle : Tree := ofSnippet 0 .textMate "$\x7b1:a$2\x7d$\x7b2:b$1\x7d" false

/-- Puts two letters for one. -/
def doubling : Transform :=
  ⟨"a", {}, [.text "aa"], (Regex.compile? ({} : TransformFlags).forPattern "a").get (by cbv), by simp⟩

/-- Two tab stops of an index are marked as the primary one, and the second one shows twice what the
first one shows. -/
def doubled : Tree :=
  (ofSnippet 0 .textMate "$\x7b1:a\x7d$1" false).setMarker ⟨0, 3, 0⟩
    (.placeholder { index := .ofNat 1, primary := true, transform := some doubling })

/-- In a circle the texts get longer with each update. They do too when the two primary tab stops of
an index repeat each other. -/
theorem update_update_circle :
    (⟨0, 1, 0⟩ ∈ circle.primaries ∧
      (update ⟨0, 1, 0⟩).after ((update ⟨0, 1, 0⟩).after circle) ≠
        (update ⟨0, 1, 0⟩).after circle) ∧
      ⟨0, 1, 0⟩ ∈ doubled.primaries ∧
        (update ⟨0, 1, 0⟩).after ((update ⟨0, 1, 0⟩).after doubled) ≠
          (update ⟨0, 1, 0⟩).after doubled := by
  -- Each time the text gets longer
  have hcircle : (circle.primaries, (((update ⟨0, 1, 0⟩).after circle).render ⟨0, 0, 0⟩).length,
      (((update ⟨0, 1, 0⟩).after ((update ⟨0, 1, 0⟩).after circle)).render ⟨0, 0, 0⟩).length) =
    ([⟨0, 1, 0⟩, ⟨0, 4, 0⟩], 41, 61) := by cbv
  have hdoubled : (doubled.primaries, (((update ⟨0, 1, 0⟩).after doubled).render ⟨0, 0, 0⟩).length,
      (((update ⟨0, 1, 0⟩).after ((update ⟨0, 1, 0⟩).after doubled)).render ⟨0, 0, 0⟩).length) =
    ([⟨0, 1, 0⟩, ⟨0, 3, 0⟩], 8, 14) := by cbv
  simp only [Prod.mk.injEq] at hcircle hdoubled
  obtain ⟨hcprimaries, hconce, hctwice⟩ := hcircle
  obtain ⟨hdprimaries, hdonce, hdtwice⟩ := hdoubled
  refine ⟨⟨by simp [hcprimaries], fun heq => ?_⟩, by simp [hdprimaries], fun heq => ?_⟩
  · rw [heq, hconce] at hctwice
    exact absurd hctwice (by decide)
  · rw [heq, hdonce] at hdtwice
    exact absurd hdtwice (by decide)

end TabStop.Tree
