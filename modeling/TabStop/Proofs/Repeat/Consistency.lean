import TabStop.Proofs.Primary.Survival
import TabStop.Proofs.Links.Failures
import TabStop.Proofs.Repeat.Passes
import TabStop.Tree.Resolve

/-!
# Repeated tab stops show what they repeat

A snippet is brought up to date when it has been read, when a primary tab stop has been edited, when
what is in a node has been replaced, and when variables have been resolved. However it has come to
that, the tab stops of an index then show what its primary tab stop shows, unless the indexes hold
each other in a circle.
-/

namespace TabStop

namespace Edit

variable {α β : Type} {e : Edit α} {f : α → Edit β} {t u : Tree} {b : β}

/-- What comes first looks at the tree only, and what follows is done on the same tree. -/
theorem ReadOnly.perform_ok (he : e.ReadOnly) (hok : (e >>= f).perform t = (.ok b, u)) :
    ∃ a, (f a).perform t = (.ok b, u) := by
  have hread := he t
  rw [perform_bind] at hok
  rcases hr : e.perform t with ⟨err | a, v⟩
  · simp [hr] at hok
  · rw [hr] at hok hread
    subst hread
    exact ⟨a, hok⟩

theorem modify_ok {e : Edit PUnit} {g : Tree → Tree} {x : PUnit}
    (hok : (do e; modify g : Edit PUnit).perform t = (.ok x, u)) : u = g (e.after t) := by
  rw [perform_bind] at hok
  rw [after]
  rcases hr : e.perform t with ⟨err | a, v⟩
  · simp [hr] at hok
  · rw [hr] at hok
    exact (Prod.mk.inj hok).2.symm

end Edit

namespace Tree

variable {t u : Tree} {m p : Handle} {i : TabIndex}

/-- A tree `t` is brought up to date: as such, when a snippet has been read, when a primary tab stop
has been edited, when what is in a node has been replaced, or when variables have been resolved. In
each case but that of an edited tab stop the primary ones have been chosen just before. -/
inductive Repeats (t : Tree) : Tree → Prop
  | all : Repeats t t.repeatAll
  | read {identity : Nat} {d : Dialect} {source : String} :
    t = (ofSource identity d source).assignPrimaries →
      Repeats t (ofSnippet identity d source false)
  | updated {h : Handle} {u : Tree} : (update h).perform t = (.ok (), u) → Repeats t u
  | replaced {s u : Tree} {h : Handle} {cs : List Handle} :
    (replaceSubtree h cs).perform s = (.ok (), u) →
      t = ((overwrite h cs).after s).assignPrimaries → Repeats t u
  | resolved {r : Resolver} {s u : Tree} {promotions : Promotions} {st : Resolution}
    {names : List String} : resolveVariables? r s = some (names, u) →
      Promotions.start? s = some promotions →
      s.variableNodes.foldlM (Resolution.step r) { tree := s, promotions } = some st →
      t = st.tree.assignPrimaries → Repeats t u

theorem Repeats.eq_repeatAll (hu : Repeats t u) : u = t.repeatAll := by
  cases hu with
  | all => rfl
  | read ht =>
    rw [ht]
    rfl
  | updated hok =>
    obtain ⟨_, hmodify⟩ := (readOnly_checkPrimary _).perform_ok hok
    exact (Prod.mk.inj hmodify).2.symm
  | replaced hok ht =>
    obtain ⟨_, hok⟩ := (readOnly_checkReplace _ _).perform_ok hok
    have hmodified := Edit.modify_ok hok
    rw [hmodified, ht, settle]
  | resolved hresolve hstart hsteps ht =>
    rw [resolveVariables?, hstart, Option.bind_eq_bind, Option.bind_some, hsteps] at hresolve
    rw [ht]
    exact (Prod.mk.inj (Option.some.inj hresolve)).2.symm

theorem WellLinked.repeatable (hl : t.WellLinked) (hcapacity : t.capacity ≤ 2 ^ 32)
    (hsingle : ∀ i : TabIndex, i.isFinal = false →
      ((t.placeholdersOf i).filter t.isPrimary).length ≤ 1) : t.Repeatable := by
  refine ⟨hl, Nat.lt_of_lt_of_le hl.length_placeholders_lt hcapacity, fun p hp q hq heq => ?_⟩
  obtain ⟨i, hi, hfinal⟩ := exists_index?_of_mem_leaders hp
  exact eq_of_primaries (hsingle i hfinal) (List.mem_filter.1 hp).1 (List.mem_filter.1 hq).1 hi
    (heq ▸ hi)

/-- When a tree has been brought up to date, each tab stop that is neither inside of the primary one
of its index nor around it shows what the primary one shows, changed by its transform if it has one.
There is nothing left that one more pass would do. A tree never has more slots than the numbers of
32 bits can tell apart. -/
theorem Repeats.consistent (hl : t.WellLinked) (hcapacity : t.capacity ≤ 2 ^ 32)
    (hsingle : ∀ i : TabIndex, i.isFinal = false →
      ((t.placeholdersOf i).filter t.isPrimary).length ≤ 1)
    (hacyclic : ∀ i, ¬ Relation.TransGen t.Holds i i) (hu : Repeats t u) :
    (∀ i : TabIndex, i.isFinal = false → ∀ p ∈ u.primaries, u.index? p = some i →
      ∀ m ∈ u.placeholdersOf i, m ∉ u.walk p → p ∉ u.walk m →
        u.render m = Transform.resolveBy ((u.placeholder? m).bind (·.transform)) (u.render p)) ∧
      u.repeatPass = (false, u) := by
  obtain rfl := hu.eq_repeatAll
  have ht := hl.repeatable hcapacity hsingle
  obtain ⟨hremains, hsettled⟩ := ht.settled_repeatAll hacyclic
  have hlu := hremains.wellLinked
  refine ⟨fun i hi p hp hpi m hm hinside haround => ?_,
    (hremains.repeatable ht).repeatPass_eq hsettled⟩
  obtain ⟨hpmem, hprimary⟩ := List.mem_filter.1 hp
  obtain ⟨hmmem, hmi⟩ := List.mem_filter.1 hm
  have hpu := hlu.inUse_of_mem_placeholders hpmem
  have hmu := hlu.inUse_of_mem_placeholders hmmem
  -- Both are tab stops that the passes have settled, so the one shows what the other repeats
  have hleader : p ∈ t.repeatAll.leaders :=
    mem_leaders_iff.2 ⟨hpmem, hprimary, by simp [isFinal, hpi, hi]⟩
  have hfollows : t.repeatAll.Follows m p := by
    refine ⟨hmmem, by rw [hpi]; simpa using hmi, Bool.eq_false_iff.2 fun habove => haround ?_⟩
    exact (hlu.mem_walk_iff hmu).2 ⟨hpu, habove⟩
  have hnot : ¬ t.repeatAll.isAncestorOrSelf p m := fun habove =>
    hinside ((hlu.mem_walk_iff hpu).2 ⟨hmu, habove⟩)
  have hflat := hsettled p hleader m hfollows
  rw [repeatedText, if_neg hnot] at hflat
  exact hflat.render hlu hmu (isSome_of_mem_placeholders hmmem)

/-- A tree in which index 2 holds index 1: the first tab stop of index 1 repeats the second one, and
is inside of the primary tab stop of index 2. -/
def holding : Tree := (ofSource 0 .textMate "$\x7b2:<$1>\x7d $\x7b1:a\x7d $2").assignPrimaries

theorem holding_holds {i j : TabIndex} (hholds : holding.Holds i j) :
    i = .ofNat 2 ∧ j = .ofNat 1 := by
  -- The last two are what repeats another tab stop inside of each of the primary ones
  have htree : (holding.primaries, holding.index? ⟨0, 1, 0⟩,
      ((holding.walk ⟨0, 1, 0⟩).filterMap fun m =>
        if holding.isPrimary m then none else holding.index? m),
      ((holding.walk ⟨0, 6, 0⟩).filterMap fun m =>
        if holding.isPrimary m then none else holding.index? m)) =
      ([⟨0, 1, 0⟩, ⟨0, 6, 0⟩], some (.ofNat 2), [.ofNat 1], []) := by cbv
  simp only [Prod.mk.injEq] at htree
  obtain ⟨hprimaries, hindex, hfirst, hsecond⟩ := htree
  obtain ⟨-, -, q, hq, hi, m, hm, hprimary, hj⟩ := hholds
  have hmem : j ∈ (holding.walk q).filterMap fun m =>
      if holding.isPrimary m then none else holding.index? m :=
    List.mem_filterMap.2 ⟨m, hm, by simp [hprimary, hj]⟩
  rw [hprimaries] at hq
  rcases List.mem_pair.1 hq with rfl | rfl
  · rw [hfirst] at hmem
    exact ⟨Option.some.inj (hi.symm.trans hindex), List.mem_singleton.1 hmem⟩
  · simp [hsecond] at hmem

/-- What is held does not hold anything. -/
theorem holding_acyclic (i : TabIndex) : ¬ Relation.TransGen holding.Holds i i := by
  intro hi
  obtain ⟨j, hij, -⟩ := Relation.TransGen.head'_iff.1 hi
  obtain ⟨k, -, hki⟩ := Relation.TransGen.tail'_iff.1 hi
  have heq := (holding_holds hij).1.symm.trans (holding_holds hki).2
  exact absurd heq (by decide)

/-- In the first pass the last tab stop repeats index 2 before index 1 has been come to. -/
theorem consistent_holding :
    (∀ i, ¬ Relation.TransGen holding.Holds i i) ∧
      holding.repeatAll.render ⟨0, 9, 0⟩ = holding.repeatAll.render ⟨0, 1, 0⟩ ∧
      holding.repeatAll.repeatPass = (false, holding.repeatAll) := by
  have ht : holding.Unrepeated := unrepeated_ofSource ..
  have hcapacity : holding.capacity = 10 := by cbv
  have hprimaries : holding.repeatAll.primaries = [⟨0, 1, 0⟩, ⟨0, 6, 0⟩] := by cbv
  have hsecond : holding.repeatAll.placeholdersOf (.ofNat 2) = [⟨0, 1, 0⟩, ⟨0, 9, 0⟩] := by cbv
  have hindex : holding.repeatAll.index? ⟨0, 1, 0⟩ = some (.ofNat 2) := by cbv
  have hfirst : holding.repeatAll.walk ⟨0, 1, 0⟩ =
      [⟨0, 1, 0⟩, ⟨0, 2, 0⟩, ⟨0, 3, 0⟩, ⟨0, 11, 0⟩, ⟨0, 4, 0⟩] := by cbv
  have hlast : holding.repeatAll.walk ⟨0, 9, 0⟩ = [⟨0, 9, 0⟩, ⟨0, 10, 0⟩] := by cbv
  have hplain : (holding.repeatAll.placeholder? ⟨0, 9, 0⟩).bind (·.transform) = none := by cbv
  obtain ⟨hshown, hpass⟩ := Repeats.consistent ht.wellLinked (by rw [hcapacity]; decide)
    (fun _ hi => ht.single hi) holding_acyclic .all
  have hrender := hshown (.ofNat 2) (by decide) ⟨0, 1, 0⟩ (by simp [hprimaries]) hindex ⟨0, 9, 0⟩
    (by simp [hsecond]) (by simp [hfirst]) (by simp [hlast])
  rw [hplain] at hrender
  exact ⟨holding_acyclic, hrender, hpass⟩

end Tree

end TabStop
