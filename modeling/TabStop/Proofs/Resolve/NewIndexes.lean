import TabStop.Proofs.Resolve.Questions

/-!
# The indexes of promoted variables

In TextMate a variable that gets no value may become a tab stop. Indexes for such tab stops are counted
on from the highest one of the snippet, and kept with the names that they were given to. So each of
them is behind all indexes of the snippet, and a name has one index, which no other name has.
-/

namespace TabStop

theorem TabIndex.ofNat_inj {n k : Nat} (heq : TabIndex.ofNat n = .ofNat k) : n = k := by
  simpa [TabIndex.ofNat] using heq

namespace Promotions

variable {ps ps' : Promotions} {i j : TabIndex} {a b name : String}

/-- No two names have been given one index, and the next index has been given to no name. -/
structure Distinct (ps : Promotions) : Prop where
  below : ∀ a i, ps.given.lookup a = some i → ∃ n < ps.next, i = .ofNat n
  name_eq : ∀ a b i, ps.given.lookup a = some i → ps.given.lookup b = some i → a = b

/-- A name keeps its index. -/
theorem lookup_of_indexFor? (hi : ps.indexFor? name = some (i, ps'))
    (hj : ps.given.lookup a = some j) : ps'.given.lookup a = some j := by
  rcases Tree.indexFor?_cases hi with ⟨-, rfl⟩ | ⟨hnone, -, -, rfl⟩
  · exact hj
  · have hne : a ≠ name := by
      rintro rfl
      simp [hnone] at hj
    rwa [List.lookup_cons, beq_false_of_ne hne]

theorem lookup_indexFor? (hi : ps.indexFor? name = some (i, ps')) :
    ps'.given.lookup name = some i := by
  rcases Tree.indexFor?_cases hi with ⟨hlookup, rfl⟩ | ⟨-, -, -, rfl⟩
  · exact hlookup
  · rw [List.lookup_cons, beq_self_eq_true]

theorem Distinct.indexFor? (hd : ps.Distinct) (hi : ps.indexFor? name = some (i, ps')) :
    ps'.Distinct := by
  rcases Tree.indexFor?_cases hi with ⟨-, rfl⟩ | ⟨-, -, rfl, rfl⟩
  · exact hd
  -- A name has the new index, or one that is less
  have hlookup {c : String} {j : TabIndex}
      (hj : ((name, TabIndex.ofNat ps.next) :: ps.given).lookup c = some j) :
      c = name ∧ j = .ofNat ps.next ∨ ∃ n < ps.next, j = .ofNat n ∧ ps.given.lookup c = some j := by
    rw [List.lookup_cons] at hj
    split at hj
    · next heq => exact Or.inl ⟨eq_of_beq heq, (Option.some.inj hj).symm⟩
    · obtain ⟨n, hn, rfl⟩ := hd.below c j hj
      exact Or.inr ⟨n, hn, rfl, hj⟩
  constructor
  · intro c j hj
    rcases hlookup hj with ⟨-, rfl⟩ | ⟨n, hn, rfl, -⟩
    · exact ⟨ps.next, Nat.lt_succ_self _, rfl⟩
    · exact ⟨n, Nat.lt_succ_of_lt hn, rfl⟩
  · intro c d j hc hd'
    rcases hlookup hc with ⟨rfl, rfl⟩ | ⟨n, hn, rfl, hcold⟩
    · rcases hlookup hd' with ⟨rfl, -⟩ | ⟨k, hk, heq, -⟩
      · rfl
      · exact absurd (TabIndex.ofNat_inj heq) hk.ne'
    · rcases hlookup hd' with ⟨rfl, heq⟩ | ⟨-, -, -, hdold⟩
      · exact absurd (TabIndex.ofNat_inj heq) hn.ne
      · exact hd.name_eq c d _ hcold hdold

end Promotions

namespace Tree

variable {t u v : Tree} {h x : Handle} {hs : List Handle} {ps : Promotions} {r : Resolver}
  {st st' : Resolution} {q : Inquiry} {m : Marker}

/-! ## Variables one by one -/

theorem InUse.index?_setMarker (hh : t.InUse h) (hx : t.InUse x) (m : Marker) :
    (t.setMarker h m).index? x =
      if x = h then m.placeholder?.map (·.index) else t.index? x := by
  rw [index?, index?, ((sameLinks_setMarker t h m).inUse_iff.2 hx).placeholder?_eq,
    hx.placeholder?_eq, marker_setMarker hh hx]
  split <;> rfl

/-- What is true while the variables of a tree `t` are resolved: each one that has become a tab stop has
the index of its name, the indexes are new, and no two names have the same. -/
structure Numbering (t : Tree) (st : Resolution) : Prop where
  givesNew : t.GivesNew st.promotions
  distinct : st.promotions.Distinct
  given {x : Handle} {i : TabIndex} : x ∈ t.variableNodes → st.tree.index? x = some i →
    st.promotions.given.lookup (t.nameOf x) = some i

namespace Numbering

theorem start (hl : t.WellLinked) : Numbering t ⟨t, [], [], ⟨[], t.highestIndex + 1⟩⟩ where
  givesNew := ⟨Nat.lt_succ_self _, by simp⟩
  distinct := ⟨by simp, by simp⟩
  given {x i} hx hi := by
    -- A variable is no tab stop
    have hsome : (t.placeholder? x).isSome := by
      rw [← index?_isSome, hi]
      rfl
    have hvar := isSome_of_mem_variableNodes hx
    simp [(hl.inUse_of_mem_variableNodes hx).var?_of_placeholder hsome] at hvar

/-- The next variable becomes something else. -/
theorem become (hn : Numbering t st) (hlinks : SameLinks t st.tree) (hl : t.WellLinked)
    (hh : h ∈ t.variableNodes) (hnew : t.GivesNew ps) (hdistinct : ps.Distinct)
    (hkeeps : ∀ a i, st.promotions.given.lookup a = some i → ps.given.lookup a = some i)
    (hindex : ∀ k, m.placeholder? = some k → ps.given.lookup (t.nameOf h) = some k.index)
    (asked : List String) (resolved : List Handle) :
    Numbering t ⟨st.tree.setMarker h m, asked, resolved, ps⟩ := by
  refine ⟨hnew, hdistinct, fun {x i} hx hi => ?_⟩
  have hinUse {y : Handle} (hy : y ∈ t.variableNodes) : st.tree.InUse y :=
    hlinks.inUse_iff.2 (hl.inUse_of_mem_variableNodes hy)
  rw [(hinUse hh).index?_setMarker (hinUse hx)] at hi
  split at hi
  · next heq =>
    obtain ⟨k, hk, rfl⟩ := Option.map_eq_some_iff.1 hi
    exact heq ▸ hindex k hk
  · exact hkeeps _ _ (hn.given hx hi)

theorem step (hn : Numbering t st) (ht : Tracks r t (h :: hs) q st) (hl : t.WellLinked)
    (hd : t.dialect = .textMate) (hh : h ∈ t.variableNodes) (hstep : st.step r h = some st') :
    Numbering t st' := by
  rcases step_cases hstep with ⟨rfl, -⟩ | ⟨k, hk, -, -, hdone⟩
  · exact hn
  have hhu := hl.inUse_of_mem_variableNodes hh
  have hname : t.nameOf h = k.name := by
    rw [nameOf, hhu.var?_eq, ← ht.marker hhu (Or.inr (List.mem_cons_self ..)),
      ← (ht.links.inUse_iff.2 hhu).var?_eq, hk]
    rfl
  have hnone {m : Marker} (hm : m.placeholder? = none) (asked : List String)
      (resolved : List Handle) :
      Numbering t ⟨st.tree.setMarker h m, asked, resolved, st.promotions⟩ :=
    hn.become ht.links hl hh hn.givesNew hn.distinct (fun _ _ hi => hi) (by simp [hm]) asked resolved
  rcases hdone with ⟨s, -, rfl⟩ | ⟨-, ps, u, hleft, rfl⟩
  · exact hnone rfl _ _
  · rcases leaveUnresolved_textMate (ht.dialect.trans hd) hleft with
      ⟨s, -, rfl, rfl⟩ | ⟨i, hi, rfl⟩
    · exact hnone rfl _ _
    · -- Names that have an index keep it, and this one has the index of the tab stop
      refine hn.become ht.links hl hh (hn.givesNew.indexFor? hi).2 (hn.distinct.indexFor? hi)
        (fun a j hj => Promotions.lookup_of_indexFor? hi hj) (fun p hp => ?_) _ _
      obtain rfl := Option.some.inj hp
      rw [hname]
      exact Promotions.lookup_indexFor? hi

theorem run (hn : Numbering t st) (ht : Tracks r t hs q st) (hl : t.WellLinked)
    (hd : t.dialect = .textMate) (hnodup : hs.Nodup) (hsub : hs ⊆ t.variableNodes)
    (hrun : hs.foldlM (Resolution.step r) st = some st') : Numbering t st' := by
  induction hs generalizing q st with
  | nil => exact Option.some.inj hrun ▸ hn
  | cons h hs ih =>
    obtain ⟨hh, hsub⟩ := List.cons_subset.1 hsub
    rw [List.foldlM_cons] at hrun
    obtain ⟨st₁, hstep, hrun⟩ := Option.bind_eq_some_iff.1 hrun
    rcases ht.step hl hd hnodup hh with ⟨st₂, hstep', hnext⟩ | ⟨hfull, -⟩
    · obtain rfl := Option.some.inj (hstep'.symm.trans hstep)
      exact ih (hn.step ht hl hd hh hstep) hnext (List.nodup_cons.1 hnodup).2 hsub hrun
    · simp [hfull] at hstep

end Numbering

/-! ## Whole snippets -/

/-- The variables of `t` that are tab stops in `v` have indexes behind all those that were in `t`, and two
of them have the same index if and only if they have the same name. -/
structure NewIndexes (t v : Tree) : Prop where
  before : ∀ x ∈ t.variableNodes, x ∈ v.placeholders → ∃ i, v.index? x = some i ∧
    ∀ p ∈ t.placeholders, ∀ j, t.index? p = some j → j.before i
  eq_iff : ∀ x ∈ t.variableNodes, ∀ y ∈ t.variableNodes, x ∈ v.placeholders → y ∈ v.placeholders →
    (v.index? x = v.index? y ↔ t.nameOf x = t.nameOf y)

theorem Numbering.newIndexes (hn : Numbering t st) : t.NewIndexes st.tree := by
  constructor
  · intro x hx hxp
    obtain ⟨i, hi⟩ := exists_index?_of_mem hxp
    have hnew := hn.givesNew.given _ (Counted.mem_of_lookup (hn.given hx hi))
    exact ⟨i, hi, fun p hp j hj => hnew.before hp hj⟩
  · intro x hx y hy hxp hyp
    obtain ⟨i, hi⟩ := exists_index?_of_mem hxp
    obtain ⟨j, hj⟩ := exists_index?_of_mem hyp
    have hxi := hn.given hx hi
    have hyj := hn.given hy hj
    rw [hi, hj, Option.some.injEq]
    -- The same name is given the same index, and no index is given to two names
    constructor
    · rintro rfl
      exact hn.distinct.name_eq _ _ _ hxi hyj
    · intro heq
      rw [heq] at hxi
      exact Option.some.inj (hxi.symm.trans hyj)

/-- Indexes stay what they are when other tab stops go. -/
theorem NewIndexes.of_subset (hn : t.NewIndexes v)
    (hsub : ∀ x ∈ u.placeholders, x ∈ v.placeholders ∧ u.index? x = v.index? x) :
    t.NewIndexes u := by
  constructor
  · intro x hx hxu
    obtain ⟨hxv, hindex⟩ := hsub x hxu
    rw [hindex]
    exact hn.before x hx hxv
  · intro x hx y hy hxu hyu
    obtain ⟨hxv, hxindex⟩ := hsub x hxu
    obtain ⟨hyv, hyindex⟩ := hsub y hyu
    rw [hxindex, hyindex]
    exact hn.eq_iff x hx y hy hxv hyv

/-- Bringing a tree up to date leaves each tab stop that it keeps its index. -/
theorem WellLinked.index?_settle (hl : t.WellLinked) (hcapacity : t.capacity ≤ 2 ^ 32)
    (hx : x ∈ t.settle.placeholders) : x ∈ t.placeholders ∧ t.settle.index? x = t.index? x := by
  have hrepeatable := hl.repeatable_assignPrimaries hcapacity
  have hremains := hrepeatable.remains_repeatAll.1
  have hindex : t.assignPrimaries.repeatAll.index? x = t.assignPrimaries.index? x := by
    rw [index?, index?, (hremains.kept_of_mem hx).placeholder?_eq]
  constructor
  · rw [← placeholders_assignPrimaries]
    exact hremains.mem_placeholders hrepeatable.wellLinked hx
  · exact hindex.trans (index?_assignPrimaries t x)

/-- In TextMate the variables of a snippet can be resolved exactly if its highest index and the names that
need one leave an index after them. Then each variable that becomes a tab stop gets an index behind all
those of the snippet, and two of them get the same index if and only if they have the same name. This
is so when all variables have had their turns, and when the snippet has been brought up to date. A tree
never has more slots than the numbers of 32 bits can tell apart. -/
theorem resolveVariables?_newIndexes (hl : t.WellLinked) (hd : t.dialect = .textMate)
    (hcapacity : t.capacity ≤ 2 ^ 32) (r : Resolver) :
    ((t.resolveVariables? r).isSome ↔
        t.highestIndex + (t.promotedNames r).length < TabIndex.maxWhole) ∧
      ∀ names u, t.resolveVariables? r = some (names, u) →
        ∃ st, t.variableNodes.foldlM (Resolution.step r) ⟨t, [], [], ⟨[], t.highestIndex + 1⟩⟩ =
            some st ∧
          u = st.tree.settle ∧ t.NewIndexes st.tree ∧ t.NewIndexes u := by
  refine ⟨hl.resolveVariables?_isSome_iff r, fun names u hresolve => ?_⟩
  obtain ⟨hstart, st, hrun, -, rfl⟩ := resolveVariables?_cases hresolve
  have hlinks := (hl.tracks_of_run hd hstart hrun).links
  have hnew := ((Numbering.start hl).run (Tracks.start (r := r) hstart) hl hd
    hl.nodup_variableNodes (List.Subset.refl _) hrun).newIndexes
  refine ⟨st, hrun, rfl, hnew, hnew.of_subset fun x hx => ?_⟩
  apply (hlinks.wellLinked hl).index?_settle _ hx
  rwa [capacity, hlinks.size]

/-- The index of the new tab stop would be the greatest one, and there is none after it. -/
example : (ofSnippet 0 .textMate "$4294967294$\x7bx:a\x7d" false).resolveVariables?
    (fun _ _ => none) = none := by cbv

/-- A tab stop and variables, two of them with the same name. -/
def twoNames : Tree := ofSnippet 0 .textMate "$1$\x7bx:a\x7d$\x7by:b\x7d$x" false

/-- The variables get the indexes 2 and 3, and the second one of the first name gets 2 again. -/
theorem resolveVariables?_newIndexes_twoNames :
    twoNames.WellLinked ∧ twoNames.dialect = .textMate ∧ twoNames.capacity ≤ 2 ^ 32 ∧
      twoNames.variableNodes.map twoNames.nameOf = ["x", "y", "x"] ∧
      ∃ u, twoNames.resolveVariables? (fun _ _ => none) = some (["x", "y", "x"], u) ∧
        twoNames.variableNodes.map u.index? = [some (.ofNat 2), some (.ofNat 3), some (.ofNat 2)] ∧
        twoNames.NewIndexes u := by
  have hcapacity : ((ofSource 0 .textMate "$1$\x7bx:a\x7d$\x7by:b\x7d$x").capacity,
      twoNames.capacity) = (7, 7) := by cbv
  have htree : (twoNames.dialect, twoNames.variableNodes.map twoNames.nameOf) =
      (.textMate, ["x", "y", "x"]) := by cbv
  have hresolved : (twoNames.resolveVariables? fun _ _ => none).map
      (fun p => (p.1, twoNames.variableNodes.map p.2.index?)) =
    some (["x", "y", "x"], [some (.ofNat 2), some (.ofNat 3), some (.ofNat 2)]) := by cbv
  simp only [Prod.mk.injEq] at hcapacity htree
  obtain ⟨hdialect, hnames⟩ := htree
  obtain ⟨⟨names, u⟩, hresolve, hu⟩ := Option.map_eq_some_iff.1 hresolved
  obtain ⟨rfl, hindexes⟩ := Prod.mk.inj hu
  have hl : twoNames.WellLinked :=
    (steady_ofSnippet 0 .textMate _ false (by rw [hcapacity.1]; decide)).1.wellLinked
  have hle : twoNames.capacity ≤ 2 ^ 32 := by
    rw [hcapacity.2]
    decide
  obtain ⟨-, -, -, -, hnew⟩ :=
    (resolveVariables?_newIndexes hl hdialect hle fun _ _ => none).2 _ u hresolve
  exact ⟨hl, hdialect, hle, hnames, u, hresolve, hindexes, hnew⟩

end Tree

end TabStop
