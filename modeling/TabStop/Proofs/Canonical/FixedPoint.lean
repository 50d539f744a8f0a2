import TabStop.Proofs.Canonical.FirstChoice
import TabStop.Proofs.Canonical.Stabilizing

/-!
# When a snippet is written again as it was

What is written of a snippet is read as a document with the same nodes, each as deep inside of
others as it was. A node that is lost when tab stops are repeated has been inside of a tab stop, and
a final tab stop that is added stands at the top; so the nodes are not as deep all together as they
were. That tells that nothing has been lost if what is written is the same.
-/

namespace TabStop.Tree

variable {t u v : Tree} {h m p q x y z : Handle} {ms : List Handle} {i : TabIndex}
  {ps : List (Handle × Handle)}

/-! ## How deep the nodes are -/

/-- The number of nodes that are around each node, all together. -/
def depth (t : Tree) : Nat := (t.nodes.map fun x => (t.ancestors x).length).sum

theorem WellLinked.depth_eq_sum (hl : t.WellLinked) :
    t.depth = ∑ x ∈ t.nodes.toFinset, (t.ancestors x).length :=
  (List.sum_toFinset _ hl.nodup_nodes).symm

theorem Echoes.depth_eq (he : Echoes t v ps) (hl : t.WellLinked) (hv : v.WellLinked)
    (hleaves : t.TextLeaves) : v.depth = t.depth := by
  rw [depth, depth, ← he.left, ← he.right, List.map_map, List.map_map]
  refine congrArg List.sum (List.map_congr_left fun p hp => ?_)
  obtain ⟨as, -, hleft, hright⟩ := he.ancestors hl hv hleaves hp
  simp [hleft, hright]

/-- Documents that are written in the same way are as deep. -/
theorem Writable.depth_eq (hw : t.Writable) (hl : t.WellLinked) (hw' : u.Writable)
    (hl' : u.WellLinked) (hsource : u.source = t.source) : u.depth = t.depth := by
  have hread {w : Tree} (hw : w.Writable) (hl : w.WellLinked) :
      (ofSource 0 .textMate w.source).depth = w.depth := by
    obtain ⟨-, ps, hreturns, hroot⟩ := hw.returns hl 0
    have he := hreturns.echoes hroot hw.root (.refl _) fun _ => rfl
    exact he.depth_eq hl (grown_ofSource ..).1 (hw.textLeaves hl)
  rw [← hread hw hl, ← hread hw' hl', hsource]

theorem WellLinked.depth_insertFinal_le (hl : t.WellLinked) :
    t.insertFinal.2.depth ≤ t.depth + 1 := by
  obtain ⟨-, heq⟩ | ⟨h, ha⟩ := hl.insertFinal_cases
  · rw [heq]
    exact Nat.le_succ _
  generalize t.insertFinal.2 = u at ha
  have hnew : (u.ancestors h).length = 1 := by rw [ha.ancestors_new hl, List.length_singleton]
  have hnodes : u.nodes = t.nodes ++ [h] := by
    have hisNode : u.isNode h = true := by
      rw [isNode, ha.marker_new]
      rfl
    rw [nodes, ha.walk_root hl, List.filter_append, List.filter_singleton, hisNode, nodes]
    refine congrArg (· ++ [h]) (List.filter_congr fun x hx => ?_)
    rw [isNode, isNode, ha.marker (hl.mem_walk_root_inUse hx)]
  rw [depth, hnodes, List.map_append, List.sum_append, List.map_singleton, List.sum_singleton, hnew,
    depth, List.map_congr_left fun x hx => by rw [ha.ancestors_eq hl (hl.inUse_of_mem_nodes hx)]]

/-! ## Nodes that are lost -/

namespace Cleared

variable (hc : Cleared t ms u) (hl : t.WellLinked)

include hc hl

/-- In a walk through what is left all that is new is text, with nothing below it. -/
theorem mem_walk (hx : x ∈ u.walk u.root) : (x ∈ t.walk t.root ∧ t.isBelow ms x = false) ∨
    (u.slotOf x).marker.text?.isSome ∧ (u.slotOf x).children = [] := by
  refine hc.wellLinked.walk_induction (Linked.root_inUse hc.wellLinked)
    (P := fun x => (x ∈ t.walk t.root ∧ t.isBelow ms x = false) ∨
      (u.slotOf x).marker.text?.isSome ∧ (u.slotOf x).children = []) ?_ (fun p _ c hcp ih => ?_) hx
  · rw [hc.root_eq]
    exact Or.inl ⟨hl.mem_walk_self (Linked.root_inUse hl), by rw [isBelow, hl.ancestors_root]; rfl⟩
  · rcases ih with ⟨hpt, hpbelow⟩ | ⟨-, hnil⟩
    · by_cases hpms : p ∈ ms
      · exact Or.inr (hc.texts hpms hpbelow c hcp)
      · rw [hc.children hpt hpbelow hpms] at hcp
        refine Or.inl ⟨hl.mem_walk_root_child hpt hcp, ?_⟩
        rw [isBelow_child hl (hl.mem_walk_root_inUse hpt) hcp, hpbelow]
        simpa using hpms
    · simp [hnil] at hcp

/-- What is not text is left of the document. -/
theorem mem_nodes (hx : x ∈ u.nodes) : x ∈ t.nodes ∧ t.isBelow ms x = false := by
  obtain ⟨hwalk, hnode⟩ := List.mem_filter.1 hx
  rcases hc.mem_walk hl hwalk with ⟨hxt, hxbelow⟩ | ⟨htext, -⟩
  · refine ⟨List.mem_filter.2 ⟨hxt, ?_⟩, hxbelow⟩
    rwa [isNode, ← hc.marker hxt hxbelow]
  · rw [isNode, Option.isNone_iff_eq_none] at hnode
    simp [hnode] at htext

/-- What is lost has been inside of a tab stop, and the root is around that. -/
theorem two_le_length_ancestors (hy : y ∈ t.nodes) (hbelow : t.isBelow ms y) :
    2 ≤ (t.ancestors y).length := by
  obtain ⟨m, hm, hmem⟩ := List.any_eq_true.1 hbelow
  have hmp := hc.subset (List.contains_iff_mem.1 hmem)
  have hroot := (hl.mem_placeholders_iff.1 hmp).2.2
  have hyu := hl.inUse_of_mem_nodes hy
  obtain ⟨below, heq⟩ := Linked.above_split hl hyu
    (isAncestorOrSelf_iff.2 (List.mem_cons_of_mem _ hm))
  have hlength := congrArg List.length heq
  have hpos := List.length_pos_of_mem hroot
  cases below with
  | nil =>
    obtain rfl := (List.cons_eq_cons.1 heq).1
    exact absurd hm (Linked.not_mem_ancestors hl hyu)
  | cons z below =>
    simp only [List.length_cons, List.length_append] at hlength
    omega

/-- If a node is lost, the document is less deep by more than a final tab stop that is added. -/
theorem depth_lt (hy : y ∈ t.nodes) (hbelow : t.isBelow ms y) : u.depth + 2 ≤ t.depth := by
  have hnot : y ∉ u.nodes.toFinset := fun hmem => by
    simp [(hc.mem_nodes hl (List.mem_toFinset.1 hmem)).2] at hbelow
  have hsub : insert y u.nodes.toFinset ⊆ t.nodes.toFinset := by
    refine Finset.insert_subset (List.mem_toFinset.2 hy) fun x hx => ?_
    exact List.mem_toFinset.2 (hc.mem_nodes hl (List.mem_toFinset.1 hx)).1
  have hsame : u.depth = ∑ x ∈ u.nodes.toFinset, (t.ancestors x).length := by
    rw [hc.wellLinked.depth_eq_sum]
    refine Finset.sum_congr rfl fun x hx => ?_
    obtain ⟨hxt, hxbelow⟩ := hc.mem_nodes hl (List.mem_toFinset.1 hx)
    rw [hc.ancestors_eq hl (List.mem_filter.1 hxt).1 hxbelow]
  have hle := Finset.sum_le_sum_of_subset (f := fun x => (t.ancestors x).length) hsub
  rw [Finset.sum_insert hnot, ← hsame, ← hl.depth_eq_sum] at hle
  have := hc.two_le_length_ancestors hl hy hbelow
  omega

end Cleared

/-- If no node is lost, there is nothing but text in what follows a primary tab stop. -/
theorem Unrepeated.bare_of_follows (hv : v.Unrepeated)
    (hclear : ∀ y ∈ v.nodes, v.isBelow v.overwritten y = false) (hq : q ∈ v.leaders)
    (hf : v.Follows m q) : v.Bare m := by
  have hl := hv.wellLinked
  obtain ⟨hqmem, hprimary, -⟩ := mem_leaders_iff.1 hq
  obtain ⟨i, hi, hfinal⟩ := exists_index?_of_mem_leaders hq
  have hwalk := (hl.mem_walk_root_of_placeholder hf.mem).1
  have hmem : m ∈ v.overwritten :=
    mem_foldl_overwrittenBy (List.mem_filter.2 ⟨hqmem, hprimary⟩) hi hfinal
      (hclear q (hl.mem_nodes_of_placeholder hqmem))
      (mem_placeholdersOf_iff.2 ⟨hf.mem, hf.index?_eq.trans hi⟩)
      (hclear m (hl.mem_nodes_of_placeholder hf.mem)) hf.not_above
  rw [hl.bare_iff (fun _ => hv.text) hwalk, List.filter_eq_nil_iff]
  intro c hc hnode
  have hbelow := hclear c (List.mem_filter.2 ⟨hl.mem_walk_root_child hwalk hc, hnode⟩)
  rw [isBelow_child hl (hl.mem_walk_root_inUse hwalk) hc] at hbelow
  simp [hmem] at hbelow

/-! ## Snippets -/

/-- If each index has a primary tab stop, and no node is lost when what is written of a snippet is
read, the same primary tab stops are chosen again, or there is nothing but text in all tab stops of
the index. -/
theorem Rechosen.rechoosable (hr : Rechosen t v ps) (ht : t.Steady) (hw : t.Writable)
    (hv : v.Unrepeated) (hclear : ∀ y ∈ v.nodes, v.isBelow v.overwritten y = false)
    (hprimary : ∀ i : TabIndex, i.isFinal = false → t.placeholdersOf i ≠ [] →
      ∃ p, t.primary? i = some p)
    (hfirst : ∀ (i : TabIndex) (p z : Handle), i.isFinal = false → t.primary? i = some p →
      t.firstChoice? i = some z → z ∉ t.ancestors p ∧ (t.isPlain p ∨ z = p)) :
    t.Rechoosable t.Bare := by
  have hl := ht.wellLinked
  have hleaves := hw.textLeaves hl
  intro i hfinal hne
  obtain ⟨p, hp⟩ := hprimary i hfinal hne
  obtain ⟨z, hz⟩ := exists_firstChoice? hne
  obtain ⟨hnot, hcases⟩ := hfirst i p z hfinal hp hz
  refine ⟨p, hp, ?_⟩
  by_cases hzp : z = p
  · exact Or.inl (hzp ▸ hz)
  refine Or.inr ⟨hcases.resolve_right hzp, fun m hm => ?_⟩
  have hzi := (firstChoice?_eq_some hz).1
  obtain ⟨hzmem, hzindex⟩ := mem_placeholdersOf_iff.1 hzi
  by_cases hmz : m = z
  · -- The first choice repeats the primary tab stop
    subst hmz
    obtain ⟨hleader, hpi⟩ := mem_leaders_of_primary? hp hfinal
    exact ht.calm p hleader m ((follows_or_above hpi hm hzp).resolve_left hnot)
  · -- The others repeat the first choice when what is written is read
    obtain ⟨y, hmy⟩ := hr.exists_right (hl.mem_nodes_of_placeholder (mem_placeholdersOf_iff.1 hm).1)
    obtain ⟨q, hzq⟩ := hr.exists_right (hl.mem_nodes_of_placeholder hzmem)
    have hyi := (hr.mem_placeholdersOf_iff hl hv.wellLinked hmy).2 hm
    have hqi := (hr.mem_placeholdersOf_iff hl hv.wellLinked hzq).2 hzi
    obtain ⟨hqmem, hqindex⟩ := mem_placeholdersOf_iff.1 hqi
    have hleader : q ∈ v.leaders := mem_leaders_iff.2 ⟨hqmem,
      (hr.chosen hzq hzindex hfinal).2 hz, by simp [isFinal, hqindex, hfinal]⟩
    have hyq : y ≠ q := fun heq => hmz (hr.left_unique hv.wellLinked hmy (heq ▸ hzq))
    have hfollows : v.Follows y q := by
      refine (follows_or_above hqindex hyi hyq).resolve_left fun habove => ?_
      have habove := (hr.mem_ancestors_iff hl hv.wellLinked hleaves hzq hmy).1 habove
      exact hw.not_above_firstChoice? hl hz hm habove
    exact (hr.bare_iff hl hv.wellLinked hleaves (fun _ => hv.text) hmy).1
      (hv.bare_of_follows hclear hleader hfollows)

/-- What is written of a snippet is read as a snippet that is written in the same way if and only if
the same primary tab stops are chosen again, unless there is nothing but text in all tab stops of
the index. That is so if no indexes of the snippet hold each other in a circle, and each index has a
primary tab stop. A tree never has more slots than the numbers of 32 bits can tell apart. -/
theorem source_ofSnippet_source_iff (identity : Nat) (source : String) (final : Bool)
    (hcapacity : (ofSource identity .textMate source).capacity < 2 ^ 32)
    (hacyclic : ∀ i, ¬ Relation.TransGen (ofSnippet identity .textMate source final).Holds i i)
    (hprimary : ∀ i : TabIndex, i.isFinal = false →
      (ofSnippet identity .textMate source final).placeholdersOf i ≠ [] →
        ∃ p, (ofSnippet identity .textMate source final).primary? i = some p) (identity' : Nat)
    (hcapacity' : (ofSource identity' .textMate
      (ofSnippet identity .textMate source final).source).capacity ≤ 2 ^ 32) :
    (ofSnippet identity' .textMate (ofSnippet identity .textMate source final).source
          final).source =
        (ofSnippet identity .textMate source final).source ↔
      (ofSnippet identity .textMate source final).Rechoosable
        (ofSnippet identity .textMate source final).Bare := by
  refine ⟨fun hsource => ?_, fun hchosen =>
    source_ofSnippet_source identity source final hcapacity hacyclic hchosen identity' hcapacity'⟩
  have ht := (steady_ofSnippet identity .textMate source final hcapacity).1
  have hw := (writable_ofSnippet identity source final hcapacity.le).1
  have hfirst := fun (i : TabIndex) (p z : Handle) (hi : i.isFinal = false) =>
    firstChoice?_of_primary? (p := p) (z := z) identity source final hcapacity.le hi
  revert hprimary hcapacity' hsource ht hw hfirst
  clear hacyclic
  generalize ofSnippet identity .textMate source final = t
  intro hprimary hcapacity' hsource ht hw hfirst
  have hl := ht.wellLinked
  obtain ⟨ps, hr⟩ := hw.rechosen hl identity'
  have hv := unrepeated_ofSource identity' .textMate t.source
  have hcapacityv := (capacity_assignPrimaries _).trans_le hcapacity'
  have hcleared := hv.repeatAll hcapacityv
  -- What is read is as deep as it was, before its tab stops have been repeated and after
  have hbefore := hr.depth_eq hl hv.wellLinked (hw.textLeaves hl)
  have hafter : (ofSnippet identity' .textMate t.source final).depth = t.depth := by
    refine hw.depth_eq hl (writable_ofSnippet identity' t.source final hcapacity').1 ?_ hsource
    cases final with
    | false => exact hcleared.wellLinked
    | true => exact hcleared.wellLinked.wellLinked_insertFinal
  have hclear : ∀ y ∈ (ofSource identity' .textMate t.source).assignPrimaries.nodes,
      (ofSource identity' .textMate t.source).assignPrimaries.isBelow
        (ofSource identity' .textMate t.source).assignPrimaries.overwritten y = false := by
    intro y hy
    by_contra hbelow
    have hlt := hcleared.depth_lt hv.wellLinked hy (by simpa using hbelow)
    have hle : (ofSnippet identity' .textMate t.source final).depth ≤
        (ofSource identity' .textMate t.source).assignPrimaries.repeatAll.depth + 1 := by
      cases final with
      | false => exact Nat.le_succ _
      | true => exact hcleared.wellLinked.depth_insertFinal_le
    omega
  exact hr.rechoosable ht hw hv hclear hprimary hfirst

/-- A tab stop inside of another one repeats the last one, and comes before it. -/
def nested : Tree := ofSnippet 0 .textMate "$\x7b1:$2\x7d $1 $\x7b2:a\x7d" true

/-- When the snippet is read again, the tab stop inside of the other one is chosen, and the last one
repeats it. It is written in the same way. -/
theorem source_ofSnippet_source_nested :
    (ofSource 0 .textMate "$\x7b1:$2\x7d $1 $\x7b2:a\x7d").capacity < 2 ^ 32 ∧
      (∀ i, ¬ Relation.TransGen nested.Holds i i) ∧
      (∀ i : TabIndex, i.isFinal = false → nested.placeholdersOf i ≠ [] →
        ∃ p, nested.primary? i = some p) ∧
      (ofSource 0 .textMate nested.source).capacity ≤ 2 ^ 32 ∧
      nested.primary? (.ofNat 2) = some ⟨0, 6, 0⟩ ∧
      nested.firstChoice? (.ofNat 2) = some ⟨0, 2, 0⟩ ∧
      nested.source = "$\x7b1:$\x7b2:a\x7d\x7d $\x7b1:a\x7d $\x7b2:a\x7d$0" ∧
      (ofSnippet 0 .textMate nested.source true).source = nested.source := by
  have hcapacity : (ofSource 0 .textMate "$\x7b1:$2\x7d $1 $\x7b2:a\x7d").capacity = 8 := by cbv
  have htree : (nested.holdings, nested.placeholders.filterMap nested.index?, nested.source,
      (ofSource 0 .textMate nested.source).capacity) =
    ([(.ofNat 1, .ofNat 2)], [.ofNat 1, .ofNat 2, .ofNat 1, .ofNat 2, .final],
      "$\x7b1:$\x7b2:a\x7d\x7d $\x7b1:a\x7d $\x7b2:a\x7d$0", 11) := by cbv
  have hchoice : (nested.primary? (.ofNat 1), nested.firstChoice? (.ofNat 1),
      nested.primary? (.ofNat 2), nested.firstChoice? (.ofNat 2), nested.isPlain ⟨0, 6, 0⟩) =
    (some ⟨0, 1, 0⟩, some ⟨0, 1, 0⟩, some ⟨0, 6, 0⟩, some ⟨0, 2, 0⟩, true) := by cbv
  have hinside : (nested.placeholdersOf (.ofNat 2)).map (fun m =>
      (nested.slotOf m).children.map fun c =>
        ((nested.slotOf c).marker.text?, (nested.slotOf c).children)) =
    [[(some "a", [])], [(some "a", [])]] := by cbv
  simp only [Prod.mk.injEq] at htree hchoice
  obtain ⟨hholdings, hindexes, hsource, hcapacity'⟩ := htree
  obtain ⟨hprimary1, hfirst1, hprimary2, hfirst2, hplain⟩ := hchoice
  have hlt : (ofSource 0 .textMate "$\x7b1:$2\x7d $1 $\x7b2:a\x7d").capacity < 2 ^ 32 := by
    rw [hcapacity]
    decide
  have hle : (ofSource 0 .textMate nested.source).capacity ≤ 2 ^ 32 := by
    rw [hcapacity']
    decide
  -- The first tab stop holds the second, and there is nothing else that holds anything
  have hacyclic := acyclic_of_holdings (t := nested) (fun i => if i = .ofNat 1 then 1 else 0) (by
    rw [hholdings]
    decide)
  have hbare : ∀ m ∈ nested.placeholdersOf (.ofNat 2), nested.Bare m := by
    intro m hm c hc
    have hrow := List.mem_map_of_mem (f := fun m => (nested.slotOf m).children.map fun c =>
      ((nested.slotOf c).marker.text?, (nested.slotOf c).children)) hm
    rw [hinside, List.mem_pair, or_self] at hrow
    have hcell := List.mem_map_of_mem (f := fun c =>
      ((nested.slotOf c).marker.text?, (nested.slotOf c).children)) hc
    rw [hrow, List.mem_singleton, Prod.mk.injEq] at hcell
    exact ⟨by rw [hcell.1]; rfl, hcell.2⟩
  have hchosen : nested.Rechoosable nested.Bare := by
    refine rechoosable_of_indexes fun i hi hfinal => ?_
    obtain rfl | rfl : i = .ofNat 1 ∨ i = .ofNat 2 := by
      rw [hindexes] at hi
      revert hfinal
      simp only [List.mem_cons, List.not_mem_nil, or_false] at hi
      rcases hi with rfl | rfl | rfl | rfl | rfl <;> decide
    · exact ⟨_, hprimary1, Or.inl hfirst1⟩
    · exact ⟨_, hprimary2, Or.inr ⟨hplain, hbare⟩⟩
  have hprimary : ∀ i : TabIndex, i.isFinal = false → nested.placeholdersOf i ≠ [] →
      ∃ p, nested.primary? i = some p := by
    intro i hfinal hne
    obtain ⟨p, hp, -⟩ := hchosen i hfinal hne
    exact ⟨p, hp⟩
  exact ⟨hlt, hacyclic, hprimary, hle, hprimary2, hfirst2, hsource,
    (source_ofSnippet_source_iff 0 _ true hlt hacyclic hprimary 0 hle).2 hchosen⟩

/-- A choice is lost when what is written is read, as the tab stop that has repeated it is chosen.
-/
example :
    let t := ofSnippet 0 .textMate "$1$\x7b1|a,b|\x7d" false
    (t.source, (ofSnippet 0 .textMate t.source false).source) =
      ("$\x7b1:a\x7d$\x7b1|a,b|\x7d", "$\x7b1:a\x7d$\x7b1:a\x7d") := by cbv

end TabStop.Tree
