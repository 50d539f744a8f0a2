import TabStop.Proofs.Repeat.Writing
import TabStop.Proofs.Document.Positions

/-!
# How long a node is

A node is as long as all the nodes together that it shows: itself and what is below it, but for what
is below a variable that has a value. Each of them counts with the text that it shows by itself.
-/

namespace TabStop

/-- The value of a variable is what it shows. -/
theorem Marker.value_eq_none {m : Marker} (hown : m.ownText? = none) :
    m.var?.bind (·.value) = none := by
  cases m with
  | var v => exact hown
  | _ => rfl

namespace Tree

variable {t : Tree} {a c m n : Handle}

/-- A node is below a variable with a value that is `n` or below `n`. -/
def IsHiddenIn (t : Tree) (n m : Handle) : Prop :=
  ∃ a ∈ t.ancestors m, t.isAncestorOrSelf n a ∧ t.HasValue a

instance (t : Tree) (n m : Handle) : Decidable (t.IsHiddenIn n m) :=
  inferInstanceAs (Decidable (∃ a ∈ _, _))

/-- The nodes that a node shows: itself, and those below it that are not hidden in it. -/
def shownNodes (t : Tree) (n : Handle) : List Handle :=
  (t.walk n).filter fun m => ¬t.IsHiddenIn n m

namespace WellLinked

/-! ## Hidden nodes -/

/-- No node is hidden in itself. -/
theorem not_isHiddenIn_self (hl : t.WellLinked) (hn : t.InUse n) : ¬t.IsHiddenIn n n := by
  rintro ⟨a, ha, hna, -⟩
  have hmem := List.mem_cons_of_mem n ha
  obtain rfl := hl.above_antisymm hn (isAncestorOrSelf_iff.2 hmem) hna
  exact Linked.not_mem_ancestors hl hn ha

/-- What is below a child is hidden by its parent or in the child. -/
theorem isHiddenIn_child (hl : t.WellLinked) (hn : t.InUse n) (hc : c ∈ (t.slotOf n).children)
    (hm : m ∈ t.walk c) : t.IsHiddenIn n m ↔ t.HasValue n ∨ t.IsHiddenIn c m := by
  have hcu := (Linked.child hl hn hc).1
  obtain ⟨hmu, hcm⟩ := (hl.mem_walk_iff hcu).1 hm
  have hnc : t.isAncestorOrSelf n c := by
    rw [isAncestorOrSelf_iff, Linked.ancestors_child hl hn hc]
    simp
  have hnm : n ∈ t.ancestors m := by
    have habove := isAncestorOrSelf_iff.1 (Linked.above_trans hl hmu hcm hnc)
    apply (List.mem_cons.1 habove).resolve_left
    rintro rfl
    exact Linked.not_above_of_child hl hn hc hcm
  constructor
  · rintro ⟨a, ha, hna, hvalue⟩
    have ham := isAncestorOrSelf_iff.2 (List.mem_cons_of_mem m ha)
    have hau := Linked.above_inUse hl hmu ham
    rcases (hl.mem_walk_cons hn).1 ((hl.mem_walk_iff hn).2 ⟨hau, hna⟩) with rfl | ⟨d, hd, had⟩
    · exact Or.inl hvalue
    · -- The way up from `m` comes to one child only
      have hda := ((hl.mem_walk_iff (Linked.child hl hn hd).1).1 had).2
      obtain rfl := Linked.child_unique hl hn hd hc hmu (Linked.above_trans hl hmu ham hda) hcm
      exact Or.inr ⟨a, ha, hda, hvalue⟩
  · rintro (hvalue | ⟨a, ha, hca, hvalue⟩)
    · exact ⟨n, hnm, isAncestorOrSelf_self t n, hvalue⟩
    · exact ⟨a, ha, Linked.above_trans hl (Linked.ancestors_inUse hl hmu a ha) hca hnc, hvalue⟩

/-! ## What a node shows -/

/-- A node whose children are not shown shows itself only. -/
theorem shownNodes_single (hl : t.WellLinked) (hn : t.InUse n)
    (hhides : t.HasValue n ∨ (t.slotOf n).children = []) : t.shownNodes n = [n] := by
  have hbelow :
      ((t.slotOf n).children.flatMap t.walk).filter (fun m => ¬t.IsHiddenIn n m) = [] := by
    apply List.filter_eq_nil_iff.2
    intro m hm
    obtain ⟨c, hc, hmc⟩ := List.mem_flatMap.1 hm
    rcases hhides with hvalue | hnil
    · simp [hl.isHiddenIn_child hn hc hmc, hvalue]
    · simp [hnil] at hc
  rw [shownNodes, hl.walk_eq hn, List.filter_cons_of_pos (by simp [hl.not_isHiddenIn_self hn]),
    hbelow]

/-- Any other node shows itself and what its children show. -/
theorem shownNodes_cons (hl : t.WellLinked) (hn : t.InUse n) (hvalue : ¬t.HasValue n) :
    t.shownNodes n = n :: (t.slotOf n).children.flatMap t.shownNodes := by
  have hchild : ∀ c ∈ (t.slotOf n).children,
      (t.walk c).filter (fun m => ¬t.IsHiddenIn n m) = t.shownNodes c := by
    intro c hc
    apply List.filter_congr
    intro m hm
    simp [hl.isHiddenIn_child hn hc hm, hvalue]
  rw [shownNodes, hl.walk_eq hn, List.filter_cons_of_pos (by simp [hl.not_isHiddenIn_self hn]),
    List.filter_flatMap, List.flatMap_def, List.flatMap_def, List.map_congr_left hchild]

/-! ## Lengths -/

/-- What a node shows by itself: its own text, if it has one, and else nothing. -/
theorem length_eq (hn : t.owns n) :
    t.length n = ((t.slotOf n).marker.ownText?.getD "").length := by
  rw [length, marker?, if_pos hn]
  rfl

/-- The length of the text of a node is that of its own text, or else its children add it up. -/
theorem subtreeLength_eq (hl : t.WellLinked) (hn : t.InUse n) :
    t.subtreeLength n = match (t.slotOf n).marker.ownText? with
      | some s => s.length
      | none => ((t.slotOf n).children.map t.subtreeLength).sum := by
  rw [subtreeLength, hl.render_eq hn]
  cases (t.slotOf n).marker.ownText? with
  | some s => rfl
  | none =>
    rw [Option.getD_none, String.length_join, List.map_map]
    rfl

/-- The children of a node with a text of its own are not shown: it has a value, or is a leaf and has
none. -/
theorem hasValue_or_of_ownText? (hn : t.InUse n)
    (hleaf : (t.slotOf n).marker.isLeaf → (t.slotOf n).children = [])
    (hown : (t.slotOf n).marker.ownText? ≠ none) : t.HasValue n ∨ (t.slotOf n).children = [] := by
  apply or_iff_not_imp_left.2
  intro hvalue
  apply hleaf
  rw [HasValue, hn.var?_eq, Option.not_isSome_iff_eq_none] at hvalue
  by_contra hkind
  exact hown (Marker.ownText?_eq_none (by simpa using hkind) hvalue)

theorem not_hasValue_of_ownText? (hn : t.InUse n) (hown : (t.slotOf n).marker.ownText? = none) :
    ¬t.HasValue n := by
  rw [HasValue, hn.var?_eq, Marker.value_eq_none hown]
  simp

/-- A node in use is as long as what it shows: by induction on what is below it, as it shows its own
text or else what its children show. -/
theorem subtreeLength_eq_sum_of_inUse (hl : t.WellLinked) (hn : t.InUse n)
    (hleaves : ∀ x ∈ t.walk n, (t.slotOf x).marker.isLeaf → (t.slotOf x).children = []) :
    t.subtreeLength n = ((t.shownNodes n).map t.length).sum := by
  revert hleaves
  refine hl.induction_below (P := fun n =>
    (∀ x ∈ t.walk n, (t.slotOf x).marker.isLeaf → (t.slotOf x).children = []) →
      t.subtreeLength n = ((t.shownNodes n).map t.length).sum) (fun n hn ih hleaves => ?_) hn
  rw [hl.subtreeLength_eq hn]
  cases hown : (t.slotOf n).marker.ownText? with
  | some s =>
    -- What is below it counts for neither side
    have hhides := hasValue_or_of_ownText? hn (hleaves n (hl.mem_walk_self hn)) (by simp [hown])
    rw [hl.shownNodes_single hn hhides, List.map_singleton, List.sum_singleton,
      length_eq hn.owned, hown]
    rfl
  | none =>
    -- It shows nothing by itself, and the children add up
    have hbelow : ∀ c ∈ (t.slotOf n).children,
        t.subtreeLength c = ((t.shownNodes c).map t.length).sum := fun c hc =>
      ih c hc fun x hx => hleaves x ((hl.mem_walk_cons hn).2 (Or.inr ⟨c, hc, hx⟩))
    calc ((t.slotOf n).children.map t.subtreeLength).sum
        = ((t.slotOf n).children.map fun c => ((t.shownNodes c).map t.length).sum).sum := by
          rw [List.map_congr_left hbelow]
      _ = (((t.slotOf n).children.flatMap t.shownNodes).map t.length).sum := by
          rw [List.map_flatMap, List.flatMap_def, List.sum_flatten, List.map_map]
          rfl
      _ = ((t.shownNodes n).map t.length).sum := by
          rw [hl.shownNodes_cons hn (not_hasValue_of_ownText? hn hown), List.map_cons,
            List.sum_cons, length_eq hn.owned, hown]
          simp

/-- A free slot has no links, so the node that it will hold next shows at most itself. -/
theorem subtreeLength_eq_sum_of_free (hl : t.WellLinked) (hn : t.owns n) (hfree : n.slot ∈ t.free) :
    t.subtreeLength n = ((t.shownNodes n).map t.length).sum := by
  have hnil : (t.slotOf n).children = [] := Linked.free_children hl hfree
  have hup : t.ancestors n = [] := by
    rw [hl.ancestors_cons, parent?, if_pos hn, Linked.free_parent hl hfree]
  have hpos : t.capacity ≠ 0 := Nat.ne_of_gt (Nat.lt_of_le_of_lt (Nat.zero_le _)
    (owns_iff.1 hn).2.1)
  obtain ⟨fuel, hfuel⟩ := Nat.exists_eq_succ_of_ne_zero hpos
  have hshown : t.shownNodes n = [n] := by
    simp [shownNodes, walk, hn, hfuel, walkFrom, hnil, IsHiddenIn, hup]
  rw [hshown, List.map_singleton, List.sum_singleton, length_eq hn, subtreeLength, render,
    if_pos hn, renderSlot, hfuel, Nat.succ_eq_add_one, renderFrom, hnil]
  cases (t.slotOf n).marker.ownText? <;> rfl

/-- An owned node, below which text, choices and code blocks have no children, is as long as what it
shows. -/
theorem subtreeLength_eq_sum_shownNodes (hl : t.WellLinked) (hn : t.owns n)
    (hleaves : ∀ x ∈ t.walk n, (t.slotOf x).marker.isLeaf → (t.slotOf x).children = []) :
    t.subtreeLength n = ((t.shownNodes n).map t.length).sum := by
  by_cases hfree : n.slot ∈ t.free
  · exact hl.subtreeLength_eq_sum_of_free hn hfree
  · exact hl.subtreeLength_eq_sum_of_inUse ⟨hn, hfree⟩ hleaves

end WellLinked

/-- The tab stop around the variable is as long as the value and the text in the last tab stop: the
value hides the default. -/
theorem subtreeLength_eq_sum_shownNodes_valued :
    valued.owns ⟨0, 2, 0⟩ ∧ ⟨0, 4, 0⟩ ∈ valued.walk ⟨0, 2, 0⟩ ∧ valued.length ⟨0, 4, 0⟩ = 1 ∧
      (valued.shownNodes ⟨0, 2, 0⟩).map valued.length = [0, 2, 0, 0, 1] ∧
      valued.subtreeLength ⟨0, 2, 0⟩ = 3 := by
  have hvalued : (valued.owns ⟨0, 2, 0⟩, valued.length ⟨0, 4, 0⟩,
      (valued.walk ⟨0, 2, 0⟩).contains ⟨0, 4, 0⟩,
      (valued.shownNodes ⟨0, 2, 0⟩).map valued.length,
      (valued.walk ⟨0, 2, 0⟩).all fun x => !(valued.slotOf x).marker.isLeaf ||
        (valued.slotOf x).children.isEmpty) = (true, 1, true, [0, 2, 0, 0, 1], true) := by cbv
  simp only [Prod.mk.injEq, List.contains_iff_mem] at hvalued
  obtain ⟨howned, htext, hmem, hlengths, hbare⟩ := hvalued
  refine ⟨howned, hmem, htext, hlengths, ?_⟩
  rw [wellLinked_valued.subtreeLength_eq_sum_shownNodes howned, hlengths]
  · rfl
  · intro x hx hleaf
    simpa [hleaf] using List.all_eq_true.1 hbare x hx

end Tree

end TabStop
