import TabStop.Proofs.Links.Ownership
import TabStop.Tree.Render

/-!
# The text below a node

What a node shows is its own text, or else what its children show. In a sound tree the bound on the
levels is never met.
-/

namespace TabStop.Tree

variable {t u : Tree} {h x : Handle}

/-! ## Variables with values -/

theorem InUse.var?_eq (hx : t.InUse x) : t.var? x = (t.slotOf x).marker.var? := by
  rw [var?, marker?, if_pos hx.owned]
  rfl

/-- A node is a variable with a value. -/
def HasValue (t : Tree) (h : Handle) : Prop := ((t.var? h).bind (·.value)).isSome

instance (t : Tree) (h : Handle) : Decidable (t.HasValue h) :=
  inferInstanceAs (Decidable (_ = true))

theorem isHidden_iff : t.isHidden x ↔ ∃ a ∈ t.ancestors x, t.HasValue a := by
  rw [isHidden, List.any_eq_true]
  rfl

theorem InUse.hasValue_congr (hx : t.InUse x) (hxu : u.InUse x)
    (hmarker : (u.slotOf x).marker = (t.slotOf x).marker) : u.HasValue x ↔ t.HasValue x := by
  rw [HasValue, HasValue, hx.var?_eq, hxu.var?_eq, hmarker]

/-! ## What is shown -/

namespace WellLinked

/-- A text that may come from as many levels as there are slots comes from all levels. -/
theorem renderFrom_succ {fuel : Nat} (hl : t.WellLinked) (hh : t.InUse h)
    (hfuel : t.capacity ≤ fuel + (t.ancestors h).length) :
    t.renderFrom (fuel + 1) h = t.renderFrom fuel h := by
  induction fuel generalizing h with
  | zero =>
    -- No node is as deep as there are slots
    have := Linked.length_lineage_lt hl hh (Linked.lineage_ancestors hl hh)
    omega
  | succ fuel ih =>
    have hchild : ∀ c ∈ (t.slotOf h).children,
        t.renderFrom (fuel + 1) c = t.renderFrom fuel c := by
      intro c hc
      apply ih (Linked.child hl hh hc).1
      rw [Linked.ancestors_child hl hh hc, List.length_cons]
      omega
    rw [renderFrom, renderFrom, List.map_congr_left hchild]

theorem render_eq (hl : t.WellLinked) (hh : t.InUse h) :
    t.render h = (t.slotOf h).marker.ownText?.getD
      (String.join ((t.slotOf h).children.map t.render)) := by
  have hpos : t.capacity ≠ 0 := Nat.ne_of_gt (Nat.lt_of_le_of_lt (Nat.zero_le _) hh.slot_lt)
  obtain ⟨fuel, hfuel⟩ := Nat.exists_eq_succ_of_ne_zero hpos
  have hchild : ∀ c ∈ (t.slotOf h).children, t.renderFrom fuel c = t.render c := by
    intro c hc
    have hinUse := (Linked.child hl hh hc).1
    rw [render, if_pos hinUse.owned, renderSlot, hfuel, hl.renderFrom_succ hinUse]
    rw [Linked.ancestors_child hl hh hc, hfuel, List.length_cons]
    omega
  rw [render, if_pos hh.owned, renderSlot, hfuel, Nat.succ_eq_add_one, renderFrom,
    List.map_congr_left hchild]
  cases (t.slotOf h).marker.ownText? <;> rfl

/-- A node goes on to show its text if nothing is changed below it. -/
theorem render_congr (hl : t.WellLinked) (hu : u.WellLinked) (hh : t.InUse h)
    (hsame : ∀ x ∈ t.walk h, u.InUse x ∧ (u.slotOf x).marker = (t.slotOf x).marker ∧
      (u.slotOf x).children = (t.slotOf x).children) : u.render h = t.render h := by
  revert hsame
  refine hl.induction_below (P := fun h => (∀ x ∈ t.walk h, u.InUse x ∧
    (u.slotOf x).marker = (t.slotOf x).marker ∧ (u.slotOf x).children = (t.slotOf x).children) →
      u.render h = t.render h) (fun h hh ih hsame => ?_) hh
  obtain ⟨hinUse, hmarker, hchildren⟩ := hsame h (hl.mem_walk_self hh)
  have hbelow : ∀ c ∈ (t.slotOf h).children, u.render c = t.render c := fun c hc =>
    ih c hc fun x hx => hsame x ((hl.mem_walk_cons hh).2 (Or.inr ⟨c, hc, hx⟩))
  rw [hu.render_eq hinUse, hl.render_eq hh, hmarker, hchildren, List.map_congr_left hbelow]

end WellLinked

end TabStop.Tree
