import TabStop.Proofs.Canonical.Unvalued
import TabStop.Proofs.Canonical.Recovering
import TabStop.Proofs.Canonical.Stabilizing
import TabStop.Proofs.Resolve.Substitution

/-!
# Where the cursor goes first in a resolved snippet

When the variables of a snippet have been resolved, the tab stops in variables with values are hidden,
and the cursor does not go there. Then tab stops are repeated again, and some of them may be lost. But
what repeats a hidden tab stop had been read with it, and has nothing in it any more that could be
lost. So there is a place for the cursor if a final tab stop was read outside of the variables that
have got a value; and one that is added at the end is outside of all variables.
-/

namespace TabStop

theorem TabIndex.before_ofNat {i : TabIndex} {n : Nat} (hi : i.floor < n) (hn : n ≤ maxWhole) :
    i.before (ofNat n) := by
  have hlt : i.value.floor < (n : Int) := by
    unfold floor at hi
    omega
  have hvalue : i.value < (n : Rat) := by exact_mod_cast Rat.floor_lt_iff.1 hlt
  exact decide_eq_true hvalue

namespace Tree

variable {t u v : Tree} {h m p q x : Handle} {s : String} {P Q : Handle → String → Prop}
  {r : Resolver} {st : Resolution} {i : TabIndex}

/-! ## The first place -/

/-- A node that is no text was there before some node came to show a text, and was what it is. -/
theorem Wrote.kept_of_node (hw : Wrote t m s u) (hl : t.WellLinked) (hm : t.InUse m) (hx : u.InUse x)
    (htext : (u.slotOf x).marker.text? = none) :
    Kept t u x ∧ (u.slotOf x).marker = (t.slotOf x).marker := by
  by_cases hxt : t.InUse x
  · refine ⟨hw.kept hxt hx, hw.marker hxt hx fun n hn hup => ?_⟩
    obtain rfl := List.mem_singleton.1 hn
    -- There is nothing but text in the node
    have hmu := hw.inUse hm (Or.inl rfl)
    have hupu : (u.slotOf x).parent = some n := by
      have hancestors := (hw.kept hxt hx).ancestors_eq
      rw [Linked.ancestors_child hl hm (Linked.parent hl hxt hup).2] at hancestors
      have hlineage := Linked.lineage_ancestors hw.wellLinked hx
      rw [hancestors] at hlineage
      exact hlineage.1
    have hflat := hw.flat.text (Linked.parent hw.wellLinked hx hupu).2
    simp [htext] at hflat
  · have hfresh := hw.fresh hx hxt
    simp [htext] at hfresh

namespace Writes

/-- A node that is no text was there before, and was what it is. -/
theorem kept_of_node (hw : Writes P t u) (hl : t.WellLinked) (hx : u.InUse x)
    (htext : (u.slotOf x).marker.text? = none) :
    Kept t u x ∧ (u.slotOf x).marker = (t.slotOf x).marker := by
  induction hw with
  | refl => exact ⟨.refl hx, rfl⟩
  | write hw hk _ hwrote ih =>
    obtain ⟨hkx, hmarker⟩ := hwrote.kept_of_node (hw.remains hl).wellLinked hk.inUse hx htext
    obtain ⟨hkt, hmarkert⟩ := ih hkx.before (by rw [← hmarker, htext])
    exact ⟨hkt.trans hkx, hmarker.trans hmarkert⟩
  | @alloc u s hw ih =>
    have htouched := touched_alloc (hw.remains hl).wellLinked s
    by_cases hxu : u.InUse x
    · have hmarker := htouched.marker hxu hx (by simp)
      obtain ⟨hkt, hmarkert⟩ := ih hxu (by rw [← hmarker, htext])
      exact ⟨hkt.trans (htouched.kept hxu hx), hmarker.trans hmarkert⟩
    · have hfresh := htouched.fresh hx hxu
      simp [htext] at hfresh

theorem hasValue (hw : Writes P t u) (hl : t.WellLinked) (hx : u.InUse x) (hv : u.HasValue x) :
    t.InUse x ∧ t.HasValue x := by
  obtain ⟨hk, hmarker⟩ := hw.kept_of_node hl hx (hx.text?_of_var hv.isSome)
  exact ⟨hk.before, (hk.before.hasValue_congr hx hmarker).1 hv⟩

theorem trans (hu : Writes P t u) (hv : Writes Q u v) (hQ : ∀ m s, Q m s → Kept t u m ∧ P m s) :
    Writes P t v := by
  induction hv with
  | refl => exact hu
  | write _ hk hm hwrote ih => exact ih.write ((hQ _ _ hm).1.trans hk) (hQ _ _ hm).2 hwrote
  | alloc s _ ih => exact ih.alloc s

end Writes

/-- A tab stop that is left is hidden only if it was. -/
theorem Writes.isHidden (hw : Writes P t u) (hl : t.WellLinked) (hx : x ∈ u.placeholders)
    (hhidden : u.isHidden x) : t.isHidden x := by
  have hremains := hw.remains hl
  obtain ⟨a, ha, hv⟩ := isHidden_iff.1 hhidden
  have hau := Linked.ancestors_inUse hremains.wellLinked
    (hremains.wellLinked.inUse_of_mem_placeholders hx) a ha
  rw [(hremains.kept_of_mem hx).ancestors_eq] at ha
  exact isHidden_iff.2 ⟨a, ha, (hw.hasValue hl hau hv).2⟩

/-! ## Repeating hidden tab stops -/

namespace Repeatable

/-- All that comes to show a text follows some primary tab stop. -/
theorem writes_repeatAll (ht : t.Repeatable) :
    Writes (fun m _ => ∃ p ∈ t.leaders, t.Follows m p) t t.repeatAll := by
  refine ht.repeatAll_induction .refl fun {u p} hremains hu hp hw => ?_
  obtain ⟨done, hturning, -⟩ := hu.turning hp
  refine hw.trans hturning.writes ?_
  rintro m _ ⟨hf, -⟩
  exact ⟨hremains.kept_of_mem hf.mem, p, hremains.mem_leaders ht.wellLinked hp,
    hremains.follows ht.wellLinked (mem_leaders_iff.1 hp).1 hf⟩

end Repeatable

/-! ## The tab stops of a resolved snippet -/

/-- A new index is behind those of all tab stops. -/
theorem IsNew.before (hi : t.IsNew i) (hx : x ∈ t.placeholders) {j : TabIndex}
    (hj : t.index? x = some j) : j.before i := by
  obtain ⟨n, hlt, hmax, rfl⟩ := hi
  have hmem : j.floor ∈ (t.placeholders.filterMap t.index?).map TabIndex.floor :=
    List.mem_map_of_mem (List.mem_filterMap.2 ⟨x, hx, hj⟩)
  have hle : j.floor ≤ t.highestIndex :=
    (List.max?_le_iff List.max?_cons').1 (Nat.le_refl _) _ (List.mem_cons_of_mem 0 hmem)
  exact TabIndex.before_ofNat (hle.trans_lt hlt) hmax.le

theorem IsNew.not_mem (hi : t.IsNew i) (hx : x ∈ t.placeholders) : t.index? x ≠ some i := by
  intro hxi
  have hself := hi.before hx hxi
  simp [TabIndex.before] at hself

namespace Resolving

variable (hr : Resolving t [] st) (hl : t.WellLinked)

include hr hl

/-- The tab stops that were there are left as they were. -/
theorem left (hx : x ∈ t.placeholders) :
    x ∈ st.tree.placeholders ∧ st.tree.placeholder? x = t.placeholder? x := by
  obtain ⟨gone, hreduced⟩ := hr.reduced
  have hxt := hl.inUse_of_mem_placeholders hx
  have hsome := isSome_of_mem_placeholders hx
  obtain ⟨hframe, hmarker⟩ :=
    hreduced.left (hl.mem_frame_of_placeholder hx) (hxt.var?_of_placeholder hsome)
  have hplaceholder : st.tree.placeholder? x = t.placeholder? x := by
    rw [(hreduced.wellLinked.inUse_of_mem_frame hframe).placeholder?_eq, hxt.placeholder?_eq, hmarker]
  refine ⟨?_, hplaceholder⟩
  rw [hreduced.wellLinked.placeholders_eq, List.mem_filter, hplaceholder]
  exact ⟨hframe, hsome⟩

/-- A tab stop that is hidden, or whose index is not new, was there. -/
theorem was (hx : x ∈ st.tree.placeholders)
    (hold : st.tree.isHidden x ∨ ∃ i, st.tree.index? x = some i ∧ ¬ t.IsNew i) :
    x ∈ t.placeholders := by
  obtain ⟨gone, hreduced⟩ := hr.reduced
  have hframe := hreduced.wellLinked.mem_frame_of_placeholder hx
  have hsome := isSome_of_mem_placeholders hx
  -- A variable that became a tab stop is shown and has a new index
  have hnone : t.var? x = none := by
    by_contra hvar
    obtain ⟨-, hpromoted⟩ := hr.promoted hframe (Option.isSome_iff_ne_none.2 hvar) hsome
    rcases hold with hhidden | ⟨i, hi, hold⟩
    · simp [hpromoted.shown] at hhidden
    · obtain ⟨j, hj, hnew⟩ := hpromoted.index
      exact hold (Option.some.inj (hi.symm.trans hj) ▸ hnew)
  have hxt := hreduced.before hframe
  have hmarker := (hreduced.left hxt hnone).2
  rw [hl.placeholders_eq, List.mem_filter]
  refine ⟨hxt, ?_⟩
  rwa [(hl.inUse_of_mem_frame hxt).placeholder?_eq, ← hmarker,
    ← (hreduced.wellLinked.inUse_of_mem_frame hframe).placeholder?_eq]

/-- Of the tab stops of an index that is not new, those are marked that were. -/
theorem mem_placeholdersOf_iff (hnot : ¬ t.IsNew i) :
    x ∈ st.tree.placeholdersOf i ↔ x ∈ t.placeholdersOf i := by
  rw [Tree.mem_placeholdersOf_iff, Tree.mem_placeholdersOf_iff]
  constructor
  · rintro ⟨hx, hi⟩
    have hxt := hr.was hl hx (Or.inr ⟨i, hi, hnot⟩)
    exact ⟨hxt, by rwa [index?, ← (hr.left hl hxt).2, ← index?]⟩
  · rintro ⟨hx, hi⟩
    obtain ⟨hxs, hplaceholder⟩ := hr.left hl hx
    exact ⟨hxs, by rwa [index?, hplaceholder, ← index?]⟩

/-- An index whose primary tab stop was there has it still. -/
theorem choosePrimary_eq (ht : t.Repeatable) (hp : t.primary? i = some p)
    (hfinal : i.isFinal = false) :
    st.tree.choosePrimary (st.tree.placeholdersOf i) = some p := by
  obtain ⟨gone, hreduced⟩ := hr.reduced
  obtain ⟨hleader, hi⟩ := mem_leaders_of_primary? hp hfinal
  have hpmem := (mem_leaders_iff.1 hleader).1
  have hnot : ¬ t.IsNew i := fun hnew => hnew.not_mem hpmem hi
  -- The index is not new, so the tab stops that have it had it before, with their marks
  have hmarked : ∀ x ∈ st.tree.placeholdersOf i, st.tree.isPrimary x = (x == p) := by
    intro x hx
    obtain ⟨hxt, hxi⟩ := Tree.mem_placeholdersOf_iff.1 ((hr.mem_placeholdersOf_iff hl hnot).1 hx)
    rw [isPrimary, (hr.left hl hxt).2, ← isPrimary, Bool.eq_iff_iff, beq_iff_eq]
    constructor
    · intro hprimary
      have hxleader : x ∈ t.leaders :=
        mem_leaders_iff.2 ⟨hxt, hprimary, by simp [isFinal, hxi, hfinal]⟩
      exact ht.single x hxleader p hleader (hxi.trans hi.symm)
    · rintro rfl
      exact (mem_leaders_iff.1 hleader).2.1
  have hone : (st.tree.placeholdersOf i).filter st.tree.isPrimary = [p] := by
    rw [List.filter_congr hmarked, List.filter_beq,
      (hreduced.wellLinked.nodup_placeholdersOf i).count, if_pos]
    · rfl
    · exact (hr.mem_placeholdersOf_iff hl hnot).2 (Tree.mem_placeholdersOf_iff.2 ⟨hpmem, hi⟩)
  rw [choosePrimary, hone]

end Resolving

end Tree

end TabStop
