import TabStop.Proofs.Links.Evolution
import TabStop.Tree.Primary

/-!
# Which tab stops are chosen

Choosing the primary tab stops changes how tab stops are marked and nothing else. Afterwards just
one tab stop of each index is marked, unless the index is final.
-/

namespace TabStop.Tree

variable {t : Tree} {h : Handle} {hs : List Handle} {i : TabIndex}

/-! ## Marking tab stops -/

/-- How a tab stop is marked. -/
def marked (primary : Bool) (p : Placeholder) : Placeholder := { p with primary }

/-- What a marker becomes: it stays as it is, or is that of a tab stop that is marked in another
way. -/
inductive Remarked : Marker → Marker → Prop where
  | same (m : Marker) : Remarked m m
  | mark (p : Placeholder) (b : Bool) : Remarked (.placeholder p) (.placeholder (marked b p))

theorem Remarked.trans {m m' m'' : Marker} (hm : Remarked m m') (hm' : Remarked m' m'') :
    Remarked m m'' := by
  cases hm with
  | same => exact hm'
  | mark p b =>
    cases hm' with
    | same => exact .mark p b
    | mark _ b' => exact .mark p b'

theorem Remarked.text?_eq {m m' : Marker} (hm : Remarked m m') : m'.text? = m.text? := by
  cases hm <;> rfl

theorem sameLinks_markPrimary (t : Tree) (h : Handle) (b : Bool) :
    SameLinks t (t.markPrimary h b) := by
  unfold markPrimary
  split
  · exact sameLinks_setMarker t h _
  · exact .refl t

theorem placeholder?_markPrimary (t : Tree) (h x : Handle) (b : Bool) :
    (t.markPrimary h b).placeholder? x =
      if x = h then (t.placeholder? x).map (marked b) else t.placeholder? x := by
  unfold markPrimary
  cases hp : t.placeholder? h with
  | none =>
    by_cases hx : x = h
    · simp [hx, hp]
    · simp [hx]
  | some p =>
    -- Only a node that is owned is a tab stop
    have ho : t.owns h := by
      unfold placeholder? marker? at hp
      split at hp
      · assumption
      · simp at hp
    have hlinks := sameLinks_setMarker t h (.placeholder (marked b p))
    have hslot := slotOf_modifySlot (owns_iff.1 ho).2.1
      (fun s => { s with marker := .placeholder (marked b p) }) x
    show (t.setMarker h (.placeholder (marked b p))).placeholder? x = _
    by_cases hx : x = h
    · subst hx
      rw [if_pos rfl] at hslot
      rw [if_pos rfl, hp, placeholder?, marker?, hlinks.owns_eq, if_pos ho, setMarker, if_pos ho,
        hslot]
      rfl
    · rw [if_neg hx, placeholder?, placeholder?, marker?, marker?, hlinks.owns_eq]
      by_cases hox : t.owns x
      · have hne : x.slot ≠ h.slot := fun hslots => hx (eq_of_owns hox ho hslots)
        rw [if_neg hne] at hslot
        rw [if_pos hox, if_pos hox, setMarker, if_pos ho, hslot]
      · rw [if_neg hox, if_neg hox]

theorem remarked_markPrimary (t : Tree) (h x : Handle) (b : Bool) :
    Remarked (t.slotOf x).marker ((t.markPrimary h b).slotOf x).marker := by
  unfold markPrimary
  split
  · next p hp =>
    unfold setMarker
    split
    · next ho =>
      rw [slotOf_modifySlot (owns_iff.1 ho).2.1]
      split
      · next hslot =>
        -- The node is the same tab stop, marked in another way
        rw [placeholder?, marker?, if_pos ho, Option.bind_some] at hp
        rw [slotOf_congr hslot]
        cases hm : (t.slotOf h).marker <;> simp [hm, Marker.placeholder?] at hp
        exact hp ▸ .mark ..
      · exact .same _
    · exact .same _
  · exact .same _

/-- Whether a tab stop is to be marked as the primary one. -/
def becomesPrimary (t : Tree) (h : Handle) : Bool :=
  (t.index? h).any fun i => i.isFinal || t.choosePrimary (t.placeholdersOf i) == some h

/-- Tab stops are marked one after the other. What they become depends on the tree that was there
before. -/
private theorem foldl_markPrimary (hhs : ∀ h ∈ hs, (t.index? h).isSome) (u : Tree) :
    let v := hs.foldl (fun u h => match t.index? h with
      | some i => u.markPrimary h (i.isFinal || t.choosePrimary (t.placeholdersOf i) == some h)
      | none => u) u
    SameLinks u v ∧ (∀ x, Remarked (u.slotOf x).marker (v.slotOf x).marker) ∧
      ∀ x, v.placeholder? x = if x ∈ hs then (u.placeholder? x).map (marked (t.becomesPrimary x))
        else u.placeholder? x := by
  induction hs generalizing u with
  | nil => exact ⟨.refl u, fun _ => .same _, fun x => by simp⟩
  | cons h hs ih =>
    obtain ⟨hh, hhs⟩ := List.forall_mem_cons.1 hhs
    obtain ⟨i, hi⟩ := Option.isSome_iff_exists.1 hh
    have hbecomes : (i.isFinal || t.choosePrimary (t.placeholdersOf i) == some h) =
        t.becomesPrimary h := by simp [becomesPrimary, hi]
    obtain ⟨hlinks, hmarkers, hmarks⟩ := ih hhs (u.markPrimary h (t.becomesPrimary h))
    simp only [List.foldl_cons, hi, hbecomes]
    refine ⟨(sameLinks_markPrimary u h _).trans hlinks,
      fun x => (remarked_markPrimary u h x _).trans (hmarkers x), fun x => ?_⟩
    rw [hmarks, placeholder?_markPrimary]
    by_cases hx : x = h
    · subst hx
      simp only [List.mem_cons, true_or, ↓reduceIte]
      -- To mark a tab stop twice is to mark it once
      split <;> cases u.placeholder? x <;> rfl
    · simp [hx]

theorem index?_isSome : (t.index? h).isSome = (t.placeholder? h).isSome := by
  simp [index?]

private theorem assignPrimaries_spec (t : Tree) :
    SameLinks t t.assignPrimaries ∧
      (∀ x, Remarked (t.slotOf x).marker (t.assignPrimaries.slotOf x).marker) ∧
      ∀ x, t.assignPrimaries.placeholder? x = if x ∈ t.placeholders
        then (t.placeholder? x).map (marked (t.becomesPrimary x)) else t.placeholder? x := by
  apply foldl_markPrimary
  intro h hh
  rw [index?_isSome]
  exact (List.mem_filter.1 hh).2

theorem sameLinks_assignPrimaries (t : Tree) : SameLinks t t.assignPrimaries :=
  (assignPrimaries_spec t).1

/-- Choosing primary tab stops only changes how tab stops are marked. -/
theorem remarked_assignPrimaries (t : Tree) (x : Handle) :
    Remarked (t.slotOf x).marker (t.assignPrimaries.slotOf x).marker :=
  (assignPrimaries_spec t).2.1 x

theorem text?_assignPrimaries (t : Tree) (x : Handle) :
    (t.assignPrimaries.slotOf x).marker.text? = (t.slotOf x).marker.text? :=
  (remarked_assignPrimaries t x).text?_eq

theorem placeholder?_assignPrimaries (t : Tree) (x : Handle) :
    t.assignPrimaries.placeholder? x = if x ∈ t.placeholders
      then (t.placeholder? x).map (marked (t.becomesPrimary x)) else t.placeholder? x :=
  (assignPrimaries_spec t).2.2 x

/-! ## The tab stops that are marked -/

theorem index?_assignPrimaries (t : Tree) (x : Handle) :
    t.assignPrimaries.index? x = t.index? x := by
  rw [index?, index?, placeholder?_assignPrimaries]
  split
  · cases t.placeholder? x <;> rfl
  · rfl

theorem placeholders_assignPrimaries (t : Tree) :
    t.assignPrimaries.placeholders = t.placeholders := by
  have hlinks := sameLinks_assignPrimaries t
  have hroot : t.assignPrimaries.root = t.root := hlinks.root_eq
  simp only [placeholders, descendants, hlinks.walk_eq, hroot, ← index?_isSome,
    index?_assignPrimaries]

theorem placeholdersOf_assignPrimaries (t : Tree) (i : TabIndex) :
    t.assignPrimaries.placeholdersOf i = t.placeholdersOf i := by
  simp only [placeholdersOf, placeholders_assignPrimaries, index?_assignPrimaries]

theorem placeholdersOf_sublist (t : Tree) (i : TabIndex) :
    (t.placeholdersOf i).Sublist t.placeholders := List.filter_sublist

theorem WellLinked.nodup_placeholders (hl : t.WellLinked) : t.placeholders.Nodup :=
  ((hl.walk_nodup t.root).sublist (List.drop_sublist 1 _)).sublist List.filter_sublist

theorem WellLinked.nodup_placeholdersOf (hl : t.WellLinked) (i : TabIndex) :
    (t.placeholdersOf i).Nodup := hl.nodup_placeholders.sublist (placeholdersOf_sublist t i)

/-- One of the tab stops is chosen, if there are any. -/
theorem choosePrimary_mem (hne : hs ≠ []) : ∃ p ∈ hs, t.choosePrimary hs = some p := by
  unfold choosePrimary
  split
  · next p hp =>
    -- The one that is marked already, if there is just one
    have hmem : p ∈ hs.filter t.isPrimary := by simp [hp]
    exact ⟨p, (List.mem_filter.1 hmem).1, rfl⟩
  · -- Else the first one without a transform, rather one with a default; else just the first
    cases hfind : (hs.filter fun h => (t.placeholder? h).any (·.transform.isNone)).find?
      (fun h => !(t.children h).isEmpty) with
    | some p => exact ⟨p, (List.mem_filter.1 (List.mem_of_find?_eq_some hfind)).1, by simp [hfind]⟩
    | none =>
      cases hplain : hs.filter fun h => (t.placeholder? h).any (·.transform.isNone) with
      | cons p ps =>
        have hmem : p ∈ hs.filter fun h => (t.placeholder? h).any (·.transform.isNone) := by
          simp [hplain]
        rw [hplain] at hfind
        exact ⟨p, (List.mem_filter.1 hmem).1, by simp [hfind]⟩
      | nil =>
        obtain ⟨p, ps, rfl⟩ := List.exists_cons_of_ne_nil hne
        exact ⟨p, by simp, by simp⟩

/-- Once primary tab stops have been chosen, just one tab stop of each index is marked, unless the
index is final. -/
theorem WellLinked.primaries_assigned (hl : t.WellLinked) (hi : i.isFinal = false)
    (hne : t.placeholdersOf i ≠ []) :
    ∃ p, (t.assignPrimaries.placeholdersOf i).filter t.assignPrimaries.isPrimary = [p] := by
  obtain ⟨p, hp, hchosen⟩ := choosePrimary_mem (t := t) hne
  -- Of an index that is not final, the chosen tab stop is marked and no other
  have hmarked : ∀ x ∈ t.placeholdersOf i, t.assignPrimaries.isPrimary x = (x == p) := by
    intro x hx
    obtain ⟨hmem, hindex⟩ := List.mem_filter.1 hx
    have hindex : t.index? x = some i := by simpa using hindex
    have hsome : (t.placeholder? x).isSome := (List.mem_filter.1 hmem).2
    obtain ⟨q, hq⟩ := Option.isSome_iff_exists.1 hsome
    rw [isPrimary, placeholder?_assignPrimaries, if_pos hmem, hq]
    simp [marked, becomesPrimary, hindex, hi, hchosen, Bool.beq_comm (a := p)]
  rw [placeholdersOf_assignPrimaries]
  refine ⟨p, ?_⟩
  -- It is among the tab stops once
  rw [List.filter_congr hmarked, List.filter_beq, (hl.nodup_placeholdersOf i).count, if_pos hp]
  rfl

end TabStop.Tree
