import TabStop.Proofs.Document.Positions

/-!
# Positions of hidden nodes

A node below a variable that has a value is in the document, but is not shown. It has no offset.
The text before it is that before the outermost such variable around it, followed by what the default
of the variable has before it, which is not shown either.
-/

namespace TabStop.Tree

variable {t : Tree} {h x : Handle}

namespace WellLinked

theorem above_root (hl : t.WellLinked) (ha : t.isAttached h) : t.isAncestorOrSelf t.root h :=
  ((hl.mem_walk_iff (Linked.root_inUse hl)).1 (hl.isAttached_iff.1 ha)).2

/-- There is a text before each attached node, hidden or not. -/
theorem textBefore?_isSome (hl : t.WellLinked) (h : Handle) :
    (t.textBefore? t.root h).isSome = t.isAttached h := by
  cases ha : t.isAttached h with
  | false => simp [textBefore?, ha]
  | true => simp [textBefore?, ha, hl.above_root ha]

/-- The offset of a node counts the characters of the text before it, unless the node is hidden. -/
theorem offset?_eq (hl : t.WellLinked) (h : Handle) :
    t.offset? h = if t.isHidden h then none else (t.textBefore? t.root h).map String.length := by
  cases ha : t.isAttached h with
  | false => simp [offset?, textBefore?, ha]
  | true =>
    have hroot := Linked.root_inUse hl
    -- Induction on the way down from the root: a child is hidden below a hidden node or below a
    -- value
    refine hl.walk_induction hroot (P := fun x => t.offset? x =
      if t.isHidden x then none else (t.textBefore? t.root x).map String.length)
      ?_ (fun p hp c hc ih => ?_) (hl.isAttached_iff.1 ha)
    · have hshown : t.isHidden t.root = false := by simp [isHidden, hl.ancestors_root]
      rw [hl.offset?_root, hshown, hl.textBefore?_self (hl.mem_walk_self hroot)]
      rfl
    · cases hhidden : t.isHidden c with
      | true => simp [offset?, hhidden]
      | false =>
        have hparent := hhidden
        rw [hl.isHidden_child (hl.mem_walk_root_inUse hp) hc, Bool.or_eq_false_iff] at hparent
        rw [hparent.2] at ih
        rw [hl.offset?_child hp hc hhidden, ih, hl.textBefore?_child (hl.mem_walk_self hroot) hp hc]
        simp [Function.comp_def, String.length_append]

/-- Around a hidden node there is a variable with a value that is not hidden itself. -/
theorem exists_hiding (hl : t.WellLinked) (hx : x ∈ t.walk t.root) (hhidden : t.isHidden x) :
    ∃ v ∈ t.ancestors x, t.HasValue v ∧ t.isHidden v = false := by
  revert hhidden
  refine hl.walk_induction (Linked.root_inUse hl) (P := fun x => t.isHidden x →
    ∃ v ∈ t.ancestors x, t.HasValue v ∧ t.isHidden v = false) (fun hhidden => ?_)
    (fun p hp c hc ih hhidden => ?_) hx
  · simp [isHidden, hl.ancestors_root] at hhidden
  · have hpu := hl.mem_walk_root_inUse hp
    rw [Linked.ancestors_child hl hpu hc]
    cases hparent : t.isHidden p with
    | true =>
      obtain ⟨v, hv, hvalue, hshown⟩ := ih hparent
      exact ⟨v, List.mem_cons_of_mem p hv, hvalue, hshown⟩
    | false =>
      rw [hl.isHidden_child hpu hc, hparent, Bool.or_false] at hhidden
      exact ⟨p, List.mem_cons_self .., hhidden, hparent⟩

/-- Of all handles, those of attached nodes that are hidden are the only ones which have a text before
them and no offset. Such a text goes on behind the text before a variable that is shown, with text
from the default that its value stands for. -/
theorem textBefore?_offset? (hl : t.WellLinked) (h : Handle) :
    ((t.textBefore? t.root h).isSome = (t.offset? h).isSome ↔
      ¬ (t.isAttached h ∧ t.isHidden h)) ∧
    (t.textBefore? t.root h).isSome = t.isAttached h ∧
    (t.offset? h = if t.isHidden h then none else (t.textBefore? t.root h).map String.length) ∧
    (t.isAttached h → t.isHidden h → ∃ v ∈ t.ancestors h, t.HasValue v ∧ ∃ s inner,
      t.offset? v = some s.length ∧ t.textBefore? t.root v = some s ∧
      t.textBefore? v h = some inner ∧ t.textBefore? t.root h = some (s ++ inner)) := by
  refine ⟨?_, hl.textBefore?_isSome h, hl.offset?_eq h, fun ha hhidden => ?_⟩
  · rw [hl.offset?_eq h, hl.textBefore?_isSome h]
    cases hhidden : t.isHidden h with
    | true => simp
    | false => simp [hl.textBefore?_isSome h]
  · have hroot := Linked.root_inUse hl
    have hmem := hl.isAttached_iff.1 ha
    have hhu := hl.mem_walk_root_inUse hmem
    -- The outermost variable with a value above the node is shown itself, so there is an offset
    obtain ⟨v, hv, hvalue, hshown⟩ := hl.exists_hiding hmem hhidden
    have habove : t.isAncestorOrSelf v h := isAncestorOrSelf_iff.2 (List.mem_cons_of_mem h hv)
    have hvmem := hl.mem_walk_root_of_above hmem habove
    have hvu := Linked.above_inUse hl hhu habove
    obtain ⟨s, hs⟩ : ∃ s, t.textBefore? t.root v = some s := by
      apply Option.isSome_iff_exists.1
      rw [hl.textBefore?_isSome]
      exact hl.isAttached_of_mem hvmem
    obtain ⟨inner, hinner, hall⟩ := hl.textBefore?_append hvmem hs
      ((hl.mem_walk_iff hvu).2 ⟨hhu, habove⟩)
    refine ⟨v, hv, hvalue, s, inner, ?_, hs, hinner, hall⟩
    rw [hl.offset?_eq v, hshown, hs]
    rfl

end WellLinked

/-- A variable that shows a value in place of a default with a tab stop in it. -/
def defaulted : Tree :=
  (ofSource 0 .textMate "é$\x7bv:a$1\x7d").setMarker ⟨0, 2, 0⟩
    (.var { name := "v", value := some "ÿÿ" })

/-- The snippet shows the value behind the first letter, but the text before the tab stop has the
text of the default there. -/
theorem textBefore?_offset?_defaulted :
    defaulted.text = "éÿÿ" ∧ defaulted.offset? ⟨0, 4, 0⟩ = none ∧
      defaulted.textBefore? defaulted.root ⟨0, 4, 0⟩ = some "éa" ∧
      (defaulted.textBefore? defaulted.root ⟨0, 4, 0⟩).isSome ≠
        (defaulted.offset? ⟨0, 4, 0⟩).isSome := by
  have hl : defaulted.WellLinked := (sameLinks_setMarker _ _ _).wellLinked (grown_ofSource ..).1
  have hdefaulted : (defaulted.isAttached ⟨0, 4, 0⟩, defaulted.isHidden ⟨0, 4, 0⟩, defaulted.text,
      defaulted.textBefore? defaulted.root ⟨0, 4, 0⟩) = (true, true, "éÿÿ", some "éa") := by cbv
  simp only [Prod.mk.injEq] at hdefaulted
  obtain ⟨hattached, hhidden, htext, hbefore⟩ := hdefaulted
  obtain ⟨hdomain, -, hoffset, -⟩ := hl.textBefore?_offset? ⟨0, 4, 0⟩
  rw [hhidden] at hoffset
  exact ⟨htext, hoffset, hbefore, fun heq => hdomain.1 heq ⟨hattached, hhidden⟩⟩

end TabStop.Tree
