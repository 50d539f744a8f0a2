import TabStop.Proofs.Links.Evolution
import TabStop.Proofs.Document.Rendering

/-!
# Positions in the text

The text goes down from a node to its children, and the text before a node goes up from it to its
siblings, level by level. Both come to the same: what is before a node that is shown, then the node,
is how the text of the snippet begins.
-/

namespace TabStop

/-- Nodes of this kind show a text of their own, and nothing that is below them. -/
def Marker.isLeaf : Marker → Bool
  | text _ => true
  | choice _ => true
  | code _ => true
  | root => false
  | placeholder _ => false
  | var _ => false

theorem Marker.ownText?_eq_none {m : Marker} (hleaf : m.isLeaf = false)
    (hvalue : m.var?.bind (·.value) = none) : m.ownText? = none := by
  cases m with
  | var v => exact hvalue
  | root => rfl
  | placeholder p => rfl
  | _ => simp [Marker.isLeaf] at hleaf

namespace Tree

variable {t : Tree} {a b c h p x : Handle} {as bs : List Handle}

/-- Text, choices and code blocks of the document have nothing below them. -/
def LeavesBare (t : Tree) : Prop :=
  ∀ x ∈ t.walk t.root, (t.slotOf x).marker.isLeaf → (t.slotOf x).children = []

/-- The text of the siblings before a node. -/
def levelBefore (t : Tree) (h : Handle) : String := String.join ((t.siblingsBefore h).map t.render)

/-! ## Nodes of the document -/

namespace WellLinked

theorem isAttached_iff (hl : t.WellLinked) : t.isAttached h ↔ h ∈ t.walk t.root := by
  refine ⟨fun ha => ?_, hl.isAttached_of_mem⟩
  have hroot := Linked.root_inUse hl
  simp only [isAttached, Bool.and_eq_true, Bool.or_eq_true, beq_iff_eq] at ha
  obtain ⟨-, rfl | habove⟩ := ha
  · exact hl.mem_walk_self hroot
  · have habove := List.mem_of_getLast? habove
    apply (hl.mem_walk_iff hroot).2
    exact ⟨hl.inUse_of_mem_ancestors habove, isAncestorOrSelf_iff.2 (List.mem_cons_of_mem _ habove)⟩

/-- The way up from a node of the document comes to the root. -/
theorem isAttached_iff_above (hl : t.WellLinked) :
    t.isAttached h ↔ t.InUse h ∧ t.root ∈ h :: t.ancestors h := by
  rw [hl.isAttached_iff, hl.mem_walk_iff (Linked.root_inUse hl), isAncestorOrSelf_iff]

/-- What is true of a node, and of the children of a node that it is true of, is true of all that is
below. -/
theorem walk_induction (hl : t.WellLinked) (hb : t.InUse b) {P : Handle → Prop} (self : P b)
    (child : ∀ p ∈ t.walk b, ∀ c ∈ (t.slotOf p).children, P p → P c) (hx : x ∈ t.walk b) :
    P x := by
  have hbelow : b ∈ t.walk b → P b → ∀ x ∈ t.walk b, P x := by
    refine hl.induction_below (P := fun h => h ∈ t.walk b → P h → ∀ x ∈ t.walk h, P x)
      (fun h hh ih hmem hP x hx => ?_) hb
    rcases (hl.mem_walk_cons hh).1 hx with rfl | ⟨c, hc, hxc⟩
    · exact hP
    · apply ih c hc _ (child h hmem c hc hP) x hxc
      exact Linked.mem_walk_child hl hb (agreesBelow t b) hmem hc
  exact hbelow (hl.mem_walk_self hb) self x hx

/-- What is above a node of the document belongs to the document. -/
theorem mem_walk_root_of_above (hl : t.WellLinked) (hx : x ∈ t.walk t.root)
    (hb : t.isAncestorOrSelf b x) : b ∈ t.walk t.root := by
  have hroot := Linked.root_inUse hl
  revert hb
  refine hl.walk_induction hroot
    (P := fun x => t.isAncestorOrSelf b x → b ∈ t.walk t.root) (fun hb => ?_)
    (fun p hp c hc ih hb => ?_) hx
  · rw [isAncestorOrSelf_iff, hl.ancestors_root, List.mem_singleton] at hb
    rw [hb]
    exact hl.mem_walk_self hroot
  · rw [isAncestorOrSelf_iff, Linked.ancestors_child hl (hl.mem_walk_root_inUse hp) hc] at hb
    rcases List.mem_cons.1 hb with rfl | hb
    · exact hl.mem_walk_root_child hp hc
    · exact ih (isAncestorOrSelf_iff.2 hb)

theorem siblingsBefore_eq (hl : t.WellLinked) (hp : t.InUse p) (hc : c ∈ (t.slotOf p).children) :
    t.siblingsBefore c = (t.slotOf p).children.takeWhile (· ≠ c) := by
  obtain ⟨hinUse, hparent⟩ := Linked.child hl hp hc
  rw [siblingsBefore, parent?_eq hinUse, hparent]

/-- A child that comes before another one is not that one. -/
theorem ne_of_split (hl : t.WellLinked) (hp : t.InUse p) (hsplit : (t.slotOf p).children = as ++ bs)
    (ha : a ∈ as) (hb : b ∈ bs) : a ≠ b := by
  have hnodup := Linked.nodup hl hp
  rw [hsplit] at hnodup
  exact (List.nodup_append.1 hnodup).2.2 a ha b hb

/-- The siblings before a node are those before it in the list of its parent. -/
theorem siblingsBefore_of_split (hl : t.WellLinked) (hp : t.InUse p)
    (hsplit : (t.slotOf p).children = as ++ c :: bs) : t.siblingsBefore c = as := by
  have hnot : ∀ a ∈ as, decide (a ≠ c) = true := by
    intro a ha
    apply decide_eq_true
    exact hl.ne_of_split hp hsplit ha (List.mem_cons_self ..)
  rw [hl.siblingsBefore_eq hp (by rw [hsplit]; simp), hsplit, List.takeWhile_append_of_pos hnot]
  simp

theorem indexInParent?_of_split (hl : t.WellLinked) (hp : t.InUse p)
    (hsplit : (t.slotOf p).children = as ++ c :: bs) : t.indexInParent? c = some as.length := by
  obtain ⟨hc, hup⟩ := Linked.child hl hp (c := c) (by simp [hsplit])
  have hnot : ∀ a ∈ as, ¬ (a == c) = true := by
    intro a ha
    simpa using hl.ne_of_split hp hsplit ha (List.mem_cons_self ..)
  have hfind : as.findIdx? (· == c) = none := by simpa [List.findIdx?_eq_none_iff] using hnot
  rw [indexInParent?, parent?_eq hc, hup, Option.bind_some, hsplit, List.findIdx?_append, hfind,
    List.findIdx?_cons]
  simp

/-- What is hidden below a node is hidden below its children, and no more is shown there. -/
theorem isHidden_child (hl : t.WellLinked) (hp : t.InUse p) (hc : c ∈ (t.slotOf p).children) :
    t.isHidden c = (((t.var? p).bind (·.value)).isSome || t.isHidden p) := by
  rw [isHidden, Linked.ancestors_child hl hp hc, List.any_cons]
  rfl

end WellLinked

theorem exists_takeWhile_append {α : Type} [DecidableEq α] {a : α} {as : List α} (ha : a ∈ as) :
    ∃ rest, as = as.takeWhile (· ≠ a) ++ a :: rest := by
  induction as with
  | nil => simp at ha
  | cons y ys ih =>
    by_cases hy : y = a
    · exact ⟨ys, by simp [hy]⟩
    · obtain ⟨rest, heq⟩ := ih ((List.mem_cons.1 ha).resolve_left (Ne.symm hy))
      refine ⟨rest, ?_⟩
      rw [List.takeWhile_cons_of_pos (by simpa using hy), List.cons_append, ← heq]

/-! ## One level down -/

namespace WellLinked

/-- A node with a child that is not hidden shows its children: it is no leaf, and has no value. -/
theorem ownText?_of_shown (hl : t.WellLinked) (hleaves : t.LeavesBare) (hp : p ∈ t.walk t.root)
    (hc : c ∈ (t.slotOf p).children) (hshown : t.isHidden c = false) :
    (t.slotOf p).marker.ownText? = none := by
  have hpu := hl.mem_walk_root_inUse hp
  rw [hl.isHidden_child hpu hc, Bool.or_eq_false_iff] at hshown
  apply Marker.ownText?_eq_none
  · apply Bool.eq_false_iff.2
    intro hleaf
    simp [hleaves p hp hleaf] at hc
  · have hvalue := hshown.1
    rw [var?, marker?, if_pos hpu.owned] at hvalue
    simpa using hvalue

/-- A node whose children are shown shows what is before one of them, that one, and the rest. -/
theorem render_child (hl : t.WellLinked) (hleaves : t.LeavesBare) (hp : p ∈ t.walk t.root)
    (hc : c ∈ (t.slotOf p).children) (hshown : t.isHidden c = false) :
    ∃ rest, t.render p = t.levelBefore c ++ t.render c ++ rest := by
  have hpu := hl.mem_walk_root_inUse hp
  have hown := hl.ownText?_of_shown hleaves hp hc hshown
  obtain ⟨rest, hrest⟩ := exists_takeWhile_append hc
  refine ⟨String.join (rest.map t.render), ?_⟩
  rw [hl.render_eq hpu, hown, Option.getD_none, levelBefore, hl.siblingsBefore_eq hpu hc]
  calc String.join ((t.slotOf p).children.map t.render)
      = String.join (((t.slotOf p).children.takeWhile (· ≠ c) ++ c :: rest).map t.render) := by
        rw [← hrest]
    _ = _ := by
        rw [List.map_append, List.map_cons, String.join_append, String.join_cons,
          String.append_assoc]

theorem textBefore?_self (hl : t.WellLinked) (hb : b ∈ t.walk t.root) :
    t.textBefore? b b = some "" := by
  simp [textBefore?, hl.isAttached_of_mem hb, isAncestorOrSelf_self]

/-- The text before a node is the text before its parent and what is before it on its level. -/
theorem textBefore?_child (hl : t.WellLinked) (hb : b ∈ t.walk t.root) (hp : p ∈ t.walk b)
    (hc : c ∈ (t.slotOf p).children) :
    t.textBefore? b c = (t.textBefore? b p).map (· ++ t.levelBefore c) := by
  have hbu := hl.mem_walk_root_inUse hb
  obtain ⟨hpu, hbp⟩ := (hl.mem_walk_iff hbu).1 hp
  have hcb := Linked.mem_walk_child hl hbu (agreesBelow t b) hp hc
  have hbc := ((hl.mem_walk_iff hbu).1 hcb).2
  have hdown {x : Handle} (hx : x ∈ t.walk b) : t.isAttached x := by
    obtain ⟨hxu, hbx⟩ := (hl.mem_walk_iff hbu).1 hx
    apply hl.isAttached_of_mem
    apply (hl.mem_walk_iff (Linked.root_inUse hl)).2
    exact ⟨hxu, Linked.above_trans hl hxu hbx
      ((hl.mem_walk_iff (Linked.root_inUse hl)).1 hb).2⟩
  have hne : c ≠ b := by
    rintro rfl
    exact Linked.not_above_of_child hl hpu hc hbp
  -- Siblings are in use, so they are shown as their slots are
  have hslots : (t.siblingsBefore c).map t.renderSlot = (t.siblingsBefore c).map t.render := by
    apply List.map_congr_left
    intro x hx
    rw [hl.siblingsBefore_eq hpu hc] at hx
    have hxu := (Linked.child hl hpu ((List.takeWhile_sublist _).subset hx)).1
    rw [render, if_pos hxu.owned]
  rw [textBefore?, textBefore?, if_pos (by simp [hdown hcb, hbc]), if_pos (by simp [hdown hp, hbp]),
    Option.map_some, Linked.ancestors_child hl hpu hc,
    List.takeWhile_cons_of_pos (by simpa using hne)]
  dsimp only
  rw [List.reverse_cons, List.map_append, String.join_append, List.map_singleton, hslots,
    levelBefore, String.join_cons, String.join_nil, String.append_empty]

theorem offset?_root (hl : t.WellLinked) : t.offset? t.root = some 0 := by
  have hroot := Linked.root_inUse hl
  have hattached := hl.isAttached_of_mem (hl.mem_walk_self hroot)
  have hnone : t.parent? t.root = none := by rw [parent?_eq hroot, Linked.root_parent hl]
  simp [offset?, hattached, isHidden, hl.ancestors_root, siblingsBefore, hnone]

/-- The characters before a node are those before its parent and those before it on its level. -/
theorem offset?_child (hl : t.WellLinked) (hp : p ∈ t.walk t.root)
    (hc : c ∈ (t.slotOf p).children) (hshown : t.isHidden c = false) :
    t.offset? c = (t.offset? p).map (· + (t.levelBefore c).length) := by
  have hpu := hl.mem_walk_root_inUse hp
  have hattached := hl.isAttached_of_mem hp
  have hattached' := hl.isAttached_of_mem (hl.mem_walk_root_child hp hc)
  have hshown' := hshown
  rw [hl.isHidden_child hpu hc, Bool.or_eq_false_iff] at hshown'
  have hlevel : (t.levelBefore c).length = ((t.siblingsBefore c).map t.subtreeLength).sum := by
    rw [levelBefore, String.length_join, List.map_map]
    rfl
  rw [offset?, offset?, if_pos (by simp [hattached', hshown]),
    if_pos (by simp [hattached, hshown'.2]), Option.map_some, Linked.ancestors_child hl hpu hc,
    hlevel]
  show some (List.map _ _).sum = some ((List.map _ _).sum + _)
  rw [List.flatMap_cons, List.map_append, List.sum_append, Nat.add_comm]

/-! ## From the root down -/

/-- The text before a node from the root on is the text before any node around it, and the text
before it from there on. -/
theorem textBefore?_append (hl : t.WellLinked) (hb : b ∈ t.walk t.root) {r : String}
    (hr : t.textBefore? t.root b = some r) (hx : x ∈ t.walk b) :
    ∃ s, t.textBefore? b x = some s ∧ t.textBefore? t.root x = some (r ++ s) := by
  have hbu := hl.mem_walk_root_inUse hb
  have hroot := Linked.root_inUse hl
  have hbroot := ((hl.mem_walk_iff hroot).1 hb).2
  -- Induction on the way down: each step puts the same text behind both
  refine hl.walk_induction hbu
    (P := fun x => ∃ s, t.textBefore? b x = some s ∧ t.textBefore? t.root x = some (r ++ s))
    ?_ ?_ hx
  · exact ⟨"", hl.textBefore?_self hb, by rw [hr, String.append_empty]⟩
  · rintro p hp c hc ⟨s, hs, hrs⟩
    obtain ⟨hpu, hbp⟩ := (hl.mem_walk_iff hbu).1 hp
    have hproot : p ∈ t.walk t.root :=
      (hl.mem_walk_iff hroot).2 ⟨hpu, Linked.above_trans hl hpu hbp hbroot⟩
    refine ⟨s ++ t.levelBefore c, ?_, ?_⟩
    · rw [hl.textBefore?_child hb hp hc, hs, Option.map_some]
    · rw [hl.textBefore?_child (hl.mem_walk_self hroot) hproot hc, hrs, Option.map_some,
        String.append_assoc]

/-- The text before a node that is shown, and the node, is how the text of the snippet begins; and
the offset counts the characters of the text before. -/
theorem exists_textBefore? (hl : t.WellLinked) (hleaves : t.LeavesBare) (hx : x ∈ t.walk t.root)
    (hshown : t.isHidden x = false) : ∃ s, t.textBefore? t.root x = some s ∧
      t.offset? x = some s.length ∧ ∃ rest, t.text = s ++ t.render x ++ rest := by
  have hroot := Linked.root_inUse hl
  revert hshown
  -- Induction on the way down from the root, as long as nothing above the node hides it
  refine hl.walk_induction hroot (P := fun x => t.isHidden x = false →
    ∃ s, t.textBefore? t.root x = some s ∧ t.offset? x = some s.length ∧
      ∃ rest, t.text = s ++ t.render x ++ rest) (fun _ => ?_) (fun p hp c hc ih hshown => ?_) hx
  · exact ⟨"", hl.textBefore?_self (hl.mem_walk_self hroot), hl.offset?_root, "", by simp [text]⟩
  · have hpshown := hshown
    rw [hl.isHidden_child (hl.mem_walk_root_inUse hp) hc, Bool.or_eq_false_iff] at hpshown
    obtain ⟨s, hs, hoffset, rest, htext⟩ := ih hpshown.2
    obtain ⟨later, hrender⟩ := hl.render_child hleaves hp hc hshown
    refine ⟨s ++ t.levelBefore c, ?_, ?_, later ++ rest, ?_⟩
    · rw [hl.textBefore?_child (hl.mem_walk_self hroot) hp hc, hs, Option.map_some]
    · rw [hl.offset?_child hp hc hshown, hoffset, Option.map_some, String.length_append]
    · rw [htext, hrender]
      simp only [String.append_assoc]

/-- Of an attached node that is not hidden: the text before it, then its own text, begins the text of
the snippet; its offset is the length of the text before it; and any node around it parts the text
before it in two. -/
theorem positions_agree (hl : t.WellLinked) (hleaves : t.LeavesBare) (ha : t.isAttached h)
    (hshown : t.isHidden h = false) : ∃ s, t.textBefore? t.root h = some s ∧
      (s ++ t.render h).toList <+: t.text.toList ∧ t.offset? h = some s.length ∧
      ∀ b, t.isAncestorOrSelf b h → ∃ outer inner, t.textBefore? t.root b = some outer ∧
        t.textBefore? b h = some inner ∧ s = outer ++ inner := by
  have hroot := Linked.root_inUse hl
  have hmem := hl.isAttached_iff.1 ha
  obtain ⟨s, hs, hoffset, rest, htext⟩ := hl.exists_textBefore? hleaves hmem hshown
  refine ⟨s, hs, ⟨rest.toList, by rw [htext, ← String.toList_append]⟩, hoffset, fun b hb => ?_⟩
  obtain ⟨hhu, -⟩ := (hl.mem_walk_iff hroot).1 hmem
  have hbu := Linked.above_inUse hl hhu hb
  have hbmem := hl.mem_walk_root_of_above hmem hb
  obtain ⟨outer, houter, -⟩ := hl.textBefore?_append (hl.mem_walk_self hroot)
    (hl.textBefore?_self (hl.mem_walk_self hroot)) hbmem
  obtain ⟨inner, hinner, hall⟩ := hl.textBefore?_append hbmem houter
    ((hl.mem_walk_iff hbu).2 ⟨hhu, hb⟩)
  exact ⟨outer, inner, houter, hinner, Option.some.inj (hs.symm.trans hall)⟩

end WellLinked

/-- A tree with a variable that shows a value in place of its default, and an empty tab stop. -/
def valued : Tree :=
  (ofSource 0 .textMate "é$\x7b1:$\x7bv:x\x7d$2$\x7b3:ü\x7d\x7d").setMarker ⟨0, 3, 0⟩
    (.var { name := "v", value := some "ÿÿ" })

theorem wellLinked_valued : valued.WellLinked :=
  (sameLinks_setMarker _ _ _).wellLinked (grown_ofSource ..).1

theorem leavesBare_valued : valued.LeavesBare := by
  have hbare : (valued.walk valued.root).all (fun x => !(valued.slotOf x).marker.isLeaf ||
      (valued.slotOf x).children.isEmpty) = true := by cbv
  intro x hx hleaf
  simpa [hleaf] using List.all_eq_true.1 hbare x hx

/-- Before the text in the last tab stop, the value counts and the default does not. -/
theorem positions_agree_valued :
    valued.isAttached ⟨0, 7, 0⟩ ∧ valued.isHidden ⟨0, 7, 0⟩ = false ∧
      valued.textBefore? valued.root ⟨0, 7, 0⟩ = some "éÿÿ" ∧
      "éÿÿü".toList <+: valued.text.toList ∧ valued.offset? ⟨0, 7, 0⟩ = some 3 ∧
      ∃ outer, valued.textBefore? valued.root ⟨0, 2, 0⟩ = some outer ∧ "éÿÿ" = outer ++ "ÿÿ" := by
  have hl := wellLinked_valued
  have hvalued : (valued.isAttached ⟨0, 7, 0⟩, valued.isHidden ⟨0, 7, 0⟩,
      valued.isAncestorOrSelf ⟨0, 2, 0⟩ ⟨0, 7, 0⟩, valued.textBefore? valued.root ⟨0, 7, 0⟩,
      valued.textBefore? ⟨0, 2, 0⟩ ⟨0, 7, 0⟩, valued.render ⟨0, 7, 0⟩) =
      (true, false, true, some "éÿÿ", some "ÿÿ", "ü") := by cbv
  simp only [Prod.mk.injEq] at hvalued
  obtain ⟨hattached, hshown, habove, hbefore, hinside, hrender⟩ := hvalued
  obtain ⟨s, hs, hprefix, hoffset, hparts⟩ :=
    hl.positions_agree leavesBare_valued hattached hshown
  obtain rfl := Option.some.inj (hbefore.symm.trans hs)
  obtain ⟨outer, inner, houter, hinner, heq⟩ := hparts ⟨0, 2, 0⟩ habove
  obtain rfl := Option.some.inj (hinside.symm.trans hinner)
  rw [hrender] at hprefix
  exact ⟨hattached, hshown, hs, hprefix, hoffset, outer, houter, heq⟩

end Tree

end TabStop
