import TabStop.Proofs.Repeat.Passes
import TabStop.Tree.Python

/-!
# The frame of a document

All nodes of a document but its text are its frame. Two documents of one frame may show different
texts; but they have the same tab stops, of which the same are primary ones and inside of each other,
and the same code blocks, which run in the same order.

Repeating keeps the frame if the tab stops that repeat others have nothing in them but text.
-/

namespace TabStop

/-- What a node is, but for the output of a code block. -/
def Marker.unrun : Marker → Marker
  | code b => code { b with value := none }
  | root => root
  | text s => text s
  | placeholder p => placeholder p
  | var v => var v
  | choice c => choice c

namespace Marker

variable (m : Marker)

@[simp] theorem placeholder?_unrun : m.unrun.placeholder? = m.placeholder? := by cases m <;> rfl

@[simp] theorem code?_unrun : m.unrun.code? = m.code?.map fun b => { b with value := none } := by
  cases m <;> rfl

end Marker

namespace Tree

variable {t u v : Tree} {h m p q x y : Handle} {i j : TabIndex} {s : String}

/-- The nodes below the root that are no text, in the order of the document. -/
def frame (t : Tree) : List Handle :=
  (t.descendants t.root).filter fun x => (t.slotOf x).marker.text?.isNone

/-- Two trees of one frame: they differ in text and in the outputs of code blocks. -/
structure Alike (t u : Tree) : Prop where
  wellLinked : u.WellLinked
  identity : u.identity = t.identity
  frame_eq : u.frame = t.frame
  ancestors_eq {x : Handle} : x ∈ t.frame → u.ancestors x = t.ancestors x
  unrun_eq {x y : Handle} : x ∈ t.frame → y ∈ x :: t.ancestors x →
    (u.slotOf y).marker.unrun = (t.slotOf y).marker.unrun

/-! ## Nodes of the frame -/

theorem WellLinked.mem_frame_iff (hl : t.WellLinked) :
    x ∈ t.frame ↔ t.InUse x ∧ t.root ∈ t.ancestors x ∧ (t.slotOf x).marker.text? = none := by
  rw [frame, List.mem_filter, hl.mem_descendants_iff, and_assoc, Option.isNone_iff_eq_none]

theorem WellLinked.inUse_of_mem_frame (hl : t.WellLinked) (hx : x ∈ t.frame) : t.InUse x :=
  (hl.mem_frame_iff.1 hx).1

theorem WellLinked.mem_frame_of_placeholder (hl : t.WellLinked) (hx : x ∈ t.placeholders) :
    x ∈ t.frame := by
  obtain ⟨hwalk, htext⟩ := hl.mem_walk_root_of_placeholder hx
  exact hl.mem_frame_iff.2 ⟨hl.mem_walk_root_inUse hwalk, (hl.mem_placeholders_iff.1 hx).2.2, htext⟩

theorem WellLinked.mem_frame_of_primary (hl : t.WellLinked) (hq : q ∈ t.primaries) : q ∈ t.frame :=
  hl.mem_frame_of_placeholder (List.mem_filter.1 hq).1

/-- Nodes of the document that are not text are found in the frame. -/
theorem filter_descendants {P : Handle → Bool}
    (hP : ∀ x ∈ t.descendants t.root, P x → (t.slotOf x).marker.text? = none) :
    (t.descendants t.root).filter P = t.frame.filter P := by
  rw [frame, List.filter_filter]
  apply List.filter_congr
  intro x hx
  cases hPx : P x with
  | false => rfl
  | true => rw [hP x hx hPx]; rfl

theorem WellLinked.placeholders_eq (hl : t.WellLinked) :
    t.placeholders = t.frame.filter fun x => (t.placeholder? x).isSome := by
  apply filter_descendants
  intro x hx hsome
  rw [(hl.mem_descendants_iff.1 hx).1.placeholder?_eq] at hsome
  cases hm : (t.slotOf x).marker <;> simp [hm, Marker.placeholder?] at hsome
  rfl

theorem InUse.code?_eq (hx : t.InUse x) : t.code? x = (t.slotOf x).marker.code? := by
  rw [code?, marker?, if_pos hx.owned]
  rfl

theorem WellLinked.text?_of_code (hl : t.WellLinked) (hx : x ∈ t.descendants t.root)
    (hsome : (t.code? x).isSome) : (t.slotOf x).marker.text? = none := by
  rw [(hl.mem_descendants_iff.1 hx).1.code?_eq] at hsome
  cases hm : (t.slotOf x).marker <;> simp [hm, Marker.code?] at hsome
  rfl

theorem WellLinked.codeBlocks_eq (hl : t.WellLinked) :
    t.codeBlocks = t.frame.filter fun x => (t.code? x).isSome :=
  filter_descendants fun _ hx => hl.text?_of_code hx

theorem isSome_of_isPython (hx : t.isPython x) : (t.code? x).isSome := by
  cases hc : t.code? x with
  | none => simp [isPython, hc] at hx
  | some b => rfl

theorem WellLinked.pythonBlocks_eq (hl : t.WellLinked) :
    t.pythonBlocks = t.frame.filter t.isPython :=
  filter_descendants fun _ hx hp => hl.text?_of_code hx (isSome_of_isPython hp)

/-! ## What is the same in trees of one frame -/

namespace Alike

theorem refl (hl : t.WellLinked) : Alike t t := ⟨hl, rfl, rfl, fun _ => rfl, fun _ _ => rfl⟩

theorem trans (hu : Alike t u) (hv : Alike u v) : Alike t v where
  wellLinked := hv.wellLinked
  identity := hv.identity.trans hu.identity
  frame_eq := hv.frame_eq.trans hu.frame_eq
  ancestors_eq hx := by
    rw [hv.ancestors_eq (hu.frame_eq ▸ hx), hu.ancestors_eq hx]
  unrun_eq hx hy := by
    rw [hv.unrun_eq (hu.frame_eq ▸ hx) (hu.ancestors_eq hx ▸ hy), hu.unrun_eq hx hy]

theorem symm (ha : Alike t u) (hl : t.WellLinked) : Alike u t := by
  refine ⟨hl, ha.identity.symm, ha.frame_eq.symm, fun {x} hx => ?_, fun {x y} hx hy => ?_⟩
  · rw [ha.ancestors_eq (ha.frame_eq ▸ hx)]
  · rw [ha.frame_eq] at hx
    rw [ha.ancestors_eq hx] at hy
    rw [ha.unrun_eq hx hy]

theorem inUse (ha : Alike t u) (hx : x ∈ t.frame) : u.InUse x :=
  ha.wellLinked.inUse_of_mem_frame (ha.frame_eq ▸ hx)

theorem above_eq (ha : Alike t u) (hx : x ∈ t.frame) (a : Handle) :
    u.isAncestorOrSelf a x = t.isAncestorOrSelf a x := by
  rw [isAncestorOrSelf, isAncestorOrSelf, ha.ancestors_eq hx]

theorem mem_walk_iff (ha : Alike t u) (hl : t.WellLinked) (hq : q ∈ t.frame) (hx : x ∈ t.frame) :
    x ∈ u.walk q ↔ x ∈ t.walk q := by
  rw [ha.wellLinked.mem_walk_iff (ha.inUse hq), hl.mem_walk_iff (hl.inUse_of_mem_frame hq),
    ha.above_eq hx]
  simp only [ha.inUse hx, hl.inUse_of_mem_frame hx]

/-! ### Tab stops -/

/-- A node of the frame, and one above it, is the same tab stop or none. -/
theorem placeholder?_above (ha : Alike t u) (hl : t.WellLinked) (hx : x ∈ t.frame)
    (hy : y ∈ x :: t.ancestors x) : u.placeholder? y = t.placeholder? y := by
  have hyt : t.InUse y :=
    Linked.above_inUse hl (hl.inUse_of_mem_frame hx) (isAncestorOrSelf_iff.2 hy)
  have hyu : u.InUse y := by
    apply Linked.above_inUse ha.wellLinked (ha.inUse hx)
    rw [ha.above_eq hx]
    exact isAncestorOrSelf_iff.2 hy
  rw [hyu.placeholder?_eq, hyt.placeholder?_eq, ← Marker.placeholder?_unrun, ha.unrun_eq hx hy,
    Marker.placeholder?_unrun]

theorem placeholder?_eq (ha : Alike t u) (hl : t.WellLinked) (hx : x ∈ t.frame) :
    u.placeholder? x = t.placeholder? x := ha.placeholder?_above hl hx (List.mem_cons_self ..)

theorem index?_eq (ha : Alike t u) (hl : t.WellLinked) (hx : x ∈ t.frame) :
    u.index? x = t.index? x := by rw [index?, index?, ha.placeholder?_eq hl hx]

theorem isPrimary_eq (ha : Alike t u) (hl : t.WellLinked) (hx : x ∈ t.frame) :
    u.isPrimary x = t.isPrimary x := by rw [isPrimary, isPrimary, ha.placeholder?_eq hl hx]

theorem placeholders_eq (ha : Alike t u) (hl : t.WellLinked) : u.placeholders = t.placeholders := by
  rw [ha.wellLinked.placeholders_eq, hl.placeholders_eq, ha.frame_eq]
  exact List.filter_congr fun x hx => by rw [ha.placeholder?_eq hl hx]

theorem primaries_eq (ha : Alike t u) (hl : t.WellLinked) : u.primaries = t.primaries := by
  rw [primaries, primaries, ha.placeholders_eq hl]
  exact List.filter_congr fun x hx => ha.isPrimary_eq hl (hl.mem_frame_of_placeholder hx)

theorem leaders_eq (ha : Alike t u) (hl : t.WellLinked) : u.leaders = t.leaders := by
  rw [leaders, leaders, ha.primaries_eq hl]
  apply List.filter_congr
  intro x hx
  have hmem := hl.mem_frame_of_placeholder (List.mem_filter.1 hx).1
  rw [isFinal, isFinal, ha.index?_eq hl hmem]

theorem follows_iff (ha : Alike t u) (hl : t.WellLinked) (hp : p ∈ t.placeholders) :
    u.Follows m p ↔ t.Follows m p := by
  have hpf := hl.mem_frame_of_placeholder hp
  have hmem := ha.placeholders_eq hl
  constructor
  · intro hf
    have hm := hmem ▸ hf.mem
    have hindex := hf.index?_eq
    have habove := hf.not_above
    rw [ha.index?_eq hl (hl.mem_frame_of_placeholder hm), ha.index?_eq hl hpf] at hindex
    rw [ha.above_eq hpf] at habove
    exact ⟨hm, hindex, habove⟩
  · intro hf
    refine ⟨hmem ▸ hf.mem, ?_, ?_⟩
    · rw [ha.index?_eq hl (hl.mem_frame_of_placeholder hf.mem), ha.index?_eq hl hpf, hf.index?_eq]
    · rw [ha.above_eq hpf, hf.not_above]

theorem repeatable (ha : Alike t u) (ht : t.Repeatable) : u.Repeatable := by
  have hl := ht.wellLinked
  refine ⟨ha.wellLinked, by rw [ha.placeholders_eq hl]; exact ht.length_lt, fun p hp q hq heq => ?_⟩
  rw [ha.leaders_eq hl] at hp hq
  apply ht.single p hp q hq
  rwa [ha.index?_eq hl (hl.mem_frame_of_placeholder (mem_leaders_iff.1 hp).1),
    ha.index?_eq hl (hl.mem_frame_of_placeholder (mem_leaders_iff.1 hq).1)] at heq

/-- Which indexes hold each other is told by the frame. -/
theorem holds (ha : Alike t u) (hl : t.WellLinked) (hij : u.Holds i j) : t.Holds i j := by
  obtain ⟨hfinal, hne, q, hq, hi, m, hm, hprimary, hj⟩ := hij
  have hmem := ha.placeholders_eq hl
  have hqu := (List.mem_filter.1 hq).1
  have hqf := hl.mem_frame_of_placeholder (hmem ▸ hqu)
  -- A tab stop inside of another one belongs to the document
  have hmu : m ∈ u.placeholders := by
    refine List.mem_filter.2 ⟨?_, ?_⟩
    · exact ha.wellLinked.mem_descendants_of_walk (List.mem_filter.1 hqu).1 hm
    · rw [← index?_isSome, hj]
      rfl
  have hmf := hl.mem_frame_of_placeholder (hmem ▸ hmu)
  refine ⟨hfinal, hne, q, ha.primaries_eq hl ▸ hq, ?_, m, (ha.mem_walk_iff hl hqf hmf).1 hm, ?_, ?_⟩
  · rwa [← ha.index?_eq hl hqf]
  · rwa [← ha.isPrimary_eq hl hmf]
  · rwa [← ha.index?_eq hl hmf]

theorem grounded (ha : Alike t u) (hl : t.WellLinked) (hg : t.Grounded i) : u.Grounded i :=
  hg.mono fun _ _ => ha.holds hl

/-! ### Code blocks -/

/-- A code block is one of the same code. -/
theorem code?_eq (ha : Alike t u) (hl : t.WellLinked) (hx : x ∈ t.frame) :
    (u.code? x).map (fun b => { b with value := none }) =
      (t.code? x).map fun b => { b with value := none } := by
  rw [(ha.inUse hx).code?_eq, (hl.inUse_of_mem_frame hx).code?_eq, ← Marker.code?_unrun,
    ha.unrun_eq hx (List.mem_cons_self ..), Marker.code?_unrun]

/-- What is told of a block by its language and its code is told of it in either tree. -/
theorem code?_map (ha : Alike t u) (hl : t.WellLinked) (hx : x ∈ t.frame) {α : Type}
    {f : CodeBlock → α} (hf : ∀ b : CodeBlock, f { b with value := none } = f b) :
    (u.code? x).map f = (t.code? x).map f := by
  have heq := congrArg (Option.map f) (ha.code?_eq hl hx)
  simpa only [Option.map_map, Function.comp_def, hf] using heq

theorem isPython_eq (ha : Alike t u) (hl : t.WellLinked) (hx : x ∈ t.frame) :
    u.isPython x = t.isPython x := by
  have heq := ha.code?_map hl hx (f := fun b => b.kind == .python) fun _ => rfl
  have hany (o : Option CodeBlock) : o.any (·.kind == .python) =
      (o.map fun b => b.kind == .python).getD false := by cases o <;> rfl
  rw [isPython, isPython, hany, hany, heq]

theorem related_eq (ha : Alike t u) (hl : t.WellLinked) (hx : x ∈ t.frame) :
    u.related x = t.related x := by
  rw [related, related, ha.code?_map hl hx fun _ => rfl]

theorem codeBlocks_eq (ha : Alike t u) (hl : t.WellLinked) : u.codeBlocks = t.codeBlocks := by
  rw [ha.wellLinked.codeBlocks_eq, hl.codeBlocks_eq, ha.frame_eq]
  apply List.filter_congr
  intro x hx
  have heq := congrArg Option.isSome (ha.code?_eq hl hx)
  simpa only [Option.isSome_map] using heq

theorem pythonBlocks_eq (ha : Alike t u) (hl : t.WellLinked) :
    u.pythonBlocks = t.pythonBlocks := by
  rw [ha.wellLinked.pythonBlocks_eq, hl.pythonBlocks_eq, ha.frame_eq]
  exact List.filter_congr fun x hx => ha.isPython_eq hl hx

theorem nearestPlaceholder?_eq (ha : Alike t u) (hl : t.WellLinked) (hx : x ∈ t.frame) :
    u.nearestPlaceholder? x = t.nearestPlaceholder? x := by
  rw [nearestPlaceholder?, nearestPlaceholder?, ha.ancestors_eq hx]
  -- What is above a node of the frame is the same in both trees
  have hfind (ys : List Handle) (hys : ys ⊆ x :: t.ancestors x) :
      ys.findSome? u.placeholder? = ys.findSome? t.placeholder? := by
    induction ys with
    | nil => rfl
    | cons y ys ih =>
      obtain ⟨hy, hys⟩ := List.cons_subset.1 hys
      rw [List.findSome?_cons, List.findSome?_cons, ha.placeholder?_above hl hx hy, ih hys]
  exact hfind _ (List.subset_cons_self _ _)

theorem boundIndex?_eq (ha : Alike t u) (hl : t.WellLinked) (hx : x ∈ t.frame) :
    u.boundIndex? x = t.boundIndex? x := by
  rw [boundIndex?, boundIndex?, ha.nearestPlaceholder?_eq hl hx]

theorem isOrdered_eq (ha : Alike t u) (hl : t.WellLinked) {made : List TabIndex}
    {bs : List (Handle × TabIndex)} (hbs : ∀ b ∈ bs, b.1 ∈ t.frame) (seen : List TabIndex) :
    u.isOrdered made seen bs = t.isOrdered made seen bs := by
  induction bs generalizing seen with
  | nil => rfl
  | cons b bs ih =>
    obtain ⟨hb, hbs⟩ := List.forall_mem_cons.1 hbs
    rw [isOrdered, isOrdered, readsForward, readsForward, ha.related_eq hl hb, ih hbs]

theorem orderedPythonBlocks_eq (ha : Alike t u) (hl : t.WellLinked) :
    u.orderedPythonBlocks = t.orderedPythonBlocks := by
  have hmem : ∀ x ∈ t.pythonBlocks, x ∈ t.frame := by
    intro x hx
    rw [hl.pythonBlocks_eq] at hx
    exact (List.mem_filter.1 hx).1
  have hbound : u.boundBlocks = t.boundBlocks := by
    rw [boundBlocks, boundBlocks, ha.pythonBlocks_eq hl]
    exact List.filterMap_congr fun x hx => by rw [ha.boundIndex?_eq hl (hmem x hx)]
  rw [orderedPythonBlocks, orderedPythonBlocks, hbound, ha.isOrdered_eq hl]
  intro b hb
  obtain ⟨x, hx, hxb⟩ := List.mem_filterMap.1 hb
  obtain ⟨i, -, rfl⟩ := Option.map_eq_some_iff.1 hxb
  exact hmem x hx

end Alike

end Tree

end TabStop
