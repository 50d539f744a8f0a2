import TabStop.Proofs.Repeat.FinalStop
import TabStop.Proofs.Source.Rereading

/-!
# The document that comes back

A document that is written and read again comes back in another tree. The nodes of its frame come
back in their order, each as what it was and in what it was in; only which tab stops are primary
ones is not told. The text between them comes back as well, but not that of a tab stop with a
transform, which is not written.
-/

namespace TabStop.Tree

variable {t u : Tree} {c h k x y : Handle} {hs : List Handle} {o : Outline} {os : List Outline}

/-! ## Outlines of documents -/

/-- What the children of a node are. -/
def childMarkers (t : Tree) (h : Handle) : List Marker :=
  (t.slotOf h).children.map fun c => (t.slotOf c).marker

/-- A tree that is written in a way that is read as what is written. -/
structure Writable (t : Tree) : Prop where
  dialect : t.dialect = .textMate
  root : (t.slotOf t.root).marker = .root
  top : ∀ m ∈ t.childMarkers t.root, m.choice? = none
  admits : ∀ x ∈ t.descendants t.root, (t.slotOf x).marker.Admits (t.childMarkers x)

theorem ShowsAll.markers_eq_map (hos : t.ShowsAll hs os) :
    os.map Outline.marker = hs.map fun c => (t.slotOf c).marker := by
  replace hos := hos.forall₂
  induction hos with
  | nil => rfl
  | cons ho _ ih => rw [List.map_cons, List.map_cons, ho.marker_eq, ih]

/-- Nodes show a row of outlines if each of them shows one. -/
theorem exists_showsAll {P : Handle → Outline → Prop}
    (hhs : ∀ h ∈ hs, ∃ o, t.Shows h o ∧ o.size = (t.walk h).length ∧ P h o) :
    ∃ os, t.ShowsAll hs os ∧ Outline.sizeAll os = (hs.flatMap t.walk).length ∧
      ∀ o ∈ os, ∃ h ∈ hs, P h o := by
  induction hs with
  | nil => exact ⟨[], trivial, rfl, by simp⟩
  | cons h hs ih =>
    obtain ⟨⟨o, ho, hsize, hP⟩, hhs⟩ := List.forall_mem_cons.1 hhs
    obtain ⟨os, hos, hsizes, hPs⟩ := ih hhs
    refine ⟨o :: os, ⟨ho, hos⟩, ?_, List.forall_mem_cons.2 ⟨⟨h, by simp, hP⟩, fun q hq => ?_⟩⟩
    · rw [Outline.sizeAll, hsize, hsizes, List.flatMap_cons, List.length_append]
    · obtain ⟨k, hk, hPk⟩ := hPs q hq
      exact ⟨k, List.mem_cons_of_mem _ hk, hPk⟩

/-- A node shows an outline of as many nodes as there are in the walk below it. It is writable if
they are. -/
theorem WellLinked.exists_shows (hl : t.WellLinked) (hh : t.InUse h) : ∃ o, t.Shows h o ∧
    o.size = (t.walk h).length ∧
      ((∀ x ∈ t.walk h, (t.slotOf x).marker.Admits (t.childMarkers x)) → o.Writable) := by
  refine hl.induction_below (P := fun h => ∃ o, t.Shows h o ∧ o.size = (t.walk h).length ∧
    ((∀ x ∈ t.walk h, (t.slotOf x).marker.Admits (t.childMarkers x)) → o.Writable))
    (fun h hh ih => ?_) hh
  obtain ⟨os, hos, hsize, hall⟩ := exists_showsAll ih
  refine ⟨.node (t.slotOf h).marker os, ⟨hh.owned, rfl, hos⟩, ?_, fun hadmits => ?_⟩
  · rw [Outline.size, hsize, hl.walk_eq hh, List.length_cons]
  · rw [hl.walk_eq hh, List.forall_mem_cons] at hadmits
    refine .node (by rw [hos.markers_eq_map]; exact hadmits.1) fun o ho => ?_
    obtain ⟨c, hc, hwritable⟩ := hall o ho
    exact hwritable fun x hx => hadmits.2 x (List.mem_flatMap.2 ⟨c, hc, hx⟩)

/-- The rows of outlines that a writable document shows, and that comes back. -/
theorem Writable.exists_row (hw : t.Writable) (hl : t.WellLinked) (identity : Nat) :
    let u := ofSource identity .textMate t.source
    ∃ row, t.Shows t.root (.node .root row) ∧ u.Shows u.root (.node .root (Outline.rereadAll row)) ∧
      (∀ o ∈ row, o.Writable) ∧ u.source = t.source := by
  intro u
  have hroot := Linked.root_inUse hl
  obtain ⟨row, hrow, hsize, hall⟩ := exists_showsAll fun c hc =>
    hl.exists_shows (Linked.child hl hroot hc).1
  have hdescendants : t.descendants t.root = (t.slotOf t.root).children.flatMap t.walk :=
    hl.descendants_eq hroot
  have hwritable : ∀ o ∈ row, o.Writable := by
    intro o ho
    obtain ⟨c, hc, hwritable⟩ := hall o ho
    refine hwritable fun x hx => hw.admits x ?_
    rw [hdescendants]
    exact List.mem_flatMap.2 ⟨c, hc, hx⟩
  have htop : ∀ m ∈ row.map Outline.marker, m.choice? = none := by
    rw [hrow.markers_eq_map]
    exact hw.top
  have hshows : t.Shows t.root (.node .root row) := ⟨hroot.owned, hw.root, hrow⟩
  -- The source is that of the row, since no node is deeper than there are slots
  have hsource : t.source = Outline.sourceAll .textMate row := by
    rw [hshows.source_eq, hw.dialect]
    · rfl
    · rw [Outline.size, hsize]
      refine Nat.le_trans (Nat.le_of_eq ?_) (hl.length_walk_le hroot)
      rw [hl.walk_eq hroot, List.length_cons]
  have htells := Outline.tells_rereadAll hwritable htop
  rw [← hsource] at htells
  refine ⟨row, hshows, (shows_ofSource identity htells).1, hwritable, ?_⟩
  rw [source_ofSource identity htells, hsource, Outline.sourceAll_rereadAll row hwritable]

/-! ## Nodes that come back -/

/-- Whether a node is no text. -/
def isNode (t : Tree) (h : Handle) : Bool := (t.slotOf h).marker.text?.isNone

/-- A node comes back as another one, with what is read of what it holds. -/
def ReadAs (t u : Tree) (x y : Handle) : Prop :=
  ∃ o, t.Shows x o ∧ u.Shows y o.reread ∧ (∀ c ∈ o.children, c.Writable) ∧
    (o.marker.transform?.isSome → ∀ c ∈ o.children, c.marker.text?.isSome)

/-- The nodes `hs` of one tree come back as the nodes `ks` of another. Each pair is of a node that
is no text and the one it comes back as; the nodes that they hold are among the pairs. -/
structure Returns (t u : Tree) (hs ks : List Handle) (ps : List (Handle × Handle)) : Prop where
  left : ps.map Prod.fst = hs.filter t.isNode
  right : ps.map Prod.snd = ks.filter u.isNode
  read : ∀ p ∈ ps, t.ReadAs u p.1 p.2
  children : ∀ p ∈ ps, ∃ cs ⊆ ps, cs.map Prod.fst = (t.slotOf p.1).children.filter t.isNode ∧
    cs.map Prod.snd = (u.slotOf p.2).children.filter u.isNode

theorem Returns.append {hs' ks ks' : List Handle} {ps ps' : List (Handle × Handle)}
    (h : Returns t u hs ks ps) (h' : Returns t u hs' ks' ps') :
    Returns t u (hs ++ hs') (ks ++ ks') (ps ++ ps') where
  left := by rw [List.map_append, List.filter_append, h.left, h'.left]
  right := by rw [List.map_append, List.filter_append, h.right, h'.right]
  read p hp := (List.mem_append.1 hp).elim (h.read p) (h'.read p)
  children p hp := by
    rcases List.mem_append.1 hp with hp | hp
    · obtain ⟨cs, hsub, hcs⟩ := h.children p hp
      exact ⟨cs, fun _ hc => List.mem_append_left _ (hsub hc), hcs⟩
    · obtain ⟨cs, hsub, hcs⟩ := h'.children p hp
      exact ⟨cs, fun _ hc => List.mem_append_right _ (hsub hc), hcs⟩

/-- A node comes back with what is below it. -/
theorem Returns.node {ks : List Handle} {ps cs : List (Handle × Handle)} (h : Returns t u hs ks ps)
    (hread : t.ReadAs u x y) (hx : t.isNode x) (hy : u.isNode y) (hsub : cs ⊆ ps)
    (hleft : cs.map Prod.fst = (t.slotOf x).children.filter t.isNode)
    (hright : cs.map Prod.snd = (u.slotOf y).children.filter u.isNode) :
    Returns t u (x :: hs) (y :: ks) ((x, y) :: ps) where
  left := by rw [List.map_cons, List.filter_cons, if_pos hx, h.left]
  right := by rw [List.map_cons, List.filter_cons, if_pos hy, h.right]
  read p hp := by
    rcases List.mem_cons.1 hp with rfl | hp
    · exact hread
    · exact h.read p hp
  children p hp := by
    rcases List.mem_cons.1 hp with rfl | hp
    · exact ⟨cs, fun _ hc => List.mem_cons_of_mem _ (hsub hc), hleft, hright⟩
    · obtain ⟨ds, hds, hrest⟩ := h.children p hp
      exact ⟨ds, fun _ hc => List.mem_cons_of_mem _ (hds hc), hrest⟩

/-! ### Rows -/

theorem Shows.isNode_eq (ho : t.Shows h o) : t.isNode h = o.marker.text?.isNone := by
  rw [isNode, ho.marker_eq]

theorem ShowsAll.filter (hos : t.ShowsAll hs os) :
    t.ShowsAll (hs.filter t.isNode) (os.filter fun o => o.marker.text?.isNone) := by
  refine showsAll_iff_forall₂.2 (List.rel_filter (fun h o ho => ?_) hos.forall₂)
  exact Bool.eq_iff_iff.1 ho.isNode_eq

end TabStop.Tree

namespace TabStop

/-- The nodes of a row come back, and no others. -/
theorem Outline.filter_rereadAll (os : List Outline) :
    (rereadAll os).filter (fun o => o.marker.text?.isNone) =
      (os.filter fun o => o.marker.text?.isNone).map reread := by
  induction os with
  | nil => rfl
  | cons o os ih =>
    have hmarker : o.reread.marker.text? = o.marker.text? := by
      rw [marker_reread, Marker.text?_unmarked]
    rw [rereadAll]
    rcases prepend_cases o.reread (rereadAll os) with ⟨h, -⟩ | ⟨r, s, cs, ps, hr, heq, h⟩
    · rw [h, List.filter_cons, List.filter_cons, hmarker, ih]
      split <;> rfl
    · rw [hr] at hmarker
      rw [heq] at ih
      rw [h, List.filter_cons, List.filter_cons, ← hmarker]
      simpa [marker, Marker.text?] using ih

namespace Tree

variable {t u : Tree} {c h k x y : Handle} {hs ks : List Handle} {o : Outline} {os : List Outline}

/-- Text has nothing below it. -/
def TextLeaves (t : Tree) : Prop :=
  ∀ x ∈ t.walk t.root, (t.slotOf x).marker.text?.isSome → (t.slotOf x).children = []

theorem Writable.textLeaves (hw : t.Writable) (hl : t.WellLinked) : t.TextLeaves := by
  intro x hx htext
  have hroot := Linked.root_inUse hl
  rw [hl.walk_eq hroot, ← hl.descendants_eq hroot, List.mem_cons] at hx
  rcases hx with rfl | hx
  · simp [hw.root, Marker.text?] at htext
  · have ha := hw.admits x hx
    generalize hm : (t.slotOf x).marker = m at ha htext
    generalize hms : t.childMarkers x = ms at ha
    cases ha <;> simp [Marker.text?] at htext
    simpa [childMarkers] using hms

/-- The walk below text is no more than it. -/
theorem WellLinked.filter_flatMap_walk (hl : t.WellLinked) (hleaves : t.TextLeaves)
    (hhs : ∀ h ∈ hs, h ∈ t.walk t.root) :
    (hs.flatMap t.walk).filter t.isNode =
      ((hs.filter t.isNode).flatMap t.walk).filter t.isNode := by
  induction hs with
  | nil => rfl
  | cons h hs ih =>
    obtain ⟨hh, hhs⟩ := List.forall_mem_cons.1 hhs
    rw [List.flatMap_cons, List.filter_append, ih hhs, List.filter_cons]
    split
    · rw [List.flatMap_cons, List.filter_append]
    · next hnode =>
      have hnil := hleaves h hh (by simpa [isNode, Option.isSome_iff_ne_none] using hnode)
      rw [hl.walk_eq (hl.mem_walk_root_inUse hh), hnil]
      simp [hnode]

/-- Nodes in a row come back if each of them does. -/
theorem returns_row {hs ks : List Handle} (hos : t.ShowsAll hs os)
    (hread : u.ShowsAll ks (os.map Outline.reread))
    (hnodes : ∀ o ∈ os, ∀ h ∈ hs, ∀ k ∈ ks, t.Shows h o → u.Shows k o.reread →
      ∃ ps, Returns t u (t.walk h) (u.walk k) ps ∧ (h, k) ∈ ps) :
    ∃ ps cs, Returns t u (hs.flatMap t.walk) (ks.flatMap u.walk) ps ∧ cs ⊆ ps ∧
      cs.map Prod.fst = hs ∧ cs.map Prod.snd = ks := by
  -- Induction on the outlines, which both rows of handles show
  induction os generalizing hs ks with
  | nil =>
    match hs, ks, hos, hread with
    | [], [], _, _ => exact ⟨[], [], ⟨rfl, rfl, by simp, by simp⟩, by simp, rfl, rfl⟩
  | cons o os ih =>
    match hs, ks, hos, hread with
    | h :: hs, k :: ks, hos, hread =>
      obtain ⟨ps, hps, hmem⟩ := hnodes o (by simp) h (by simp) k (by simp) hos.1 hread.1
      obtain ⟨qs, cs, hqs, hsub, hleft, hright⟩ := ih hos.2 hread.2
        fun o ho h hh k hk => hnodes o (List.mem_cons_of_mem _ ho) h (List.mem_cons_of_mem _ hh) k
          (List.mem_cons_of_mem _ hk)
      refine ⟨ps ++ qs, (h, k) :: cs, hps.append hqs, ?_, by simp [hleft], by simp [hright]⟩
      exact List.cons_subset.2 ⟨List.mem_append_left _ hmem, fun _ hc =>
        List.mem_append_right _ (hsub hc)⟩

/-- A node that shows a writable outline comes back where what is read of the outline is shown. -/
theorem returns_of_writable (hl : t.WellLinked) (hu : u.WellLinked) (hleaves : t.TextLeaves)
    (huleaves : u.TextLeaves) (hwritable : ∀ c ∈ o.children, c.Writable)
    (htransform : o.marker.transform?.isSome → ∀ c ∈ o.children, c.marker.text?.isSome)
    (hnode : o.IsNode) (hh : h ∈ t.walk t.root) (hk : k ∈ u.walk u.root) (ho : t.Shows h o)
    (hread : u.Shows k o.reread)
    (hinside : ∀ c ∈ o.children, c.IsNode → ∀ h ∈ t.walk t.root, ∀ k ∈ u.walk u.root, t.Shows h c →
      u.Shows k c.reread → ∃ ps, Returns t u (t.walk h) (u.walk k) ps ∧ (h, k) ∈ ps) :
    ∃ ps, Returns t u (t.walk h) (u.walk k) ps ∧ (h, k) ∈ ps := by
  obtain ⟨m, cs⟩ := o
  have hhu := hl.mem_walk_root_inUse hh
  have hku := hu.mem_walk_root_inUse hk
  have hall := ho.2.2
  have hreadAll := hread.2.2
  have hhs : ∀ c ∈ (t.slotOf h).children, c ∈ t.walk t.root := fun c hc =>
    hl.mem_walk_root_child hh hc
  have hks : ∀ c ∈ (u.slotOf k).children, c ∈ u.walk u.root := fun c hc =>
    hu.mem_walk_root_child hk hc
  -- The nodes among the children come back as the nodes among the children
  have hrow : u.ShowsAll ((u.slotOf k).children.filter u.isNode)
      ((cs.filter fun o => o.marker.text?.isNone).map Outline.reread) := by
    rw [← Outline.filter_rereadAll]
    cases htr : m.transform? with
    | none =>
      simp only [htr, Option.isSome_none, Bool.false_eq_true, ↓reduceIte] at hreadAll
      exact hreadAll.filter
    | some tr =>
      have htexts := htransform (by simp [Outline.marker, htr])
      simp only [htr, Option.isSome_some, ↓reduceIte] at hreadAll
      have hnil : (cs.filter fun o => o.marker.text?.isNone) = [] := by
        rw [List.filter_eq_nil_iff]
        intro c hc
        simpa [Option.isSome_iff_ne_none] using htexts c hc
      rw [Outline.filter_rereadAll, hnil]
      rw [List.forall₂_nil_right_iff.1 hreadAll.forall₂]
      trivial
  obtain ⟨ps, ds, hps, hsub, hleft, hright⟩ := returns_row hall.filter hrow
    fun c hc x hx y hy hxc hyc => by
      obtain ⟨hcmem, hcnode⟩ := List.mem_filter.1 hc
      exact hinside c hcmem (Option.isNone_iff_eq_none.1 hcnode) x
        (hhs x (List.mem_filter.1 hx).1) y (hks y (List.mem_filter.1 hy).1) hxc hyc
  have hrest : Returns t u ((t.slotOf h).children.flatMap t.walk)
      ((u.slotOf k).children.flatMap u.walk) ps :=
    { hps with
      left := by rw [hps.left, hl.filter_flatMap_walk hleaves hhs]
      right := by rw [hps.right, hu.filter_flatMap_walk huleaves hks] }
  rw [hl.walk_eq hhu, hu.walk_eq hku]
  refine ⟨_, hrest.node ⟨.node m cs, ho, hread, hwritable, htransform⟩ ?_ ?_ hsub hleft hright,
    List.mem_cons_self ..⟩
  · rw [ho.isNode_eq]
    simpa [Outline.IsNode] using hnode
  · rw [hread.isNode_eq, Outline.marker_reread, Marker.text?_unmarked]
    simpa [Outline.IsNode] using hnode

theorem returns_of_shows (hl : t.WellLinked) (hu : u.WellLinked) (hleaves : t.TextLeaves)
    (huleaves : u.TextLeaves) (hwritable : o.Writable) : o.IsNode → ∀ h ∈ t.walk t.root,
      ∀ k ∈ u.walk u.root, t.Shows h o → u.Shows k o.reread →
        ∃ ps, Returns t u (t.walk h) (u.walk k) ps ∧ (h, k) ∈ ps := by
  induction hwritable with
  | @node m cs hm hcs ih =>
    intro hnode h hh k hk ho hread
    refine returns_of_writable (o := .node m cs) hl hu hleaves huleaves hcs
      (fun htransform c hc => ?_) hnode hh hk ho hread ih
    have hmem : c.marker ∈ cs.map Outline.marker := List.mem_map_of_mem hc
    generalize cs.map Outline.marker = ms at hm hmem
    cases hm <;> simp [Outline.marker, Marker.transform?] at htransform
    · next hms => exact hms _ hmem
    · simp at hmem

/-- A writable document comes back when what is written is read. -/
theorem Writable.returns (hw : t.Writable) (hl : t.WellLinked) (identity : Nat) :
    let u := ofSource identity .textMate t.source
    u.source = t.source ∧
      ∃ ps, Returns t u (t.walk t.root) (u.walk u.root) ps ∧ (t.root, u.root) ∈ ps := by
  intro u
  obtain ⟨row, hrow, hread, hwritable, hsource⟩ := hw.exists_row hl identity
  have hu : u.WellLinked := (grown_ofSource identity .textMate t.source).1
  have hleaves := hw.textLeaves hl
  have huleaves : u.TextLeaves := fun x hx => text_children_ofSource identity .textMate t.source hx
  refine ⟨hsource, ?_⟩
  exact returns_of_writable hl hu hleaves huleaves (o := .node .root row) hwritable
    (by simp [Outline.marker, Marker.transform?]) rfl (hl.mem_walk_self (Linked.root_inUse hl))
    (hu.mem_walk_self (Linked.root_inUse hu)) hrow hread fun c hc hnode h hh k hk =>
      returns_of_shows hl hu hleaves huleaves (hwritable c hc) hnode h hh k hk

end Tree

end TabStop
