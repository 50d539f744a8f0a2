import TabStop.Proofs.Links.ReplacedChildren

/-!
# What overwriting a node leaves

A node that is made to show a text loses what is below it, and all other nodes are left alone. So
what an overwritten tree still has can be told from the tree that it was: all nodes but those
strictly below the node, and new text.
-/

namespace TabStop.Tree

variable {t u v : Tree} {c h m p x : Handle} {cs : List Handle} {s : String}

/-! ## Releasing several nodes -/

/-- There is at most one node without a parent above another. -/
theorem WellLinked.top_unique {d : Handle} (hl : t.WellLinked) (hx : t.InUse x)
    (hc : t.isAncestorOrSelf c x) (hd : t.isAncestorOrSelf d x)
    (hcnone : (t.slotOf c).parent = none) (hdnone : (t.slotOf d).parent = none) : c = d := by
  -- Going up from `x` ends at a node without a parent, and ends once
  have htop {a : Handle} (ha : t.isAncestorOrSelf a x) (hnone : (t.slotOf a).parent = none) :
      (x :: t.ancestors x).getLast? = some a := by
    obtain ⟨below, heq⟩ := Linked.above_split hl hx ha
    have hlin : t.ancestors a = [] :=
      Linked.ancestors_eq hl (Linked.above_inUse hl hx ha) hnone
    rw [heq, hlin]
    simp
  exact Option.some.inj ((htop hc hcnone).symm.trans (htop hd hdnone))

/-- Nodes `cs` of which some are to be released: none of those that have a parent is below another one
that has not. -/
structure Orphans (t : Tree) (cs : List Handle) : Prop where
  nodup : cs.Nodup
  node : ∀ c ∈ cs, t.InUse c ∧ c ≠ t.root
  stays : ∀ c ∈ cs, (t.slotOf c).parent ≠ none →
    ∀ d ∈ cs, (t.slotOf d).parent = none → c ∉ t.walk d

theorem Orphans.tail (ho : Orphans t (c :: cs)) : Orphans t cs where
  nodup := (List.nodup_cons.1 ho.nodup).2
  node := (List.forall_mem_cons.1 ho.node).2
  stays := fun d hd hsome e he =>
    ho.stays d (List.mem_cons_of_mem _ hd) hsome e (List.mem_cons_of_mem _ he)

/-- One step: the first of the nodes goes with all below it, and the others stay what they are. -/
theorem Orphans.released (ho : Orphans t (c :: cs)) (hl : t.WellLinked) (hu : u.WellLinked)
    (hnone : (t.slotOf c).parent = none) (hr : Released t c u) :
    Orphans u cs ∧ (∀ d ∈ cs, u.slotOf d = t.slotOf d) ∧
      ∀ d ∈ cs, (t.slotOf d).parent = none → u.walk d = t.walk d := by
  obtain ⟨⟨hc, -⟩, hcs⟩ := List.forall_mem_cons.1 ho.node
  obtain ⟨hnotin, hnodup⟩ := List.nodup_cons.1 ho.nodup
  -- What is below another of the nodes is not below this one, so it stays
  have hother {d x : Handle} (hd : d ∈ cs) (hdnone : (t.slotOf d).parent = none)
      (hx : x ∈ t.walk d) : u.InUse x := by
    obtain ⟨hxu, hdx⟩ := (hl.mem_walk_iff (hcs d hd).1).1 hx
    refine (hr.inUse_iff x).2 ⟨hxu, fun hxc => hnotin ?_⟩
    rwa [hl.top_unique hxu ((hl.mem_walk_iff hc).1 hxc).2 hdx hnone hdnone]
  have hself {d : Handle} (hd : d ∈ cs) : u.InUse d := by
    by_cases hdnone : (t.slotOf d).parent = none
    · exact hother hd hdnone (hl.mem_walk_self (hcs d hd).1)
    · exact (hr.inUse_iff d).2 ⟨(hcs d hd).1,
        ho.stays d (List.mem_cons_of_mem _ hd) hdnone c (List.mem_cons_self ..) hnone⟩
  have hsame : ∀ d ∈ cs, u.slotOf d = t.slotOf d := fun d hd => hr.other d (hself hd)
  have hwalk : ∀ d ∈ cs, (t.slotOf d).parent = none → u.walk d = t.walk d := fun d hd hdnone =>
    hl.walk_congr hu (hcs d hd).1 fun x hx =>
      ⟨hother hd hdnone hx, by rw [hr.other x (hother hd hdnone hx)]⟩
  refine ⟨⟨hnodup, fun d hd => ⟨hself hd, ?_⟩, fun d hd hsome e he henone => ?_⟩, hsame, hwalk⟩
  · rw [hr.trims.root_eq]
    exact (hcs d hd).2
  · rw [hsame d hd] at hsome
    rw [hsame e he] at henone
    rw [hwalk e he henone]
    exact ho.tail.stays d hd hsome e he henone

theorem releaseOrphans_cons_of_parent (hc : t.InUse c) (hsome : (t.slotOf c).parent ≠ none) :
    t.releaseOrphans (c :: cs) = t.releaseOrphans cs := by
  have hparent : (t.parent? c).isNone = false := by
    rw [WellLinked.parent?_eq hc, Option.isNone_eq_false_iff, Option.isSome_iff_ne_none]
    exact hsome
  rw [Tree.releaseOrphans, List.foldl_cons, hparent]
  rfl

theorem releaseOrphans_cons_of_orphan (hc : t.InUse c) (hroot : c ≠ t.root)
    (hnone : (t.slotOf c).parent = none) :
    t.releaseOrphans (c :: cs) = ((t.walk c).foldl freeSlot t).releaseOrphans cs := by
  have hparent : (t.parent? c).isNone := by rw [WellLinked.parent?_eq hc, hnone]; rfl
  rw [Tree.releaseOrphans, List.foldl_cons, if_pos hparent,
    after_of_perform (release_perform hc.owned hroot hnone)]
  rfl

/-- Nodes are released one after the other. Those that have a parent are passed over. -/
theorem WellLinked.releaseOrphans (hl : t.WellLinked) (ho : Orphans t cs) :
    (t.releaseOrphans cs).WellLinked ∧ (∃ gone, Trims t gone (t.releaseOrphans cs)) ∧
      (∀ x, (t.releaseOrphans cs).InUse x ↔
        t.InUse x ∧ ∀ c ∈ cs, (t.slotOf c).parent = none → x ∉ t.walk c) ∧
      ∀ x, (t.releaseOrphans cs).InUse x → (t.releaseOrphans cs).slotOf x = t.slotOf x := by
  induction cs generalizing t with
  | nil => exact ⟨hl, ⟨[], (SameSlots.refl t).trims⟩, by simp [Tree.releaseOrphans],
      fun x _ => rfl⟩
  | cons c cs ih =>
    obtain ⟨hc, hroot⟩ := ho.node c (List.mem_cons_self ..)
    -- Only a node without a parent is released, and then the others are met in a smaller tree
    by_cases hnone : (t.slotOf c).parent = none
    case neg =>
      rw [releaseOrphans_cons_of_parent hc hnone]
      obtain ⟨hwell, htrims, hinUse, hslots⟩ := ih hl ho.tail
      refine ⟨hwell, htrims, fun x => ?_, hslots⟩
      rw [hinUse, List.forall_mem_cons]
      simp [hnone]
    case pos =>
      obtain ⟨hreleased, hlinked⟩ := Linked.released hl hc (WellLinked.agreesBelow t c) hroot hnone
      have hl' : ((t.walk c).foldl freeSlot t).WellLinked :=
        hlinked.wellLinked fun x hx => by rw [hreleased.other x hx]
      obtain ⟨ho', hsame, hwalk⟩ := ho.released hl hl' hnone hreleased
      obtain ⟨hwell, ⟨gone, htrims⟩, hinUse, hslots⟩ := ih hl' ho'
      rw [releaseOrphans_cons_of_orphan hc hroot hnone]
      refine ⟨hwell, ⟨_, hreleased.trims.trans htrims hwell.free_nodup⟩, fun x => ?_,
        fun x hx => ?_⟩
      · rw [hinUse, hreleased.inUse_iff, List.forall_mem_cons, and_assoc]
        refine and_congr_right fun _ => and_congr (by simp [hnone]) ?_
        refine forall_congr' fun d => forall_congr' fun hd => ?_
        rw [hsame d hd]
        exact forall_congr' fun hdnone => by rw [hwalk d hd hdnone]
      · rw [hslots x hx, hreleased.other x ((hinUse x).1 hx).1]

/-! ## Overwriting -/

/-- A tree in which a node has got the children `cs`, wherever these were before. Its old children are
gone with all that is below them then, unless they are among the new ones. -/
structure Refilled (v : Tree) (p : Handle) (cs : List Handle) (u : Tree) : Prop where
  wellLinked : u.WellLinked
  trims : ∃ gone, Trims v gone u
  inUse_iff (x : Handle) : u.InUse x ↔
    v.InUse x ∧ ∀ d ∈ (v.slotOf p).children, d ∉ cs → x ∉ (v.replaced p cs).walk d
  self : u.InUse p
  marker {x : Handle} : u.InUse x → (u.slotOf x).marker = (v.slotOf x).marker
  children {x : Handle} : u.InUse x →
    (u.slotOf x).children = if x = p then cs else (v.slotOf x).children.filter (· ∉ cs)
  parent {x : Handle} : u.InUse x →
    (u.slotOf x).parent = if x ∈ cs then some p else (v.slotOf x).parent

/-- Nodes that may be put below the node `p` all at once. -/
structure Movable (v : Tree) (p : Handle) (cs : List Handle) : Prop where
  wellLinked : v.WellLinked
  target : v.InUse p
  nodup : cs.Nodup
  inUse : ∀ c ∈ cs, v.InUse c
  canMove : ∀ c ∈ cs, v.CanMove p c

namespace Movable

theorem node (hm : Movable v p cs) (hc : c ∈ cs) :
    v.InUse c ∧ c ≠ v.root ∧ c ∉ p :: v.ancestors p :=
  ⟨hm.inUse c hc, (canMove_iff.1 (hm.canMove c hc)).2.2⟩

theorem replaced (hm : Movable v p cs) : (v.replaced p cs).WellLinked :=
  hm.wellLinked.replaced hm.target (fun _ hc => hm.node hc) hm.nodup

theorem slot_replaced (hm : Movable v p cs) (hx : v.InUse x) :
    ((v.replaced p cs).slotOf x).marker = (v.slotOf x).marker ∧
      ((v.replaced p cs).slotOf x).children =
        (if x = p then cs else (v.slotOf x).children.filter (· ∉ cs)) ∧
      ((v.replaced p cs).slotOf x).parent =
        if x ∈ cs then some p else if x ∈ (v.slotOf p).children then none
          else (v.slotOf x).parent :=
  slotOf_replaced hm.wellLinked.named hm.target.owned (fun c hc => (hm.inUse c hc).owned) hx.owned

theorem child (hm : Movable v p cs) {d : Handle} (hd : d ∈ (v.slotOf p).children) :
    v.InUse d ∧ d ≠ v.root := by
  obtain ⟨hdu, hup⟩ := Linked.child hm.wellLinked hm.target hd
  exact ⟨hdu, by rintro rfl; simp [Linked.root_parent hm.wellLinked] at hup⟩

/-- An old child has no parent any more, unless it is among the new ones. -/
theorem parent_replaced (hm : Movable v p cs) {d : Handle} (hd : d ∈ (v.slotOf p).children) :
    ((v.replaced p cs).slotOf d).parent = if d ∈ cs then some p else none := by
  rw [(hm.slot_replaced (hm.child hd).1).2.2, if_pos hd]

theorem parent_replaced_eq_none (hm : Movable v p cs) {d : Handle}
    (hd : d ∈ (v.slotOf p).children) :
    ((v.replaced p cs).slotOf d).parent = none ↔ d ∉ cs := by
  rw [hm.parent_replaced hd]
  split <;> simp [*]

/-- What is above the node stays above it. -/
theorem ancestors_replaced (hm : Movable v p cs) :
    (v.replaced p cs).ancestors p = v.ancestors p := by
  have hl := hm.wellLinked
  refine Linked.ancestors_congr hl hm.replaced hm.target
    ((sameSlots_replaced v p cs).inUse_iff.2 hm.target) fun y hyv hy => ?_
  have hycs : y ∉ cs := fun hmem => (hm.node hmem).2.2 (isAncestorOrSelf_iff.1 hy)
  have hychild : y ∉ (v.slotOf p).children := fun hmem =>
    Linked.not_above_of_child hl hm.target hmem hy
  rw [(hm.slot_replaced hyv).2.2, if_neg hycs, if_neg hychild]

/-- So the node is not below any of its old children. -/
theorem not_mem_walk_child (hm : Movable v p cs) {d : Handle} (hd : d ∈ (v.slotOf p).children) :
    p ∉ (v.replaced p cs).walk d := by
  have hs := sameSlots_replaced v p cs
  rw [hm.replaced.mem_walk_iff (hs.inUse_iff.2 (hm.child hd).1), isAncestorOrSelf_iff,
    hm.ancestors_replaced, ← isAncestorOrSelf_iff]
  exact fun hmem => Linked.not_above_of_child hm.wellLinked hm.target hd hmem.2

theorem orphans (hm : Movable v p cs) : Orphans (v.replaced p cs) (v.slotOf p).children where
  nodup := Linked.nodup hm.wellLinked hm.target
  node := fun d hd => by
    have hs := sameSlots_replaced v p cs
    exact ⟨hs.inUse_iff.2 (hm.child hd).1, by rw [hs.root_eq]; exact (hm.child hd).2⟩
  stays := fun c hc hcp d hd hdnone hmem => by
    have hs := sameSlots_replaced v p cs
    -- One that is kept is below `p` again
    rw [Ne, hm.parent_replaced_eq_none hc, not_not] at hcp
    rw [hm.parent_replaced_eq_none hd] at hdnone
    have hcu := hs.inUse_iff.2 (hm.child hc).1
    have hdu := hs.inUse_iff.2 (hm.child hd).1
    obtain ⟨hpu, hcchild⟩ :=
      Linked.parent hm.replaced hcu ((hm.parent_replaced hc).trans (if_pos hcp))
    have hdc := ((WellLinked.mem_walk_iff hm.replaced hdu).1 hmem).2
    rw [isAncestorOrSelf_iff, Linked.ancestors_child hm.replaced hpu hcchild, List.mem_cons] at hdc
    refine hm.not_mem_walk_child hd ((WellLinked.mem_walk_iff hm.replaced hdu).2
      ⟨hpu, isAncestorOrSelf_iff.2 (hdc.resolve_left ?_)⟩)
    rintro rfl
    exact hdnone hcp

/-- Nothing is refused. -/
theorem overwrite_perform (hm : Movable v p cs) : (overwrite p cs).perform v =
    (.ok (), (v.replaced p cs).releaseOrphans (v.slotOf p).children) := by
  rcases overwrite_cases v p cs with ⟨-, -, h⟩ | ⟨hnot, -⟩
  · rw [h, WellLinked.children_eq hm.target]
  · exact absurd ⟨hm.target.owned, hm.canMove⟩ hnot

end Movable

/-- A node gets other children if these may be moved there. -/
theorem overwrite_refilled (hl : v.WellLinked) (hp : v.InUse p) (hnodup : cs.Nodup)
    (hcs : ∀ c ∈ cs, v.InUse c ∧ v.CanMove p c) :
    ∃ u, (overwrite p cs).perform v = (.ok (), u) ∧ Refilled v p cs u := by
  have hm : Movable v p cs :=
    ⟨hl, hp, hnodup, fun c hc => (hcs c hc).1, fun c hc => (hcs c hc).2⟩
  have hs := sameSlots_replaced v p cs
  obtain ⟨hwell, ⟨gone, htrims⟩, hinUse, hkept⟩ := hm.replaced.releaseOrphans hm.orphans
  have hstays (x : Handle) :
      ((v.replaced p cs).releaseOrphans (v.slotOf p).children).InUse x ↔
        v.InUse x ∧ ∀ d ∈ (v.slotOf p).children, d ∉ cs → x ∉ (v.replaced p cs).walk d := by
    rw [hinUse, hs.inUse_iff]
    refine and_congr_right fun _ => forall_congr' fun d => forall_congr' fun hd => ?_
    rw [hm.parent_replaced_eq_none hd]
  have hslot {x : Handle} (hx : v.InUse x) := hm.slot_replaced hx
  refine ⟨_, hm.overwrite_perform, hwell, ⟨_, hs.trims.trans htrims hwell.free_nodup⟩, hstays,
    (hstays p).2 ⟨hp, fun d hd _ => hm.not_mem_walk_child hd⟩, fun {x} hx => ?_, fun {x} hx => ?_,
    fun {x} hx => ?_⟩
  · rw [hkept x hx, (hslot ((hstays x).1 hx).1).1]
  · rw [hkept x hx, (hslot ((hstays x).1 hx).1).2.1]
  · obtain ⟨hxu, hxgone⟩ := (hstays x).1 hx
    rw [hkept x hx, (hslot hxu).2.2]
    split
    · rfl
    next hxcs =>
    -- An old child is gone, or it is among the new ones
    have hxold : x ∉ (v.slotOf p).children := fun hmem =>
      hxgone x hmem hxcs (hm.replaced.mem_walk_self (hs.inUse_iff.2 hxu))
    rw [if_neg hxold]

namespace Refilled

theorem children_self (hu : Refilled v p cs u) : (u.slotOf p).children = cs := by
  rw [hu.children hu.self, if_pos rfl]

/-- If the new children stood alone, no other node has lost a child. -/
theorem children_of_alone (hu : Refilled v p cs u) (hl : v.WellLinked)
    (hcs : ∀ c ∈ cs, (v.slotOf c).parent = none) (hx : u.InUse x) (hne : x ≠ p) :
    (u.slotOf x).children = (v.slotOf x).children := by
  rw [hu.children hx, if_neg hne, List.filter_eq_self]
  intro d hd
  have hup := (Linked.child hl ((hu.inUse_iff x).1 hx).1 hd).2
  exact decide_eq_true fun hmem => by simp [hcs d hmem] at hup

/-- If the new children stood alone, all that was below the node is gone. -/
theorem inUse_iff_of_alone (hu : Refilled v p cs u) (hl : v.WellLinked) (hp : v.InUse p)
    (hnodup : cs.Nodup)
    (hcs : ∀ c ∈ cs, v.InUse c ∧ v.CanMove p c ∧ (v.slotOf c).parent = none) (x : Handle) :
    u.InUse x ↔ v.InUse x ∧ (x = p ∨ x ∉ v.walk p) := by
  have hreplaced := hl.replaced hp (fun c hc => ⟨(hcs c hc).1, (canMove_iff.1 (hcs c hc).2.1).2.2⟩)
    hnodup
  have hold {d : Handle} (hd : d ∈ (v.slotOf p).children) : d ∉ cs := fun hmem => by
    have hup := (Linked.child hl hp hd).2
    simp [(hcs d hmem).2.2] at hup
  -- The old children keep what is below them until they are released
  have hwalk {d : Handle} (hd : d ∈ (v.slotOf p).children) :
      (v.replaced p cs).walk d = v.walk d := by
    have hdu := (Linked.child hl hp hd).1
    apply hl.walk_congr hreplaced hdu
    intro x hx
    have hxu := ((hl.mem_walk_iff hdu).1 hx).1
    have hne : x ≠ p := fun heq => hl.not_mem_walk_child hp hd (heq ▸ hx)
    refine ⟨(sameSlots_replaced v p cs).inUse_iff.2 hxu, ?_⟩
    rw [(slotOf_replaced hl.named hp.owned (fun c hc => (hcs c hc).1.owned) hxu.owned).2.1,
      if_neg hne, List.filter_eq_self]
    intro e he
    have hup := (Linked.child hl hxu he).2
    exact decide_eq_true fun hmem => by simp [(hcs e hmem).2.2] at hup
  rw [hu.inUse_iff, hl.mem_walk_cons hp]
  refine and_congr_right fun _ => ⟨fun hall => ?_, fun hnot d hd _ hxd => ?_⟩
  · refine Decidable.or_iff_not_imp_left.2 fun hne hmem => ?_
    obtain ⟨d, hd, hxd⟩ := hmem.resolve_left hne
    exact hall d hd (hold hd) (hwalk hd ▸ hxd)
  · rw [hwalk hd] at hxd
    rcases hnot with rfl | hnot
    · exact hl.not_mem_walk_child hp hd hxd
    · exact hnot (Or.inr ⟨d, hd, hxd⟩)

end Refilled

/-! ## Showing a text -/

/-- What is true of a tree in which a node has come to show a text. What was below it is gone, but
for text that may have been kept, and all other nodes are as they were. -/
structure Shown (t : Tree) (m : Handle) (u : Tree) : Prop where
  wellLinked : u.WellLinked
  identity : u.identity = t.identity
  inUse {x : Handle} : t.InUse x → x = m ∨ x ∉ t.walk m → u.InUse x
  marker {x : Handle} : t.InUse x → x = m ∨ x ∉ t.walk m →
    (u.slotOf x).marker = (t.slotOf x).marker
  parent {x : Handle} : t.InUse x → x = m ∨ x ∉ t.walk m →
    (u.slotOf x).parent = (t.slotOf x).parent
  children {x : Handle} : t.InUse x → x ∉ t.walk m →
    (u.slotOf x).children = (t.slotOf x).children
  texts : ∀ c ∈ (u.slotOf m).children,
    (u.slotOf c).marker.text?.isSome ∧ (u.slotOf c).children = []
  generation (x : Handle) : (u.slotOf x).generation = (t.slotOf x).generation ∨
    (u.slotOf x).generation = (t.slotOf x).generation + 1
  lost {x : Handle} : x ∈ t.walk m → x ≠ m → (t.slotOf x).marker.text? = none →
    (u.slotOf x).generation = (t.slotOf x).generation + 1

/-- A node shows a text and nothing else: it has no children if the text is empty, and else one that
is that text. -/
def Flat (t : Tree) (m : Handle) (s : String) : Prop :=
  (s = "" ∧ (t.slotOf m).children = []) ∨
    (s ≠ "" ∧ ∃ c, (t.slotOf m).children = [c] ∧ (t.slotOf c).marker = .text s)

/-- What is true of a tree in which a node has come to show a text by new children. All that was
below it is gone. -/
structure Overwritten (t : Tree) (m : Handle) (s : String) (u : Tree) : Prop
    extends Shown t m u where
  flat : u.Flat m s
  old {x : Handle} : u.InUse x → x ∉ (u.slotOf m).children →
    t.InUse x ∧ (x = m ∨ x ∉ t.walk m)
  gone {x : Handle} : x ∈ t.walk m → x ≠ m →
    (u.slotOf x).generation = (t.slotOf x).generation + 1

theorem Grown.walk_eq (hg : Grown t v) (hl : t.WellLinked) (hh : t.InUse h) :
    v.walk h = t.walk h :=
  hl.walk_congr hg.wellLinked hh fun x hx => by
    have hinUse := ((hl.mem_walk_iff hh).1 hx).1
    exact ⟨hg.extended.inUse hinUse, by rw [hg.kept x hinUse]⟩

/-- A text node that has been made since `t`. -/
structure FreshText (t v : Tree) (c : Handle) : Prop where
  inUse : v.InUse c
  fresh : ¬ t.InUse c
  parent : (v.slotOf c).parent = none
  text : (v.slotOf c).marker.text?.isSome
  children : (v.slotOf c).children = []

/-- A new node may be put below any node that was there before. -/
theorem FreshText.canMove (hc : FreshText t v c) (hl : t.WellLinked) (hg : Grown t v)
    (hp : t.InUse p) : v.CanMove p c := by
  refine canMove_iff.2 ⟨(hg.extended.inUse hp).owned, hc.inUse.owned, fun heq => ?_,
    fun hmem => ?_⟩
  · apply hc.fresh
    rw [heq, hg.extended.root_eq]
    exact Linked.root_inUse hl
  · apply hc.fresh
    rw [hg.ancestors_eq hl hp] at hmem
    exact Linked.above_inUse hl hp (isAncestorOrSelf_iff.2 hmem)

/-! ### A node with new children, after a new text has been made -/

/-- All that was below the node is gone. -/
private theorem Refilled.inUse_iff_of_fresh (hu : Refilled v p cs u) (hg : Grown t v)
    (hl : t.WellLinked) (hp : t.InUse p) (hnodup : cs.Nodup) (hnew : ∀ d ∈ cs, FreshText t v d)
    (x : Handle) : u.InUse x ↔ v.InUse x ∧ (x = p ∨ x ∉ t.walk p) := by
  rw [← hg.walk_eq hl hp]
  exact hu.inUse_iff_of_alone hg.wellLinked (hg.extended.inUse hp) hnodup
    (fun d hd => ⟨(hnew d hd).inUse, (hnew d hd).canMove hl hg hp, (hnew d hd).parent⟩) x

/-- The new text was not below the node before, so it is left. -/
private theorem Refilled.inUse_fresh (hu : Refilled v p cs u) (hg : Grown t v) (hl : t.WellLinked)
    (hp : t.InUse p) (hnodup : cs.Nodup) (hnew : ∀ d ∈ cs, FreshText t v d) (hc : c ∈ cs) :
    u.InUse c ∧ c ≠ p := by
  refine ⟨(hu.inUse_iff_of_fresh hg hl hp hnodup hnew c).2 ⟨(hnew c hc).inUse, Or.inr fun hmem =>
    (hnew c hc).fresh ((hl.mem_walk_iff hp).1 hmem).1⟩, ?_⟩
  rintro rfl
  exact (hnew c hc).fresh hp

/-- A node below is not left, so its slot has been given back. -/
private theorem Refilled.gone (hu : Refilled v p cs u) (hg : Grown t v) (hl : t.WellLinked)
    (hp : t.InUse p) (hnodup : cs.Nodup) (hnew : ∀ d ∈ cs, FreshText t v d) (hx : x ∈ t.walk p)
    (hne : x ≠ p) : (u.slotOf x).generation = (t.slotOf x).generation + 1 := by
  obtain ⟨gone, htrims⟩ := hu.trims
  have hxv := hg.extended.inUse ((hl.mem_walk_iff hp).1 hx).1
  have hgone : x.slot ∈ gone := by
    apply Decidable.byContradiction
    intro hnot
    have hxu := htrims.inUse_iff.2 ⟨hxv, hnot⟩
    exact ((hu.inUse_iff_of_fresh hg hl hp hnodup hnew x).1 hxu).2.resolve_left hne hx
  rw [htrims.generation, if_pos hgone, hg.extended.generation]

private theorem Refilled.shown (hu : Refilled v p cs u) (hg : Grown t v) (hl : t.WellLinked)
    (hp : t.InUse p) (hnodup : cs.Nodup) (hnew : ∀ d ∈ cs, FreshText t v d) : Shown t p u := by
  obtain ⟨_, htrims⟩ := hu.trims
  -- What is new was not in use before, so it is none of the nodes that are told of
  have hstay {x : Handle} (hx : t.InUse x) (hleft : x = p ∨ x ∉ t.walk p) : u.InUse x :=
    (hu.inUse_iff_of_fresh hg hl hp hnodup hnew x).2 ⟨hg.extended.inUse hx, hleft⟩
  have hchildren {x : Handle} (hx : u.InUse x) (hne : x ≠ p) :
      (u.slotOf x).children = (v.slotOf x).children :=
    hu.children_of_alone hg.wellLinked (fun d hd => (hnew d hd).parent) hx hne
  constructor
  case wellLinked =>
    exact hu.wellLinked
  case identity =>
    rw [htrims.identity, hg.extended.identity]
  case inUse =>
    exact hstay
  case marker =>
    intro x hx hleft
    rw [hu.marker (hstay hx hleft), hg.kept x hx]
  case parent =>
    intro x hx hleft
    have hxcs : x ∉ cs := fun hmem => (hnew x hmem).fresh hx
    rw [hu.parent (hstay hx hleft), if_neg hxcs, hg.kept x hx]
  case children =>
    intro x hx hnot
    have hne : x ≠ p := by
      rintro rfl
      exact hnot (hl.mem_walk_self hp)
    rw [hchildren (hstay hx (Or.inr hnot)) hne, hg.kept x hx]
  case texts =>
    intro d hd
    rw [hu.children_self] at hd
    obtain ⟨hdu, hne⟩ := hu.inUse_fresh hg hl hp hnodup hnew hd
    rw [hu.marker hdu, hchildren hdu hne]
    exact ⟨(hnew d hd).text, (hnew d hd).children⟩
  case generation =>
    intro x
    rw [htrims.generation, hg.extended.generation]
    split
    · exact Or.inr rfl
    · exact Or.inl rfl
  case lost =>
    exact fun hx hne _ => hu.gone hg hl hp hnodup hnew hx hne

private theorem overwrite_fresh (hl : t.WellLinked) (hg : Grown t v) (hp : t.InUse p)
    (hnodup : cs.Nodup) (hnew : ∀ d ∈ cs, FreshText t v d) :
    ∃ u, (overwrite p cs).perform v = (.ok (), u) ∧ Refilled v p cs u :=
  overwrite_refilled hg.wellLinked (hg.extended.inUse hp) hnodup fun d hd =>
    ⟨(hnew d hd).inUse, (hnew d hd).canMove hl hg hp⟩

/-- A node gets new text for its only child, or none, and loses all that was below it. -/
theorem overwrite_shown (hl : t.WellLinked) (hg : Grown t v) (hp : t.InUse p)
    (hcs : cs = [] ∨ cs = [c]) (hnew : ∀ d ∈ cs, FreshText t v d) :
    ∃ u, (overwrite p cs).perform v = (.ok (), u) ∧ Shown t p u ∧
      (u.slotOf p).children = cs ∧ ∀ x, u.InUse x → v.InUse x ∧ (x = p ∨ x ∉ t.walk p) := by
  have hnodup : cs.Nodup := by rcases hcs with rfl | rfl <;> simp
  obtain ⟨u, hperform, hu⟩ := overwrite_fresh hl hg hp hnodup hnew
  exact ⟨u, hperform, hu.shown hg hl hp hnodup hnew, hu.children_self, fun x =>
    (hu.inUse_iff_of_fresh hg hl hp hnodup hnew x).1⟩

theorem overwrite_overwritten (hl : t.WellLinked) (hg : Grown t v) (hp : t.InUse p)
    (hcs : cs = [] ∨ cs = [c]) (hnew : ∀ d ∈ cs, FreshText t v d)
    (hall : ∀ x, v.InUse x → x ∈ cs ∨ t.InUse x)
    (hs : s = "" ∧ cs = [] ∨ s ≠ "" ∧ ∃ d, cs = [d] ∧ (v.slotOf d).marker = .text s) :
    ∃ u, (overwrite p cs).perform v = (.ok (), u) ∧ Overwritten t p s u := by
  have hnodup : cs.Nodup := by rcases hcs with rfl | rfl <;> simp
  obtain ⟨u, hperform, hu⟩ := overwrite_fresh hl hg hp hnodup hnew
  refine ⟨u, hperform, hu.shown hg hl hp hnodup hnew, ?_, fun {x} hx hnot => ?_,
    hu.gone hg hl hp hnodup hnew⟩
  · -- The new text is a text still
    rcases hs with ⟨hs, hnil⟩ | ⟨hs, d, hone, hmarker⟩
    · exact Or.inl ⟨hs, hu.children_self.trans hnil⟩
    · have hd : d ∈ cs := hone ▸ List.mem_singleton_self d
      refine Or.inr ⟨hs, d, hu.children_self.trans hone, ?_⟩
      rw [hu.marker (hu.inUse_fresh hg hl hp hnodup hnew hd).1, hmarker]
  · rw [hu.children_self] at hnot
    obtain ⟨hxv, hleft⟩ := (hu.inUse_iff_of_fresh hg hl hp hnodup hnew x).1 hx
    exact ⟨(hall x hxv).resolve_left hnot, hleft⟩

/-! ### A node that shows a text -/

theorem newText_perform (s : String) (t : Tree) : (newText s).perform t =
    if s.isEmpty then (.ok [], t) else (.ok [(t.alloc (.text s)).1], (t.alloc (.text s)).2) := by
  unfold newText
  split <;> simp [new]

theorem freshText_alloc (hl : t.WellLinked) (s : String) :
    FreshText t (t.alloc (.text s)).2 (t.alloc (.text s)).1 := by
  have ha := Linked.allocated hl (.text s)
  exact ⟨(ha.inUse_iff _).2 (Or.inl rfl), ha.fresh, ha.parent, by rw [ha.marker]; rfl, ha.children⟩

theorem overwriteText_overwritten (hl : t.WellLinked) (hp : t.InUse p) (s : String) :
    ∃ u, t.overwriteText p s = (true, u) ∧ Overwritten t p s u := by
  simp only [overwriteText, Edit.perform_bind, newText_perform]
  by_cases hs : s = ""
  · -- An empty text needs no node
    have hnil : ([] : List Handle) = [] ∨ [] = [p] := Or.inl rfl
    obtain ⟨u, hperform, hover⟩ := overwrite_overwritten hl (.refl hl) hp hnil (by simp)
      (fun _ hx => Or.inr hx) (Or.inl ⟨hs, rfl⟩)
    exact ⟨u, by simp [hs, hperform], hover⟩
  · have ha := Linked.allocated hl (.text s)
    obtain ⟨u, hperform, hover⟩ := overwrite_overwritten hl (ha.grown hl) hp (Or.inr rfl)
      (fun d hd => List.mem_singleton.1 hd ▸ freshText_alloc hl s)
      (fun x hx => ((ha.inUse_iff x).1 hx).imp List.mem_singleton.2 id)
      (Or.inr ⟨hs, _, rfl, ha.marker⟩)
    exact ⟨u, by simp [hs, hperform], hover⟩

/-- A node comes to show a text in one of three ways: it shows it already; the text below it is
changed in its place; or it is overwritten. -/
theorem showText_cases (hl : t.WellLinked) (hp : t.InUse p) (s : String) :
    (t.showText p s = (false, t) ∧ t.Flat p s) ∨
      (∃ c old, (t.slotOf p).children = [c] ∧ (t.slotOf c).marker = .text old ∧ s ≠ "" ∧
        t.showText p s = (true, t.setMarker c (.text s))) ∨
      ∃ u, t.showText p s = (true, u) ∧ Overwritten t p s u := by
  have hover := overwriteText_overwritten hl hp s
  unfold showText
  rw [WellLinked.children_eq hp]
  split
  · next hnil =>
    by_cases hs : s = ""
    · exact Or.inl ⟨by simp [hs], Or.inl ⟨hs, hnil⟩⟩
    · exact Or.inr (Or.inr (by simpa [hs] using hover))
  · next only hone =>
    have honly : only ∈ (t.slotOf p).children := by simp [hone]
    split
    · next old hold hs =>
      -- The only child is a text
      have hs : s ≠ "" := by simpa using hs
      have hmarker : (t.slotOf only).marker = .text old := by
        rw [marker?, if_pos (Linked.child hl hp honly).1.owned, Option.bind_some] at hold
        cases hm : (t.slotOf only).marker <;> simp [hm, Marker.text?] at hold
        rw [hold]
      by_cases heq : old = s
      · exact Or.inl ⟨by simp [heq], Or.inr ⟨hs, only, hone, by rw [hmarker, heq]⟩⟩
      · exact Or.inr (Or.inl ⟨only, old, hone, hmarker, hs, by simp [heq]⟩)
    · exact Or.inr (Or.inr hover)
  · exact Or.inr (Or.inr hover)

/-- A node that has nothing below it but text keeps it when that text is changed. -/
theorem shown_of_texts (hl : t.WellLinked) (hu : u.WellLinked) (hs : SameSlots t u)
    (hp : t.InUse p)
    (htexts : ∀ c ∈ (t.slotOf p).children,
      (t.slotOf c).marker.text?.isSome ∧ (t.slotOf c).children = [])
    (hother : ∀ x, t.InUse x → x ∉ (t.slotOf p).children → u.slotOf x = t.slotOf x)
    (hchanged : ∀ c ∈ (t.slotOf p).children,
      (u.slotOf c).marker.text?.isSome ∧ (u.slotOf c).children = []) : Shown t p u := by
  -- Below `p` there are its children and nothing else
  have hwalk {c x : Handle} (hc : c ∈ (t.slotOf p).children) (hx : x ∈ t.walk c) : x = c := by
    rw [hl.mem_walk_cons (Linked.child hl hp hc).1, (htexts c hc).2] at hx
    simpa using hx
  have hkept {x : Handle} (hx : t.InUse x) (hnot : x = p ∨ x ∉ t.walk p) :
      u.slotOf x = t.slotOf x := by
    apply hother x hx
    intro hmem
    rcases hnot with rfl | hnot
    · exact hl.not_mem_walk_child hp hmem (hl.mem_walk_self hx)
    · exact hnot ((hl.mem_walk_cons hp).2 (Or.inr ⟨x, hmem, hl.mem_walk_self hx⟩))
  constructor
  case wellLinked =>
    exact hu
  case identity =>
    exact hs.identity
  case inUse =>
    exact fun hx _ => hs.inUse_iff.2 hx
  case marker =>
    exact fun hx hnot => by rw [hkept hx hnot]
  case parent =>
    exact fun hx hnot => by rw [hkept hx hnot]
  case children =>
    exact fun hx hnot => by rw [hkept hx (Or.inr hnot)]
  case texts =>
    rw [hkept hp (Or.inl rfl)]
    exact hchanged
  case generation =>
    exact fun x => Or.inl (hs.generation x)
  case lost =>
    intro x hx hne hmarker
    obtain ⟨c, hc, hxc⟩ := ((hl.mem_walk_cons hp).1 hx).resolve_left hne
    obtain rfl := hwalk hc hxc
    simpa [hmarker] using (htexts x hc).1

/-- Showing a text below a node whose text children have nothing below them. -/
theorem shown_showText (hl : t.WellLinked) (hp : t.InUse p)
    (hleaf : ∀ c ∈ (t.slotOf p).children, (t.slotOf c).marker.text?.isSome →
      (t.slotOf c).children = []) (s : String) : Shown t p (t.showText p s).2 := by
  rcases showText_cases hl hp s with ⟨hshow, hflat⟩ | ⟨c, old, hone, hmarker, -, hshow⟩ |
    ⟨u, hshow, hover⟩
  · rw [hshow]
    have htexts : ∀ c ∈ (t.slotOf p).children,
        (t.slotOf c).marker.text?.isSome ∧ (t.slotOf c).children = [] := by
      intro c hc
      rcases hflat with ⟨-, hnil⟩ | ⟨-, d, hone, hmarker⟩
      · simp [hnil] at hc
      · obtain rfl : c = d := by simpa [hone] using hc
        have htext : (t.slotOf c).marker.text?.isSome := by rw [hmarker]; rfl
        exact ⟨htext, hleaf c hc htext⟩
    exact shown_of_texts hl hl (.refl t) hp htexts (fun _ _ _ => rfl) htexts
  · have hc : c ∈ (t.slotOf p).children := by simp [hone]
    have hinUse := (Linked.child hl hp hc).1
    have htext : (t.slotOf c).marker.text?.isSome := by rw [hmarker]; rfl
    have hset (x : Handle) := slotOf_modifySlot (x := x) hinUse.slot_lt
      fun s' => { s' with marker := .text s }
    have hlinks := sameLinks_setMarker t c (.text s)
    rw [hshow]
    refine shown_of_texts hl (hlinks.wellLinked hl) hlinks.toSameSlots hp
      (by simpa [hone] using ⟨htext, hleaf c hc htext⟩) (fun x hx hnot => ?_) fun d hd => ?_
    · have hne : x ≠ c := fun heq => hnot (heq ▸ hc)
      rw [setMarker, if_pos hinUse.owned, hset, if_neg (hx.slot_ne hinUse hne)]
    · obtain rfl : d = c := by simpa [hone] using hd
      rw [setMarker, if_pos hinUse.owned, hset, if_pos rfl]
      exact ⟨rfl, hleaf d hd htext⟩
  · rw [hshow]
    exact hover.toShown

/-- A handle that its slot has outlived shows nothing. A node for the text is left over, unless the
text is empty. -/
theorem showText_of_stale (hl : t.WellLinked)
    (hstale : (t.slotOf p).generation ≠ p.generation) (s : String) :
    s = "" ∧ t.showText p s = (false, t) ∨
      s ≠ "" ∧ t.showText p s = (false, (t.alloc (.text s)).2) := by
  -- Growing does not bring a handle back
  have howns {v : Tree} (hg : Grown t v) : v.owns p = false := by
    refine Bool.eq_false_iff.2 fun ho => hstale ?_
    rw [← (owns_iff.1 ho).2.2, hg.extended.generation]
  have hrefuses {v : Tree} (hg : Grown t v) (cs : List Handle) : v.Refuses (overwrite p cs) := by
    rcases overwrite_cases v p cs with ⟨ho, -⟩ | ⟨-, hr⟩
    · simp [howns hg] at ho
    · exact hr
  rw [showText, children, howns (.refl hl)]
  simp only [Bool.false_eq_true, ↓reduceIte]
  by_cases hs : s = ""
  · exact Or.inl ⟨hs, by simp [hs]⟩
  · have hg := (Linked.allocated hl (.text s)).grown hl
    obtain ⟨err, hperform⟩ := hrefuses hg [(t.alloc (.text s)).1]
    exact Or.inr ⟨hs, by simp [overwriteText, newText_perform, hs, hperform]⟩

theorem grown_showText (hl : t.WellLinked)
    (hstale : (t.slotOf p).generation ≠ p.generation) (s : String) :
    Grown t (t.showText p s).2 := by
  rcases showText_of_stale hl hstale s with ⟨-, hshow⟩ | ⟨-, hshow⟩
  · rw [hshow]
    exact .refl hl
  · rw [hshow]
    exact (Linked.allocated hl (.text s)).grown hl

end TabStop.Tree
