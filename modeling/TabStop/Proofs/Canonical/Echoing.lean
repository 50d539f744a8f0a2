import TabStop.Proofs.Repeat.Calm
import TabStop.Proofs.Document.Positions
import TabStop.Proofs.Canonical.Returning

/-!
# Documents with the same nodes

A document that comes back when it has been written has the nodes of the one that was written, pair
by pair, inside of each other in the same way. It may differ in which tab stops are primary ones,
and in the text of tab stops that have a transform. That is enough to tell which tab stops have the
same index, and which text a node shows if its nodes show the same texts.
-/

namespace TabStop

/-! ## Text between nodes -/

/-- The text of a row: that of its text, and for each of its nodes the next of some others. -/
def Outline.weave : List Outline → List String → String
  | [], _ => ""
  | o :: os, ss =>
    match o.marker.text? with
    | some s => s ++ weave os ss
    | none => ss.headD "" ++ weave os ss.tail

theorem Outline.weave_prepend (o : Outline) (os : List Outline) (ss : List String) :
    weave (prepend o os) ss = weave (o :: os) ss := by
  rcases prepend_cases o os with ⟨h, -⟩ | ⟨r, s, cs, ps, hr, rfl, h⟩
  · rw [h]
  · rw [h, weave, weave, weave, hr]
    exact String.append_assoc ..

theorem Outline.weave_rereadAll (os : List Outline) (ss : List String) :
    weave (rereadAll os) ss = weave os ss := by
  induction os generalizing ss with
  | nil => rfl
  | cons o os ih =>
    rw [rereadAll, weave_prepend, weave, weave, marker_reread, Marker.text?_unmarked, ih, ih]

namespace Tree

variable {t u v : Tree} {a b c d h k m n p q x y : Handle} {hs ks : List Handle} {i : TabIndex}
  {ps cs : List (Handle × Handle)} {f g : Handle → String} {os : List Outline}

/-- The root and the nodes below it that are no text, in the order of the document. -/
def nodes (t : Tree) : List Handle := (t.walk t.root).filter t.isNode

/-- The text of a node that is given for its nodes. -/
def spell (t : Tree) (f : Handle → String) (h : Handle) : String :=
  String.join ((t.slotOf h).children.map fun c => (t.slotOf c).marker.text?.getD (f c))

theorem ShowsAll.join_eq_weave (hos : t.ShowsAll hs os) (f : Handle → String) :
    String.join (hs.map fun c => (t.slotOf c).marker.text?.getD (f c)) =
      Outline.weave os ((hs.filter t.isNode).map f) := by
  replace hos := hos.forall₂
  induction hos with
  | nil => rfl
  | @cons h o hs os ho _ ih =>
    rw [List.map_cons, String.join_cons, ih, Outline.weave, List.filter_cons, ho.isNode_eq,
      ho.marker_eq]
    cases o.marker.text? <;> rfl

theorem ShowsAll.eq_nil_iff (hos : t.ShowsAll hs os) : hs = [] ↔ os = [] := by
  cases hos.forall₂ <;> simp

theorem InUse.marker_eq_placeholder {k : Placeholder} (hx : t.InUse x)
    (hk : t.placeholder? x = some k) : (t.slotOf x).marker = .placeholder k := by
  rw [hx.placeholder?_eq] at hk
  cases hm : (t.slotOf x).marker <;> simp [hm, Marker.placeholder?] at hk
  rw [hk]

namespace WellLinked

theorem exists_placeholder (hl : t.WellLinked) (hx : x ∈ t.placeholders) :
    ∃ k, t.placeholder? x = some k ∧ (t.slotOf x).marker = .placeholder k := by
  obtain ⟨k, hk⟩ := exists_placeholder?_of_mem hx
  exact ⟨k, hk, (hl.inUse_of_mem_placeholders hx).marker_eq_placeholder hk⟩

theorem ownText?_of_placeholder (hl : t.WellLinked) (hx : x ∈ t.placeholders) :
    (t.slotOf x).marker.ownText? = none := by
  obtain ⟨k, -, hmarker⟩ := hl.exists_placeholder hx
  rw [hmarker]
  rfl

theorem inUse_of_mem_nodes (hl : t.WellLinked) (hx : x ∈ t.nodes) : t.InUse x :=
  hl.mem_walk_root_inUse (List.mem_filter.1 hx).1

theorem nodup_nodes (hl : t.WellLinked) : t.nodes.Nodup := (hl.walk_nodup t.root).filter _

theorem mem_nodes_of_placeholder (hl : t.WellLinked) (hx : x ∈ t.placeholders) : x ∈ t.nodes := by
  obtain ⟨hwalk, htext⟩ := hl.mem_walk_root_of_placeholder hx
  exact List.mem_filter.2 ⟨hwalk, by rw [isNode, htext]; rfl⟩

/-- A node that does not tell its text shows what its nodes show, and the text between them. -/
theorem render_eq_spell (hl : t.WellLinked) (hh : t.InUse h)
    (hown : (t.slotOf h).marker.ownText? = none) : t.render h = t.spell t.render h := by
  rw [hl.render_eq hh, hown, Option.getD_none, spell]
  refine congrArg String.join (List.map_congr_left fun c hc => ?_)
  cases htext : (t.slotOf c).marker.text? with
  | none => rfl
  | some s =>
    -- Text shows itself
    have hm : (t.slotOf c).marker = .text s := by
      cases hm : (t.slotOf c).marker <;> simp [hm, Marker.text?] at htext
      rw [htext]
    rw [hl.render_eq (Linked.child hl hh hc).1, hm]
    rfl

/-- What a node of the document is a child of is a node of it, if text has nothing below it. -/
theorem mem_nodes_of_child (hleaves : t.TextLeaves) (hp : p ∈ t.walk t.root)
    (hc : c ∈ (t.slotOf p).children) : p ∈ t.nodes := by
  refine List.mem_filter.2 ⟨hp, ?_⟩
  cases hnode : t.isNode p with
  | true => rfl
  | false =>
    have hnil := hleaves p hp (by simpa [isNode, Option.isSome_iff_ne_none] using hnode)
    simp [hnil] at hc

end WellLinked

/-- There is nothing but text in a node that holds no nodes. -/
theorem WellLinked.bare_iff (hl : t.WellLinked) (hleaves : t.TextLeaves) (hx : x ∈ t.walk t.root) :
    t.Bare x ↔ (t.slotOf x).children.filter t.isNode = [] := by
  rw [List.filter_eq_nil_iff]
  refine ⟨fun hbare c hc => ?_, fun hnil c hc => ?_⟩
  · simpa [isNode, Option.isSome_iff_ne_none] using (hbare c hc).1
  · have htext : (t.slotOf c).marker.text?.isSome := by
      simpa [isNode, Option.isSome_iff_ne_none] using hnil c hc
    exact ⟨htext, hleaves c (hl.mem_walk_root_child hx hc) htext⟩

/-! ## Pairs of nodes -/

/-- The nodes of `t` are those of `v`, pair by pair in the order of the document. Two that are a
pair are written in the same way, and hold pairs; without a transform they hold the same text too.
-/
structure Echoes (t v : Tree) (ps : List (Handle × Handle)) : Prop where
  left : ps.map Prod.fst = t.nodes
  right : ps.map Prod.snd = v.nodes
  root : (t.root, v.root) ∈ ps
  marker_root : (t.slotOf t.root).marker = .root
  unmarked {x y : Handle} : (x, y) ∈ ps →
    (v.slotOf y).marker.unmarked = (t.slotOf x).marker.unmarked
  children {x y : Handle} : (x, y) ∈ ps → ∃ cs ⊆ ps,
    cs.map Prod.fst = (t.slotOf x).children.filter t.isNode ∧
      cs.map Prod.snd = (v.slotOf y).children.filter v.isNode
  spell {x y : Handle} {f g : Handle → String} : (x, y) ∈ ps →
    (t.slotOf x).marker.transform? = none →
      (∀ c d, (c, d) ∈ ps → c ∈ (t.slotOf x).children → d ∈ (v.slotOf y).children → f c = g d) →
        t.spell f x = v.spell g y
  nil_iff {x y : Handle} : (x, y) ∈ ps → (t.slotOf x).marker.transform? = none →
    ((t.slotOf x).children = [] ↔ (v.slotOf y).children = [])
  nil {x y : Handle} : (x, y) ∈ ps → (t.slotOf x).marker.transform?.isSome →
    (v.slotOf y).children = []

namespace ReadAs

theorem spell_eq (hread : t.ReadAs u x y) (htransform : (t.slotOf x).marker.transform? = none)
    (hleft : cs.map Prod.fst = (t.slotOf x).children.filter t.isNode)
    (hright : cs.map Prod.snd = (u.slotOf y).children.filter u.isNode)
    (hfg : ∀ c d, (c, d) ∈ cs → f c = g d) : t.spell f x = u.spell g y := by
  obtain ⟨⟨m, os⟩, ⟨-, hm, hall⟩, ⟨-, -, hall'⟩, -, -⟩ := hread
  rw [← hm, htransform, Option.isSome_none, if_neg Bool.false_ne_true] at hall'
  have heq : (cs.map Prod.fst).map f = (cs.map Prod.snd).map g := by
    rw [List.map_map, List.map_map]
    exact List.map_congr_left fun p hp => hfg p.1 p.2 hp
  rw [Tree.spell, Tree.spell, hall.join_eq_weave, hall'.join_eq_weave, Outline.weave_rereadAll,
    ← hleft, ← hright, heq]

theorem children_eq_nil_iff (hread : t.ReadAs u x y)
    (htransform : (t.slotOf x).marker.transform? = none) :
    (t.slotOf x).children = [] ↔ (u.slotOf y).children = [] := by
  obtain ⟨⟨m, os⟩, ⟨-, hm, hall⟩, ⟨-, -, hall'⟩, -, -⟩ := hread
  rw [← hm, htransform, Option.isSome_none, if_neg Bool.false_ne_true] at hall'
  rw [hall.eq_nil_iff, hall'.eq_nil_iff, ← List.isEmpty_iff, ← List.isEmpty_iff,
    Outline.isEmpty_rereadAll]

theorem children_eq_nil (hread : t.ReadAs u x y)
    (htransform : (t.slotOf x).marker.transform?.isSome) : (u.slotOf y).children = [] := by
  obtain ⟨⟨m, os⟩, ⟨-, hm, -⟩, ⟨-, -, hall'⟩, -, -⟩ := hread
  rw [← hm, if_pos htransform] at hall'
  exact hall'.eq_nil_iff.2 rfl

end ReadAs

/-- It makes no difference which tab stops are primary ones. -/
theorem Returns.echoes (hr : Returns t u (t.walk t.root) (u.walk u.root) ps)
    (hroot : (t.root, u.root) ∈ ps) (hmarker : (t.slotOf t.root).marker = .root)
    (hs : SameLinks u v)
    (hunmarked : ∀ x, (v.slotOf x).marker.unmarked = (u.slotOf x).marker.unmarked) :
    Echoes t v ps := by
  have hnode : v.isNode = u.isNode := by
    funext x
    rw [isNode, isNode, ← Marker.text?_unmarked, hunmarked, Marker.text?_unmarked]
  have htext (x : Handle) : (v.slotOf x).marker.text? = (u.slotOf x).marker.text? := by
    rw [← Marker.text?_unmarked, hunmarked, Marker.text?_unmarked]
  have hspell (g : Handle → String) (y : Handle) : v.spell g y = u.spell g y := by
    rw [Tree.spell, Tree.spell, hs.children]
    exact congrArg String.join (List.map_congr_left fun c _ => by rw [htext])
  -- Assigning primaries changes no link and no marker but for the mark, which none of the parts
  -- asks for
  constructor
  case left => exact hr.left
  case right =>
    rw [hr.right, nodes, hs.walk_eq, hs.root_eq, hnode]
  case root =>
    rw [hs.root_eq]
    exact hroot
  case marker_root => exact hmarker
  case unmarked =>
    intro x y hxy
    obtain ⟨o, ho, ho', -⟩ := hr.read _ hxy
    rw [hunmarked, ho.marker_eq, ho'.marker_eq, Outline.marker_reread, Marker.unmarked_unmarked]
  case children =>
    intro x y hxy
    rw [hs.children, hnode]
    exact hr.children _ hxy
  case spell =>
    intro x y f g hxy htransform hfg
    rw [hspell]
    obtain ⟨cs, hsub, hleft, hright⟩ := hr.children _ hxy
    refine (hr.read _ hxy).spell_eq htransform hleft hright fun c d hcd => ?_
    have hc : c ∈ cs.map Prod.fst := List.mem_map.2 ⟨_, hcd, rfl⟩
    have hd : d ∈ cs.map Prod.snd := List.mem_map.2 ⟨_, hcd, rfl⟩
    rw [hleft] at hc
    rw [hright] at hd
    exact hfg c d (hsub hcd) (List.mem_filter.1 hc).1 (hs.children y ▸ (List.mem_filter.1 hd).1)
  case nil_iff =>
    intro x y hxy htransform
    rw [hs.children]
    exact (hr.read _ hxy).children_eq_nil_iff htransform
  case nil =>
    intro x y hxy htransform
    rw [hs.children]
    exact (hr.read _ hxy).children_eq_nil htransform

/-! ## Being the same node -/

namespace Echoes

variable {qs : List (Handle × Handle)}

section

variable (he : Echoes t v ps)

include he

theorem mem_left (hxy : (x, y) ∈ ps) : x ∈ t.nodes :=
  he.left ▸ List.mem_map.2 ⟨_, hxy, rfl⟩

theorem mem_right (hxy : (x, y) ∈ ps) : y ∈ v.nodes :=
  he.right ▸ List.mem_map.2 ⟨_, hxy, rfl⟩

theorem exists_right (hx : x ∈ t.nodes) : ∃ y, (x, y) ∈ ps := by
  rw [← he.left, List.mem_map] at hx
  obtain ⟨⟨_, y⟩, hxy, rfl⟩ := hx
  exact ⟨y, hxy⟩

theorem exists_left (hy : y ∈ v.nodes) : ∃ x, (x, y) ∈ ps := by
  rw [← he.right, List.mem_map] at hy
  obtain ⟨⟨x, _⟩, hxy, rfl⟩ := hy
  exact ⟨x, hxy⟩

theorem right_unique (hl : t.WellLinked) (hab : (a, b) ∈ ps) (had : (a, d) ∈ ps) : b = d := by
  have hnodup : (ps.map Prod.fst).Nodup := he.left ▸ hl.nodup_nodes
  exact congrArg Prod.snd (List.inj_on_of_nodup_map hnodup hab had rfl)

theorem left_unique (hv : v.WellLinked) (hab : (a, b) ∈ ps) (hcb : (c, b) ∈ ps) : a = c := by
  have hnodup : (ps.map Prod.snd).Nodup := he.right ▸ hv.nodup_nodes
  exact congrArg Prod.fst (List.inj_on_of_nodup_map hnodup hab hcb rfl)

/-! ### Above and below -/

/-- What is above a pair are pairs. -/
theorem ancestors (hl : t.WellLinked) (hv : v.WellLinked) (hleaves : t.TextLeaves)
    (hxy : (x, y) ∈ ps) :
    ∃ as ⊆ ps, t.ancestors x = as.map Prod.fst ∧ v.ancestors y = as.map Prod.snd := by
  have hroot := Linked.root_inUse hl
  have hwalk := (List.mem_filter.1 (he.mem_left hxy)).1
  revert y
  refine hl.walk_induction hroot (P := fun x => ∀ {y}, (x, y) ∈ ps → ∃ as ⊆ ps,
    t.ancestors x = as.map Prod.fst ∧ v.ancestors y = as.map Prod.snd) (fun {y} hxy => ?_)
    (fun p hp c hc ih {y} hxy => ?_) hwalk
  · obtain rfl := he.right_unique hl hxy he.root
    exact ⟨[], by simp, hl.ancestors_root, hv.ancestors_root⟩
  · obtain ⟨q, hpq⟩ := he.exists_right (WellLinked.mem_nodes_of_child hleaves hp hc)
    obtain ⟨as, hsub, hleft, hright⟩ := ih hpq
    -- The pair is among the children of the pair above
    have hmem : c ∈ (t.slotOf p).children.filter t.isNode :=
      List.mem_filter.2 ⟨hc, (List.mem_filter.1 (he.mem_left hxy)).2⟩
    obtain ⟨cs, hcs, hcleft, hcright⟩ := he.children hpq
    rw [← hcleft, List.mem_map] at hmem
    obtain ⟨⟨_, d⟩, hcd, rfl⟩ := hmem
    obtain rfl := he.right_unique hl hxy (hcs hcd)
    have hd : y ∈ (v.slotOf q).children.filter v.isNode := hcright ▸ List.mem_map.2 ⟨_, hcd, rfl⟩
    refine ⟨(p, q) :: as, List.cons_subset.2 ⟨hpq, hsub⟩, ?_, ?_⟩
    · rw [Linked.ancestors_child hl (hl.mem_walk_root_inUse hp) hc, hleft, List.map_cons]
    · rw [Linked.ancestors_child hv (hv.inUse_of_mem_nodes (he.mem_right hpq))
        (List.mem_filter.1 hd).1, hright, List.map_cons]

theorem mem_ancestors_iff (hl : t.WellLinked) (hv : v.WellLinked) (hleaves : t.TextLeaves)
    (hxy : (x, y) ∈ ps) (hab : (a, b) ∈ ps) : b ∈ v.ancestors y ↔ a ∈ t.ancestors x := by
  obtain ⟨as, hsub, hleft, hright⟩ := he.ancestors hl hv hleaves hxy
  rw [hleft, hright, List.mem_map, List.mem_map]
  constructor
  · rintro ⟨⟨a', _⟩, hmem, rfl⟩
    exact ⟨_, hmem, he.left_unique hv (hsub hmem) hab⟩
  · rintro ⟨⟨_, b'⟩, hmem, rfl⟩
    exact ⟨_, hmem, he.right_unique hl (hsub hmem) hab⟩

theorem bare_iff (hl : t.WellLinked) (hv : v.WellLinked) (hleaves : t.TextLeaves)
    (hvleaves : v.TextLeaves) (hxy : (x, y) ∈ ps) : v.Bare y ↔ t.Bare x := by
  obtain ⟨cs, -, hleft, hright⟩ := he.children hxy
  rw [hl.bare_iff hleaves (List.mem_filter.1 (he.mem_left hxy)).1,
    hv.bare_iff hvleaves (List.mem_filter.1 (he.mem_right hxy)).1, ← hleft, ← hright,
    List.map_eq_nil_iff, List.map_eq_nil_iff]

/-! ### Tab stops -/

theorem placeholder?_map {α : Type} {f : Placeholder → α} (hl : t.WellLinked) (hv : v.WellLinked)
    (hf : ∀ p : Placeholder, f { p with primary := false } = f p) (hxy : (x, y) ∈ ps) :
    (v.placeholder? y).map f = (t.placeholder? x).map f := by
  rw [(hv.inUse_of_mem_nodes (he.mem_right hxy)).placeholder?_eq,
    (hl.inUse_of_mem_nodes (he.mem_left hxy)).placeholder?_eq]
  have heq := congrArg (fun m => m.placeholder?.map f) (he.unmarked hxy)
  simpa only [Marker.placeholder?_unmarked, Option.map_map, Function.comp_def, hf] using heq

theorem index?_eq (hl : t.WellLinked) (hv : v.WellLinked) (hxy : (x, y) ∈ ps) :
    v.index? y = t.index? x := he.placeholder?_map hl hv (fun _ => rfl) hxy

theorem transform_eq (hl : t.WellLinked) (hv : v.WellLinked) (hxy : (x, y) ∈ ps) :
    (v.placeholder? y).bind (·.transform) = (t.placeholder? x).bind (·.transform) := by
  have hbind (o : Option Placeholder) : o.bind (·.transform) = (o.map (·.transform)).join := by
    cases o <;> rfl
  rw [hbind, hbind, he.placeholder?_map hl hv (fun _ => rfl) hxy]

end

end Echoes

/-- A tab stop of an index is a node of that index. -/
theorem WellLinked.placeholdersOf_eq_nodes (hl : t.WellLinked)
    (hroot : (t.slotOf t.root).marker = .root) (i : TabIndex) :
    t.placeholdersOf i = t.nodes.filter fun x => t.index? x == some i := by
  have hru := Linked.root_inUse hl
  have hnone : t.index? t.root = none := by
    rw [index?, hru.placeholder?_eq, hroot]
    rfl
  have hnodes : t.nodes.filter (fun x => t.index? x == some i) =
      (t.walk t.root).filter fun x => t.index? x == some i := by
    rw [nodes, List.filter_filter]
    refine List.filter_congr fun x hx => ?_
    cases hindex : t.index? x == some i with
    | false => rfl
    | true =>
      -- Text has no index
      have hsome : (t.placeholder? x).isSome := by
        rw [← index?_isSome, LawfulBEq.eq_of_beq hindex]
        rfl
      obtain ⟨k, hk⟩ := Option.isSome_iff_exists.1 hsome
      rw [isNode, (hl.mem_walk_root_inUse hx).marker_eq_placeholder hk]
      rfl
  rw [hnodes, hl.walk_eq hru, List.filter_cons, hnone, placeholdersOf, placeholders,
    hl.descendants_eq hru, List.filter_filter, if_neg (by simp)]
  refine List.filter_congr fun x _ => ?_
  cases hindex : t.index? x == some i with
  | false => rfl
  | true =>
    rw [← index?_isSome, LawfulBEq.eq_of_beq hindex]
    rfl

/-- The pairs of tab stops of an index. -/
def pairsOf (t : Tree) (ps : List (Handle × Handle)) (i : TabIndex) : List (Handle × Handle) :=
  ps.filter fun p => t.index? p.1 == some i

namespace Echoes

theorem marker_root_right (he : Echoes t v ps) : (v.slotOf v.root).marker = .root := by
  have hm := he.unmarked he.root
  rw [he.marker_root] at hm
  cases hv : (v.slotOf v.root).marker <;> simp [hv, Marker.unmarked] at hm
  rfl

variable (he : Echoes t v ps) (hl : t.WellLinked) (hv : v.WellLinked)

include he hl

theorem map_fst_pairsOf (i : TabIndex) : (pairsOf t ps i).map Prod.fst = t.placeholdersOf i := by
  rw [hl.placeholdersOf_eq_nodes he.marker_root, ← he.left, List.filter_map]
  rfl

include hv

theorem map_snd_pairsOf (i : TabIndex) : (pairsOf t ps i).map Prod.snd = v.placeholdersOf i := by
  rw [hv.placeholdersOf_eq_nodes he.marker_root_right, ← he.right, List.filter_map]
  refine congrArg (List.map Prod.snd) (List.filter_congr fun p hp => ?_)
  rw [Function.comp_apply, he.index?_eq hl hv hp]

theorem mem_placeholdersOf_iff (hxy : (x, y) ∈ ps) :
    y ∈ v.placeholdersOf i ↔ x ∈ t.placeholdersOf i := by
  have hindex := he.index?_eq hl hv hxy
  rw [hl.placeholdersOf_eq_nodes he.marker_root, hv.placeholdersOf_eq_nodes he.marker_root_right,
    List.mem_filter, List.mem_filter, hindex]
  simp only [he.mem_left hxy, he.mem_right hxy]

end Echoes

end Tree

end TabStop
