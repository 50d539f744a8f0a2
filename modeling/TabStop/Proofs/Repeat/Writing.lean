import TabStop.Proofs.Repeat.Overwriting
import TabStop.Proofs.Document.Rendering

/-!
# What it does to make a node show a text

Whichever way a node comes to show a text, the nodes that are left are linked as before, and each of
them shows what it showed, unless the node is below it. So much is known even of a tree in which text
has something below it.
-/

namespace TabStop.Tree

variable {t u v : Tree} {c m n x : Handle} {s : String}

/-! ## Nodes above and below -/

theorem WellLinked.above_antisymm {y : Handle} (hl : t.WellLinked) (hx : t.InUse x)
    (hyx : t.isAncestorOrSelf y x) (hxy : t.isAncestorOrSelf x y) : y = x := by
  obtain ⟨below, heq⟩ := Linked.above_split hl hx hyx
  obtain ⟨below', heq'⟩ := Linked.above_split hl (Linked.above_inUse hl hx hyx) hxy
  -- Each of the two lineages ends in the other, so they are the same
  have hlength := congrArg List.length heq
  rw [heq'] at hlength
  simp only [List.length_append] at hlength
  have hnil : below = [] := List.eq_nil_of_length_eq_zero (by omega)
  rw [hnil] at heq
  exact (List.cons_eq_cons.1 heq).1.symm

theorem SameLinks.ancestors_eq (hs : SameLinks t u) (hl : t.WellLinked) (hx : t.InUse x) :
    u.ancestors x = t.ancestors x :=
  Linked.ancestors_congr hl (hs.wellLinked hl) hx (hs.inUse_iff.2 hx) fun y _ _ => hs.parent y

theorem InUse.placeholder?_eq (hx : t.InUse x) :
    t.placeholder? x = (t.slotOf x).marker.placeholder? := by
  rw [placeholder?, marker?, if_pos hx.owned]
  rfl

theorem placeholder?_of_text {k : Marker} (hk : k.text?.isSome) : k.placeholder? = none := by
  cases k <;> simp [Marker.text?] at hk
  rfl

/-! ## The nodes that are left -/

/-- A node that is left of a tree `t`: it is the same tab stop as before, or none, and in the same
place. -/
structure Kept (t u : Tree) (x : Handle) : Prop where
  before : t.InUse x
  inUse : u.InUse x
  placeholder?_eq : u.placeholder? x = t.placeholder? x
  ancestors_eq : u.ancestors x = t.ancestors x

namespace Kept

theorem refl (hx : t.InUse x) : Kept t t x := ⟨hx, hx, rfl, rfl⟩

theorem trans (hu : Kept t u x) (hv : Kept u v x) : Kept t v x :=
  ⟨hu.before, hv.inUse, hv.placeholder?_eq.trans hu.placeholder?_eq,
    hv.ancestors_eq.trans hu.ancestors_eq⟩

theorem above_eq (hk : Kept t u x) (a : Handle) :
    u.isAncestorOrSelf a x = t.isAncestorOrSelf a x := by
  rw [isAncestorOrSelf, isAncestorOrSelf, hk.ancestors_eq]

theorem index?_eq (hk : Kept t u x) : u.index? x = t.index? x := by
  rw [index?, index?, hk.placeholder?_eq]

theorem marker_eq (hk : Kept t u x) (hp : (t.placeholder? x).isSome) :
    (u.slotOf x).marker = (t.slotOf x).marker := by
  have heq := hk.placeholder?_eq
  rw [hk.before.placeholder?_eq] at hp heq
  rw [hk.inUse.placeholder?_eq] at heq
  -- Only tab stops read as tab stops
  cases hm : (t.slotOf x).marker <;> simp [hm, Marker.placeholder?] at hp heq
  cases hm' : (u.slotOf x).marker <;> simp [hm'] at heq
  rw [heq]

end Kept

/-- What is true of a tree in which no nodes but `ms` have come to show another text. Nodes below
these may be gone, and the nodes that are new are text. -/
structure Touched (t : Tree) (ms : List Handle) (u : Tree) : Prop where
  wellLinked : u.WellLinked
  identity : u.identity = t.identity
  fresh {x : Handle} : u.InUse x → ¬ t.InUse x → (u.slotOf x).marker.text?.isSome
  kept {x : Handle} : t.InUse x → u.InUse x → Kept t u x
  children {x : Handle} : t.InUse x → u.InUse x → x ∉ ms →
    (u.slotOf x).children = (t.slotOf x).children
  marker {x : Handle} : t.InUse x → u.InUse x → (∀ m ∈ ms, (t.slotOf x).parent ≠ some m) →
    (u.slotOf x).marker = (t.slotOf x).marker

/-- A text that stands alone has been added. -/
theorem touched_alloc (hl : t.WellLinked) (s : String) :
    Touched t [] (t.alloc (.text s)).2 := by
  have ha := Linked.allocated hl (.text s)
  have hg := ha.grown hl
  -- The only node in use that was not before is the new text
  constructor
  case wellLinked =>
    exact hg.wellLinked
  case identity =>
    exact ha.extended.identity
  case fresh =>
    intro x hx hnew
    rw [((ha.inUse_iff x).1 hx).resolve_right hnew, ha.marker]
    rfl
  case kept =>
    intro x hx hxu
    refine ⟨hx, hxu, ?_, hg.ancestors_eq hl hx⟩
    rw [hxu.placeholder?_eq, hx.placeholder?_eq, hg.kept x hx]
  case children =>
    exact fun hx _ _ => by rw [hg.kept _ hx]
  case marker =>
    exact fun hx _ _ => by rw [hg.kept _ hx]

/-! ## A node that has come to show a text -/

/-- What is true of a tree in which a node has come to show a text. -/
structure Wrote (t : Tree) (m : Handle) (s : String) (u : Tree) : Prop
    extends Touched t [m] u where
  inUse {x : Handle} : t.InUse x → x = m ∨ x ∉ t.walk m → u.InUse x
  flat : u.Flat m s
  generation (x : Handle) : (u.slotOf x).generation = (t.slotOf x).generation ∨
    (u.slotOf x).generation = (t.slotOf x).generation + 1
  lost {x : Handle} : t.InUse x → u.InUse x ∨
    (u.slotOf x).generation = (t.slotOf x).generation + 1

/-- What is above a node that is not below another one is not below that one either. -/
theorem WellLinked.outside_of_above {y : Handle} (hl : t.WellLinked) (hm : t.InUse m)
    (hx : t.InUse x) (hleft : x = m ∨ x ∉ t.walk m) (hy : t.isAncestorOrSelf y x) :
    y = m ∨ y ∉ t.walk m := by
  refine Decidable.or_iff_not_imp_right.2 fun hmem => ?_
  have hmy := ((hl.mem_walk_iff hm).1 (Decidable.of_not_not hmem)).2
  rcases hleft with rfl | hnot
  · exact hl.above_antisymm hx hy hmy
  · exact absurd ((hl.mem_walk_iff hm).2 ⟨hx, Linked.above_trans hl hx hy hmy⟩) hnot

theorem Shown.kept (hs : Shown t m u) (hl : t.WellLinked) (hm : t.InUse m) (hx : t.InUse x)
    (hleft : x = m ∨ x ∉ t.walk m) : Kept t u x := by
  have hxu := hs.inUse hx hleft
  refine ⟨hx, hxu, ?_, Linked.ancestors_congr hl hs.wellLinked hx hxu fun y hy hyx => ?_⟩
  · rw [hxu.placeholder?_eq, hx.placeholder?_eq, hs.marker hx hleft]
  · exact hs.parent hy (hl.outside_of_above hm hx hleft hyx)

theorem succ_ne_self (g : UInt32) : g + 1 ≠ g := by
  intro h
  have := congrArg UInt32.toNat h
  rw [UInt32.toNat_add] at this
  have hlt := g.toNat_lt
  simp at this
  omega

/-- What is left was not below the node: the slots there have been given back. -/
theorem Overwritten.left (ho : Overwritten t m s u) (hx : t.InUse x) (hxu : u.InUse x) :
    x = m ∨ x ∉ t.walk m := by
  refine Decidable.or_iff_not_imp_left.2 fun hne hmem => succ_ne_self (t.slotOf x).generation ?_
  rw [← ho.gone hmem hne, (owns_iff.1 hxu.owned).2.2, (owns_iff.1 hx.owned).2.2]

theorem Overwritten.wrote (ho : Overwritten t m s u) (hl : t.WellLinked) (hm : t.InUse m) :
    Wrote t m s u := by
  -- Only the tab stop itself has other nodes inside than before
  have htouched : Touched t [m] u := by
    constructor
    case wellLinked =>
      exact ho.wellLinked
    case identity =>
      exact ho.identity
    case fresh =>
      intro x hx hnew
      exact (ho.texts x (Decidable.byContradiction fun hnot => hnew (ho.old hx hnot).1)).1
    case kept =>
      exact fun hx hxu => ho.kept hl hm hx (ho.left hx hxu)
    case children =>
      intro x hx hxu hne
      exact ho.children hx ((ho.left hx hxu).resolve_left (by simpa using hne))
    case marker =>
      exact fun hx hxu _ => ho.marker hx (ho.left hx hxu)
  refine ⟨htouched, ho.inUse, ho.flat, ho.generation, fun {x} hx => ?_⟩
  by_cases hxm : x = m ∨ x ∉ t.walk m
  · exact Or.inl (ho.inUse hx hxm)
  · rw [not_or, Decidable.not_not] at hxm
    exact Or.inr (ho.gone hxm.2 hxm.1)

theorem marker_setMarker (hc : t.InUse c) (hx : t.InUse x) (k : Marker) :
    ((t.setMarker c k).slotOf x).marker = if x = c then k else (t.slotOf x).marker := by
  rw [setMarker, if_pos hc.owned, slotOf_modifySlot hc.slot_lt]
  simp only [slot_eq_iff hx.owned hc.owned]
  split <;> rfl

/-- The text below a node is changed in its place. -/
theorem wrote_setMarker {old : String} (hl : t.WellLinked) (hm : t.InUse m)
    (hone : (t.slotOf m).children = [c]) (hold : (t.slotOf c).marker = .text old) (hs : s ≠ "") :
    Wrote t m s (t.setMarker c (.text s)) := by
  have hlinks := sameLinks_setMarker t c (.text s)
  obtain ⟨hc, hup⟩ := Linked.child hl hm (c := c) (by simp [hone])
  have hat {x : Handle} (hx : t.InUse x) : ((t.setMarker c (.text s)).slotOf x).marker =
      if x = c then .text s else (t.slotOf x).marker := marker_setMarker hc hx _
  have htouched : Touched t [m] (t.setMarker c (.text s)) := by
    constructor
    case wellLinked =>
      exact hlinks.wellLinked hl
    case identity =>
      exact hlinks.identity
    case fresh =>
      exact fun hx hnew => absurd (hlinks.inUse_iff.1 hx) hnew
    case kept =>
      intro x hx hxu
      refine ⟨hx, hxu, ?_, hlinks.ancestors_eq hl hx⟩
      rw [hxu.placeholder?_eq, hx.placeholder?_eq, hat hx]
      split
      · next hxc =>
        rw [hxc, hold]
        rfl
      · rfl
    case children =>
      exact fun _ _ _ => hlinks.children _
    case marker =>
      intro x hx _ hne
      have hxc : x ≠ c := by
        rintro rfl
        exact hne m (List.mem_singleton_self m) hup
      rw [hat hx, if_neg hxc]
  exact ⟨htouched, fun hx _ => hlinks.inUse_iff.2 hx,
    Or.inr ⟨hs, c, (hlinks.children m).trans hone, by rw [hat hc, if_pos rfl]⟩,
    fun x => Or.inl (hlinks.generation x), fun hx => Or.inl (hlinks.inUse_iff.2 hx)⟩

theorem Touched.refl (hl : t.WellLinked) (ms : List Handle) : Touched t ms t where
  wellLinked := hl
  identity := rfl
  fresh hx hnew := absurd hx hnew
  kept hx _ := .refl hx
  children _ _ _ := rfl
  marker _ _ _ := rfl

theorem Wrote.refl (hl : t.WellLinked) (hflat : t.Flat m s) : Wrote t m s t :=
  ⟨.refl hl [m], fun hx _ => hx, hflat, fun _ => Or.inl rfl, fun hx => Or.inl hx⟩

theorem wrote_showText (hl : t.WellLinked) (hm : t.InUse m) (s : String) :
    Wrote t m s (t.showText m s).2 := by
  rcases showText_cases hl hm s with ⟨hshow, hflat⟩ | ⟨c, old, hone, hold, hs, hshow⟩ |
    ⟨u, hshow, hover⟩
  · rw [hshow]
    exact .refl hl hflat
  · rw [hshow]
    exact wrote_setMarker hl hm hone hold hs
  · rw [hshow]
    exact hover.wrote hl hm

/-- Whether a change is told is whether there is one. -/
theorem showText_unchanged (hl : t.WellLinked) (hm : t.InUse m)
    (hfst : (t.showText m s).1 = false) : t.showText m s = (false, t) := by
  rcases showText_cases hl hm s with ⟨hshow, -⟩ | ⟨c, old, -, -, -, hshow⟩ | ⟨u, hshow, -⟩
  · exact hshow
  · simp [hshow] at hfst
  · simp [hshow] at hfst

/-- A node that shows a text already is left as it is. -/
theorem Flat.showText (hf : t.Flat m s) (hl : t.WellLinked) (hm : t.InUse m) :
    t.showText m s = (false, t) := by
  unfold Tree.showText
  rw [WellLinked.children_eq hm]
  rcases hf with ⟨hs, hnil⟩ | ⟨hs, c, hone, hmarker⟩
  · rw [hnil]
    simp [hs]
  · have hc := (Linked.child hl hm (c := c) (by simp [hone])).1
    have htext : (t.marker? c).bind Marker.text? = some s := by
      rw [marker?, if_pos hc.owned, hmarker]
      rfl
    have hempty : s.isEmpty = false := by simpa using hs
    rw [hone]
    simp only [htext, hempty, ↓reduceIte]

/-! ## What a node shows -/

/-- A tab stop that shows a text and nothing else shows that text. -/
theorem Flat.render (hf : t.Flat m s) (hl : t.WellLinked) (hm : t.InUse m)
    (hp : (t.placeholder? m).isSome) : t.render m = s := by
  have hown : (t.slotOf m).marker.ownText? = none := by
    rw [hm.placeholder?_eq] at hp
    cases hk : (t.slotOf m).marker <;> simp [hk, Marker.placeholder?] at hp
    rfl
  rw [hl.render_eq hm, hown]
  rcases hf with ⟨hs, hnil⟩ | ⟨-, c, hone, hmarker⟩
  · rw [hnil, hs]
    rfl
  · have hc := (Linked.child hl hm (c := c) (by simp [hone])).1
    rw [hone, List.map_singleton, hl.render_eq hc, hmarker]
    simp [Marker.ownText?, String.join]

namespace Touched

variable {ms : List Handle}

/-- Another node that shows a text goes on to show it, if it is left. -/
theorem flat_of_flat (ht : Touched t ms u) (hl : t.WellLinked) (hn : t.InUse n) (hnu : u.InUse n)
    (hnms : n ∉ ms) (hf : t.Flat n s) : u.Flat n s := by
  have hchildren := ht.children hn hnu hnms
  rcases hf with ⟨hs, hnil⟩ | ⟨hs, c, hone, hmarker⟩
  · exact Or.inl ⟨hs, hchildren.trans hnil⟩
  · obtain ⟨hc, hup⟩ := Linked.child hl hn (c := c) (by simp [hone])
    have hcu := (Linked.child ht.wellLinked hnu (c := c) (by simp [hchildren, hone])).1
    refine Or.inr ⟨hs, c, hchildren.trans hone, ?_⟩
    rw [ht.marker hc hcu fun m hm heq => ?_, hmarker]
    rw [hup] at heq
    exact hnms (Option.some.inj heq ▸ hm)

/-- A node shows what it showed if those that have been touched below it do. -/
theorem render_eq (ht : Touched t ms u) (hl : t.WellLinked) (hx : t.InUse x) (hxu : u.InUse x)
    (hsame : ∀ m ∈ ms, m ∈ t.walk x → u.render m = t.render m)
    (hmarker : (u.slotOf x).marker = (t.slotOf x).marker) : u.render x = t.render x := by
  revert hxu hsame hmarker
  -- The texts are compared node by node, from the bottom up
  refine hl.induction_below (P := fun x => u.InUse x →
    (∀ m ∈ ms, m ∈ t.walk x → u.render m = t.render m) →
      (u.slotOf x).marker = (t.slotOf x).marker → u.render x = t.render x)
    (fun x hx ih hxu hsame hmarker => ?_) hx
  by_cases hxms : x ∈ ms
  · exact hsame x hxms (hl.mem_walk_self hx)
  · have hchildren := ht.children hx hxu hxms
    have hbelow : ∀ c ∈ (t.slotOf x).children, u.render c = t.render c := by
      intro c hc
      obtain ⟨hct, hcup⟩ := Linked.child hl hx hc
      have hcu := (Linked.child ht.wellLinked hxu (hchildren ▸ hc)).1
      refine ih c hc hcu (fun m hm hmem => hsame m hm ?_) (ht.marker hct hcu fun m hm heq => ?_)
      · exact (hl.mem_walk_cons hx).2 (Or.inr ⟨c, hc, hmem⟩)
      · rw [hcup] at heq
        exact hxms (Option.some.inj heq ▸ hm)
    rw [ht.wellLinked.render_eq hxu, hl.render_eq hx, hmarker, hchildren,
      List.map_congr_left hbelow]

end Touched

end TabStop.Tree
