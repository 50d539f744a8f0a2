import TabStop.Proofs.Repeat.Consistency
import TabStop.Proofs.Document.Frame

/-!
# When repeating keeps the frame

In the first pass the tab stops that repeat others lose what was inside of them. From then on they
have nothing in them but text: what later passes do is to change texts, and no node of the frame is
lost or moved.
-/

namespace TabStop.Tree

variable {t u v : Tree} {c h m p q x : Handle} {hs : List Handle} {i j : TabIndex} {s : String}

/-! ## Bare tab stops -/

/-- A node has nothing in it but text. -/
def Bare (t : Tree) (m : Handle) : Prop :=
  ∀ c ∈ (t.slotOf m).children, (t.slotOf c).marker.text?.isSome ∧ (t.slotOf c).children = []

/-- The tab stops that repeat others have nothing in them but text. -/
def Calm (t : Tree) : Prop := ∀ p ∈ t.leaders, ∀ m, t.Follows m p → t.Bare m

namespace WellLinked

theorem mem_walk_bare (hl : t.WellLinked) (hm : t.InUse m) (hbare : t.Bare m) :
    x ∈ t.walk m ↔ x = m ∨ x ∈ (t.slotOf m).children := by
  have hchild {c : Handle} (hc : c ∈ (t.slotOf m).children) : t.walk c = [c] := by
    rw [hl.walk_eq (Linked.child hl hm hc).1, (hbare c hc).2]
    rfl
  rw [hl.mem_walk_cons hm]
  refine or_congr_right ⟨?_, fun hx => ⟨x, hx, ?_⟩⟩
  · rintro ⟨c, hc, hx⟩
    rw [hchild hc, List.mem_singleton] at hx
    exact hx ▸ hc
  · rw [hchild hx]
    exact List.mem_singleton_self x

/-- A node that is no text is not inside of a bare one. -/
theorem outside_of_bare (hl : t.WellLinked) (hm : t.InUse m) (hbare : t.Bare m)
    (htext : (t.slotOf x).marker.text? = none) : x = m ∨ x ∉ t.walk m := by
  apply Decidable.or_iff_not_imp_left.2
  intro hne hmem
  rw [hl.mem_walk_bare hm hbare] at hmem
  have := (hbare x (hmem.resolve_left hne)).1
  simp [htext] at this

/-- What is inside of `m` is so with its parent. -/
theorem outside_child (hl : t.WellLinked) (hm : t.InUse m) (hx : t.InUse x) (hout : x ∉ t.walk m)
    (hc : c ∈ (t.slotOf x).children) : c = m ∨ c ∉ t.walk m := by
  apply Decidable.or_iff_not_imp_left.2
  intro hne hmem
  apply hout
  rw [hl.mem_walk_of_ne hm (Linked.child hl hx hc).1 hne, Linked.ancestors_child hl hx hc] at hmem
  exact (hl.mem_walk_iff hm).2 ⟨hx, isAncestorOrSelf_iff.2 hmem⟩

theorem descendants_eq (hl : t.WellLinked) (hh : t.InUse h) :
    t.descendants h = (t.slotOf h).children.flatMap t.walk := by
  rw [descendants, hl.walk_eq hh]
  rfl

/-- Below a bare node there is nothing of the frame. -/
theorem filter_descendants_bare (hl : t.WellLinked) (hm : t.InUse m) (hbare : t.Bare m) :
    ((t.descendants m).filter fun x => (t.slotOf x).marker.text?.isNone) = [] := by
  apply List.filter_eq_nil_iff.2
  intro x hx
  rw [hl.descendants_eq hm, List.mem_flatMap] at hx
  obtain ⟨c, hc, hx⟩ := hx
  rw [hl.walk_eq (Linked.child hl hm hc).1, (hbare c hc).2] at hx
  obtain rfl : x = c := by simpa using hx
  simp [Option.isNone_iff_eq_none, Option.isSome_iff_ne_none.1 (hbare x hc).1]

end WellLinked

/-! ## Changing a text -/

/-- Two trees of one frame whose code blocks have the same outputs. -/
structure Retold (t u : Tree) : Prop extends Alike t u where
  marker_eq {x : Handle} : x ∈ t.frame → (u.slotOf x).marker = (t.slotOf x).marker

namespace Retold

theorem refl (hl : t.WellLinked) : Retold t t := ⟨.refl hl, fun _ => rfl⟩

theorem trans (hu : Retold t u) (hv : Retold u v) : Retold t v :=
  ⟨hu.toAlike.trans hv.toAlike, fun hx => by
    rw [hv.marker_eq (hu.frame_eq ▸ hx), hu.marker_eq hx]⟩

end Retold

/-- What is below a node that is left is left, but for the text of the bare one. -/
theorem Shown.filter_descendants (hs : Shown t m u) (hl : t.WellLinked) (hm : t.InUse m)
    (hbare : t.Bare m) (hx : t.InUse x) (hleft : x = m ∨ x ∉ t.walk m) :
    ((u.descendants x).filter fun y => (u.slotOf y).marker.text?.isNone) =
      (t.descendants x).filter fun y => (t.slotOf y).marker.text?.isNone := by
  revert hleft
  -- Induction from below. Where the text is shown there are texts only, before and after
  refine hl.induction_below (P := fun x => (x = m ∨ x ∉ t.walk m) →
    ((u.descendants x).filter fun y => (u.slotOf y).marker.text?.isNone) =
      (t.descendants x).filter fun y => (t.slotOf y).marker.text?.isNone)
    (fun x hx ih hleft => ?_) hx
  have hxu := hs.inUse hx hleft
  by_cases hxm : x = m
  · subst hxm
    rw [hs.wellLinked.filter_descendants_bare hxu hs.texts, hl.filter_descendants_bare hx hbare]
  · have hout := hleft.resolve_left hxm
    rw [hs.wellLinked.descendants_eq hxu, hl.descendants_eq hx, hs.children hx hout,
      List.filter_flatMap, List.filter_flatMap, List.flatMap_def, List.flatMap_def]
    refine congrArg List.flatten (List.map_congr_left fun c hc => ?_)
    have hcu := (Linked.child hl hx hc).1
    have hcleft := hl.outside_child hm hx hout hc
    have hwalk {w : Tree} (hw : w.WellLinked) (hcw : w.InUse c) :
        w.walk c = c :: w.descendants c := by rw [hw.descendants_eq hcw, hw.walk_eq hcw]
    rw [hwalk hs.wellLinked (hs.inUse hcu hcleft), hwalk hl hcu, List.filter_cons,
      List.filter_cons, hs.marker hcu hcleft, ih c hc hcleft]

/-- When a bare node comes to show a text, the frame is kept. -/
theorem Shown.retold (hs : Shown t m u) (hl : t.WellLinked) (hm : t.InUse m)
    (hbare : t.Bare m) : Retold t u := by
  have hroot : u.root = t.root := by simp [root, hs.identity]
  have hleft {x : Handle} (hx : x ∈ t.frame) : t.InUse x ∧ (x = m ∨ x ∉ t.walk m) := by
    obtain ⟨hinUse, -, htext⟩ := hl.mem_frame_iff.1 hx
    exact ⟨hinUse, hl.outside_of_bare hm hbare htext⟩
  -- The root is not below any other node
  have hrootLeft : t.root = m ∨ t.root ∉ t.walk m := by
    apply Decidable.or_iff_not_imp_left.2
    intro hne hmem
    rw [hl.mem_walk_of_ne hm (Linked.root_inUse hl) hne, hl.ancestors_root] at hmem
    simp at hmem
  refine ⟨⟨hs.wellLinked, hs.identity, ?_, fun hx => ?_, fun {x y} hx hy => ?_⟩, fun hx => ?_⟩
  · rw [frame, frame, hroot]
    exact hs.filter_descendants hl hm hbare (Linked.root_inUse hl) hrootLeft
  · exact (hs.kept hl hm (hleft hx).1 (hleft hx).2).ancestors_eq
  · have habove := isAncestorOrSelf_iff.2 hy
    rw [hs.marker (Linked.above_inUse hl (hleft hx).1 habove)
      (hl.outside_of_above hm (hleft hx).1 (hleft hx).2 habove)]
  · exact hs.marker (hleft hx).1 (hleft hx).2

/-- Another bare node stays bare. -/
theorem Shown.bare (hs : Shown t m u) (hl : t.WellLinked) (hm : t.InUse m) (hx : t.InUse x)
    (hout : x ∉ t.walk m) (htext : (t.slotOf m).marker.text? = none) (hbare : t.Bare x) :
    u.Bare x := by
  intro c hc
  rw [hs.children hx hout] at hc
  have hcu := (Linked.child hl hx hc).1
  have hcout : c ∉ t.walk m := by
    apply (hl.outside_child hm hx hout hc).resolve_left
    rintro rfl
    simpa [htext] using (hbare c hc).1
  rw [hs.marker hcu (Or.inr hcout), hs.children hcu hcout]
  exact hbare c hc

/-! ## Repeating in a calm document -/

namespace Calm

/-- A tab stop that repeats another one keeps the frame. -/
theorem followed (hc : t.Calm) (hl : t.WellLinked) (hp : p ∈ t.leaders) (hm : m ∈ t.placeholders)
    (hindex : t.index? m = t.index? p) (s : String) :
    Retold t (t.followed p s m) ∧ (t.followed p s m).Calm := by
  rw [Tree.followed]
  split
  · exact ⟨.refl hl, hc⟩
  next habove =>
  have hf : t.Follows m p := ⟨hm, hindex, Bool.eq_false_iff.2 habove⟩
  have hbare := hc p hp m hf
  obtain ⟨hmwalk, htext⟩ := hl.mem_walk_root_of_placeholder hm
  have hmu := hl.inUse_of_mem_placeholders hm
  have hs := shown_showText hl hmu (fun d hd _ => (hbare d hd).2) (t.repeatedText p m s)
  -- A bare tab stop has texts only, so showing one in it retells the same tree
  have hr := hs.retold hl hmu hbare
  refine ⟨hr, fun q hq n hn => ?_⟩
  rw [hr.leaders_eq hl] at hq
  rw [hr.follows_iff hl (mem_leaders_iff.1 hq).1] at hn
  by_cases hnm : n = m
  · subst hnm
    exact hs.texts
  · have hnwalk := hl.mem_walk_root_of_placeholder hn.mem
    exact hs.bare hl hmu (hl.inUse_of_mem_placeholders hn.mem)
      ((hl.outside_of_bare hmu hbare hnwalk.2).resolve_left hnm) htext (hc q hq n hn)

theorem foldl_followed (hc : t.Calm) (hl : t.WellLinked) (hp : p ∈ t.leaders)
    (hhs : ∀ m ∈ hs, m ∈ t.placeholders ∧ t.index? m = t.index? p) (s : String) :
    Retold t (hs.foldl (Tree.followed p s) t) ∧ (hs.foldl (Tree.followed p s) t).Calm := by
  induction hs generalizing t with
  | nil => exact ⟨.refl hl, hc⟩
  | cons m hs ih =>
    obtain ⟨⟨hm, hindex⟩, hhs⟩ := List.forall_mem_cons.1 hhs
    obtain ⟨hr, hcalm⟩ := hc.followed hl hp hm hindex s
    have hpf := hl.mem_frame_of_placeholder (mem_leaders_iff.1 hp).1
    obtain ⟨hrest, hlast⟩ := ih hcalm hr.wellLinked (hr.leaders_eq hl ▸ hp) fun n hn => by
      rw [hr.placeholders_eq hl, hr.index?_eq hl hpf,
        hr.index?_eq hl (hl.mem_frame_of_placeholder (hhs n hn).1)]
      exact hhs n hn
    exact ⟨hr.trans hrest, hlast⟩

theorem turn (hc : t.Calm) (hl : t.WellLinked) (hp : p ∈ t.leaders) :
    Retold t (t.turn p) ∧ (t.turn p).Calm := by
  obtain ⟨i, hi, hturn⟩ := turn_of_mem hl hp
  rw [hturn]
  apply hc.foldl_followed hl hp
  intro m hm
  obtain ⟨hm, hindex⟩ := List.mem_filter.1 hm
  exact ⟨hm, by rw [hi]; simpa using hindex⟩

theorem repeatPass (hc : t.Calm) (ht : t.Repeatable) :
    Retold t t.repeatPass.2 ∧ t.repeatPass.2.Calm := by
  refine (ht.pass_induction (P := fun _ u => Retold t u ∧ u.Calm) ⟨.refl ht.wellLinked, hc⟩
    (fun _ _ hu => hu) ?_).2
  rintro _ u p - - hp ⟨hr, hcalm⟩
  obtain ⟨hturn, hlast⟩ := hcalm.turn hr.wellLinked hp
  exact ⟨hr.trans hturn, hlast⟩

/-- Repeating all tab stops keeps the frame of a calm document. -/
theorem repeatPasses (hc : t.Calm) (ht : t.Repeatable) (n : Nat) :
    Retold t (repeatPasses n t) ∧ (repeatPasses n t).Calm := by
  have hl := ht.wellLinked
  induction n generalizing t with
  | zero => exact ⟨.refl hl, hc⟩
  | succ n ih =>
    obtain ⟨hpass, hcalm⟩ := hc.repeatPass ht
    rw [Repeatable.repeatPasses_eq hl]
    obtain ⟨hrest, hlast⟩ := ih hcalm (hpass.repeatable ht) hpass.wellLinked
    exact ⟨hpass.trans hrest, hlast⟩

end Calm

/-! ## The first pass -/

/-- In the first pass each tab stop that repeats another one comes to show one text. -/
theorem Repeatable.flat_repeatPass (ht : t.Repeatable) (hp : p ∈ t.repeatPass.2.leaders)
    (hf : t.repeatPass.2.Follows m p) : ∃ s, t.repeatPass.2.Flat m s := by
  refine ht.pass_leaders (P := fun u p => ∀ m, u.Follows m p → ∃ s, u.Flat m s) ?_ ?_ hp m hf
  · intro u q hu hq hqv m hf
    obtain ⟨ms, hturning, hms⟩ := hu.turning hq
    have hremains := hturning.writes.remains hu.wellLinked
    have hft := hremains.follows hu.wellLinked (mem_leaders_iff.1 hqv).1 hf
    exact ⟨_, hturning.flat (hms m hft) hft (hremains.kept_of_mem hf.mem).inUse
      (isSome_of_mem_placeholders hf.mem)⟩
  · intro u p q hu hp hq hqp hflat m hf
    obtain ⟨ms, hturning, -⟩ := hu.turning hp
    have hremains := hturning.writes.remains hu.wellLinked
    have hft := hremains.follows hu.wellLinked (mem_leaders_iff.1 hq).1 hf
    obtain ⟨s, hflat⟩ := hflat m hft
    refine ⟨s, hturning.writes.flat hu.wellLinked (hremains.kept_of_mem hf.mem).inUse
      (isSome_of_mem_placeholders hf.mem) ?_ hflat⟩
    -- It follows one primary tab stop only, so nothing happens to it in the turn of another one
    rintro n _ ⟨hfn, -⟩ rfl
    exact hqp (hu.single q (hremains.mem_leaders hu.wellLinked hq) p hp
      (hft.index?_eq.symm.trans hfn.index?_eq))

theorem Flat.text (hf : t.Flat m s) (hc : c ∈ (t.slotOf m).children) :
    (t.slotOf c).marker.text?.isSome := by
  rcases hf with ⟨-, hnil⟩ | ⟨-, d, hone, hmarker⟩
  · simp [hnil] at hc
  · obtain rfl : c = d := by simpa [hone] using hc
    rw [hmarker]
    rfl

namespace Unrepeated

theorem repeatable (ht : t.Unrepeated) (hcapacity : t.capacity ≤ 2 ^ 32) : t.Repeatable :=
  ht.wellLinked.repeatable hcapacity fun _ hi => ht.single hi

theorem calm_repeatPass (ht : t.Unrepeated) (hcapacity : t.capacity ≤ 2 ^ 32) :
    t.repeatPass.2.Calm := by
  have hcleared := ht.repeatPass hcapacity
  intro p hp m hf c hc
  obtain ⟨s, hflat⟩ := (ht.repeatable hcapacity).flat_repeatPass hp hf
  have hm := hf.mem
  rw [hcleared.placeholders_eq ht.wellLinked] at hm
  obtain ⟨hm, hbelow⟩ := List.mem_filter.1 hm
  have htext := hflat.text hc
  exact ⟨htext, hcleared.text_children ht hm (by simpa using hbelow) c hc htext⟩

end Unrepeated

/-! ## Documents that can be kept up to date -/

/-- A document that can be brought up to date without any node of its frame being lost. -/
structure Steady (t : Tree) : Prop extends Repeatable t where
  calm : t.Calm

/-- The primary tab stops of grounded indexes are settled. -/
def UpToDate (t : Tree) : Prop :=
  ∀ p ∈ t.leaders, ∀ i, t.index? p = some i → t.Grounded i → t.Settled p

/-- Once the first pass has made a document calm, it keeps its frame, and it is brought up to date. -/
theorem Repeatable.steady_repeatAll (ht : t.Repeatable) (hcalm : t.repeatPass.2.Calm) :
    Retold t.repeatPass.2 t.repeatAll ∧ t.repeatAll.Steady ∧ t.repeatAll.UpToDate := by
  have hl := ht.wellLinked
  have hpass := ht.remains_repeatPass
  obtain ⟨hr, hlast⟩ := hcalm.repeatPasses (hpass.repeatable ht) t.placeholders.length
  have hall : t.repeatAll = Tree.repeatPasses t.placeholders.length t.repeatPass.2 :=
    repeatPasses_eq hl _
  rw [← hall] at hr hlast
  have hsymm := hr.symm hpass.wellLinked
  refine ⟨hr, ⟨hr.repeatable (hpass.repeatable ht), hlast⟩, fun p hp i hi hg => ?_⟩
  apply ht.settled_of_repeatPass.2 p hp
  intro j hj
  -- The frame tells the index, and which indexes are grounded
  have hpf := hr.wellLinked.mem_frame_of_placeholder (mem_leaders_iff.1 hp).1
  rw [hsymm.index?_eq hr.wellLinked hpf, hi] at hj
  rw [← Option.some.inj hj]
  exact hsymm.grounded hr.wellLinked hg

theorem Steady.repeatAll (ht : t.Steady) :
    Retold t t.repeatAll ∧ t.repeatAll.Steady ∧ t.repeatAll.UpToDate := by
  obtain ⟨hpass, hcalm⟩ := ht.calm.repeatPass ht.toRepeatable
  obtain ⟨hr, hsteady⟩ := ht.toRepeatable.steady_repeatAll hcalm
  exact ⟨hpass.trans hr, hsteady⟩

/-- When a source has been read and its tab stops have been repeated, it can be kept up to date. -/
theorem Unrepeated.steady_repeatAll (ht : t.Unrepeated) (hcapacity : t.capacity ≤ 2 ^ 32) :
    t.repeatAll.Steady ∧ t.repeatAll.UpToDate :=
  ((ht.repeatable hcapacity).steady_repeatAll (ht.calm_repeatPass hcapacity)).2

end TabStop.Tree
