import TabStop.Proofs.Repeat.FinalStop
import TabStop.Proofs.Edit.Typing

/-!
# The slots that typing takes

Typing makes new text each time, and so may the tab stops that repeat what is typed. But the text
that was there gives its slot back, and a new text takes a free slot if there is one. In a snippet
that has been brought up to date, no tab stop is ever new, and each of them has one new node in it at
most. So however much is typed, the slots are as many as at the beginning, and one more for each tab
stop, and one for a text on its way.
-/

namespace TabStop.Tree

variable {t u v : Tree} {m p x : Handle} {hs : List Handle} {s : String}

/-! ## How many slots there are -/

theorem capacity_foldl {α : Type} {f : Tree → α → Tree} (hf : ∀ t a, (f t a).capacity = t.capacity)
    (as : List α) (t : Tree) : (as.foldl f t).capacity = t.capacity := by
  induction as generalizing t with
  | nil => rfl
  | cons a as ih => rw [List.foldl_cons, ih, hf]

theorem capacity_freeSlot (t : Tree) (h : Handle) : (t.freeSlot h).capacity = t.capacity :=
  modifySlot_size t h _

theorem capacity_release (t : Tree) (h : Handle) : ((release h).after t).capacity = t.capacity := by
  rcases release_cases t h with ⟨-, -, -, hperform⟩ | hrefuses
  · rw [after_of_perform hperform]
    exact capacity_foldl capacity_freeSlot _ t
  · rw [hrefuses.after_eq]

theorem capacity_overwrite (t : Tree) (p : Handle) (cs : List Handle) :
    ((overwrite p cs).after t).capacity = t.capacity := by
  rcases overwrite_cases t p cs with ⟨-, -, hperform⟩ | ⟨-, hrefuses⟩
  · rw [after_of_perform hperform, releaseOrphans, capacity_foldl fun u c => ?_]
    · exact (sameSlots_replaced t p cs).size
    · split
      · exact capacity_release u c
      · rfl
  · rw [hrefuses.after_eq]

/-- To show a text takes the slot of one new node, if it takes any. -/
theorem capacity_showText (t : Tree) (m : Handle) (s : String) :
    (t.showText m s).2.capacity = t.capacity ∨
      (t.showText m s).2.capacity = (t.alloc (.text s)).2.capacity := by
  -- A slot is needed at most for the new text
  have hover : (t.overwriteText m s).2.capacity = t.capacity ∨
      (t.overwriteText m s).2.capacity = (t.alloc (.text s)).2.capacity := by
    have htree : (t.overwriteText m s).2 =
        ((do overwrite m (← newText s) : Edit Unit).perform t).2 := by
      unfold overwriteText
      split <;> next hperform => rw [hperform]
    rw [htree, Edit.perform_bind, newText_perform]
    cases s.isEmpty with
    | true => exact Or.inl (capacity_overwrite t m [])
    | false => exact Or.inr (capacity_overwrite _ m [(t.alloc (.text s)).1])
  unfold showText
  split
  · split
    · exact Or.inl rfl
    · exact hover
  · split
    · split
      · exact Or.inl rfl
      · exact Or.inl (sameLinks_setMarker t _ _).size
    · exact hover
  · exact hover

/-! ## What is in use -/

/-- What is true of a tree that typing into `t` has led to: what is in use was so before, or is the
only thing in a tab stop that was there before. -/
structure Housed (t u : Tree) : Prop where
  remains : Remains t u
  house {x : Handle} : u.InUse x → t.InUse x ∨
    ∃ p ∈ t.placeholders, (u.slotOf x).parent = some p ∧ (u.slotOf p).children = [x]
  capacity_le : u.capacity ≤ t.capacity + t.placeholders.length + 1

/-- The handles that the tree owns, one for each slot. -/
def owners (t : Tree) : List Handle :=
  (List.range t.capacity).map fun i => ⟨t.identity, i, (t.slots.getD i default).generation⟩

theorem nodup_owners (t : Tree) : t.owners.Nodup :=
  List.nodup_range.map fun _ _ heq => (Handle.mk.inj heq).2.1

theorem inUse_of_mem_owners (hfree : t.free = []) (hx : x ∈ t.owners) : t.InUse x := by
  obtain ⟨i, hi, rfl⟩ := List.mem_map.1 hx
  exact inUse_iff.2 ⟨rfl, List.mem_range.1 hi, rfl, by simp [hfree]⟩

namespace Housed

theorem refl (hl : t.WellLinked) : Housed t t := ⟨.refl hl, Or.inl, by omega⟩

/-- If all slots are in use, each is of a node that was there before or of one in a tab stop that
was. -/
theorem capacity_le_of_full (hh : Housed t u) (hfree : u.free = []) :
    u.capacity ≤ t.capacity + t.placeholders.length := by
  classical
  have hsplit := List.length_eq_length_filter_add (l := u.owners) fun x => decide (t.InUse x)
  have hold : (u.owners.filter fun x => decide (t.InUse x)).length ≤ t.capacity :=
    length_le_capacity (by simp) (u.nodup_owners.filter _)
  -- A tab stop has no more than one of the new nodes in it
  have hnew : (u.owners.filter fun x => !decide (t.InUse x)).length ≤ t.placeholders.length := by
    have hhouse {x : Handle} (hx : x ∈ u.owners.filter fun x => !decide (t.InUse x)) :
        ∃ p ∈ t.placeholders, (u.slotOf x).parent = some p ∧ (u.slotOf p).children = [x] := by
      obtain ⟨hmem, hnot⟩ := List.mem_filter.1 hx
      exact (hh.house (inUse_of_mem_owners hfree hmem)).resolve_left (by simpa using hnot)
    have hnodup : ((u.owners.filter fun x => !decide (t.InUse x)).map fun x =>
        (u.slotOf x).parent).Nodup := by
      refine List.Nodup.map_on (fun x hx y hy heq => ?_) (u.nodup_owners.filter _)
      obtain ⟨p, -, hxp, hpx⟩ := hhouse hx
      obtain ⟨q, -, hyq, hqy⟩ := hhouse hy
      obtain rfl : p = q := Option.some.inj (hxp.symm.trans (heq.trans hyq))
      exact List.singleton_inj.1 (hpx.symm.trans hqy)
    have hsub : ((u.owners.filter fun x => !decide (t.InUse x)).map fun x =>
        (u.slotOf x).parent) ⊆ t.placeholders.map some := by
      intro y hy
      obtain ⟨x, hx, rfl⟩ := List.mem_map.1 hy
      obtain ⟨p, hp, hxp, -⟩ := hhouse hx
      exact List.mem_map.2 ⟨p, hp, hxp.symm⟩
    simpa using hnodup.length_le_of_subset hsub
  rw [owners, List.length_map, List.length_range] at hsplit
  rw [owners] at hold hnew
  omega

/-- There is room for one more node. -/
theorem capacity_alloc_le (hh : Housed t u) (m : Marker) :
    (u.alloc m).2.capacity ≤ t.capacity + t.placeholders.length + 1 := by
  unfold alloc
  split
  · next i free hfree =>
    refine Nat.le_trans (Nat.le_of_eq ?_) hh.capacity_le
    simp [capacity]
  · next hfree =>
    have hfull := hh.capacity_le_of_full hfree
    simpa [capacity] using hfull

/-- A tab stop that was there before gets a new text, or none, and loses what was in it. -/
theorem shown (hh : Housed t u) (ht : t.WellLinked) (hs : Shown u m v) (hr : Remains u v)
    (hm : m ∈ t.placeholders) (hmu : u.InUse m)
    (hone : ∀ x ∈ (v.slotOf m).children, (v.slotOf m).children = [x])
    (hold : ∀ x, v.InUse x → x ∉ (v.slotOf m).children → u.InUse x ∧ (x = m ∨ x ∉ u.walk m))
    (hcapacity : v.capacity ≤ t.capacity + t.placeholders.length + 1) : Housed t v := by
  have hl := hh.remains.wellLinked
  refine ⟨hh.remains.trans hr, fun {x} hx => ?_, hcapacity⟩
  by_cases hxm : x ∈ (v.slotOf m).children
  · have hmv := hs.inUse hmu (Or.inl rfl)
    exact Or.inr ⟨m, hm, (Linked.child hs.wellLinked hmv hxm).2, hone x hxm⟩
  · obtain ⟨hxu, hout⟩ := hold x hx hxm
    rcases hout with rfl | hout
    · exact Or.inl (ht.inUse_of_mem_placeholders hm)
    refine (hh.house hxu).imp_right ?_
    rintro ⟨p, hp, hxp, hpx⟩
    obtain ⟨hpu, hmem⟩ := Linked.parent hl hxu hxp
    -- What the node is in is no more below `m` than the node
    have hpout : p ∉ u.walk m := fun hpm =>
      hout (Linked.mem_walk_child hl hmu (WellLinked.agreesBelow u m) hpm hmem)
    exact ⟨p, hp, by rw [hs.parent hxu (Or.inr hout), hxp], by rw [hs.children hpu hpout, hpx]⟩

/-- A tab stop that has nothing in it but text comes to show another text. -/
theorem showText (hh : Housed t u) (ht : t.WellLinked) (hm : m ∈ u.placeholders)
    (hbare : u.Bare m) (s : String) : Housed t (u.showText m s).2 := by
  have hl := hh.remains.wellLinked
  have hmu := hl.inUse_of_mem_placeholders hm
  have hs := shown_showText hl hmu (fun c hc _ => (hbare c hc).2) s
  have hw := wrote_showText hl hmu s
  have hcapacity : (u.showText m s).2.capacity ≤ t.capacity + t.placeholders.length + 1 := by
    rcases capacity_showText u m s with hsame | halloc
    · exact hsame.trans_le hh.capacity_le
    · exact halloc.trans_le (hh.capacity_alloc_le _)
  refine hh.shown ht hs hw.remains (hh.remains.mem_placeholders ht hm) hmu
    (fun x hx => ?_) (fun x hx hxm => ?_) hcapacity
  · rcases hw.flat with ⟨-, hnil⟩ | ⟨-, c, hone, -⟩
    · simp [hnil] at hx
    · obtain rfl : x = c := by simpa [hone] using hx
      exact hone
  -- What was in the tab stop is in it still, or has been released
  · have hkept {w : Tree} (hlinks : SameLinks u w) (hx : w.InUse x)
        (hxm : x ∉ (w.slotOf m).children) : u.InUse x ∧ (x = m ∨ x ∉ u.walk m) := by
      rw [hlinks.children] at hxm
      refine ⟨hlinks.inUse_iff.1 hx, Decidable.or_iff_not_imp_left.2 fun hne hmem => hxm ?_⟩
      exact ((hl.mem_walk_bare hmu hbare).1 hmem).resolve_left hne
    rcases showText_cases hl hmu s with ⟨hshow, -⟩ | ⟨c, old, -, -, -, hshow⟩ | ⟨w, hshow, hover⟩
    · rw [hshow] at hx hxm
      exact hkept (.refl u) hx hxm
    · rw [hshow] at hx hxm
      exact hkept (sameLinks_setMarker u c _) hx hxm
    · rw [hshow] at hx hxm
      exact hover.old hx hxm

end Housed

/-! ## Repeating -/

namespace Housed

/-- In a calm document the tab stops that repeat another one have nothing in them but text. -/
theorem foldl_followed (hh : Housed t u) (ht : t.WellLinked) (hc : u.Calm) (hp : p ∈ u.leaders)
    (hhs : ∀ m ∈ hs, m ∈ u.placeholders ∧ u.index? m = u.index? p) (s : String) :
    Housed t (hs.foldl (followed p s) u) := by
  -- Induction on the tab stops that follow, which calm trees keep in place
  induction hs generalizing u with
  | nil => exact hh
  | cons m hs ih =>
    obtain ⟨⟨hm, hindex⟩, hhs⟩ := List.forall_mem_cons.1 hhs
    have hl := hh.remains.wellLinked
    obtain ⟨hr, hcalm⟩ := hc.followed hl hp hm hindex s
    have hnext : Housed t (u.followed p s m) := by
      rw [Tree.followed]
      split
      · exact hh
      · next habove =>
        exact hh.showText ht hm (hc p hp m ⟨hm, hindex, Bool.eq_false_iff.2 habove⟩) _
    have hpf := hl.mem_frame_of_placeholder (mem_leaders_iff.1 hp).1
    refine ih hnext hcalm (hr.leaders_eq hl ▸ hp) fun n hn => ?_
    rw [hr.placeholders_eq hl, hr.index?_eq hl hpf,
      hr.index?_eq hl (hl.mem_frame_of_placeholder (hhs n hn).1)]
    exact hhs n hn

theorem turn (hh : Housed t u) (ht : t.WellLinked) (hc : u.Calm) (hp : p ∈ u.leaders) :
    Housed t (u.turn p) := by
  obtain ⟨i, hi, hturn⟩ := turn_of_mem hh.remains.wellLinked hp
  rw [hturn]
  refine hh.foldl_followed ht hc hp (fun m hm => ?_) _
  obtain ⟨hm, hindex⟩ := List.mem_filter.1 hm
  exact ⟨hm, by rw [hi]; simpa using hindex⟩

theorem repeatPasses (hh : Housed t u) (ht : t.WellLinked) (hc : u.Calm) (hu : u.Repeatable)
    (n : Nat) : Housed t (Tree.repeatPasses n u) := by
  induction n generalizing u with
  | zero => exact hh
  | succ n ih =>
    obtain ⟨hr, hcalm⟩ := hc.repeatPass hu
    rw [Repeatable.repeatPasses_eq hu.wellLinked]
    refine ih ?_ hcalm (hr.repeatable hu)
    refine (hu.pass_induction (P := fun _ v => v.Calm ∧ Housed t v) ⟨hc, hh⟩
      (fun _ _ hv => hv) ?_).2.2
    rintro _ v p - - hp ⟨hv, hhv⟩
    exact ⟨(hv.turn hhv.remains.wellLinked hp).2, hhv.turn ht hv hp⟩

end Housed

/-! ## Typing -/

/-- A text takes the place of all that was in a primary tab stop. -/
theorem Steady.shown (hu : u.Steady) (hs : Shown u p v) (hr : Remains u v) (hp : p ∈ u.primaries)
    (hold : ∀ x, u.InUse x → v.InUse x → x = p ∨ x ∉ u.walk p) : v.Steady := by
  have hl := hu.wellLinked
  have hpmem := (List.mem_filter.1 hp).1
  refine ⟨hr.repeatable hu.toRepeatable, fun q hq m hf => ?_⟩
  have hqu := hr.mem_leaders hl hq
  have hfu := hr.follows hl (mem_leaders_iff.1 hq).1 hf
  have hk := hr.kept_of_mem hf.mem
  -- What repeats another tab stop is not the primary one, so it has not been touched
  have hne : m ≠ p := by
    rintro rfl
    simpa [hu.not_primary hqu hfu] using (List.mem_filter.1 hp).2
  exact hs.bare hl (hl.inUse_of_mem_placeholders hpmem) hk.before
    ((hold m hk.before hk.inUse).resolve_left hne) (hl.mem_walk_root_of_placeholder hpmem).2
    (hu.calm q hqu m hfu)

/-- Typing is not refused, and gives back as many slots as it must. -/
theorem Housed.typeText (hh : Housed t u) (ht : t.WellLinked) (hu : u.Steady)
    (hp : p ∈ u.primaries) (s : String) :
    ∃ v, (typeText p s).perform u = (.ok (), v) ∧ Housed t v ∧ v.Steady := by
  have hl := hu.wellLinked
  have hpmem := (List.mem_filter.1 hp).1
  have hpu := hl.inUse_of_mem_placeholders hpmem
  obtain ⟨w, hw⟩ := hl.exists_overtyped hpu s
  have hr := hw.remains hl hpu
  have hcapacity : w.capacity ≤ t.capacity + t.placeholders.length + 1 := by
    have hkeeps := capacity_overwrite (u.alloc (.text s)).2 p [(u.alloc (.text s)).1]
    rw [after_of_perform hw.perform] at hkeeps
    exact hkeeps.trans_le (hh.capacity_alloc_le _)
  have hhoused : Housed t w := by
    refine hh.shown ht hw.shown hr (hh.remains.mem_placeholders ht hpmem) hpu (fun x hx => ?_)
      (fun x hx hnot => ?_) hcapacity
    · rw [hw.children] at hx ⊢
      rw [List.mem_singleton.1 hx]
    · rw [hw.children, List.mem_singleton] at hnot
      exact (hw.left x hx).resolve_left hnot
  have hsteady : w.Steady := by
    refine hu.shown hw.shown hr hp fun x hx hxw => ?_
    refine ((hw.left x hxw).resolve_left ?_).2
    rintro rfl
    exact (Linked.allocated hl (.text s)).fresh hx
  exact ⟨w.repeatAll, hw.typeText_perform hl hp,
    hhoused.repeatPasses ht hsteady.calm hsteady.toRepeatable _, hsteady.repeatAll.2.1⟩

/-- The trees that typing leads to: each time some text is typed into a tab stop that is a primary
one then. -/
inductive Typed (t : Tree) : Tree → Prop
  | start : Typed t t
  | type {u : Tree} {p : Handle} (s : String) :
    Typed t u → p ∈ u.primaries → Typed t ((typeText p s).after u)

theorem Typed.housed (ht : t.Steady) (hu : Typed t u) : Housed t u ∧ u.Steady := by
  induction hu with
  | start => exact ⟨.refl ht.wellLinked, ht⟩
  | type s _ hp ih =>
    obtain ⟨v, hperform, hv⟩ := ih.1.typeText ht.wellLinked ih.2 hp s
    rwa [after_of_perform hperform]

/-- However often and whatever is typed into the primary tab stops of a snippet, it has no more slots
than at the beginning, and one more for each tab stop, and one. Nor is anything refused that is typed
into a primary tab stop. A tree never has more slots than the numbers of 32 bits can tell apart. -/
theorem capacity_typed_ofSnippet (identity : Nat) (d : Dialect) (source : String) (final : Bool)
    (hcapacity : (ofSource identity d source).capacity < 2 ^ 32)
    (hu : Typed (ofSnippet identity d source final) u) :
    u.capacity ≤ (ofSnippet identity d source final).capacity +
        (ofSnippet identity d source final).placeholders.length + 1 ∧
      ∀ p ∈ u.primaries, ∀ s, ∃ v, (typeText p s).perform u = (.ok (), v) := by
  obtain ⟨ht, -⟩ := steady_ofSnippet identity d source final hcapacity
  obtain ⟨hh, hsteady⟩ := hu.housed ht
  refine ⟨hh.capacity_le, fun p hp s => ?_⟩
  obtain ⟨v, hperform, -⟩ := hh.typeText ht.wellLinked hsteady hp s
  exact ⟨v, hperform⟩

/-- A tab stop and one that repeats it. -/
def echo : Tree := ofSnippet 0 .textMate "$\x7b1:a\x7d $1" false

/-- When nothing is typed into it and then a letter, there is one slot more. -/
theorem capacity_typed_echo : (ofSource 0 .textMate "$\x7b1:a\x7d $1").capacity < 2 ^ 32 ∧
    ∃ u, Typed echo u ∧ u.text = "b b" ∧ (u.capacity, echo.capacity) = (7, 6) ∧
      u.capacity ≤ echo.capacity + echo.placeholders.length + 1 := by
  have hcapacity : (ofSource 0 .textMate "$\x7b1:a\x7d $1").capacity = 5 := by cbv
  have hlt : (ofSource 0 .textMate "$\x7b1:a\x7d $1").capacity < 2 ^ 32 := by
    rw [hcapacity]
    decide
  obtain ⟨v, hv⟩ : ∃ v, v = (typeText ⟨0, 1, 0⟩ "").after echo := ⟨_, rfl⟩
  obtain ⟨u, hu⟩ : ∃ u, u = (typeText ⟨0, 1, 0⟩ "b").after v := ⟨_, rfl⟩
  have htyped : (echo.primaries, v.primaries, u.text, u.capacity, echo.capacity) =
      ([⟨0, 1, 0⟩], [⟨0, 1, 0⟩], "b b", 7, 6) := by
    rw [hu, hv]
    cbv
  simp only [Prod.mk.injEq] at htyped
  obtain ⟨hfirst, hsecond, htext, hafter, hbefore⟩ := htyped
  have hreached : Typed echo u := by
    rw [hu]
    refine .type "b" ?_ (by simp [hsecond])
    rw [hv]
    exact .type "" .start (by simp [hfirst])
  exact ⟨hlt, u, hreached, htext, by rw [hafter, hbefore],
    (capacity_typed_ofSnippet 0 .textMate _ false hlt hreached).1⟩

end TabStop.Tree
