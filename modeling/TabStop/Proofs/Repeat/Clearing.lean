import TabStop.Proofs.Primary.Losses
import TabStop.Proofs.Repeat.Overwriting

/-!
# What is left of a tree

Overwriting a tab stop leaves all nodes alone that are not below it. So a tree of which some tab
stops have been overwritten shows the tab stops of the tree that it was, but for those that are
lost.
-/

namespace TabStop.Tree

variable {t u v : Tree} {c h m p x : Handle} {ms ns hs : List Handle}

/-- A tree as it is before any tab stop has been repeated: no slot has been given back, text has
nothing below it, and no two primary tab stops have the same index. -/
structure Unrepeated (t : Tree) : Prop where
  wellLinked : t.WellLinked
  generation (x : Handle) : (t.slotOf x).generation = 0
  text {x : Handle} : x ∈ t.walk t.root → (t.slotOf x).marker.text?.isSome →
    (t.slotOf x).children = []
  single {i : TabIndex} : i.isFinal = false →
    ((t.placeholdersOf i).filter t.isPrimary).length ≤ 1

/-- A tree in which the tab stops `ms` have been overwritten by text. The nodes that are not below
them are as they were. -/
structure Cleared (t : Tree) (ms : List Handle) (u : Tree) : Prop where
  wellLinked : u.WellLinked
  identity : u.identity = t.identity
  subset : ms ⊆ t.placeholders
  inUse {x : Handle} : x ∈ t.walk t.root → t.isBelow ms x = false → u.InUse x
  marker {x : Handle} : x ∈ t.walk t.root → t.isBelow ms x = false →
    (u.slotOf x).marker = (t.slotOf x).marker
  parent {x : Handle} : x ∈ t.walk t.root → t.isBelow ms x = false →
    (u.slotOf x).parent = (t.slotOf x).parent
  children {x : Handle} : x ∈ t.walk t.root → t.isBelow ms x = false → x ∉ ms →
    (u.slotOf x).children = (t.slotOf x).children
  texts {m : Handle} : m ∈ ms → t.isBelow ms m = false → ∀ c ∈ (u.slotOf m).children,
    (u.slotOf c).marker.text?.isSome ∧ (u.slotOf c).children = []

/-- The handles of tab stops that have been lost can be told from good ones: their slots have got on
by at least one generation, but not by so many that they are back at the first one. -/
structure Aged (t : Tree) (ms : List Handle) (u : Tree) : Prop where
  le (x : Handle) : (u.slotOf x).generation.toNat ≤ ms.length
  lost {x : Handle} : x ∈ t.walk t.root → t.isBelow ms x → (t.slotOf x).marker.text? = none →
    (u.slotOf x).generation ≠ 0

theorem WellLinked.mem_walk_root_of_placeholder (hl : t.WellLinked) (hx : x ∈ t.placeholders) :
    x ∈ t.walk t.root ∧ (t.slotOf x).marker.text? = none := by
  obtain ⟨hmem, hsome⟩ := List.mem_filter.1 hx
  have hwalk := List.mem_of_mem_drop hmem
  refine ⟨hwalk, ?_⟩
  rw [placeholder?, marker?, if_pos (hl.mem_walk_root_inUse hwalk).owned, Option.bind_some] at hsome
  cases hm : (t.slotOf x).marker <;> simp [hm, Marker.placeholder?] at hsome
  rfl

/-! ## The nodes that are left -/

namespace Cleared

/-- Nothing has been overwritten. -/
theorem refl (hl : t.WellLinked) : Cleared t [] t where
  wellLinked := hl
  identity := rfl
  subset := by simp
  inUse hx _ := hl.mem_walk_root_inUse hx
  marker _ _ := rfl
  parent _ _ := rfl
  children _ _ _ := rfl
  texts hm := by simp at hm

/-- It does not matter in which order the tab stops have been overwritten, and how often. -/
theorem congr (hc : Cleared t ms u) (hsub : ms ⊆ ns) (hsub' : ns ⊆ ms) : Cleared t ns u where
  wellLinked := hc.wellLinked
  identity := hc.identity
  subset := fun _ hx => hc.subset (hsub' hx)
  inUse hx hbelow := hc.inUse hx (not_isBelow_of_subset hsub hbelow)
  marker hx hbelow := hc.marker hx (not_isBelow_of_subset hsub hbelow)
  parent hx hbelow := hc.parent hx (not_isBelow_of_subset hsub hbelow)
  children hx hbelow hnot := hc.children hx (not_isBelow_of_subset hsub hbelow)
    fun hmem => hnot (hsub hmem)
  texts hm hbelow := hc.texts (hsub' hm) (not_isBelow_of_subset hsub hbelow)

/-- Nothing changes above a node that is left. -/
theorem ancestors_eq (hc : Cleared t ms u) (hl : t.WellLinked) (hx : x ∈ t.walk t.root)
    (hbelow : t.isBelow ms x = false) : u.ancestors x = t.ancestors x := by
  have hlin := Linked.lineage_ancestors hl (hl.mem_walk_root_inUse hx)
  apply Linked.ancestors_eq hc.wellLinked (hc.inUse hx hbelow)
  -- The lineage is gone up: what is above a node that is left is left
  generalize t.ancestors x = as at hlin
  induction as generalizing x with
  | nil => exact (hc.parent hx hbelow).trans hlin
  | cons p as ih =>
    obtain ⟨hp, hmem⟩ := hl.mem_walk_root_parent hx hlin.1
    rw [isBelow_child hl (hl.mem_walk_root_inUse hp) hmem, Bool.or_eq_false_iff] at hbelow
    refine ⟨?_, ih hp hbelow.2 hlin.2⟩
    rw [← hlin.1]
    apply hc.parent hx
    rw [isBelow_child hl (hl.mem_walk_root_inUse hp) hmem, hbelow.1, hbelow.2]
    rfl

theorem above_eq (hc : Cleared t ms u) (hl : t.WellLinked) (hx : x ∈ t.walk t.root)
    (hbelow : t.isBelow ms x = false) (a : Handle) :
    u.isAncestorOrSelf a x = t.isAncestorOrSelf a x := by
  rw [isAncestorOrSelf, isAncestorOrSelf, hc.ancestors_eq hl hx hbelow]

theorem root_eq (hc : Cleared t ms u) : u.root = t.root := by
  simp [root, hc.identity]

theorem placeholder?_eq (hc : Cleared t ms u) (hl : t.WellLinked) (hx : x ∈ t.walk t.root)
    (hbelow : t.isBelow ms x = false) : u.placeholder? x = t.placeholder? x := by
  rw [placeholder?, placeholder?, marker?, marker?, if_pos (hc.inUse hx hbelow).owned,
    if_pos (hl.mem_walk_root_inUse hx).owned, hc.marker hx hbelow]

/-- There is no tab stop in a tab stop that has been overwritten. -/
theorem placeholder?_below (hc : Cleared t ms u) (hm : m ∈ ms) (hbelow : t.isBelow ms m = false)
    (hmu : u.InUse m) (hcm : c ∈ (u.slotOf m).children) (hx : x ∈ u.walk c) :
    u.placeholder? x = none := by
  obtain ⟨htext, hnil⟩ := hc.texts hm hbelow c hcm
  have hcu := (Linked.child hc.wellLinked hmu hcm).1
  rw [hc.wellLinked.mem_walk_cons hcu, hnil] at hx
  obtain rfl : x = c := by simpa using hx
  rw [placeholder?, marker?, if_pos hcu.owned]
  cases hmarker : (u.slotOf x).marker <;> simp [hmarker, Marker.text?] at htext
  simp [Marker.placeholder?]

/-- The tab stops of the walk below a node that is left are those that are left. -/
theorem walk_placeholders (hc : Cleared t ms u) (hl : t.WellLinked) (hx : x ∈ t.walk t.root)
    (hbelow : t.isBelow ms x = false) :
    (u.walk x).filter (fun y => (u.placeholder? y).isSome) =
      (t.walk x).filter fun y => (t.placeholder? y).isSome && !t.isBelow ms y := by
  have hinUse := hl.mem_walk_root_inUse hx
  revert hx hbelow
  -- The walks are compared node by node, from the bottom up
  refine hl.induction_below (P := fun x => x ∈ t.walk t.root → t.isBelow ms x = false →
    (u.walk x).filter (fun y => (u.placeholder? y).isSome) =
      (t.walk x).filter fun y => (t.placeholder? y).isSome && !t.isBelow ms y)
    (fun x hxu ih hx hbelow => ?_) hinUse
  have hu := hc.inUse hx hbelow
  rw [hc.wellLinked.walk_eq hu, hl.walk_eq hxu, List.filter_cons, List.filter_cons,
    hc.placeholder?_eq hl hx hbelow, hbelow, Bool.not_false, Bool.and_true]
  have hrest : ((u.slotOf x).children.flatMap u.walk).filter
      (fun y => (u.placeholder? y).isSome) = ((t.slotOf x).children.flatMap t.walk).filter
        fun y => (t.placeholder? y).isSome && !t.isBelow ms y := by
    by_cases hm : x ∈ ms
    · -- There is only new text below `x`, and all that was there is lost
      have hnew : ∀ y ∈ (u.slotOf x).children.flatMap u.walk,
          ¬ (u.placeholder? y).isSome = true := by
        intro y hy
        obtain ⟨c, hcx, hyc⟩ := List.mem_flatMap.1 hy
        simp [hc.placeholder?_below hm hbelow hu hcx hyc]
      have hold : ∀ y ∈ (t.slotOf x).children.flatMap t.walk,
          ¬ ((t.placeholder? y).isSome && !t.isBelow ms y) = true := by
        intro y hy
        obtain ⟨c, hcx, hyc⟩ := List.mem_flatMap.1 hy
        simp [isBelow_of_mem_walk_child hl hxu hm hcx hyc]
      rw [List.filter_eq_nil_iff.2 hnew, List.filter_eq_nil_iff.2 hold]
    · rw [hc.children hx hbelow hm, List.filter_flatMap, List.filter_flatMap, List.flatMap_def,
        List.flatMap_def]
      refine congrArg List.flatten (List.map_congr_left fun c hcx => ?_)
      apply ih c hcx (hl.mem_walk_root_child hx hcx)
      rw [isBelow_child hl hxu hcx, hbelow]
      simpa using hm
  rw [hrest]

/-- The root is left, and so are its tab stops but for those that are lost. -/
theorem placeholders_eq (hc : Cleared t ms u) (hl : t.WellLinked) :
    u.placeholders = t.placeholders.filter fun x => !t.isBelow ms x := by
  have hroot := hl.mem_walk_self (Linked.root_inUse hl)
  -- Nothing is above the root, so it is not lost; the walks below it differ by what is lost
  have hbelow : t.isBelow ms t.root = false := by rw [isBelow, hl.ancestors_root]; rfl
  have hwalk := hc.walk_placeholders hl hroot hbelow
  have hu := hc.inUse hroot hbelow
  rw [placeholders, placeholders, descendants, descendants, hc.root_eq]
  rw [hc.wellLinked.walk_eq hu, hl.walk_eq (Linked.root_inUse hl)] at hwalk ⊢
  simp only [List.drop_one, List.tail_cons, List.filter_filter, List.filter_cons,
    hc.placeholder?_eq hl hroot hbelow, hbelow, Bool.not_false, Bool.and_true] at hwalk ⊢
  split at hwalk
  · rw [(List.cons_eq_cons.1 hwalk).2]
    exact List.filter_congr fun x _ => Bool.and_comm ..
  · rw [hwalk]
    exact List.filter_congr fun x _ => Bool.and_comm ..

theorem index?_eq (hc : Cleared t ms u) (hl : t.WellLinked) (hx : x ∈ t.walk t.root)
    (hbelow : t.isBelow ms x = false) : u.index? x = t.index? x := by
  rw [index?, index?, hc.placeholder?_eq hl hx hbelow]

/-- What is told in the same way of those that are left can be told before or afterwards. -/
private theorem filter_left {P Q : Handle → Bool}
    (hPQ : ∀ x ∈ hs, t.isBelow ms x = false → P x = Q x) :
    (hs.filter fun x => !t.isBelow ms x).filter P =
      (hs.filter Q).filter fun x => !t.isBelow ms x := by
  rw [List.filter_filter, List.filter_filter]
  refine List.filter_congr fun x hx => ?_
  cases hbelow : t.isBelow ms x with
  | true => simp
  | false => simp [hPQ x hx hbelow]

theorem placeholdersOf_eq (hc : Cleared t ms u) (hl : t.WellLinked) (i : TabIndex) :
    u.placeholdersOf i = (t.placeholdersOf i).filter fun x => !t.isBelow ms x := by
  rw [placeholdersOf, placeholdersOf, hc.placeholders_eq hl]
  exact filter_left fun x hx hbelow => by
    rw [hc.index?_eq hl (hl.mem_walk_root_of_placeholder hx).1 hbelow]

/-- How the tab stops that are left are marked does not change. -/
theorem filter_isPrimary (hc : Cleared t ms u) (hl : t.WellLinked) (hsub : hs ⊆ t.placeholders) :
    (hs.filter fun x => !t.isBelow ms x).filter u.isPrimary =
      (hs.filter t.isPrimary).filter fun x => !t.isBelow ms x :=
  filter_left fun x hx hbelow => by
    rw [isPrimary, isPrimary,
      hc.placeholder?_eq hl (hl.mem_walk_root_of_placeholder (hsub hx)).1 hbelow]

/-- The tree may grow by nodes that stand alone. -/
theorem grown (hc : Cleared t ms u) (hg : Grown u v) (hl : t.WellLinked) : Cleared t ms v where
  wellLinked := hg.wellLinked
  identity := hg.extended.identity.trans hc.identity
  subset := hc.subset
  inUse hx hbelow := hg.extended.inUse (hc.inUse hx hbelow)
  marker hx hbelow := by rw [hg.kept _ (hc.inUse hx hbelow), hc.marker hx hbelow]
  parent hx hbelow := by rw [hg.kept _ (hc.inUse hx hbelow), hc.parent hx hbelow]
  children hx hbelow hnot := by
    rw [hg.kept _ (hc.inUse hx hbelow), hc.children hx hbelow hnot]
  texts hm hbelow c hcm := by
    have hinUse := hc.inUse (hl.mem_walk_root_of_placeholder (hc.subset hm)).1 hbelow
    rw [hg.kept _ hinUse] at hcm
    rw [hg.kept _ (Linked.child hc.wellLinked hinUse hcm).1]
    exact hc.texts hm hbelow c hcm

/-- Text below a tab stop that is left has nothing below it. -/
theorem text_children (hc : Cleared t ms u) (ht : t.Unrepeated) (hm : m ∈ t.placeholders)
    (hbelow : t.isBelow ms m = false) :
    ∀ c ∈ (u.slotOf m).children, (u.slotOf c).marker.text?.isSome → (u.slotOf c).children = [] := by
  have hl := ht.wellLinked
  obtain ⟨hwalk, -⟩ := hl.mem_walk_root_of_placeholder hm
  intro c hcm htext
  by_cases hmem : m ∈ ms
  · exact (hc.texts hmem hbelow c hcm).2
  · rw [hc.children hwalk hbelow hmem] at hcm
    have hcwalk := hl.mem_walk_root_child hwalk hcm
    -- `m` has not been overwritten, so its children are left
    have hcbelow : t.isBelow ms c = false := by
      rw [isBelow_child hl (hl.mem_walk_root_inUse hwalk) hcm, hbelow]
      simpa using hmem
    rw [hc.marker hcwalk hcbelow] at htext
    -- Text is no tab stop, so it is none of those that have been overwritten
    have hcms : c ∉ ms := by
      intro hcms
      simp [(hl.mem_walk_root_of_placeholder (hc.subset hcms)).2] at htext
    rw [hc.children hcwalk hcbelow hcms]
    exact ht.text hcwalk htext

/-- What is left when the tab stop `m` too has been overwritten was left before, and not below `m`. -/
theorem left_cons (hc : Cleared t ms u) (hl : t.WellLinked) (hmu : u.InUse m)
    (hx : x ∈ t.walk t.root) (hxbelow : t.isBelow (m :: ms) x = false) :
    t.isBelow ms x = false ∧ (x = m ∨ x ∉ u.walk m) := by
  rw [isBelow_cons, Bool.or_eq_false_iff] at hxbelow
  refine ⟨hxbelow.2, Decidable.or_iff_not_imp_left.2 fun hne hmem => ?_⟩
  have habove := ((hc.wellLinked.mem_walk_iff hmu).1 hmem).2
  rw [hc.above_eq hl hx hxbelow.2, isAncestorOrSelf_iff] at habove
  have hmem := (List.mem_cons.1 habove).resolve_left (Ne.symm hne)
  simp [hmem] at hxbelow

/-- The text below another tab stop is not below `m`. -/
theorem text_not_mem_walk {n : Handle} (hc : Cleared t ms u) (hl : t.WellLinked)
    (hm : m ∈ t.placeholders) (hbelow : t.isBelow ms m = false) (hn : n ∈ ms)
    (hnbelow : t.isBelow ms n = false) (hnot : n ∉ u.walk m) (hcn : c ∈ (u.slotOf n).children) :
    c ∉ u.walk m := by
  obtain ⟨hmwalk, hmarker⟩ := hl.mem_walk_root_of_placeholder hm
  have hmu := hc.inUse hmwalk hbelow
  have hnu := hc.inUse (hl.mem_walk_root_of_placeholder (hc.subset hn)).1 hnbelow
  intro hmem
  have habove := ((hc.wellLinked.mem_walk_iff hmu).1 hmem).2
  rw [isAncestorOrSelf_iff, Linked.ancestors_child hc.wellLinked hnu hcn] at habove
  rcases List.mem_cons.1 habove with rfl | habove
  · have htext := (hc.texts hn hnbelow _ hcn).1
    rw [hc.marker hmwalk hbelow, hmarker] at htext
    simp at htext
  · exact hnot ((hc.wellLinked.mem_walk_iff hmu).2 ⟨hnu, isAncestorOrSelf_iff.2 habove⟩)

theorem shown (hc : Cleared t ms u) (hs : Shown u m v) (hl : t.WellLinked)
    (hm : m ∈ t.placeholders) (hbelow : t.isBelow ms m = false) : Cleared t (m :: ms) v := by
  have hmu := hc.inUse (hl.mem_walk_root_of_placeholder hm).1 hbelow
  have hleft {x : Handle} (hx : x ∈ t.walk t.root) (hxbelow : t.isBelow (m :: ms) x = false) :=
    hc.left_cons hl hmu hx hxbelow
  constructor
  case wellLinked =>
    exact hs.wellLinked
  case identity =>
    exact hs.identity.trans hc.identity
  case subset =>
    exact List.cons_subset.2 ⟨hm, hc.subset⟩
  case inUse =>
    intro x hx hxbelow
    obtain ⟨hold, hnot⟩ := hleft hx hxbelow
    exact hs.inUse (hc.inUse hx hold) hnot
  case marker =>
    intro x hx hxbelow
    obtain ⟨hold, hnot⟩ := hleft hx hxbelow
    rw [hs.marker (hc.inUse hx hold) hnot, hc.marker hx hold]
  case parent =>
    intro x hx hxbelow
    obtain ⟨hold, hnot⟩ := hleft hx hxbelow
    rw [hs.parent (hc.inUse hx hold) hnot, hc.parent hx hold]
  case children =>
    intro x hx hxbelow hxms
    obtain ⟨hold, hnot⟩ := hleft hx hxbelow
    rw [List.mem_cons, not_or] at hxms
    obtain ⟨hne, hxms⟩ := hxms
    rw [hs.children (hc.inUse hx hold) (hnot.resolve_left hne), hc.children hx hold hxms]
  case texts =>
    intro n hn hnbelow c hcn
    by_cases heq : n = m
    · subst heq
      exact hs.texts c hcn
    · -- The text below another tab stop stays
      have hnms := (List.mem_cons.1 hn).resolve_left heq
      obtain ⟨hnwalk, -⟩ := hl.mem_walk_root_of_placeholder (hc.subset hnms)
      obtain ⟨hold, hnot⟩ := hleft hnwalk hnbelow
      have hnu := hc.inUse hnwalk hold
      have hnot := hnot.resolve_left heq
      rw [hs.children hnu hnot] at hcn
      have hcu := (Linked.child hc.wellLinked hnu hcn).1
      have hcwalk := hc.text_not_mem_walk hl hm hbelow hnms hold hnot hcn
      rw [hs.marker hcu (Or.inr hcwalk), hs.children hcu hcwalk]
      exact hc.texts hnms hold c hcn

end Cleared

/-! ## The handles that are lost -/

theorem toNat_succ_le (g : UInt32) : (g + 1).toNat ≤ g.toNat + 1 := by
  rw [UInt32.toNat_add]
  exact Nat.mod_le _ _

theorem succ_ne_zero {g : UInt32} (hg : g.toNat + 1 < 2 ^ 32) : g + 1 ≠ 0 := by
  intro h
  have := congrArg UInt32.toNat h
  rw [UInt32.toNat_add] at this
  simp at this
  omega

namespace Aged

theorem refl (ht : t.Unrepeated) : Aged t [] t where
  le x := by simp [ht.generation]
  lost hx hbelow := by
    rw [isBelow] at hbelow
    simp at hbelow

theorem grown (ha : Aged t ms u) (hg : Grown u v) : Aged t ms v where
  le x := by rw [hg.extended.generation]; exact ha.le x
  lost hx hbelow hmarker := by rw [hg.extended.generation]; exact ha.lost hx hbelow hmarker

theorem shown (ha : Aged t ms u) (hc : Cleared t ms u) (hs : Shown u m v) (hl : t.WellLinked)
    (hm : m ∈ t.placeholders) (hbelow : t.isBelow ms m = false)
    (hbound : ms.length + 1 < 2 ^ 32) : Aged t (m :: ms) v := by
  obtain ⟨hmwalk, -⟩ := hl.mem_walk_root_of_placeholder hm
  -- No slot has been given back so often that it is back at its first generation
  have hnext (x : Handle) : (u.slotOf x).generation + 1 ≠ 0 :=
    succ_ne_zero (Nat.lt_of_le_of_lt (Nat.succ_le_succ (ha.le x)) hbound)
  constructor
  case le =>
    intro x
    rw [List.length_cons]
    rcases hs.generation x with h | h
    · rw [h]
      exact Nat.le_succ_of_le (ha.le x)
    · rw [h]
      exact Nat.le_trans (toNat_succ_le _) (Nat.succ_le_succ (ha.le x))
  case lost =>
    intro x hx hxbelow hmarker
    by_cases hold : t.isBelow ms x
    · rcases hs.generation x with h | h
      · rw [h]
        exact ha.lost hx hold hmarker
      · rw [h]
        exact hnext x
    · have hold := Bool.eq_false_iff.2 hold
      rw [isBelow_cons, hold, Bool.or_false] at hxbelow
      -- `x` is lost just now, with `m`, so its slot is given back for the first time
      have hmem : m ∈ t.ancestors x := by simpa using hxbelow
      have hxwalk : x ∈ u.walk m := by
        refine (hc.wellLinked.mem_walk_iff (hc.inUse hmwalk hbelow)).2 ⟨hc.inUse hx hold, ?_⟩
        rw [hc.above_eq hl hx hold, isAncestorOrSelf_iff]
        exact List.mem_cons_of_mem _ hmem
      have hne : x ≠ m := by
        rintro rfl
        exact Linked.not_mem_ancestors hl (hl.mem_walk_root_inUse hx) hmem
      rw [hs.lost hxwalk hne (by rw [hc.marker hx hold, hmarker])]
      exact hnext x

/-- A tab stop that is lost is not owned any more. -/
theorem stale (ha : Aged t ms u) (ht : t.Unrepeated) (hx : x ∈ t.placeholders)
    (hbelow : t.isBelow ms x) : (u.slotOf x).generation ≠ x.generation := by
  obtain ⟨hwalk, hmarker⟩ := ht.wellLinked.mem_walk_root_of_placeholder hx
  have hzero : x.generation = 0 := by
    rw [← (owns_iff.1 (ht.wellLinked.mem_walk_root_inUse hwalk).owned).2.2, ht.generation]
  rw [hzero]
  exact ha.lost hwalk hbelow hmarker

end Aged

end TabStop.Tree
