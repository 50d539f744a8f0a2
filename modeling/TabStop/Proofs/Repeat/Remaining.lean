import TabStop.Proofs.Repeat.Writing
import TabStop.Proofs.Primary.Choice
import TabStop.Tree.Repeat

/-!
# The tab stops that are left

While tab stops are repeated, some of them are lost and none is new. What is said here of a primary
tab stop and of those that follow it holds on as other tab stops come to show other texts, as long
as these have nothing to do with it.
-/

namespace TabStop.Tree

variable {t u v : Tree} {m n p q x : Handle} {ms : List Handle} {r s : String}

/-! ## Tab stops of the document -/

/-- The nodes of the document that are below the root. -/
theorem WellLinked.mem_descendants_iff (hl : t.WellLinked) :
    x ∈ t.descendants t.root ↔ t.InUse x ∧ t.root ∈ t.ancestors x := by
  have hroot := Linked.root_inUse hl
  have hnodup := hl.walk_nodup t.root
  rw [hl.walk_eq hroot, List.nodup_cons] at hnodup
  have hwalk := hl.mem_walk_iff (x := x) hroot
  rw [hl.walk_eq hroot, isAncestorOrSelf_iff, List.mem_cons, List.mem_cons] at hwalk
  rw [descendants, hl.walk_eq hroot, List.drop_one, List.tail_cons]
  constructor
  · intro hx
    obtain ⟨hinUse, heq | habove⟩ := hwalk.1 (Or.inr hx)
    · exact absurd (heq ▸ hx) hnodup.1
    · exact ⟨hinUse, habove⟩
  · rintro ⟨hinUse, habove⟩
    refine (hwalk.2 ⟨hinUse, Or.inr habove⟩).resolve_left ?_
    rintro rfl
    simp [hl.ancestors_root] at habove

theorem WellLinked.mem_descendants_of_walk (hl : t.WellLinked) (hq : q ∈ t.descendants t.root)
    (hx : x ∈ t.walk q) : x ∈ t.descendants t.root := by
  obtain ⟨hqu, hroot⟩ := hl.mem_descendants_iff.1 hq
  obtain ⟨hxu, habove⟩ := (hl.mem_walk_iff hqu).1 hx
  refine hl.mem_descendants_iff.2 ⟨hxu, ?_⟩
  -- The way up from `x` goes on from `q` to the root
  obtain ⟨below, heq⟩ := Linked.above_split hl hxu habove
  cases below with
  | nil => rwa [(List.cons_eq_cons.1 heq).1]
  | cons y below =>
    rw [(List.cons_eq_cons.1 heq).2]
    exact List.mem_append_right _ (List.mem_cons_of_mem _ hroot)

theorem WellLinked.mem_placeholders_iff (hl : t.WellLinked) :
    x ∈ t.placeholders ↔ t.InUse x ∧ (t.placeholder? x).isSome ∧ t.root ∈ t.ancestors x := by
  rw [placeholders, List.mem_filter, hl.mem_descendants_iff, and_right_comm, and_assoc]

theorem WellLinked.inUse_of_mem_placeholders (hl : t.WellLinked) (hx : x ∈ t.placeholders) :
    t.InUse x := (hl.mem_placeholders_iff.1 hx).1

theorem isSome_of_mem_placeholders (hx : x ∈ t.placeholders) : (t.placeholder? x).isSome :=
  (List.mem_filter.1 hx).2

theorem exists_placeholder?_of_mem (hx : x ∈ t.placeholders) : ∃ k, t.placeholder? x = some k :=
  Option.isSome_iff_exists.1 (isSome_of_mem_placeholders hx)

theorem exists_index?_of_mem (hx : x ∈ t.placeholders) : ∃ i, t.index? x = some i := by
  obtain ⟨k, hk⟩ := exists_placeholder?_of_mem hx
  exact ⟨k.index, by rw [index?, hk, Option.map_some]⟩

/-- The nodes below a node, without it. -/
theorem WellLinked.mem_walk_of_ne (hl : t.WellLinked) (hp : t.InUse p) (hx : t.InUse x)
    (hne : x ≠ p) : x ∈ t.walk p ↔ p ∈ t.ancestors x := by
  rw [hl.mem_walk_iff hp, isAncestorOrSelf_iff, List.mem_cons]
  constructor
  · rintro ⟨-, rfl | habove⟩
    · exact absurd rfl hne
    · exact habove
  · exact fun habove => ⟨hx, Or.inr habove⟩

theorem Kept.isPrimary_eq (hk : Kept t u x) : u.isPrimary x = t.isPrimary x := by
  rw [isPrimary, isPrimary, hk.placeholder?_eq]

theorem Kept.isFinal_eq (hk : Kept t u x) : u.isFinal x = t.isFinal x := by
  rw [isFinal, isFinal, hk.index?_eq]

theorem Kept.repeatedText_eq (hk : Kept t u m) (p : Handle) (s : String) :
    u.repeatedText p m s = t.repeatedText p m s := by
  rw [repeatedText, repeatedText, hk.above_eq, hk.placeholder?_eq]

/-- Inside of the primary tab stop nothing is repeated. -/
theorem repeatedText_of_inside (habove : p ∈ t.ancestors m) (s : String) :
    t.repeatedText p m s = "" := by
  rw [repeatedText, if_pos (isAncestorOrSelf_iff.2 (List.mem_cons_of_mem _ habove))]

/-! ## Primary tab stops and those that follow them -/

/-- The primary tab stops that others repeat: those whose index is not final. -/
def leaders (t : Tree) : List Handle := t.primaries.filter fun h => !t.isFinal h

/-- A tab stop that repeats another one: it has the same index, and is not that one nor around it. -/
structure Follows (t : Tree) (m p : Handle) : Prop where
  mem : m ∈ t.placeholders
  index?_eq : t.index? m = t.index? p
  not_above : t.isAncestorOrSelf m p = false

theorem mem_leaders_iff :
    p ∈ t.leaders ↔ p ∈ t.placeholders ∧ t.isPrimary p ∧ t.isFinal p = false := by
  rw [leaders, primaries, List.mem_filter, List.mem_filter, and_assoc]
  simp

theorem exists_index?_of_mem_leaders (hp : p ∈ t.leaders) :
    ∃ i, t.index? p = some i ∧ i.isFinal = false := by
  obtain ⟨hmem, -, hfinal⟩ := mem_leaders_iff.1 hp
  obtain ⟨i, hi⟩ := exists_index?_of_mem hmem
  exact ⟨i, hi, by simpa [isFinal, hi] using hfinal⟩

theorem Follows.ne (hf : t.Follows m p) : m ≠ p := by
  rintro rfl
  have := hf.not_above
  simp [isAncestorOrSelf_self] at this

/-- The tab stops that follow `p` inside of it are empty. -/
def Hollow (t : Tree) (p : Handle) : Prop :=
  ∀ m, t.Follows m p → p ∈ t.ancestors m → t.Flat m ""

/-- The tab stops that follow `p` show what they are to repeat. -/
def Settled (t : Tree) (p : Handle) : Prop :=
  ∀ m, t.Follows m p → t.Flat m (t.repeatedText p m (t.render p))

/-- A tab stop inside of `q` follows `p`, and may change what `q` shows. -/
structure Feeds (t : Tree) (q p : Handle) : Prop where
  index?_ne : t.index? p ≠ t.index? q
  inside : ∃ m ∈ t.placeholders, q ∈ t.ancestors m ∧ t.isPrimary m = false ∧
    t.index? m = t.index? p

/-- A tree whose tab stops can be repeated: it has one primary tab stop of an index at most, and not
too many tab stops for the generations of the slots. -/
structure Repeatable (t : Tree) : Prop where
  wellLinked : t.WellLinked
  length_lt : t.placeholders.length < 2 ^ 32
  single : ∀ p ∈ t.leaders, ∀ q ∈ t.leaders, t.index? p = t.index? q → p = q

theorem Repeatable.not_primary (hr : t.Repeatable) (hp : p ∈ t.leaders) (hf : t.Follows m p) :
    t.isPrimary m = false := by
  apply Bool.eq_false_iff.2
  intro hm
  have hfinal := (mem_leaders_iff.1 hp).2.2
  have hleader : m ∈ t.leaders := by
    refine mem_leaders_iff.2 ⟨hf.mem, hm, ?_⟩
    rwa [isFinal, hf.index?_eq]
  exact hf.ne (hr.single m hleader p hp hf.index?_eq)

/-! ## What is left of a tree -/

/-- A tree that has no tab stops but such as were in `t`, in the same places. -/
structure Remains (t u : Tree) : Prop where
  wellLinked : u.WellLinked
  identity : u.identity = t.identity
  kept {x : Handle} : u.InUse x → (u.placeholder? x).isSome → Kept t u x

namespace Remains

theorem refl (hl : t.WellLinked) : Remains t t := ⟨hl, rfl, fun hx _ => .refl hx⟩

theorem trans (hu : Remains t u) (hv : Remains u v) : Remains t v := by
  refine ⟨hv.wellLinked, hv.identity.trans hu.identity, fun {x} hx hp => ?_⟩
  have hk := hv.kept hx hp
  exact (hu.kept hk.before (hk.placeholder?_eq ▸ hp)).trans hk

theorem root_eq (hr : Remains t u) : u.root = t.root := by
  simp [root, hr.identity]

theorem kept_of_mem (hr : Remains t u) (hx : x ∈ u.placeholders) : Kept t u x :=
  hr.kept (hr.wellLinked.inUse_of_mem_placeholders hx) (isSome_of_mem_placeholders hx)

theorem mem_placeholders (hr : Remains t u) (hl : t.WellLinked) (hx : x ∈ u.placeholders) :
    x ∈ t.placeholders := by
  have hk := hr.kept_of_mem hx
  obtain ⟨-, hp, habove⟩ := hr.wellLinked.mem_placeholders_iff.1 hx
  rw [hr.root_eq, hk.ancestors_eq] at habove
  exact hl.mem_placeholders_iff.2 ⟨hk.before, hk.placeholder?_eq ▸ hp, habove⟩

theorem mem_leaders (hr : Remains t u) (hl : t.WellLinked) (hp : p ∈ u.leaders) :
    p ∈ t.leaders := by
  obtain ⟨hmem, hprimary, hfinal⟩ := mem_leaders_iff.1 hp
  have hk := hr.kept_of_mem hmem
  rw [hk.isPrimary_eq] at hprimary
  rw [hk.isFinal_eq] at hfinal
  exact mem_leaders_iff.2 ⟨hr.mem_placeholders hl hmem, hprimary, hfinal⟩

theorem follows (hr : Remains t u) (hl : t.WellLinked) (hp : p ∈ u.placeholders)
    (hf : u.Follows m p) : t.Follows m p := by
  have hkm := hr.kept_of_mem hf.mem
  have hkp := hr.kept_of_mem hp
  refine ⟨hr.mem_placeholders hl hf.mem, ?_, ?_⟩
  · rw [← hkm.index?_eq, hf.index?_eq, hkp.index?_eq]
  · rw [← hkp.above_eq, hf.not_above]

theorem mem_of_kept (hr : Remains t u) (hl : t.WellLinked) (hk : Kept t u x)
    (hx : x ∈ t.placeholders) : x ∈ u.placeholders := by
  rw [hr.wellLinked.mem_placeholders_iff, hr.root_eq, hk.ancestors_eq, hk.placeholder?_eq]
  exact ⟨hk.inUse, (hl.mem_placeholders_iff.1 hx).2⟩

theorem follows_of_kept (hr : Remains t u) (hl : t.WellLinked) (hkm : Kept t u m)
    (hkp : Kept t u p) (hf : t.Follows m p) : u.Follows m p := by
  refine ⟨hr.mem_of_kept hl hkm hf.mem, ?_, ?_⟩
  · rw [hkm.index?_eq, hf.index?_eq, hkp.index?_eq]
  · rw [hkp.above_eq, hf.not_above]

theorem feeds (hr : Remains t u) (hl : t.WellLinked) (hq : q ∈ u.placeholders)
    (hp : p ∈ u.placeholders) (hf : u.Feeds q p) : t.Feeds q p := by
  have hkq := hr.kept_of_mem hq
  have hkp := hr.kept_of_mem hp
  obtain ⟨m, hm, habove, hprimary, hindex⟩ := hf.inside
  have hkm := hr.kept_of_mem hm
  refine ⟨?_, m, hr.mem_placeholders hl hm, ?_, ?_, ?_⟩
  · rw [← hkp.index?_eq, ← hkq.index?_eq]
    exact hf.index?_ne
  · rwa [← hkm.ancestors_eq]
  · rw [← hkm.isPrimary_eq, hprimary]
  · rw [← hkm.index?_eq, hindex, hkp.index?_eq]

theorem repeatable (hr : Remains t u) (ht : t.Repeatable) : u.Repeatable := by
  have hl := ht.wellLinked
  refine ⟨hr.wellLinked, ?_, fun p hp q hq heq => ?_⟩
  · -- No tab stop is new
    have hle := hr.wellLinked.nodup_placeholders.length_le_of_subset
      fun x hx => hr.mem_placeholders hl hx
    exact Nat.lt_of_le_of_lt hle ht.length_lt
  · apply ht.single p (hr.mem_leaders hl hp) q (hr.mem_leaders hl hq)
    rwa [← (hr.kept_of_mem (mem_leaders_iff.1 hp).1).index?_eq,
      ← (hr.kept_of_mem (mem_leaders_iff.1 hq).1).index?_eq]

end Remains

/-! ## When a node comes to show another text -/

namespace Touched

theorem remains (ht : Touched t ms u) : Remains t u := by
  refine ⟨ht.wellLinked, ht.identity, fun {x} hx hp => ?_⟩
  by_cases hold : t.InUse x
  · exact ht.kept hold hx
  · -- What is new is text
    rw [hx.placeholder?_eq, placeholder?_of_text (ht.fresh hx hold)] at hp
    simp at hp

/-- A tab stop that is hollow stays so if those that are touched inside of it come to be empty. -/
theorem hollow (ht : Touched t ms u) (hl : t.WellLinked) (hq : q ∈ u.placeholders)
    (hms : ∀ m ∈ ms, t.Follows m q → q ∈ t.ancestors m → u.Flat m "") (hh : t.Hollow q) :
    u.Hollow q := by
  intro n hf habove
  have hk := ht.remains.kept_of_mem hf.mem
  have hf := ht.remains.follows hl hq hf
  rw [hk.ancestors_eq] at habove
  by_cases hn : n ∈ ms
  · exact hms n hn hf habove
  · exact ht.flat_of_flat hl hk.before hk.inUse hn (hh n hf habove)

/-- A tab stop stays settled if those that are touched are neither inside of it nor follow it. -/
theorem settled (ht : Touched t ms u) (hl : t.WellLinked) (hq : q ∈ u.placeholders)
    (hms : ∀ m ∈ ms, t.index? m ≠ t.index? q ∧ m ∉ t.walk q) (hs : t.Settled q) :
    u.Settled q := by
  have hkq := ht.remains.kept_of_mem hq
  have hp := isSome_of_mem_placeholders (ht.remains.mem_placeholders hl hq)
  have hrender : u.render q = t.render q :=
    ht.render_eq hl hkq.before hkq.inUse (fun m hm hmem => absurd hmem (hms m hm).2)
      (hkq.marker_eq hp)
  intro n hf
  have hk := ht.remains.kept_of_mem hf.mem
  have hf := ht.remains.follows hl hq hf
  rw [hk.repeatedText_eq, hrender]
  exact ht.flat_of_flat hl hk.before hk.inUse (fun hn => (hms n hn).1 hf.index?_eq) (hs n hf)

end Touched

/-! ## When several nodes do, one after the other -/

/-- What comes of a tree when nodes come to show texts, of which `P` is true, one after the other.
Texts may be left over that stand alone. -/
inductive Writes (P : Handle → String → Prop) (t : Tree) : Tree → Prop
  | refl : Writes P t t
  | write {u v : Tree} {m : Handle} {s : String} :
    Writes P t u → Kept t u m → P m s → Wrote u m s v → Writes P t v
  | alloc {u : Tree} (s : String) : Writes P t u → Writes P t (u.alloc (.text s)).2

namespace Writes

variable {P : Handle → String → Prop}

theorem remains (hw : Writes P t u) (hl : t.WellLinked) : Remains t u := by
  induction hw with
  | refl => exact .refl hl
  | write _ _ _ hwrote ih => exact ih.trans hwrote.toTouched.remains
  | alloc s _ ih => exact ih.trans (touched_alloc ih.wellLinked s).remains

/-- A node stays if none of those that come to show texts is above it. -/
theorem kept (hw : Writes P t u) (hl : t.WellLinked) (hx : t.InUse x)
    (hP : ∀ m s, P m s → m ∉ t.ancestors x) : Kept t u x := by
  induction hw with
  | refl => exact .refl hx
  | @write u v m s hw hk hm hwrote ih =>
    refine ih.trans (hwrote.kept ih.inUse (hwrote.inUse ih.inUse ?_))
    refine Decidable.or_iff_not_imp_left.2 fun hne hmem => hP m s hm ?_
    rw [← ih.ancestors_eq]
    exact ((hw.remains hl).wellLinked.mem_walk_of_ne hk.inUse ih.inUse hne).1 hmem
  | @alloc u s hw ih =>
    have hu := (hw.remains hl).wellLinked
    have hg := (Linked.allocated hu (.text s)).grown hu
    exact ih.trans ((touched_alloc hu s).kept ih.inUse (hg.extended.inUse ih.inUse))

/-- What is kept whenever nodes are touched is kept by all that is written. Those that are touched are
the ones that come to show texts; when a text is left over there are none. -/
theorem touched_induction {Q : Tree → Prop} (hw : Writes P t u) (hl : t.WellLinked) (hstart : Q t)
    (hstep : ∀ {u v : Tree} {ms : List Handle}, Writes P t u → Writes P t v → Touched u ms v →
      (∀ m ∈ ms, Kept t u m ∧ ∃ s, P m s ∧ Wrote u m s v) → Q u → Q v) : Q u := by
  induction hw with
  | refl => exact hstart
  | @write u v m s hw hk hm hwrote ih =>
    refine hstep hw (hw.write hk hm hwrote) hwrote.toTouched (fun n hn => ?_) ih
    obtain rfl := List.mem_singleton.1 hn
    exact ⟨hk, s, hm, hwrote⟩
  | alloc s hw ih =>
    exact hstep hw (hw.alloc s) (touched_alloc (hw.remains hl).wellLinked s) (by simp) ih

/-- The same for what is told of a tab stop that is still there at the end, and so all the time. -/
theorem placeholder_induction {Q : Tree → Prop} (hw : Writes P t u) (hl : t.WellLinked)
    (hq : q ∈ u.placeholders) (hstart : Q t)
    (hstep : ∀ {u v : Tree} {ms : List Handle}, Writes P t u → Touched u ms v →
      (∀ m ∈ ms, Kept t u m ∧ ∃ s, P m s ∧ Wrote u m s v) → q ∈ u.placeholders →
        q ∈ v.placeholders → Q u → Q v) : Q u := by
  refine hw.touched_induction (Q := fun u => q ∈ u.placeholders → Q u) hl (fun _ => hstart)
    (fun hw _ ht hms ih hq => ?_) hq
  have hqu := ht.remains.mem_placeholders (hw.remains hl).wellLinked hq
  exact hstep hw ht hms hqu hq (ih hqu)

/-- A tab stop that is not come to goes on to show what it shows. -/
theorem flat (hw : Writes P t u) (hl : t.WellLinked) (hx : u.InUse x)
    (hsome : (u.placeholder? x).isSome) (hP : ∀ m s, P m s → m ≠ x) (hf : t.Flat x r) :
    u.Flat x r := by
  refine hw.touched_induction (Q := fun u => u.InUse x → (u.placeholder? x).isSome → u.Flat x r)
    hl (fun _ _ => hf) (fun hw _ ht hms ih hx hsome => ?_) hx hsome
  have hk := ht.remains.kept hx hsome
  refine ht.flat_of_flat (hw.remains hl).wellLinked hk.before hx (fun hmem => ?_)
    (ih hk.before (hk.placeholder?_eq ▸ hsome))
  obtain ⟨-, s, hm, -⟩ := hms x hmem
  exact hP x s hm rfl

theorem hollow (hw : Writes P t u) (hl : t.WellLinked)
    (hP : ∀ m s, P m s → t.Follows m q → q ∈ t.ancestors m → s = "") (hq : q ∈ u.placeholders)
    (hh : t.Hollow q) : u.Hollow q := by
  refine hw.placeholder_induction (Q := fun u => u.Hollow q) hl hq hh
    fun hw ht hms hqu hq ih => ?_
  have hr := hw.remains hl
  refine ht.hollow hr.wellLinked hq (fun n hn hf habove => ?_) ih
  obtain ⟨hk, s, hm, hwrote⟩ := hms n hn
  rw [hk.ancestors_eq] at habove
  rw [← hP n s hm (hr.follows hl hqu hf) habove]
  exact hwrote.flat

/-- What is inside of a tab stop later was inside of it before, if both are left. -/
theorem mem_walk_of_kept (hw : Writes P t u) (hl : t.WellLinked) (hm : Kept t u m)
    (hq : Kept t u q) (hmem : m ∈ u.walk q) : m ∈ t.walk q := by
  have habove := (((hw.remains hl).wellLinked.mem_walk_iff hq.inUse).1 hmem).2
  rw [hm.above_eq] at habove
  exact (hl.mem_walk_iff hq.before).2 ⟨hm.before, habove⟩

theorem settled (hw : Writes P t u) (hl : t.WellLinked)
    (hP : ∀ m s, P m s → t.index? m ≠ t.index? q ∧ m ∉ t.walk q) (hq : q ∈ u.placeholders)
    (hs : t.Settled q) : u.Settled q := by
  refine hw.placeholder_induction (Q := fun u => u.Settled q) hl hq hs
    fun hw ht hms hqu hq ih => ?_
  have hr := hw.remains hl
  have hkq := hr.kept_of_mem hqu
  refine ht.settled hr.wellLinked hq (fun n hn => ?_) ih
  -- What comes to show a text is of another index and not inside of the tab stop
  obtain ⟨hk, s, hm, -⟩ := hms n hn
  obtain ⟨hindex, hnot⟩ := hP n s hm
  rw [hk.index?_eq, hkq.index?_eq]
  exact ⟨hindex, fun hmem => hnot (hw.mem_walk_of_kept hl hk hkq hmem)⟩

/-- A tab stop shows what it showed if nothing inside of it comes to show another text. -/
theorem render_of_outside (hw : Writes P t u) (hl : t.WellLinked)
    (hP : ∀ m s, P m s → m ∉ t.walk p) (hp : p ∈ u.placeholders) : u.render p = t.render p := by
  refine hw.placeholder_induction (Q := fun u => u.render p = t.render p) hl hp rfl
    fun hw ht hms hpu hp ih => ?_
  have hr := hw.remains hl
  have hk := ht.remains.kept_of_mem hp
  rw [← ih]
  refine ht.render_eq hr.wellLinked hk.before hk.inUse (fun n hn hmem => ?_)
    (hk.marker_eq (isSome_of_mem_placeholders hpu))
  obtain ⟨hkn, s, hm, -⟩ := hms n hn
  exact absurd (hw.mem_walk_of_kept hl hkn (hr.kept_of_mem hpu) hmem) (hP n s hm)

/-- A hollow tab stop shows what it showed while those that follow it come to show texts. -/
theorem render_eq (hw : Writes P t u) (hl : t.WellLinked)
    (hP : ∀ m s, P m s → t.Follows m p ∧ (p ∈ t.ancestors m → s = "")) (hp : p ∈ u.placeholders)
    (hh : t.Hollow p) : u.render p = t.render p := by
  refine hw.placeholder_induction (Q := fun u => u.render p = t.render p) hl hp rfl
    @fun u v ms hw ht hms hpu hp ih => ?_
  have hr := hw.remains hl
  have hkp := ht.remains.kept_of_mem hp
  rw [← ih]
  refine ht.render_eq hr.wellLinked hkp.before hkp.inUse (fun n hn hmem => ?_)
    (hkp.marker_eq (isSome_of_mem_placeholders hpu))
  obtain ⟨hk, s, hm, hwrote⟩ := hms n hn
  obtain ⟨hf, hempty⟩ := hP n s hm
  -- What is touched inside of it is empty, before and after
  have hsome : (u.placeholder? n).isSome := by
    rw [hk.placeholder?_eq]
    exact isSome_of_mem_placeholders hf.mem
  have hkn := hwrote.kept hk.inUse (hwrote.inUse hk.inUse (Or.inl rfl))
  have habove := (hr.wellLinked.mem_walk_of_ne hkp.before hk.inUse hf.ne).1 hmem
  have hfu := hr.follows_of_kept hl hk (hr.kept_of_mem hpu) hf
  have hflat := hw.hollow hl (fun _ _ h _ => (hP _ _ h).2) hpu hh n hfu habove
  rw [hk.ancestors_eq] at habove
  rw [hflat.render hr.wellLinked hk.inUse hsome]
  have hflat' := hwrote.flat
  rw [hempty habove] at hflat'
  exact hflat'.render hwrote.wellLinked hkn.inUse (hkn.placeholder?_eq ▸ hsome)

end Writes

end TabStop.Tree
