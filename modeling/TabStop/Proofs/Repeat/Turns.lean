import TabStop.Proofs.Repeat.Remaining
import TabStop.Proofs.Repeat.Repeating

/-!
# A turn of one primary tab stop

In a pass each primary tab stop has its turn, in which the tab stops that follow it are gone through
one after the other. Some of these may be lost in the course of it. Their slots may have been taken
again by then; but they are of a later generation, as there are not so many tab stops that the
generations could come round.
-/

namespace TabStop.Tree

variable {t u : Tree} {m p q x : Handle} {done hs ms : List Handle} {i : TabIndex} {s : String}

/-! ## One tab stop after the other -/

theorem add_ofNat_ne {g : UInt32} {n : Nat} (hpos : 0 < n) (hn : n < 2 ^ 32) :
    g + UInt32.ofNat n ≠ g := by
  intro h
  have := congrArg UInt32.toNat h
  have hlt := g.toNat_lt
  rw [UInt32.toNat_add, UInt32.toNat_ofNat'] at this
  omega

theorem foldl_unchanged {α β : Type} {f : β → α → β} {b : β} {xs : List α}
    (hf : ∀ x ∈ xs, f b x = b) : xs.foldl f b = b := by
  induction xs with
  | nil => rfl
  | cons x xs ih =>
    obtain ⟨hx, hxs⟩ := List.forall_mem_cons.1 hf
    rw [List.foldl_cons, hx, ih hxs]

/-- The tree in which a tab stop has repeated the text `s` of a primary one. -/
def followed (p : Handle) (s : String) (t : Tree) (m : Handle) : Tree :=
  if t.isAncestorOrSelf m p then t else (t.showText m (t.repeatedText p m s)).2

theorem foldl_repeatAt_snd (p : Handle) (s : String) (hs : List Handle) (st : Bool × Tree) :
    (hs.foldl (repeatAt p s) st).2 = hs.foldl (followed p s) st.2 := by
  induction hs generalizing st with
  | nil => rfl
  | cons m hs ih => rw [List.foldl_cons, List.foldl_cons, ih, repeatAt_snd, followed]

/-- Of two tab stops that follow `p`, one is inside of the other. -/
def Nests (t : Tree) (p : Handle) : Prop :=
  ∃ m n, t.Follows m p ∧ t.Follows n p ∧ m ∈ t.ancestors n

/-- What is true of a tree in the turn of `p`, which shows `s`, when the tab stops `done` have been
come to. -/
structure Turning (t : Tree) (p : Handle) (s : String) (done : List Handle) (u : Tree) :
    Prop where
  writes : Writes (fun m r => t.Follows m p ∧ r = t.repeatedText p m s) t u
  leader : Kept t u p
  /-- What is lost has got on by as many generations as there have been tab stops at most. -/
  aged {x : Handle} : t.InUse x → ∃ j ≤ done.length,
    (u.slotOf x).generation = (t.slotOf x).generation + UInt32.ofNat j ∧ (Kept t u x ∨ 0 < j)
  flat {m : Handle} : m ∈ done → t.Follows m p → u.InUse m → (u.placeholder? m).isSome →
    u.Flat m (t.repeatedText p m s)

namespace Turning

theorem start (hp : t.InUse p) (s : String) : Turning t p s [] t where
  writes := .refl
  leader := .refl hp
  aged hx := ⟨0, Nat.le_refl _, by simp, Or.inl (.refl hx)⟩
  flat hm := by simp at hm

/-- A node that was there is left, or its slot is of a later generation. -/
theorem kept_or_stale (ht : Turning t p s done u) (hn : done.length < 2 ^ 32) (hx : t.InUse x) :
    Kept t u x ∨ (u.slotOf x).generation ≠ x.generation := by
  obtain ⟨j, hj, hgeneration, hk | hpos⟩ := ht.aged hx
  · exact Or.inl hk
  · right
    rw [hgeneration, (owns_iff.1 hx.owned).2.2]
    exact add_ofNat_ne hpos (Nat.lt_of_le_of_lt hj hn)

/-- What `done` show goes on to be shown as others are touched. -/
theorem flat_of_touched {v : Tree} (ht : Turning t p s done u) (hl : t.WellLinked)
    (htouched : Touched u ms v) (hm : m ∈ done) (hms : m ∉ ms) (hf : t.Follows m p)
    (hmv : v.InUse m) (hsome : (v.placeholder? m).isSome) : v.Flat m (t.repeatedText p m s) := by
  have hk := htouched.remains.kept hmv hsome
  rw [hk.placeholder?_eq] at hsome
  exact htouched.flat_of_flat (ht.writes.remains hl).wellLinked hk.before hmv hms
    (ht.flat hm hf hk.before hsome)

/-- The next tab stop has been lost, or is around `p`. -/
theorem skip (ht : Turning t p s done u) (hm : t.Follows m p → ¬ u.InUse m) :
    Turning t p s (m :: done) u where
  writes := ht.writes
  leader := ht.leader
  aged hx := by
    obtain ⟨j, hj, haged⟩ := ht.aged hx
    exact ⟨j, Nat.le_succ_of_le hj, haged⟩
  flat hd hf hdu hsome := by
    rcases List.mem_cons.1 hd with rfl | hd
    · exact absurd hdu (hm hf)
    · exact ht.flat hd hf hdu hsome

/-- The next tab stop has been lost, and a text is left over. -/
theorem alloc (ht : Turning t p s done u) (hl : t.WellLinked) (hm : ¬ u.InUse m) (r : String) :
    Turning t p s (m :: done) (u.alloc (.text r)).2 := by
  have hu := (ht.writes.remains hl).wellLinked
  have hg := (Linked.allocated hu (.text r)).grown hu
  have htouched := touched_alloc hu r
  have hkept {x : Handle} (hk : Kept t u x) : Kept t (u.alloc (.text r)).2 x :=
    hk.trans (htouched.kept hk.inUse (hg.extended.inUse hk.inUse))
  refine ⟨ht.writes.alloc r, hkept ht.leader, fun {x} hx => ?_, fun {d} hd hf hdv hsome => ?_⟩
  · obtain ⟨j, hj, hgeneration, haged⟩ := ht.aged hx
    rw [hg.extended.generation]
    exact ⟨j, Nat.le_succ_of_le hj, hgeneration, haged.imp_left hkept⟩
  · rcases List.mem_cons.1 hd with rfl | hd
    · exact absurd (htouched.remains.kept hdv hsome).before hm
    · exact ht.flat_of_touched hl htouched hd (by simp) hf hdv hsome

/-- The next tab stop has come to show its text. -/
theorem write {v : Tree} (ht : Turning t p s done u) (hl : t.WellLinked) (hk : Kept t u m)
    (hf : t.Follows m p) (hw : Wrote u m (t.repeatedText p m s) v) :
    Turning t p s (m :: done) v := by
  have hu := (ht.writes.remains hl).wellLinked
  have hp : v.InUse p := by
    refine hw.inUse ht.leader.inUse (Or.inr fun hmem => ?_)
    have habove := ((hu.mem_walk_iff hk.inUse).1 hmem).2
    rw [ht.leader.above_eq, hf.not_above] at habove
    simp at habove
  refine ⟨ht.writes.write hk ⟨hf, rfl⟩ hw, ht.leader.trans (hw.kept ht.leader.inUse hp),
    fun {x} hx => ?_, fun {d} hd hfd hdv hsome => ?_⟩
  -- A slot has been lost at most once for each tab stop that was done, and now perhaps once more
  · obtain ⟨j, hj, hgeneration, haged⟩ := ht.aged hx
    rw [List.length_cons]
    have hnext (h : (v.slotOf x).generation = (u.slotOf x).generation + 1) :
        (v.slotOf x).generation = (t.slotOf x).generation + UInt32.ofNat (j + 1) := by
      rw [h, hgeneration, UInt32.ofNat_add, UInt32.add_assoc]
      rfl
    rcases haged with hkx | hpos
    · rcases hw.lost hkx.inUse with hxv | hlater
      · have hkv := hw.kept hkx.inUse hxv
        refine ⟨j, by omega, ?_, Or.inl (hkx.trans hkv)⟩
        rw [← hgeneration, (owns_iff.1 hxv.owned).2.2, (owns_iff.1 hkx.inUse.owned).2.2]
      · exact ⟨j + 1, by omega, hnext hlater, Or.inr (Nat.succ_pos j)⟩
    · rcases hw.generation x with hsame | hlater
      · exact ⟨j, by omega, hsame.trans hgeneration, Or.inr hpos⟩
      · exact ⟨j + 1, by omega, hnext hlater, Or.inr (Nat.succ_pos j)⟩
  · by_cases hdm : d = m
    · subst hdm
      exact hw.flat
    · exact ht.flat_of_touched hl hw.toTouched ((List.mem_cons.1 hd).resolve_left hdm)
        (by simpa using hdm) hfd hdv hsome

/-- The next tab stop is around `p` and left alone; or it comes to show its text; or it has been lost,
since it was inside of another one that follows `p`, and the text of `p` is left over. -/
theorem followed_cases (ht : Turning t p s done u) (hl : t.WellLinked) (hn : done.length < 2 ^ 32)
    (hm : m ∈ t.placeholders) (hindex : t.index? m = t.index? p) :
    t.isAncestorOrSelf m p ∧ u.followed p s m = u ∨
      t.Follows m p ∧ Kept t u m ∧
        u.followed p s m = (u.showText m (t.repeatedText p m s)).2 ∨
      t.Follows m p ∧ (∃ n ∈ t.ancestors m, t.Follows n p) ∧ ¬ u.InUse m ∧
        u.followed p s m = if s = "" then u else (u.alloc (.text s)).2 := by
  have hu := (ht.writes.remains hl).wellLinked
  have hmu := hl.inUse_of_mem_placeholders hm
  rw [Tree.followed, ht.leader.above_eq]
  cases habove : t.isAncestorOrSelf m p with
  | true => exact Or.inl ⟨rfl, rfl⟩
  | false =>
    have hf : t.Follows m p := ⟨hm, hindex, habove⟩
    simp only [Bool.false_eq_true, ↓reduceIte]
    rcases ht.kept_or_stale hn hmu with hk | hstale
    · exact Or.inr (Or.inl ⟨hf, hk, by rw [hk.repeatedText_eq]⟩)
    · have hlost : ¬ u.InUse m := fun h => hstale (owns_iff.1 h.owned).2.2
      have hnested : ∃ n ∈ t.ancestors m, t.Follows n p := by
        by_contra hnone
        push Not at hnone
        refine hlost (ht.writes.kept hl hmu ?_).inUse
        rintro n _ ⟨hfn, -⟩ hmem
        exact hnone n hmem hfn
      -- It is not told any more that it was inside of `p`, or had a transform
      have howns : u.owns m = false :=
        Bool.eq_false_iff.2 fun ho => hstale (owns_iff.1 ho).2.2
      have hrepeated : u.repeatedText p m s = s := by
        have hnone : u.upwards u.capacity none = [] := by cases u.capacity <;> rfl
        simp [repeatedText, isAncestorOrSelf, ancestors, parent?, placeholder?, marker?, howns, hnone,
          hf.ne.symm, Transform.resolveBy]
      refine Or.inr (Or.inr ⟨hf, hnested, hlost, ?_⟩)
      rw [hrepeated]
      rcases showText_of_stale hu hstale s with ⟨hs, hshow⟩ | ⟨hs, hshow⟩
      · rw [hshow, if_pos hs]
      · rw [hshow, if_neg hs]

theorem followed (ht : Turning t p s done u) (hl : t.WellLinked) (hn : done.length < 2 ^ 32)
    (hm : m ∈ t.placeholders) (hindex : t.index? m = t.index? p) :
    Turning t p s (m :: done) (u.followed p s m) := by
  rcases ht.followed_cases hl hn hm hindex with ⟨habove, heq⟩ | ⟨hf, hk, heq⟩ |
    ⟨-, -, hlost, heq⟩ <;> rw [heq]
  · exact ht.skip fun hf => by simp [hf.not_above] at habove
  · exact ht.write hl hk hf (wrote_showText (ht.writes.remains hl).wellLinked hk.inUse _)
  · split
    · exact ht.skip fun _ => hlost
    · exact ht.alloc hl hlost s

theorem foldl_followed (ht : Turning t p s done u) (hl : t.WellLinked)
    (hn : hs.length + done.length ≤ 2 ^ 32)
    (hhs : ∀ m ∈ hs, m ∈ t.placeholders ∧ t.index? m = t.index? p) :
    Turning t p s (hs.reverse ++ done) (hs.foldl (Tree.followed p s) u) := by
  induction hs generalizing done u with
  | nil => exact ht
  | cons m hs ih =>
    obtain ⟨⟨hm, hindex⟩, hhs⟩ := List.forall_mem_cons.1 hhs
    rw [List.length_cons] at hn
    have hnext := ih (ht.followed hl (by omega) hm hindex) (by rw [List.length_cons]; omega) hhs
    rw [List.reverse_cons, List.append_assoc]
    exact hnext

/-- What is preserved when a tab stop comes to show a text, or when a text is left over since one tab
stop that follows `p` was inside of another one, is preserved as the tab stops are gone through. -/
theorem foldl_induction (ht : Turning t p s done u) (hl : t.WellLinked)
    (hn : hs.length + done.length ≤ 2 ^ 32)
    (hhs : ∀ m ∈ hs, m ∈ t.placeholders ∧ t.index? m = t.index? p) {P : Tree → Prop} (hstart : P u)
    (hshow : ∀ {v m} (r : String), v.WellLinked → m ∈ v.placeholders → P v → P (v.showText m r).2)
    (hlost : ∀ {v : Tree}, v.WellLinked → s ≠ "" → t.Nests p → P v → P (v.alloc (.text s)).2) :
    P (hs.foldl (Tree.followed p s) u) := by
  induction hs generalizing done u with
  | nil => exact hstart
  | cons m hs ih =>
    obtain ⟨⟨hm, hindex⟩, hhs⟩ := List.forall_mem_cons.1 hhs
    rw [List.length_cons] at hn
    refine ih (ht.followed hl (by omega) hm hindex) (by rw [List.length_cons]; omega) hhs ?_
    have hremains := ht.writes.remains hl
    have hu := hremains.wellLinked
    -- The tab stop is above the leader, or still there, or lost; when it is lost a text may be left
    -- over
    rcases ht.followed_cases hl (by omega) hm hindex with ⟨-, heq⟩ | ⟨-, hk, heq⟩ |
      ⟨hf, ⟨n, hn, hfn⟩, -, heq⟩ <;> rw [heq]
    · exact hstart
    · exact hshow _ hu (hremains.mem_of_kept hl hk hm) hstart
    · split
      · exact hstart
      · next hs => exact hlost hu hs ⟨n, m, hfn, hf, hn⟩ hstart

end Turning

/-! ## A whole turn -/

/-- The tree after the turn of a tab stop, if its index is repeated at all. -/
def turn (t : Tree) (p : Handle) : Tree :=
  if (t.index? p).any (!·.isFinal) then (t.repeatPrimary p).2 else t

theorem turn_of_mem (hl : t.WellLinked) (hp : p ∈ t.leaders) : ∃ i, t.index? p = some i ∧
    t.turn p = (t.placeholdersOf i).foldl (followed p (t.render p)) t := by
  have hmem := (mem_leaders_iff.1 hp).1
  obtain ⟨i, hi, hfinal⟩ := exists_index?_of_mem_leaders hp
  have hattached := hl.isAttached_of_mem (hl.mem_walk_root_of_placeholder hmem).1
  refine ⟨i, hi, ?_⟩
  simp only [turn, hi, Option.any_some, hfinal, Bool.not_false,
    ↓reduceIte, repeatPrimary, hattached, Bool.not_true, Bool.false_eq_true]
  rw [foldl_repeatAt_snd]

/-- A tab stop that has been lost has no turn. -/
theorem turn_of_not_mem (hl : t.WellLinked) (hroot : p ≠ t.root)
    (hprimary : p ∈ t.placeholders → t.isPrimary p) (hp : p ∉ t.leaders) : t.turn p = t := by
  unfold turn repeatPrimary
  by_cases hattached : t.isAttached p
  · split
    · next hany =>
      -- It would be one of the primary tab stops of the document
      have hfinal : t.isFinal p = false := by
        cases hi : t.index? p <;> simp [hi] at hany
        simp [isFinal, hi, hany]
      have hsome : (t.placeholder? p).isSome := by
        rw [← index?_isSome]
        cases hi : t.index? p <;> simp [hi] at hany
        rfl
      have habove : t.root ∈ t.ancestors p := by
        simp only [isAttached, Bool.and_eq_true, Bool.or_eq_true, beq_iff_eq, hroot,
          false_or] at hattached
        exact List.mem_of_getLast? hattached.2
      have hmem := hl.mem_placeholders_iff.2 ⟨hl.inUse_of_mem_ancestors habove, hsome, habove⟩
      exact absurd (mem_leaders_iff.2 ⟨hmem, hprimary hmem, hfinal⟩) hp
    · rfl
  · simp [hattached]

namespace Repeatable

/-- A turn goes through the tab stops of the index. -/
theorem turn_start (hr : t.Repeatable) (hp : p ∈ t.leaders) : ∃ i, t.index? p = some i ∧
    t.turn p = (t.placeholdersOf i).foldl (followed p (t.render p)) t ∧
    Turning t p (t.render p) [] t ∧ (t.placeholdersOf i).length < 2 ^ 32 ∧
    ∀ m ∈ t.placeholdersOf i, m ∈ t.placeholders ∧ t.index? m = t.index? p := by
  have hl := hr.wellLinked
  obtain ⟨i, hi, hturn⟩ := turn_of_mem hl hp
  refine ⟨i, hi, hturn, .start (hl.inUse_of_mem_placeholders (mem_leaders_iff.1 hp).1) _,
    Nat.lt_of_le_of_lt (placeholdersOf_sublist t i).length_le hr.length_lt, fun m hm => ?_⟩
  obtain ⟨hmem, hindex⟩ := List.mem_filter.1 hm
  exact ⟨hmem, by rw [hi]; simpa using hindex⟩

theorem turning (hr : t.Repeatable) (hp : p ∈ t.leaders) :
    ∃ done, Turning t p (t.render p) done (t.turn p) ∧ ∀ m, t.Follows m p → m ∈ done := by
  obtain ⟨i, hi, hturn, hstart, hlength, hmem⟩ := hr.turn_start hp
  have hturning := hstart.foldl_followed hr.wellLinked (by rw [List.length_nil]; omega) hmem
  rw [← hturn] at hturning
  refine ⟨_, hturning, fun m hf => ?_⟩
  rw [List.append_nil, List.mem_reverse, placeholdersOf, List.mem_filter]
  exact ⟨hf.mem, by rw [hf.index?_eq, hi]; simp⟩

/-- What is preserved when a tab stop comes to show a text, or when a text is left over since one tab
stop that follows the primary one was inside of another one, is preserved by a turn. -/
theorem turn_induction (hr : t.Repeatable) (hp : p ∈ t.leaders) {P : Tree → Prop} (hstart : P t)
    (hshow : ∀ {u m} (r : String), u.WellLinked → m ∈ u.placeholders → P u → P (u.showText m r).2)
    (hlost : ∀ {u : Tree}, u.WellLinked → t.render p ≠ "" → t.Nests p → P u →
      P (u.alloc (.text (t.render p))).2) : P (t.turn p) := by
  obtain ⟨i, -, hturn, hturning, hlength, hmem⟩ := hr.turn_start hp
  rw [hturn]
  exact hturning.foldl_induction hr.wellLinked (by rw [List.length_nil]; omega) hmem hstart hshow hlost

theorem remains_turn (hr : t.Repeatable) (hp : p ∈ t.leaders) : Remains t (t.turn p) := by
  obtain ⟨done, hturning, -⟩ := hr.turning hp
  exact hturning.writes.remains hr.wellLinked

/-- A node stays if no tab stop above it follows the one that has its turn. -/
theorem kept_turn (hr : t.Repeatable) (hp : p ∈ t.leaders) (hx : t.InUse x)
    (hfree : ∀ m ∈ t.ancestors x, ¬ t.Follows m p) : Kept t (t.turn p) x := by
  obtain ⟨done, hturning, -⟩ := hr.turning hp
  apply hturning.writes.kept hr.wellLinked hx
  rintro m _ ⟨hf, -⟩ hm
  exact hfree m hm hf

/-- Inside of the primary tab stop, the tab stops that follow it are emptied. -/
theorem hollow_turn_self (hr : t.Repeatable) (hp : p ∈ t.leaders)
    (hpu : p ∈ (t.turn p).placeholders) : (t.turn p).Hollow p := by
  obtain ⟨done, hturning, hdone⟩ := hr.turning hp
  have hremains := hturning.writes.remains hr.wellLinked
  intro m hf habove
  have hk := hremains.kept_of_mem hf.mem
  have hft := hremains.follows hr.wellLinked hpu hf
  have hflat := hturning.flat (hdone m hft) hft hk.inUse (isSome_of_mem_placeholders hf.mem)
  rw [hk.ancestors_eq] at habove
  rwa [repeatedText_of_inside habove] at hflat

/-- A tab stop that is hollow is so after the turn of another one, and after its own. -/
theorem hollow_turn (hr : t.Repeatable) (hp : p ∈ t.leaders) (hq : q ∈ (t.turn p).leaders)
    (hh : t.Hollow q) : (t.turn p).Hollow q := by
  obtain ⟨done, hturning, -⟩ := hr.turning hp
  have hl := hr.wellLinked
  refine hturning.writes.hollow hl ?_ (mem_leaders_iff.1 hq).1 hh
  rintro m _ ⟨hf, rfl⟩ hfq habove
  -- It follows one primary tab stop only
  obtain rfl := hr.single p hp q ((hturning.writes.remains hl).mem_leaders hl hq)
    (hf.index?_eq.symm.trans hfq.index?_eq)
  exact repeatedText_of_inside habove _

/-- The turn of a hollow tab stop settles it: what it shows does not change in its own turn. -/
theorem settled_turn_self (hr : t.Repeatable) (hp : p ∈ t.leaders)
    (hpu : p ∈ (t.turn p).placeholders) (hh : t.Hollow p) : (t.turn p).Settled p := by
  obtain ⟨done, hturning, hdone⟩ := hr.turning hp
  have hl := hr.wellLinked
  have hremains := hturning.writes.remains hl
  have hrender : (t.turn p).render p = t.render p := by
    refine hturning.writes.render_eq hl ?_ hpu hh
    rintro m _ ⟨hf, rfl⟩
    exact ⟨hf, fun habove => repeatedText_of_inside habove _⟩
  intro m hf
  have hk := hremains.kept_of_mem hf.mem
  have hft := hremains.follows hl hpu hf
  rw [hk.repeatedText_eq, hrender]
  exact hturning.flat (hdone m hft) hft hk.inUse (isSome_of_mem_placeholders hf.mem)

/-- A tab stop that is settled is so after the turn of another one that does not feed it. -/
theorem settled_turn (hr : t.Repeatable) (hp : p ∈ t.leaders) (hq : q ∈ (t.turn p).leaders)
    (hne : q ≠ p) (hfeeds : ¬ t.Feeds q p) (hs : t.Settled q) : (t.turn p).Settled q := by
  obtain ⟨done, hturning, -⟩ := hr.turning hp
  have hl := hr.wellLinked
  have hqt := (hturning.writes.remains hl).mem_leaders hl hq
  have hqu := hl.inUse_of_mem_placeholders (mem_leaders_iff.1 hqt).1
  have hindex : t.index? p ≠ t.index? q := fun heq => hne (hr.single p hp q hqt heq).symm
  refine hturning.writes.settled hl ?_ (mem_leaders_iff.1 hq).1 hs
  rintro m _ ⟨hf, rfl⟩
  rw [hf.index?_eq]
  refine ⟨hindex, fun hmem => hfeeds ⟨hindex, m, hf.mem, ?_, hr.not_primary hp hf, hf.index?_eq⟩⟩
  have hmq : m ≠ q := fun heq => hindex (heq ▸ hf.index?_eq).symm
  exact (hl.mem_walk_of_ne hqu (hl.inUse_of_mem_placeholders hf.mem) hmq).1 hmem

/-- Nothing is done about a tab stop that is settled, and no change is told. -/
theorem repeatPrimary_of_settled (hr : t.Repeatable) (hs : t.Settled p) :
    t.repeatPrimary p = (false, t) := by
  have hl := hr.wellLinked
  unfold repeatPrimary
  split
  · rfl
  split
  · next i hi =>
    -- Each tab stop that follows shows its text already
    refine foldl_unchanged fun m hm => ?_
    obtain ⟨hmem, hindex⟩ := List.mem_filter.1 hm
    rw [repeatAt]
    split
    · rfl
    · next habove =>
      have hf : t.Follows m p :=
        ⟨hmem, by rw [hi]; simpa using hindex, Bool.eq_false_iff.2 habove⟩
      simp [(hs m hf).showText hl (hl.inUse_of_mem_placeholders hmem)]
  · rfl

theorem turn_of_settled (hr : t.Repeatable) (hs : t.Settled p) : t.turn p = t := by
  unfold turn
  split
  · rw [hr.repeatPrimary_of_settled hs]
  · rfl

end Repeatable

end TabStop.Tree
