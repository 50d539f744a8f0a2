import TabStop.Proofs.Repeat.Turns

/-!
# How many passes are enough

The first pass empties the tab stops that are inside of the primary one they follow. From then on
what a primary tab stop shows does not change in its own turn; it may change in the turn of another
one, which a tab stop inside of it follows. If no circle comes of that, the primary tab stops have
ranks, and every pass settles those of one rank more. There are no more ranks than tab stops.
-/

namespace TabStop.Tree

variable {t u : Tree} {p q x : Handle} {i j : TabIndex} {k n : Nat} {S : Handle → Prop}
  {rank : Handle → Nat}

/-! ## What a pass tells -/

/-- If it is never told that there is a change, and a first change would be told, there is none. -/
theorem foldl_untold {α : Type} {f : Bool × Tree → α → Bool × Tree} {xs : List α}
    (htold : ∀ st x, st.1 → (f st x).1)
    (hfirst : ∀ x ∈ xs, (f (false, t) x).1 = false → f (false, t) x = (false, t))
    (hnone : (xs.foldl f (false, t)).1 = false) : xs.foldl f (false, t) = (false, t) := by
  have htold_foldl (ys : List α) (st : Bool × Tree) (hst : st.1) : (ys.foldl f st).1 := by
    induction ys generalizing st with
    | nil => exact hst
    | cons y ys ih => exact ih _ (htold st y hst)
  induction xs with
  | nil => rfl
  | cons x xs ih =>
    obtain ⟨hx, hxs⟩ := List.forall_mem_cons.1 hfirst
    rw [List.foldl_cons] at hnone ⊢
    cases hchange : (f (false, t) x).1 with
    | true =>
      rw [htold_foldl xs _ hchange] at hnone
      exact absurd hnone (by simp)
    | false =>
      rw [hx hchange] at hnone ⊢
      exact ih hxs hnone

theorem WellLinked.repeatPrimary_untold (hl : t.WellLinked) (hnone : (t.repeatPrimary p).1 = false) :
    t.repeatPrimary p = (false, t) := by
  unfold repeatPrimary at hnone ⊢
  split
  · rfl
  next hattached =>
  rw [if_neg hattached] at hnone
  split
  · next i hi =>
    simp only [hi] at hnone
    -- A change is never taken back, so if none was told at the end there has been none
    refine foldl_untold (fun st m hst => ?_) (fun m hm hchange => ?_) hnone
    · rw [repeatAt]
      split
      · exact hst
      · simp [hst]
    · have hmem := (placeholdersOf_sublist t i).subset hm
      rw [repeatAt] at hchange ⊢
      split
      · rfl
      · next habove =>
        rw [if_neg habove] at hchange
        have hshow := showText_unchanged hl (hl.inUse_of_mem_placeholders hmem)
          (by simpa using hchange)
        simp [hshow]
  · rfl

/-- A pass changes the tree only if that is told. -/
theorem WellLinked.repeatPass_untold (hl : t.WellLinked) (hnone : t.repeatPass.1 = false) :
    t.repeatPass = (false, t) := by
  refine foldl_untold (f := repeatStep) (fun st p hst => ?_) (fun p hp hchange => ?_) hnone
  · rw [repeatStep]
    split
    · simp [hst]
    · exact hst
  · rw [repeatStep] at hchange ⊢
    split
    · next hindex =>
      rw [if_pos hindex] at hchange
      simp [hl.repeatPrimary_untold (p := p) (by simpa using hchange)]
    · rfl

/-- Nothing is left to do in a tree whose primary tab stops are settled. -/
theorem Repeatable.repeatPass_eq (ht : t.Repeatable) (hs : ∀ p ∈ t.leaders, t.Settled p) :
    t.repeatPass = (false, t) := by
  refine foldl_unchanged (f := repeatStep) fun p hp => ?_
  rw [repeatStep]
  split
  · next hindex =>
    have hleader : p ∈ t.leaders := by
      refine List.mem_filter.2 ⟨hp, ?_⟩
      cases hi : t.index? p <;> simp_all [isFinal]
    simp [ht.repeatPrimary_of_settled (hs p hleader)]
  · rfl

/-! ## The turns of a pass -/

theorem repeatPass_snd (t : Tree) : t.repeatPass.2 = t.primaries.foldl turn t := by
  have hsteps (ps : List Handle) (st : Bool × Tree) :
      (ps.foldl repeatStep st).2 = ps.foldl turn st.2 := by
    induction ps generalizing st with
    | nil => rfl
    | cons p ps ih => rw [List.foldl_cons, List.foldl_cons, ih, repeatStep_snd, turn]
  exact hsteps t.primaries (false, t)

namespace Repeatable

/-- A primary tab stop that is come to in a pass is left, or it has no turn. -/
theorem turn_cases (ht : t.Repeatable) (hu : Remains t u) (hp : p ∈ t.primaries) :
    p ∈ u.leaders ∨ p ∉ u.leaders ∧ u.turn p = u := by
  by_cases hleader : p ∈ u.leaders
  · exact Or.inl hleader
  · obtain ⟨hmem, hprimary⟩ := List.mem_filter.1 hp
    refine Or.inr ⟨hleader, turn_of_not_mem hu.wellLinked ?_ (fun hpu => ?_) hleader⟩
    · -- The root has nothing above it, so it is no tab stop of the document
      rintro rfl
      have habove := (ht.wellLinked.mem_placeholders_iff.1 hmem).2.2
      rw [hu.root_eq, ht.wellLinked.ancestors_root] at habove
      simp at habove
    · rwa [(hu.kept_of_mem hpu).isPrimary_eq]

/-- What the turns of a pass come to, one after the other. -/
theorem pass_induction (ht : t.Repeatable) {P : List Handle → Tree → Prop} (hstart : P [] t)
    (hskip : ∀ {done u p}, Remains t u → p ∉ u.leaders → P done u → P (p :: done) u)
    (hturn : ∀ {done u p}, Remains t u → u.Repeatable → p ∈ u.leaders → P done u →
      P (p :: done) (u.turn p)) :
    Remains t t.repeatPass.2 ∧ P t.primaries.reverse t.repeatPass.2 := by
  -- Induction on the tab stops whose turn is still to come
  have hturns (ps done : List Handle) (u : Tree) (hps : ps ⊆ t.primaries) (hu : Remains t u)
      (hP : P done u) : Remains t (ps.foldl turn u) ∧ P (ps.reverse ++ done) (ps.foldl turn u) := by
    induction ps generalizing done u with
    | nil => exact ⟨hu, hP⟩
    | cons p ps ih =>
      obtain ⟨hp, hps⟩ := List.cons_subset.1 hps
      rw [List.foldl_cons, List.reverse_cons, List.append_assoc]
      rcases ht.turn_cases hu hp with hleader | ⟨hlost, hsame⟩
      · have hur := hu.repeatable ht
        exact ih _ _ hps (hu.trans (hur.remains_turn hleader)) (hturn hu hur hleader hP)
      · rw [hsame]
        exact ih _ _ hps hu (hskip hu hlost hP)
  rw [repeatPass_snd, ← List.append_nil t.primaries.reverse]
  exact hturns t.primaries [] t (fun _ hp => hp) (.refl ht.wellLinked) hstart

theorem remains_repeatPass (ht : t.Repeatable) : Remains t t.repeatPass.2 :=
  (ht.pass_induction (P := fun _ _ => True) trivial (fun _ _ _ => trivial)
    fun _ _ _ _ => trivial).1

/-- What is a primary tab stop after a pass has had its turn in it. -/
theorem mem_reverse_primaries (ht : t.Repeatable) (hq : q ∈ t.repeatPass.2.leaders) :
    q ∈ t.primaries.reverse :=
  List.mem_reverse.2 (List.mem_filter.1 (ht.remains_repeatPass.mem_leaders ht.wellLinked hq)).1

/-- What its own turn brings about for a primary tab stop and the turns of others keep is there after
a pass. -/
theorem pass_leaders (ht : t.Repeatable) {P : Tree → Handle → Prop}
    (hself : ∀ {u : Tree} {p}, u.Repeatable → p ∈ u.leaders → p ∈ (u.turn p).leaders →
      P (u.turn p) p)
    (hother : ∀ {u : Tree} {p q}, u.Repeatable → p ∈ u.leaders → q ∈ (u.turn p).leaders → q ≠ p →
      P u q → P (u.turn p) q) (hq : q ∈ t.repeatPass.2.leaders) : P t.repeatPass.2 q := by
  refine (ht.pass_induction (P := fun done u => ∀ q ∈ u.leaders, q ∈ done → P u q) (by simp)
    ?_ ?_).2 q hq (ht.mem_reverse_primaries hq)
  · intro done u p _ hp hdone q hq hqd
    rcases List.mem_cons.1 hqd with rfl | hqd
    · exact absurd hq hp
    · exact hdone q hq hqd
  · intro done u p _ hu hp hdone q hq hqd
    by_cases hqp : q = p
    · subst hqp
      exact hself hu hp hq
    · exact hother hu hp hq hqp (hdone q ((hu.remains_turn hp).mem_leaders hu.wellLinked hq)
        ((List.mem_cons.1 hqd).resolve_left hqp))

/-- A pass empties what follows a primary tab stop inside of it. -/
theorem hollow_repeatPass (ht : t.Repeatable) (hq : q ∈ t.repeatPass.2.leaders) :
    t.repeatPass.2.Hollow q :=
  ht.pass_leaders (fun hu hp hq => hu.hollow_turn_self hp (mem_leaders_iff.1 hq).1)
    (fun hu hp hq _ hhollow => hu.hollow_turn hp hq hhollow) hq

end Repeatable

/-! ## Ranks -/

/-- A rank of primary tab stops that are `S`: what is inside of one of them follows only others, of a
lower rank. -/
def Ranked (t : Tree) (S : Handle → Prop) (rank : Handle → Nat) : Prop :=
  ∀ q ∈ t.leaders, S q → ∀ p ∈ t.leaders, t.Feeds q p → S p ∧ rank p < rank q

theorem Remains.ranked (hu : Remains t u) (hl : t.WellLinked) (hrank : t.Ranked S rank) :
    u.Ranked S rank := fun q hq hS p hp hf =>
  hrank q (hu.mem_leaders hl hq) hS p (hu.mem_leaders hl hp)
    (hu.feeds hl (mem_leaders_iff.1 hq).1 (mem_leaders_iff.1 hp).1 hf)

/-- The primary tab stop of `i` holds `j`: a tab stop of `j` that repeats another one is inside of
it. -/
def Holds (t : Tree) (i j : TabIndex) : Prop :=
  j.isFinal = false ∧ j ≠ i ∧ ∃ q ∈ t.primaries, t.index? q = some i ∧
    ∃ m ∈ t.walk q, t.isPrimary m = false ∧ t.index? m = some j

/-- Of the indexes that an index holds, in some steps or in none, none holds itself in a circle. -/
def Grounded (t : Tree) (i : TabIndex) : Prop :=
  ∀ j, Relation.ReflTransGen t.Holds i j → ¬ Relation.TransGen t.Holds j j

theorem Grounded.of_holds (hg : t.Grounded i) (hij : Relation.ReflTransGen t.Holds i j) :
    t.Grounded j := fun k hk => hg k (hij.trans hk)

theorem Grounded.mono (hg : t.Grounded i) (hmono : ∀ i j, u.Holds i j → t.Holds i j) :
    u.Grounded i := fun j hj hloop => hg j (hj.lift id hmono) (hloop.lift id hmono)

/-- No index comes to hold another one by the loss of tab stops. -/
theorem Remains.holds (hr : Remains t u) (hl : t.WellLinked) (hij : u.Holds i j) :
    t.Holds i j := by
  obtain ⟨hfinal, hne, q, hq, hi, m, hm, hprimary, hj⟩ := hij
  obtain ⟨hqmem, hqprimary⟩ := List.mem_filter.1 hq
  have hkq := hr.kept_of_mem hqmem
  obtain ⟨hmu, habove⟩ := (hr.wellLinked.mem_walk_iff hkq.inUse).1 hm
  have hkm : Kept t u m := hr.kept hmu (by rw [← index?_isSome, hj]; rfl)
  rw [hkm.above_eq] at habove
  refine ⟨hfinal, hne, q, List.mem_filter.2 ⟨hr.mem_placeholders hl hqmem, ?_⟩, ?_, m,
    (hl.mem_walk_iff hkq.before).2 ⟨hkm.before, habove⟩, ?_, ?_⟩
  · rwa [← hkq.isPrimary_eq]
  · rwa [← hkq.index?_eq]
  · rwa [← hkm.isPrimary_eq]
  · rwa [← hkm.index?_eq]

theorem Feeds.holds (hf : t.Feeds q p) (hl : t.WellLinked) (hq : q ∈ t.leaders)
    (hp : p ∈ t.leaders) (hi : t.index? q = some i) (hj : t.index? p = some j) : t.Holds i j := by
  obtain ⟨m, hm, habove, hprimary, hindex⟩ := hf.inside
  obtain ⟨j', hj', hfinal⟩ := exists_index?_of_mem_leaders hp
  obtain rfl := Option.some.inj (hj.symm.trans hj')
  refine ⟨hfinal, ?_, q, (List.mem_filter.1 hq).1, hi, m, ?_, hprimary, hindex.trans hj⟩
  · rintro rfl
    exact hf.index?_ne (hj.trans hi.symm)
  · rw [hl.mem_walk_iff (hl.inUse_of_mem_placeholders (mem_leaders_iff.1 hq).1)]
    exact ⟨hl.inUse_of_mem_placeholders hm,
      isAncestorOrSelf_iff.2 (List.mem_cons_of_mem _ habove)⟩

open Classical in
/-- The primary tab stops whose index that of `p` holds, in one step or in several. -/
noncomputable def held (t : Tree) (p : Handle) : Finset Handle :=
  t.leaders.toFinset.filter fun q => ∃ i j, t.index? p = some i ∧ t.index? q = some j ∧
    Relation.TransGen t.Holds i j

theorem mem_held_iff : q ∈ t.held p ↔ q ∈ t.leaders ∧ ∃ i j, t.index? p = some i ∧
    t.index? q = some j ∧ Relation.TransGen t.Holds i j := by
  simp only [held, Finset.mem_filter, List.mem_toFinset]

theorem not_mem_held_self (hi : t.index? p = some i) (hg : t.Grounded i) : p ∉ t.held p := by
  intro hp
  obtain ⟨-, i', j, hi', hj, hheld⟩ := mem_held_iff.1 hp
  obtain rfl := Option.some.inj (hi'.symm.trans hj)
  obtain rfl := Option.some.inj (hi.symm.trans hi')
  exact hg i .refl hheld

theorem card_held_lt (hp : p ∈ t.leaders) (hi : t.index? p = some i) (hg : t.Grounded i) :
    (t.held p).card < t.leaders.length := by
  have hsub : t.held p ⊆ t.leaders.toFinset := fun q hq =>
    List.mem_toFinset.2 (mem_held_iff.1 hq).1
  have hssub := (Finset.ssubset_iff_of_subset hsub).2
    ⟨p, List.mem_toFinset.2 hp, not_mem_held_self hi hg⟩
  exact Nat.lt_of_lt_of_le (Finset.card_lt_card hssub) (List.toFinset_card_le _)

theorem held_ssubset (hholds : t.Holds i j) (hp : p ∈ t.leaders) (hi : t.index? q = some i)
    (hj : t.index? p = some j) (hg : t.Grounded j) : t.held p ⊂ t.held q := by
  have hsub : t.held p ⊆ t.held q := by
    intro r hr
    obtain ⟨hr, j', k, hj', hk, hheld⟩ := mem_held_iff.1 hr
    obtain rfl := Option.some.inj (hj.symm.trans hj')
    exact mem_held_iff.2 ⟨hr, i, k, hi, hk, .head hholds hheld⟩
  -- `p` itself is held by `q`, but not by `p`
  exact (Finset.ssubset_iff_of_subset hsub).2
    ⟨p, mem_held_iff.2 ⟨hp, i, j, hi, hj, .single hholds⟩, not_mem_held_self hj hg⟩

/-- The primary tab stops of grounded indexes have ranks: the numbers of those that they hold. -/
theorem WellLinked.ranked_held (hl : t.WellLinked) :
    t.Ranked (fun q => ∀ i, t.index? q = some i → t.Grounded i) fun p => (t.held p).card := by
  intro q hq hgrounded p hp hf
  obtain ⟨i, hi, -⟩ := exists_index?_of_mem_leaders hq
  obtain ⟨j, hj, -⟩ := exists_index?_of_mem_leaders hp
  have hholds := hf.holds hl hq hp hi hj
  have hg : t.Grounded j := (hgrounded i hi).of_holds (.single hholds)
  refine ⟨fun j' hj' => ?_, Finset.card_lt_card (held_ssubset hholds hp hi hj hg)⟩
  rwa [← Option.some.inj (hj.symm.trans hj')]

/-! ## Pass after pass -/

namespace Repeatable

/-- A pass settles the primary tab stops of one rank more. -/
theorem settled_repeatPass (ht : t.Repeatable) (hrank : t.Ranked S rank)
    (hh : ∀ q ∈ t.leaders, t.Hollow q)
    (hs : ∀ q ∈ t.leaders, S q → rank q < k → t.Settled q)
    (hq : q ∈ t.repeatPass.2.leaders) (hS : S q) (hk : rank q < k + 1) :
    t.repeatPass.2.Settled q := by
  have hl := ht.wellLinked
  -- Those of the rank in question are settled one by one, when they have had their turn
  refine ((ht.pass_induction (P := fun done u => ∀ q ∈ u.leaders, u.Hollow q ∧
    (S q → rank q < k ∨ q ∈ done ∧ rank q = k → u.Settled q)) ?_ ?_ ?_).2 q hq).2 hS ?_
  · exact fun q hq => ⟨hh q hq, fun hS hlt => hs q hq hS (hlt.resolve_right (by simp))⟩
  · intro done u p _ hp hdone q hq
    refine ⟨(hdone q hq).1, fun hS hlt => (hdone q hq).2 hS (hlt.imp_right ?_)⟩
    rintro ⟨hqd, heq⟩
    rcases List.mem_cons.1 hqd with rfl | hqd
    · exact absurd hq hp
    · exact ⟨hqd, heq⟩
  · intro done u p hur hu hp hdone q hq
    have hqu := (hu.remains_turn hp).mem_leaders hu.wellLinked hq
    refine ⟨hu.hollow_turn hp hq (hdone q hqu).1, fun hS hlt => ?_⟩
    by_cases hqp : q = p
    · subst hqp
      exact hu.settled_turn_self hp (mem_leaders_iff.1 hq).1 (hdone q hp).1
    · have hqs : u.Settled q := (hdone q hqu).2 hS <| hlt.imp_right fun ⟨hqd, heq⟩ =>
        ⟨(List.mem_cons.1 hqd).resolve_left hqp, heq⟩
      by_cases hf : u.Feeds q p
      · -- Then `p` is of a lower rank, and nothing happens in its turn
        obtain ⟨hSp, hlower⟩ := hur.ranked hl hrank q hqu hS p hp hf
        rw [hu.turn_of_settled ((hdone p hp).2 hSp (Or.inl (by omega)))]
        exact hqs
      · exact hu.settled_turn hp hq hqp hf hqs
  · rcases Nat.lt_succ_iff_lt_or_eq.1 hk with hlt | heq
    · exact Or.inl hlt
    · exact Or.inr ⟨ht.mem_reverse_primaries hq, heq⟩

theorem repeatPasses_untold (hl : t.WellLinked) (hnone : t.repeatPass.1 = false) (n : Nat) :
    repeatPasses n t = t := by
  cases n with
  | zero => rfl
  | succ n => rw [repeatPasses_succ, hl.repeatPass_untold hnone, if_neg Bool.false_ne_true]

/-- It makes no difference that no more passes are made when nothing has changed. -/
theorem repeatPasses_eq (hl : t.WellLinked) (n : Nat) :
    repeatPasses (n + 1) t = repeatPasses n t.repeatPass.2 := by
  rw [repeatPasses_succ]
  split
  · rfl
  · next hnone =>
    have hnone := Bool.eq_false_iff.2 hnone
    rw [hl.repeatPass_untold hnone, repeatPasses_untold hl hnone]

theorem settled_repeatPasses (ht : t.Repeatable) (hrank : t.Ranked S rank)
    (hh : ∀ q ∈ t.leaders, t.Hollow q)
    (hs : ∀ q ∈ t.leaders, S q → rank q < k → t.Settled q)
    (hbound : ∀ q ∈ t.leaders, S q → rank q < k + n) :
    Remains t (repeatPasses n t) ∧
      ∀ q ∈ (repeatPasses n t).leaders, S q → (repeatPasses n t).Settled q := by
  have hl := ht.wellLinked
  induction n generalizing t k with
  | zero => exact ⟨.refl hl, fun q hq hS => hs q hq hS (hbound q hq hS)⟩
  | succ n ih =>
    have hpass := ht.remains_repeatPass
    rw [repeatPasses_eq hl]
    obtain ⟨hremains, hsettled⟩ := ih (hpass.repeatable ht) (hpass.ranked hl hrank)
      (fun _ hq => ht.hollow_repeatPass hq)
      (fun _ hq hS hk => ht.settled_repeatPass hrank hh hs hq hS hk)
      (fun q hq hS => by have := hbound q (hpass.mem_leaders hl hq) hS; omega) hpass.wellLinked
    exact ⟨hpass.trans hremains, hsettled⟩

/-- What each turn of a primary tab stop preserves is preserved by passes. -/
theorem repeatPasses_induction (ht : t.Repeatable) {P : Tree → Prop} (hstart : P t)
    (hturn : ∀ {u p}, Remains t u → u.Repeatable → p ∈ u.leaders → P u → P (u.turn p)) (n : Nat) :
    P (repeatPasses n t) := by
  have hpasses {u : Tree} (hr : Remains t u) (hu : u.Repeatable) (hP : P u) :
      P (repeatPasses n u) := by
    induction n generalizing u with
    | zero => exact hP
    | succ n ih =>
      obtain ⟨hremains, hpass⟩ := hu.pass_induction (P := fun _ v => P v) hP (fun _ _ hv => hv)
        fun huv hv hp hPv => hturn (hr.trans huv) hv hp hPv
      rw [repeatPasses_eq hu.wellLinked]
      exact ih (hr.trans hremains) (hremains.repeatable hu) hpass
  exact hpasses (.refl ht.wellLinked) ht hstart

/-- What each turn preserves is preserved when all have been repeated. -/
theorem repeatAll_induction (ht : t.Repeatable) {P : Tree → Prop} (hstart : P t)
    (hturn : ∀ {u p}, Remains t u → u.Repeatable → p ∈ u.leaders → P u → P (u.turn p)) :
    P t.repeatAll := ht.repeatPasses_induction hstart hturn _

/-- A node stays if no tab stop above it follows a primary one. -/
theorem kept_repeatPass (ht : t.Repeatable) (hx : t.InUse x)
    (hfree : ∀ m ∈ t.ancestors x, ∀ p ∈ t.leaders, ¬ t.Follows m p) :
    Kept t t.repeatPass.2 x := by
  refine (ht.pass_induction (P := fun _ u => Kept t u x) (.refl hx) (fun _ _ hk => hk)
    fun hur hu hp hk => hk.trans (hu.kept_turn hp hk.inUse fun m hm hf => ?_)).2
  rw [hk.ancestors_eq] at hm
  exact hfree m hm _ (hur.mem_leaders ht.wellLinked hp)
    (hur.follows ht.wellLinked (mem_leaders_iff.1 hp).1 hf)

theorem remains_repeatPasses (ht : t.Repeatable) (n : Nat) :
    Remains t (repeatPasses n t) ∧ ∀ x, t.InUse x →
      (∀ m ∈ t.ancestors x, ∀ p ∈ t.leaders, ¬ t.Follows m p) → Kept t (repeatPasses n t) x := by
  have hl := ht.wellLinked
  induction n generalizing t with
  | zero => exact ⟨.refl hl, fun x hx _ => .refl hx⟩
  | succ n ih =>
    have hpass := ht.remains_repeatPass
    obtain ⟨hremains, hkept⟩ := ih (hpass.repeatable ht) hpass.wellLinked
    rw [repeatPasses_eq hl]
    refine ⟨hpass.trans hremains, fun x hx hfree => ?_⟩
    have hk := ht.kept_repeatPass hx hfree
    refine hk.trans (hkept x hk.inUse fun m hm p hp hf => ?_)
    -- What follows a primary tab stop after the pass did so before
    rw [hk.ancestors_eq] at hm
    exact hfree m hm p (hpass.mem_leaders hl hp) (hpass.follows hl (mem_leaders_iff.1 hp).1 hf)

/-- When all tab stops are repeated, some may be lost, but only such as are inside of one that follows
a primary one. -/
theorem remains_repeatAll (ht : t.Repeatable) :
    Remains t t.repeatAll ∧ ∀ x, t.InUse x →
      (∀ m ∈ t.ancestors x, ∀ p ∈ t.leaders, ¬ t.Follows m p) → Kept t t.repeatAll x :=
  ht.remains_repeatPasses (t.placeholders.length + 1)

/-- When all tab stops have been repeated, the primary ones are settled whose indexes are grounded
after the first pass. -/
theorem settled_of_repeatPass (ht : t.Repeatable) :
    Remains t t.repeatAll ∧ ∀ q ∈ t.repeatAll.leaders,
      (∀ i, t.repeatPass.2.index? q = some i → t.repeatPass.2.Grounded i) →
        t.repeatAll.Settled q := by
  have hl := ht.wellLinked
  have hpass := ht.remains_repeatPass
  have hlength : t.repeatPass.2.leaders.length ≤ t.placeholders.length :=
    ((List.length_filter_le ..).trans (List.length_filter_le ..)).trans
      (hpass.wellLinked.nodup_placeholders.length_le_of_subset fun x hx =>
        hpass.mem_placeholders hl hx)
  -- The first pass empties what is to be empty, and each of the others settles one rank
  rw [repeatAll, repeatPasses_eq hl]
  obtain ⟨hremains, hsettled⟩ := (hpass.repeatable ht).settled_repeatPasses
    hpass.wellLinked.ranked_held (k := 0) (n := t.placeholders.length)
    (fun _ hq => ht.hollow_repeatPass hq) (fun _ _ _ hlt => absurd hlt (Nat.not_lt_zero _))
    (fun q hq hg => by
      obtain ⟨i, hi, -⟩ := exists_index?_of_mem_leaders hq
      have := card_held_lt hq hi (hg i hi)
      omega)
  exact ⟨hpass.trans hremains, hsettled⟩

/-- When all tab stops have been repeated, the primary ones are settled, unless their indexes held
each other in a circle before. -/
theorem settled_repeatAll (ht : t.Repeatable) (hacyclic : ∀ i, ¬ Relation.TransGen t.Holds i i) :
    Remains t t.repeatAll ∧ ∀ q ∈ t.repeatAll.leaders, t.repeatAll.Settled q := by
  have hpass := ht.remains_repeatPass
  obtain ⟨hremains, hsettled⟩ := ht.settled_of_repeatPass
  refine ⟨hremains, fun q hq => hsettled q hq fun i _ => ?_⟩
  have hg : t.Grounded i := fun j _ => hacyclic j
  exact hg.mono fun _ _ => hpass.holds ht.wellLinked

end Repeatable

end TabStop.Tree
